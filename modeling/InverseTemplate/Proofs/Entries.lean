/-
# Ordered maps

What is read from a map after one write, and after many of them.  A map is known by its keys in
their order and by what is found under each of them (`Entries.ext_of_keys`).  Of many writes, the
first one under a key gives it its place and the last one its value (`Entries.keys_ofWrites`,
`Entries.get?_ofWrites`).
-/
import InverseTemplate.Entries

namespace InverseTemplate

namespace Entries

variable {α β : Type}

/-! ## Keys and values -/

theorem mem_of_get? {m : Entries α} {key : Text} {v : α} (h : get? m key = some v) :
    (key, v) ∈ m := by
  induction m with
  | nil => simp at h
  | cons entry rest ih =>
      obtain ⟨k, w⟩ := entry
      rw [get?] at h
      split at h
      · next hk =>
          cases h
          rw [hk]
          exact List.mem_cons_self ..
      · exact List.mem_cons_of_mem _ (ih h)

theorem mem_keys_of_get? {m : Entries α} {key : Text} {v : α} (h : get? m key = some v) :
    key ∈ keys m := List.mem_map_of_mem (mem_of_get? h)

theorem nodupKeys_cons_iff {key : Text} {v : α} {rest : Entries α} :
    NodupKeys ((key, v) :: rest) ↔ key ∉ keys rest ∧ NodupKeys rest := List.nodup_cons

theorem get?_of_mem {m : Entries α} (hm : NodupKeys m) {key : Text} {v : α} (h : (key, v) ∈ m) :
    get? m key = some v := by
  induction m with
  | nil => simp at h
  | cons entry rest ih =>
      obtain ⟨k, w⟩ := entry
      have hnodup := nodupKeys_cons_iff.mp hm
      rw [get?]
      rcases List.mem_cons.mp h with heq | hmem
      · cases heq
        rw [if_pos rfl]
      · have hk : k ≠ key := by
          rintro rfl
          exact hnodup.1 (List.mem_map_of_mem (f := Prod.fst) hmem)
        rw [if_neg hk]
        exact ih hnodup.2 hmem

theorem get?_of_perm {a b : Entries α} (h : a.Perm b) (hb : NodupKeys b) (key : Text) :
    get? a key = get? b key := by
  cases hget : get? a key with
  | some v => exact (get?_of_mem hb (h.subset (mem_of_get? hget))).symm
  | none =>
      rw [get?_eq_none_iff] at hget
      exact ((get?_eq_none_iff b key).mpr fun hmem => hget ((h.map Prod.fst).mem_iff.mpr hmem)).symm

theorem contains_of_mem {m : Entries α} {entry : Text × α} (h : entry ∈ m) :
    contains m entry.1 = true := by
  rw [contains, Option.isSome_iff_ne_none]
  exact fun hnone => (get?_eq_none_iff m entry.1).mp hnone (List.mem_map_of_mem h)

theorem nodup_of_nodupKeys {m : Entries α} (h : NodupKeys m) : m.Nodup :=
  (List.pairwise_map.mp h).imp fun hne heq => hne (congrArg Prod.fst heq)

theorem get?_append (a b : Entries α) (key : Text) :
    get? (a ++ b) key = (get? a key).or (get? b key) := by
  induction a with
  | nil => rfl
  | cons entry rest ih =>
      obtain ⟨k, v⟩ := entry
      by_cases hk : k = key <;> simp [get?, hk, ih]

theorem get?_filterKeys (p : Text → Bool) (m : Entries α) (key : Text) :
    get? (filterKeys p m) key = if p key then get? m key else none := by
  induction m with
  | nil => simp [filterKeys]
  | cons entry rest ih =>
      obtain ⟨k, v⟩ := entry
      rw [filterKeys] at ih ⊢
      rw [List.filter_cons]
      by_cases hk : k = key
      · subst hk
        by_cases hp : p k = true
        · simp [hp, get?]
        · simp [hp, ih]
      · by_cases hp : p k = true
        · simp [hp, get?, hk, ih]
        · simp [hp, get?, hk, ih]

theorem NodupKeys.filterKeys {m : Entries α} (h : NodupKeys m) (p : Text → Bool) :
    NodupKeys (filterKeys p m) :=
  List.Nodup.sublist (List.Sublist.map _ List.filter_sublist) h

theorem ext_of_keys {a b : Entries α} (hkeys : keys a = keys b) (hnodup : NodupKeys a)
    (hget : ∀ key, get? a key = get? b key) : a = b := by
  induction a generalizing b with
  | nil =>
      cases b with
      | nil => rfl
      | cons entry rest => simp [keys] at hkeys
  | cons entry rest ih =>
      obtain ⟨k, v⟩ := entry
      cases b with
      | nil => simp [keys] at hkeys
      | cons entry' rest' =>
          obtain ⟨k', v'⟩ := entry'
          obtain ⟨hk, hrest⟩ := nodupKeys_cons_iff.mp hnodup
          obtain ⟨rfl, hkeys'⟩ : k = k' ∧ keys rest = keys rest' := by
            simpa [keys] using hkeys
          have hv := hget k
          rw [get?, if_pos rfl, get?, if_pos rfl, Option.some.injEq] at hv
          rw [hv, ih hkeys' hrest]
          intro key
          by_cases hne : k = key
          · subst hne
            rw [(get?_eq_none_iff rest k).mpr hk, (get?_eq_none_iff rest' k).mpr (hkeys' ▸ hk)]
          · have hsame := hget key
            rwa [get?, if_neg hne, get?, if_neg hne] at hsame

theorem get?_eq_none_of_append {m rest : Entries α} {key : Text} {v : α}
    (h : NodupKeys (m ++ (key, v) :: rest)) : get? m key = none := by
  rw [get?_eq_none_iff]
  have hkeys : (keys m ++ key :: keys rest).Nodup := by simpa [NodupKeys, keys] using h
  exact fun hmem => (List.nodup_append.mp hkeys).2.2 _ hmem _ (List.mem_cons_self ..) rfl

theorem NodupKeys.concat_append {m rest : Entries α} {key : Text} {v : α}
    (h : NodupKeys (m ++ (key, v) :: rest)) (w : α) : NodupKeys (m ++ [(key, w)] ++ rest) := by
  simpa [NodupKeys, keys] using h

/-! ## One write -/

theorem set_set (m : Entries α) (key : Text) (v w : α) : set (set m key v) key w = set m key w := by
  induction m with
  | nil => simp [set]
  | cons entry rest ih =>
      obtain ⟨k, x⟩ := entry
      by_cases h : k = key <;> simp [set, h, ih]

theorem set_comm {m : Entries α} {key other : Text} (hkey : key ∈ keys m) (hne : other ≠ key)
    (v w : α) : set (set m key v) other w = set (set m other w) key v := by
  induction m with
  | nil => simp [keys] at hkey
  | cons entry rest ih =>
      obtain ⟨k, x⟩ := entry
      by_cases hk : k = key
      · subst hk
        simp [set, hne.symm]
      · have hrest : key ∈ keys rest := by simpa [keys, Ne.symm hk] using hkey
        by_cases ho : k = other
        · subst ho
          simp [set, hk]
        · simp [set, hk, ho, ih hrest]

theorem mem_keys_set {m : Entries α} {key other : Text} (h : key ∈ keys m) (v : α) :
    key ∈ keys (set m other v) := by
  rw [keys_set]
  split
  · exact h
  · exact List.mem_append_left _ h

theorem set_ne_nil (m : Entries α) (key : Text) (v : α) : set m key v ≠ [] := by
  cases m with
  | nil => simp [set]
  | cons entry rest =>
      obtain ⟨k, w⟩ := entry
      rw [set]
      split <;> simp

theorem set_eq_self {m : Entries α} {key : Text} {v : α} (h : get? m key = some v) :
    set m key v = m := by
  induction m with
  | nil => simp at h
  | cons entry rest ih =>
      obtain ⟨k, w⟩ := entry
      rw [get?] at h
      rw [set]
      split at h
      · next hk =>
          cases h
          rw [if_pos hk]
      · next hk => rw [if_neg hk, ih h]

theorem set_of_get?_eq_none {m : Entries α} {key : Text} (h : get? m key = none) (v : α) :
    set m key v = m ++ [(key, v)] := by
  induction m with
  | nil => rfl
  | cons entry rest ih =>
      obtain ⟨k, w⟩ := entry
      by_cases hk : k = key
      · simp [get?, hk] at h
      · rw [get?, if_neg hk] at h
        rw [set, if_neg hk, ih h, List.cons_append]

theorem mem_of_mem_set {m : Entries α} {key : Text} {v : α} {entry : Text × α}
    (h : entry ∈ set m key v) : entry = (key, v) ∨ entry ∈ m := by
  induction m with
  | nil => exact .inl (List.mem_singleton.mp h)
  | cons first rest ih =>
      obtain ⟨k, w⟩ := first
      rw [set] at h
      split at h
      · next hk =>
          subst hk
          exact (List.mem_cons.mp h).imp_right (List.mem_cons_of_mem _)
      · rcases List.mem_cons.mp h with heq | hrest
        · exact .inr (heq ▸ List.mem_cons_self ..)
        · exact (ih hrest).imp_right (List.mem_cons_of_mem _)

/-! ## Many writes -/

theorem mem_foldl_set {writes : List (Text × α)} {m : Entries α} {entry : Text × α}
    (h : entry ∈ writes.foldl (fun m write => set m write.1 write.2) m) :
    entry ∈ writes ∨ entry ∈ m := by
  induction writes generalizing m with
  | nil => exact .inr h
  | cons write rest ih =>
      rcases ih h with hrest | hset
      · exact .inl (List.mem_cons_of_mem _ hrest)
      · rcases mem_of_mem_set hset with rfl | hm
        · exact .inl (List.mem_cons_self ..)
        · exact .inr hm

theorem nodupKeys_foldl_set {m : Entries α} (h : NodupKeys m) (writes : List (Text × α)) :
    NodupKeys (writes.foldl (fun m write => set m write.1 write.2) m) := by
  induction writes generalizing m with
  | nil => exact h
  | cons write rest ih => exact ih (h.set write.1 write.2)

theorem nodupKeys_ofWrites (writes : List (Text × α)) : NodupKeys (ofWrites writes) :=
  nodupKeys_foldl_set (show NodupKeys [] from List.nodup_nil) writes

theorem mem_keys_foldl_set {writes : List (Text × α)} {m : Entries α} {key : Text}
    (h : key ∈ keys m ∨ key ∈ writes.map Prod.fst) :
    key ∈ keys (writes.foldl (fun m write => set m write.1 write.2) m) := by
  induction writes generalizing m with
  | nil => exact h.elim id (by simp)
  | cons write rest ih =>
      refine ih ?_
      rcases h with hm | hwrites
      · exact .inl (mem_keys_set hm write.2)
      · rcases List.mem_cons.mp hwrites with rfl | hrest
        · exact .inl (mem_keys_of_get? (get?_set_self m _ write.2))
        · exact .inr hrest

theorem mem_keys_ofWrites {writes : List (Text × α)} {key : Text} :
    key ∈ keys (ofWrites writes) ↔ key ∈ writes.map Prod.fst := by
  constructor
  · intro h
    obtain ⟨entry, hentry, rfl⟩ := List.mem_map.mp h
    exact List.mem_map_of_mem ((mem_foldl_set hentry).resolve_right List.not_mem_nil)
  · exact fun h => mem_keys_foldl_set (.inr h)

theorem mem_ofWrites_iff {writes : List (Text × α)}
    (hone : ∀ a ∈ writes, ∀ b ∈ writes, a.1 = b.1 → a = b) {entry : Text × α} :
    entry ∈ ofWrites writes ↔ entry ∈ writes := by
  have hsub : ∀ {e}, e ∈ ofWrites writes → e ∈ writes := fun he =>
    (mem_foldl_set he).resolve_right List.not_mem_nil
  refine ⟨hsub, fun hmem => ?_⟩
  have hkey : entry.1 ∈ keys (ofWrites writes) :=
    mem_keys_foldl_set (.inr (List.mem_map_of_mem hmem))
  obtain ⟨left, hleft, hkeys⟩ := List.mem_map.mp hkey
  rw [← hone left (hsub hleft) entry hmem hkeys]
  exact hleft

theorem ofWrites_of_nodupKeys {writes : List (Text × α)} (h : NodupKeys writes) :
    ofWrites writes = writes := by
  have hfold : ∀ m : Entries α, NodupKeys (m ++ writes) →
      writes.foldl (fun m write => set m write.1 write.2) m = m ++ writes := by
    clear h
    induction writes with
    | nil => exact fun m _ => (List.append_nil m).symm
    | cons write rest ih =>
        intro m hm
        rw [List.foldl_cons, set_of_get?_eq_none (get?_eq_none_of_append hm),
          ih _ (hm.concat_append write.2), List.append_assoc]
        rfl
  exact hfold [] h

theorem get?_foldl_set {writes : Entries α} (h : NodupKeys writes) (m : Entries α) (key : Text) :
    get? (writes.foldl (fun m write => set m write.1 write.2) m) key =
      (get? writes key).or (get? m key) := by
  induction writes generalizing m with
  | nil => rfl
  | cons write rest ih =>
      obtain ⟨k, v⟩ := write
      obtain ⟨hk, hrest⟩ := nodupKeys_cons_iff.mp h
      rw [List.foldl_cons, ih hrest, get?]
      split
      · next heq =>
          subst heq
          rw [(get?_eq_none_iff rest k).mpr hk, get?_set_self]
          rfl
      · next hne => rw [get?_set_ne m v (Ne.symm hne)]

theorem keys_foldl_set (m : Entries α) (writes : List (Text × α)) :
    keys (writes.foldl (fun m write => set m write.1 write.2) m) =
      keys m ++ ((writes.map Prod.fst).removeAll (keys m)).eraseDups := by
  induction writes generalizing m with
  | nil => simp [List.removeAll]
  | cons write rest ih =>
      rw [List.foldl_cons, ih, keys_set, List.map_cons, List.removeAll, List.removeAll]
      by_cases hmem : write.1 ∈ keys m
      · rw [if_pos hmem, List.filter_cons_of_neg (by simpa using hmem)]
      · rw [if_neg hmem, List.filter_cons_of_pos (by simpa using hmem), List.eraseDups_cons,
          List.append_assoc, List.singleton_append, List.filter_filter]
        congr 4
        funext key
        by_cases hkey : key = write.1 <;> simp [hkey]

theorem keys_ofWrites (writes : List (Text × α)) :
    keys (ofWrites writes) = (writes.map Prod.fst).eraseDups := by
  have hall : (writes.map Prod.fst).removeAll (keys ([] : Entries α)) = writes.map Prod.fst :=
    List.filter_eq_self.mpr (by simp [keys])
  rw [ofWrites, keys_foldl_set, hall]
  rfl

/-- Under each key the last write counts. -/
theorem get?_ofWrites (writes : List (Text × α)) (key : Text) :
    get? (ofWrites writes) key = get? writes.reverse key := by
  have hfold : ∀ m : Entries α, get? (writes.foldl (fun m write => set m write.1 write.2) m) key =
      (get? writes.reverse key).or (get? m key) := by
    induction writes with
    | nil => exact fun m => rfl
    | cons write rest ih =>
        intro m
        rw [List.foldl_cons, ih, List.reverse_cons, get?_append, Option.or_assoc]
        congr 1
        by_cases hkey : write.1 = key
        · rw [get?, if_pos hkey, ← hkey, get?_set_self]
          rfl
        · rw [get?, if_neg hkey, get?_set_ne _ _ (Ne.symm hkey)]
          rfl
  rw [ofWrites, hfold, get?_nil, Option.or_none]

/-- A map is what a sequence of writes leaves if its keys stand in the order of their first writes
and hold what was written last. -/
theorem eq_ofWrites_iff {writes : List (Text × α)} {m : Entries α} :
    m = ofWrites writes ↔
      keys m = (writes.map Prod.fst).eraseDups ∧ ∀ key, get? m key = get? writes.reverse key := by
  constructor
  · rintro rfl
    exact ⟨keys_ofWrites writes, get?_ofWrites writes⟩
  · rintro ⟨hkeys, hget⟩
    refine (ext_of_keys ?_ (nodupKeys_ofWrites writes) ?_).symm
    · rw [keys_ofWrites, hkeys]
    · intro key
      rw [get?_ofWrites, hget]

/-! ## Entries put together key by key -/

theorem nodupKeys_flatMap {m : Entries α} (hm : NodupKeys m) {f : Text × α → Entries β}
    (hf : ∀ entry, (keys (f entry)).Sublist [entry.1]) : NodupKeys (m.flatMap f) := by
  have hsub : (keys (m.flatMap f)).Sublist (keys m) := by
    clear hm
    induction m with
    | nil => exact List.Sublist.refl _
    | cons entry rest ih =>
        rw [List.flatMap_cons, keys, List.map_append]
        exact (hf entry).append ih
  exact hm.sublist hsub

theorem get?_flatMap {m : Entries α} (hm : NodupKeys m) {f : Text × α → Entries β}
    (hf : ∀ entry, (keys (f entry)).Sublist [entry.1]) (key : Text) :
    get? (m.flatMap f) key = (get? m key).bind fun v => get? (f (key, v)) key := by
  have hother : ∀ entry, entry.1 ≠ key → get? (f entry) key = none := by
    intro entry hne
    rw [get?_eq_none_iff]
    exact fun hmem => hne (List.mem_singleton.mp ((hf entry).subset hmem)).symm
  induction m with
  | nil => rfl
  | cons entry rest ih =>
      obtain ⟨k, v⟩ := entry
      obtain ⟨hfirst, hrest⟩ := nodupKeys_cons_iff.mp hm
      rw [List.flatMap_cons, get?_append, ih hrest, get?]
      by_cases hk : k = key
      · subst hk
        rw [if_pos rfl, (get?_eq_none_iff rest k).mpr hfirst, Option.bind_none, Option.or_none,
          Option.bind_some]
      · rw [if_neg hk, hother (k, v) hk, Option.none_or]

end Entries

end InverseTemplate
