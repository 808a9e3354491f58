/-
# Data written path by path

Extraction builds its data by one write after another.  When no path of them leads to another one or
below it, the writes do not meet: each value is found where it was written, and the leaves of the
data are exactly what was written.

A write may put an empty map, or a map in the place of something else, on its way.  `Open` says that
it does not: the way leads through maps with entries until it leaves the data.  It is what carries
the leaves from one write to the next.

Writes of any values are read at their first key: below it they are writes of the value there
(`put`), so what a row of writes makes of a map is known key by key (`get?_writeAll_flatMap`).
-/
import InverseTemplate.Proofs.Entries
import InverseTemplate.Value.Path

namespace InverseTemplate

/-- Of two ways neither begins with the other. -/
def Path.Apart (ks qs : List Text) : Prop := ¬ ks <+: qs ∧ ¬ qs <+: ks

instance : DecidableRel Path.Apart := fun ks qs =>
  inferInstanceAs (Decidable (¬ ks <+: qs ∧ ¬ qs <+: ks))

theorem Path.Apart.symm {ks qs : List Text} (h : Apart ks qs) : Apart qs ks := ⟨h.2, h.1⟩

theorem Path.Apart.of_cons {key : Text} {ks qs : List Text} (h : Apart (key :: ks) (key :: qs)) :
    Apart ks qs :=
  ⟨fun hp => h.1 (List.cons_prefix_cons.mpr ⟨rfl, hp⟩),
    fun hp => h.2 (List.cons_prefix_cons.mpr ⟨rfl, hp⟩)⟩

namespace Entries

/-! ## Reading what was written -/

/-- The map below a key, or an empty one. -/
def below (m : Entries Value) (key : Text) : Entries Value :=
  match get? m key with
  | some (.map entries) => entries
  | _ => []

theorem setPath_cons_cons (m : Entries Value) (key next : Text) (more : List Text) (v : Value) :
    setPath m (key :: next :: more) v =
      set m key (.map (setPath (below m key) (next :: more) v)) := rfl

theorem getPath?_setPath_self (m : Entries Value) {ks : List Text} (hne : ks ≠ []) (v : Value) :
    Value.getPath? (.map (setPath m ks v)) ks = some v := by
  induction ks generalizing m with
  | nil => exact absurd rfl hne
  | cons key rest ih =>
      cases rest with
      | nil => simp only [setPath, Value.getPath?, get?_set_self]
      | cons next more =>
          rw [setPath_cons_cons]
          simp only [Value.getPath?, get?_set_self]
          exact ih (below m key) (by simp)

theorem getPath?_below (m : Entries Value) (key next : Text) (more : List Text) :
    Value.getPath? (.map m) (key :: next :: more) =
      Value.getPath? (.map (below m key)) (next :: more) := by
  unfold below
  simp only [Value.getPath?]
  cases h : get? m key with
  | none => rfl
  | some v => cases v <;> rfl

theorem getPath?_setPath_of_apart (m : Entries Value) {ks qs : List Text} (h : Path.Apart ks qs)
    (v : Value) : Value.getPath? (.map (setPath m ks v)) qs = Value.getPath? (.map m) qs := by
  induction ks generalizing m qs with
  | nil => exact absurd List.nil_prefix h.1
  | cons key rest ih =>
      cases qs with
      | nil => exact absurd List.nil_prefix h.2
      | cons q qs =>
          by_cases hq : q = key
          · subst hq
            have hrest := h.of_cons
            cases rest with
            | nil => exact absurd List.nil_prefix hrest.1
            | cons next more =>
                cases qs with
                | nil => exact absurd List.nil_prefix hrest.2
                | cons q' qs =>
                    rw [setPath_cons_cons, getPath?_below m, ← ih (below m q) hrest]
                    simp only [Value.getPath?, get?_set_self]
          · have hget : ∀ w, Value.getPath? (.map (set m key w)) (q :: qs) =
                Value.getPath? (.map m) (q :: qs) := by
              intro w
              simp only [Value.getPath?, get?_set_ne m w hq]
            cases rest with
            | nil => exact hget v
            | cons next more => rw [setPath_cons_cons, hget]

/-! ## Leaves -/

/-- The way leads through maps with entries and out of the data. -/
def Open : Entries Value → List Text → Prop
  | _, [] => False
  | m, [key] => get? m key = none
  | m, key :: next :: more =>
      match get? m key with
      | none => True
      | some (.map (entry :: entries)) => Open (entry :: entries) (next :: more)
      | some _ => False

theorem open_nil {ks : List Text} (hne : ks ≠ []) : Open [] ks := by
  cases ks with
  | nil => exact absurd rfl hne
  | cons key rest =>
      cases rest with
      | nil => rfl
      | cons next more => trivial

theorem open_below {m : Entries Value} {key next : Text} {more : List Text}
    (h : Open m (key :: next :: more)) : Open (below m key) (next :: more) := by
  unfold below
  rw [Open] at h
  cases hget : get? m key with
  | none => exact open_nil (by simp)
  | some v =>
      rw [hget] at h
      cases v with
      | map entries =>
          cases entries with
          | nil => exact h.elim
          | cons entry entries => exact h
      | _ => exact h.elim

theorem exists_setPath_eq_cons (m : Entries Value) {ks : List Text} (hne : ks ≠ []) (v : Value) :
    ∃ entry entries, setPath m ks v = entry :: entries := by
  refine List.exists_cons_of_ne_nil ?_
  cases ks with
  | nil => exact absurd rfl hne
  | cons key rest =>
      cases rest with
      | nil => exact set_ne_nil m key v
      | cons next more => exact set_ne_nil m key _

theorem Open.setPath {m : Entries Value} {ks qs : List Text} (h : Open m qs)
    (hapart : Path.Apart ks qs) (v : Value) : Open (setPath m ks v) qs := by
  induction ks generalizing m qs with
  | nil => exact absurd List.nil_prefix hapart.1
  | cons key rest ih =>
      cases qs with
      | nil => exact absurd List.nil_prefix hapart.2
      | cons q qs =>
          by_cases hq : q = key
          · subst hq
            have hrest := hapart.of_cons
            cases rest with
            | nil => exact absurd List.nil_prefix hrest.1
            | cons next more =>
                cases qs with
                | nil => exact absurd List.nil_prefix hrest.2
                | cons q' qs =>
                    have hmore := ih (open_below h) hrest
                    obtain ⟨entry, entries, heq⟩ :=
                      exists_setPath_eq_cons (below m q) (List.cons_ne_nil next more) v
                    rw [setPath_cons_cons, Open, get?_set_self]
                    rw [heq] at hmore ⊢
                    exact hmore
          · have hset : ∀ w, Open (set m key w) (q :: qs) := by
              intro w
              cases qs with
              | nil =>
                  rw [Open, get?_set_ne m w hq]
                  exact h
              | cons q' qs =>
                  rw [Open, get?_set_ne m w hq]
                  exact h
            cases rest with
            | nil => exact hset v
            | cons next more =>
                rw [setPath_cons_cons]
                exact hset _

theorem leavesBelow_set_new {m : Entries Value} {key : Text} (h : get? m key = none)
    (above : Text) (v : Value) :
    Value.leavesBelow above (set m key v) =
      Value.leavesBelow above m ++ Value.leavesAt (Path.join above key) v := by
  induction m with
  | nil => simp [set, Value.leavesBelow]
  | cons entry rest ih =>
      obtain ⟨k, w⟩ := entry
      by_cases hk : k = key
      · simp [get?, hk] at h
      · rw [get?, if_neg hk] at h
        rw [set, if_neg hk, Value.leavesBelow, Value.leavesBelow, ih h, List.append_assoc]

theorem exists_leavesBelow_set {m : Entries Value} {key : Text} {old : Value}
    (h : get? m key = some old) (above : Text) :
    ∃ a b, Value.leavesBelow above m = a ++ (Value.leavesAt (Path.join above key) old ++ b) ∧
      ∀ v, Value.leavesBelow above (set m key v) =
        a ++ (Value.leavesAt (Path.join above key) v ++ b) := by
  induction m with
  | nil => simp at h
  | cons entry rest ih =>
      obtain ⟨k, w⟩ := entry
      by_cases hk : k = key
      · subst hk
        obtain rfl : w = old := by simpa [get?] using h
        refine ⟨[], Value.leavesBelow above rest, rfl, fun v => ?_⟩
        rw [set, if_pos rfl]
        rfl
      · rw [get?, if_neg hk] at h
        obtain ⟨a, b, hm, hset⟩ := ih h
        refine ⟨Value.leavesAt (Path.join above k) w ++ a, b, ?_, fun v => ?_⟩
        · rw [Value.leavesBelow, hm, List.append_assoc]
        · rw [set, if_neg hk, Value.leavesBelow, hset v, List.append_assoc]

theorem leavesBelow_setPath {m : Entries Value} {ks : List Text} (h : Open m ks) (above t : Text) :
    (Value.leavesBelow above (Entries.setPath m ks (.text t))).Perm
      (Value.leavesBelow above m ++ [(ks.foldl Path.join above, .text t)]) := by
  induction ks generalizing m above with
  | nil => exact h.elim
  | cons key rest ih =>
      cases rest with
      | nil =>
          rw [Entries.setPath, leavesBelow_set_new h]
          exact List.Perm.refl _
      | cons next more =>
          have hmore := ih (open_below h) (Path.join above key)
          rw [setPath_cons_cons, List.foldl_cons]
          obtain ⟨entry, entries, heq⟩ :=
            exists_setPath_eq_cons (below m key) (List.cons_ne_nil next more) (.text t)
          have hleaves : Value.leavesAt (Path.join above key)
              (.map (Entries.setPath (below m key) (next :: more) (.text t))) =
              Value.leavesBelow (Path.join above key)
                (Entries.setPath (below m key) (next :: more) (.text t)) := by
            rw [heq, Value.leavesAt]
          rw [Open] at h
          cases hget : get? m key with
          | none =>
              rw [leavesBelow_set_new hget, hleaves]
              have hbelow : below m key = [] := by rw [below, hget]
              rw [hbelow] at hmore ⊢
              exact List.Perm.append_left _ hmore
          | some old =>
              obtain ⟨a, b, hm, hset⟩ := exists_leavesBelow_set hget above
              rw [hset, hm, hleaves]
              have hold : Value.leavesAt (Path.join above key) old =
                  Value.leavesBelow (Path.join above key) (below m key) := by
                rw [hget] at h
                unfold below
                rw [hget]
                cases old with
                | map es =>
                    cases es with
                    | nil => exact h.elim
                    | cons e es => rw [Value.leavesAt]
                | _ => exact h.elim
              rw [hold, List.append_assoc, List.append_assoc]
              refine List.Perm.append_left a ?_
              refine (List.Perm.append_right b hmore).trans ?_
              rw [List.append_assoc]
              exact List.Perm.append_left _ List.perm_append_comm

/-! ## Many writes -/

/-- Writes texts one after another. -/
def writeTexts (m : Entries Value) (writes : List (List Text × Text)) : Entries Value :=
  writes.foldl (fun m write => Entries.setPath m write.1 (.text write.2)) m

theorem getPath?_writeTexts_of_apart (m : Entries Value) {writes : List (List Text × Text)}
    {qs : List Text} (h : ∀ write ∈ writes, Path.Apart write.1 qs) :
    Value.getPath? (.map (writeTexts m writes)) qs = Value.getPath? (.map m) qs := by
  induction writes generalizing m with
  | nil => rfl
  | cons write rest ih =>
      obtain ⟨hfirst, hrest⟩ := List.forall_mem_cons.mp h
      rw [writeTexts, List.foldl_cons, ← writeTexts, ih _ hrest,
        getPath?_setPath_of_apart m hfirst]

/-- Every text is found where it was written. -/
theorem getPath?_writeTexts (m : Entries Value) {writes : List (List Text × Text)}
    (h : writes.Pairwise fun a b => Path.Apart a.1 b.1) {write : List Text × Text}
    (hmem : write ∈ writes) (hne : write.1 ≠ []) :
    Value.getPath? (.map (writeTexts m writes)) write.1 = some (.text write.2) := by
  induction writes generalizing m with
  | nil => simp at hmem
  | cons first rest ih =>
      obtain ⟨hfirst, hrest⟩ := List.pairwise_cons.mp h
      rw [writeTexts, List.foldl_cons, ← writeTexts]
      rcases List.mem_cons.mp hmem with rfl | hmem
      · rw [getPath?_writeTexts_of_apart _ fun w hw => (hfirst w hw).symm,
          getPath?_setPath_self m hne]
      · exact ih _ hrest hmem

/-- The leaves after writes apart from each other are the ones before and the texts. -/
theorem leavesBelow_writeTexts {m : Entries Value} {writes : List (List Text × Text)}
    (hopen : ∀ write ∈ writes, Open m write.1)
    (h : writes.Pairwise fun a b => Path.Apart a.1 b.1) (above : Text) :
    (Value.leavesBelow above (writeTexts m writes)).Perm
      (Value.leavesBelow above m ++
        writes.map fun write => (write.1.foldl Path.join above, .text write.2)) := by
  induction writes generalizing m with
  | nil =>
      rw [List.map_nil, List.append_nil]
      exact List.Perm.refl _
  | cons first rest ih =>
      obtain ⟨hfirst, hrest⟩ := List.pairwise_cons.mp h
      obtain ⟨hopen₁, hopen₂⟩ := List.forall_mem_cons.mp hopen
      rw [writeTexts, List.foldl_cons, ← writeTexts]
      have hopen' : ∀ write ∈ rest,
          Open (Entries.setPath m first.1 (.text first.2)) write.1 :=
        fun write hw => (hopen₂ write hw).setPath (hfirst write hw) _
      refine (ih hopen' hrest).trans ?_
      refine (List.Perm.append_right _ (leavesBelow_setPath hopen₁ above first.2)).trans ?_
      rw [List.append_assoc]
      exact List.Perm.refl _

end Entries

namespace Value

/-! ## Writing below a key -/

/-- A value with another one written at the end of a way. -/
def put (current : Option Value) : List Text → Value → Value
  | [], v => v
  | key :: more, v =>
      .map (Entries.setPath (match current with
        | some (.map entries) => entries
        | _ => []) (key :: more) v)

/-- A value after a sequence of writes. -/
def putAll (current : Option Value) (writes : List (List Text × Value)) : Option Value :=
  writes.foldl (fun current write => some (put current write.1 write.2)) current

theorem setPath_cons (m : Entries Value) (key : Text) (more : List Text) (v : Value) :
    Entries.setPath m (key :: more) v =
      Entries.set m key (put (Entries.get? m key) more v) := by
  cases more <;> rfl

/-- A map after a sequence of writes. -/
def writeAll (m : Entries Value) (writes : List (List Text × Value)) : Entries Value :=
  writes.foldl (fun m write => Entries.setPath m write.1 write.2) m

theorem putAll_map {writes : List (List Text × Value)} (h : ∀ write ∈ writes, write.1 ≠ [])
    (m : Entries Value) : putAll (some (.map m)) writes = some (.map (writeAll m writes)) := by
  induction writes generalizing m with
  | nil => rfl
  | cons write rest ih =>
      obtain ⟨hfirst, hrest⟩ := List.forall_mem_cons.mp h
      obtain ⟨key, more, hway⟩ := List.exists_cons_of_ne_nil hfirst
      have hput : put (some (.map m)) write.1 write.2 =
          .map (Entries.setPath m write.1 write.2) := by
        rw [hway]
        rfl
      rw [putAll, List.foldl_cons, ← putAll, hput, ih hrest]
      rfl

theorem get?_writeAll_under (m : Entries Value) (key other : Text)
    (writes : List (List Text × Value)) :
    Entries.get? (writeAll m (writes.map fun write => (key :: write.1, write.2))) other =
      if other = key then putAll (Entries.get? m key) writes else Entries.get? m other := by
  induction writes generalizing m with
  | nil =>
      split
      · next h => rw [h]; rfl
      · rfl
  | cons write rest ih =>
      rw [List.map_cons, writeAll, List.foldl_cons, ← writeAll, ih]
      dsimp only
      rw [setPath_cons, Entries.get?_set_self]
      split
      · rfl
      · next hne => rw [Entries.get?_set_ne _ _ hne]

theorem get?_writeAll_flatMap {α : Type} {entries : Entries α}
    (hentries : Entries.NodupKeys entries) (writes : Text × α → List (List Text × Value))
    (m : Entries Value) (key : Text) :
    Entries.get? (writeAll m (entries.flatMap fun entry =>
        (writes entry).map fun write => (entry.1 :: write.1, write.2))) key =
      match Entries.get? entries key with
      | some v => putAll (Entries.get? m key) (writes (key, v))
      | none => Entries.get? m key := by
  induction entries generalizing m with
  | nil => rfl
  | cons entry rest ih =>
      obtain ⟨k, v⟩ := entry
      obtain ⟨hfirst, hrest⟩ := Entries.nodupKeys_cons_iff.mp hentries
      rw [List.flatMap_cons, writeAll, List.foldl_append, ← writeAll, ← writeAll, ih hrest,
        get?_writeAll_under, Entries.get?]
      by_cases hk : k = key
      · subst hk
        rw [(Entries.get?_eq_none_iff rest k).mpr hfirst, if_pos rfl, if_pos rfl]
      · rw [if_neg (Ne.symm hk), if_neg hk]

theorem nodupKeys_setPath {m : Entries Value} (h : Entries.NodupKeys m) (way : List Text)
    (v : Value) : Entries.NodupKeys (Entries.setPath m way v) := by
  cases way with
  | nil => exact h
  | cons key more =>
      rw [setPath_cons]
      exact h.set key _

theorem nodupKeys_writeAll {m : Entries Value} (h : Entries.NodupKeys m)
    (writes : List (List Text × Value)) : Entries.NodupKeys (writeAll m writes) := by
  induction writes generalizing m with
  | nil => exact h
  | cons write rest ih => exact ih (nodupKeys_setPath h write.1 write.2)

end Value

end InverseTemplate
