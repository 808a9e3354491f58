/-
# Changes that are carried out

The entities of a list are a map from ids to fields: of several entities with one id the last one
counts (`latest?`).  What becomes of an id is read off the two maps (`changeAt`), and the changes
between two lists are exactly what becomes of the ids, each id once (`mem_changesBetween_iff`).

Everything else follows from that: the changes, carried out in whatever order, lead from the one
map to the other, there are none exactly if the maps agree, and the changes back are the changes
reversed (`changes_replay`).  Entities agree if they differ in nothing but their id and type.
-/
import InverseTemplate.Entity.Change
import InverseTemplate.Proofs.Entity.Item
import InverseTemplate.Proofs.Value.Equivalence

namespace InverseTemplate

namespace Entity

/-! ## Lists of entities as maps -/

/-- The fields of an entity under its id, if that is a text. -/
def keyed? : Value → Option (Text × Entries Value)
  | .map fields =>
      match Entries.get? fields idKey with
      | some (.text id) => some (id, fields)
      | _ => none
  | _ => none

/-- An entity with a text for its id. -/
structure Identified (v : Value) : Prop where
  wellFormed : v.WellFormed
  keyed : (keyed? v).isSome

/-- The entity of a list that counts under an id: the last one. -/
def latest? (values : List Value) (id : Text) : Option (Entries Value) :=
  Entries.get? (values.filterMap keyed?).reverse id

theorem eq_map_of_keyed? {v : Value} {entry : Text × Entries Value} (h : keyed? v = some entry) :
    v = .map entry.2 ∧ Entries.get? entry.2 idKey = some (.text entry.1) := by
  rw [keyed?.eq_def] at h
  split at h
  · next fields =>
      split at h
      · next id hid =>
          cases h
          exact ⟨rfl, hid⟩
      · cases h
  · cases h

theorem mem_of_latest? {values : List Value} {id : Text} {fields : Entries Value}
    (h : latest? values id = some fields) : .map fields ∈ values := by
  have hmem := List.mem_reverse.mp (Entries.mem_of_get? h)
  obtain ⟨v, hv, hkeyed⟩ := List.mem_filterMap.mp hmem
  exact (eq_map_of_keyed? hkeyed).1 ▸ hv

/-- Two entities, either of which may be missing, agree in everything but their id and type: under
every other key both have equal values, or none. -/
def SameContent : Option (Entries Value) → Option (Entries Value) → Prop
  | none, none => True
  | some x, some y => ∀ key, key ≠ idKey → key ≠ typeKey →
      Value.Agree (Entries.get? x key) (Entries.get? y key)
  | _, _ => False

theorem wellFormed_payload {fields : Entries Value} (h : (Value.map fields).WellFormed) :
    (Keyed.payload fields).WellFormed := by
  refine ⟨h.1.filterKeys _, Value.wellFormedEntries_iff.mpr fun entry hentry => ?_⟩
  exact Value.wellFormedEntries_iff.mp h.2 entry (List.mem_filter.mp hentry).1

/-- What two entities are compared by is the same exactly if their fields apart from id and type
are. -/
theorem equal_payload_iff {x y : Entries Value} (hx : Entries.NodupKeys x) :
    (Keyed.payload x).equal (Keyed.payload y) = true ↔ SameContent (some x) (some y) := by
  rw [Keyed.payload, Keyed.payload, Value.equal_map_iff (hx.filterKeys _)]
  simp only [Entries.get?_filterKeys, SameContent]
  refine forall_congr' fun key => ?_
  by_cases hid : key = idKey
  · simp [hid, Value.Agree]
  by_cases htype : key = typeKey
  · simp [htype, Value.Agree]
  · simp [hid, htype]

theorem sameContent_refl {a : Option (Entries Value)}
    (h : ∀ fields ∈ a, (Value.map fields).WellFormed) :
    SameContent a a := by
  cases a with
  | none => trivial
  | some fields =>
      exact fun key _ _ => Value.agree_refl fun v hv => Value.wellFormed_of_get? (h fields rfl).2 hv

/-! ## The map of a list -/

namespace Keyed

/-- An entity under an id that is a text. -/
def ofEntry (entry : Text × Entries Value) : Keyed := ⟨.text entry.1, entry.2⟩

theorem ofEntry_injective : Function.Injective ofEntry := fun a b h => by
  obtain ⟨hid, hfields⟩ := Keyed.mk.inj h
  exact Prod.ext (Value.text.inj hid) hfields

theorem sameKey_text (s t : Text) : (Value.text s).sameKey (.text t) = decide (s = t) := rfl

theorem ofValue_eq {v : Value} {entry : Text × Entries Value} (h : keyed? v = some entry) :
    ofValue v = .ok (ofEntry entry) := by
  obtain ⟨rfl, hid⟩ := eq_map_of_keyed? h
  rw [ofValue, hid]
  rfl

theorem find?_ofEntry (m : Entries (Entries Value)) (id : Text) :
    find? (.text id) (m.map ofEntry) =
      (Entries.get? m id).map fun fields => ofEntry (id, fields) := by
  induction m with
  | nil => rfl
  | cons entry rest ih =>
      obtain ⟨key, fields⟩ := entry
      rw [find?] at ih ⊢
      rw [List.map_cons, List.find?_cons, ih, Entries.get?, ofEntry, sameKey_text]
      by_cases hkey : key = id
      · simp [hkey, ofEntry]
      · simp [hkey]

theorem insert_ofEntry (m : Entries (Entries Value)) (entry : Text × Entries Value) :
    insert (m.map ofEntry) (ofEntry entry) = (Entries.set m entry.1 entry.2).map ofEntry := by
  induction m with
  | nil => rfl
  | cons first rest ih =>
      obtain ⟨key, fields⟩ := first
      rw [List.map_cons, insert, ih, Entries.set, ofEntry, ofEntry, sameKey_text]
      by_cases hkey : key = entry.1 <;> simp [hkey, ofEntry]

theorem mapM_ofValue {values : List Value} (h : ∀ v ∈ values, Identified v) :
    values.mapM ofValue = .ok ((values.filterMap keyed?).map ofEntry) := by
  induction values with
  | nil => rfl
  | cons v rest ih =>
      obtain ⟨hv, hrest⟩ := List.forall_mem_cons.mp h
      obtain ⟨entry, hentry⟩ := Option.isSome_iff_exists.mp hv.keyed
      rw [List.mapM_cons, ofValue_eq hentry, ih hrest, List.filterMap_cons_some hentry]
      rfl

/-- A list of entities is taken in as the map that its entities write one after another. -/
theorem ofValues_eq {values : List Value} (h : ∀ v ∈ values, Identified v) :
    ofValues values = .ok ((Entries.ofWrites (values.filterMap keyed?)).map ofEntry) := by
  have hinsert : ∀ (writes m : Entries (Entries Value)),
      (writes.map ofEntry).foldl insert (m.map ofEntry) =
      (writes.foldl (fun m write => Entries.set m write.1 write.2) m).map ofEntry := by
    intro writes
    induction writes with
    | nil => exact fun _ => rfl
    | cons write rest ih =>
        intro m
        rw [List.map_cons, List.foldl_cons, insert_ofEntry, ih, List.foldl_cons]
  rw [ofValues, mapM_ofValue h]
  exact congrArg Except.ok (hinsert _ [])

end Keyed

/-! ## What becomes of an id -/

/-- The change of an id under which there was one entity and is another, or none. -/
def changeAt (id : Text) : Option (Entries Value) → Option (Entries Value) → Option Change
  | none, none => none
  | none, some new => some (.added (Keyed.ofEntry (id, new)))
  | some old, none => some (.removed (Keyed.ofEntry (id, old)))
  | some old, some new =>
      if (Keyed.payload old).equal (Keyed.payload new) then none
      else some (.updated old (Keyed.ofEntry (id, new)))

namespace Change

/-- The id of the entity that has changed. -/
def id : Change → Value
  | .added entity => entity.id
  | .removed entity => entity.id
  | .updated _ after => after.id

/-- What there is of the entity after the change. -/
def kept? : Change → Option (Entries Value)
  | .added entity => some entity.fields
  | .removed _ => none
  | .updated _ after => some after.fields

/-- The change back. -/
def reversed : Change → Change
  | .added entity => .removed entity
  | .removed entity => .added entity
  | .updated before after => .updated after.fields ⟨after.id, before⟩

theorem reversed_reversed (c : Change) : c.reversed.reversed = c := by
  cases c <;> rfl

/-- Carries out the change: the entity under its id is stored, or deleted. -/
def onto (m : Text → Option (Entries Value)) (c : Change) (id : Text) : Option (Entries Value) :=
  if c.id.sameKey (.text id) then c.kept? else m id

end Change

/-- Carries out changes one after another. -/
def replay (changes : List Change) (m : Text → Option (Entries Value)) :
    Text → Option (Entries Value) :=
  changes.foldl Change.onto m

section ChangeAt

variable {id : Text} {old new : Option (Entries Value)}

theorem changeAt_eq_none_iff (hold : ∀ fields ∈ old, (Value.map fields).WellFormed) :
    changeAt id old new = none ↔ SameContent old new := by
  cases old with
  | none => cases new <;> simp [changeAt, SameContent]
  | some o =>
      cases new with
      | none => simp [changeAt, SameContent]
      | some n => simp [changeAt, ← equal_payload_iff (hold o rfl).1]

theorem changeAt_eq_some_iff {c : Change} :
    changeAt id old new = some c ↔
      (∃ n, new = some n ∧ old = none ∧ .added (Keyed.ofEntry (id, n)) = c) ∨
        (∃ o, old = some o ∧ new = none ∧ .removed (Keyed.ofEntry (id, o)) = c) ∨
        ∃ o n, old = some o ∧ new = some n ∧ (Keyed.payload o).equal (Keyed.payload n) = false ∧
          .updated o (Keyed.ofEntry (id, n)) = c := by
  cases old <;> cases new <;> simp [changeAt]

theorem id_of_changeAt {c : Change} (h : changeAt id old new = some c) : c.id = .text id := by
  obtain ⟨n, -, -, rfl⟩ | ⟨o, -, -, rfl⟩ | ⟨o, n, -, -, -, rfl⟩ := changeAt_eq_some_iff.mp h <;> rfl

theorem kept?_of_changeAt {c : Change} (h : changeAt id old new = some c) : c.kept? = new := by
  obtain ⟨n, rfl, -, rfl⟩ | ⟨o, -, rfl, rfl⟩ | ⟨o, n, -, rfl, -, rfl⟩ :=
    changeAt_eq_some_iff.mp h <;>
    rfl

theorem changeAt_swap (hold : ∀ fields ∈ old, (Value.map fields).WellFormed)
    (hnew : ∀ fields ∈ new, (Value.map fields).WellFormed) :
    changeAt id new old = (changeAt id old new).map Change.reversed := by
  cases old with
  | none => cases new <;> rfl
  | some o =>
      cases new with
      | none => rfl
      | some n =>
          have hpo := wellFormed_payload (hold o rfl)
          have hpn := wellFormed_payload (hnew n rfl)
          have hsymm : (Keyed.payload n).equal (Keyed.payload o) =
              (Keyed.payload o).equal (Keyed.payload n) :=
            Bool.eq_iff_iff.mpr ⟨Value.equal_symm hpn hpo, Value.equal_symm hpo hpn⟩
          simp only [changeAt, hsymm]
          split <;> rfl

end ChangeAt

/-! ## The changes between two maps -/

section Between

variable {old new : Entries (Entries Value)}

theorem mem_map_unmatched_iff (change : Keyed → Change) (hold : Entries.NodupKeys old)
    {c : Change} :
    c ∈ ((old.map Keyed.ofEntry).filter
        fun entity => (Keyed.find? entity.id (new.map Keyed.ofEntry)).isNone).map change ↔
      ∃ id fields, Entries.get? old id = some fields ∧ Entries.get? new id = none ∧
        change (Keyed.ofEntry (id, fields)) = c := by
  rw [List.mem_map]
  constructor
  · rintro ⟨entity, hentity, rfl⟩
    obtain ⟨hmem, hnone⟩ := List.mem_filter.mp hentity
    obtain ⟨⟨id, fields⟩, hentry, rfl⟩ := List.mem_map.mp hmem
    rw [Keyed.ofEntry, Keyed.find?_ofEntry, Option.isNone_map, Option.isNone_iff_eq_none] at hnone
    exact ⟨id, fields, Entries.get?_of_mem hold hentry, hnone, rfl⟩
  · rintro ⟨id, fields, hfields, hnone, rfl⟩
    refine ⟨_, List.mem_filter.mpr ⟨List.mem_map_of_mem (Entries.mem_of_get? hfields), ?_⟩, rfl⟩
    rw [Keyed.ofEntry, Keyed.find?_ofEntry, hnone]
    rfl

/-- The changes are what becomes of the ids. -/
theorem mem_changesBetween_iff (hold : Entries.NodupKeys old) (hnew : Entries.NodupKeys new)
    {c : Change} : c ∈ changesBetween (old.map Keyed.ofEntry) (new.map Keyed.ofEntry) ↔
      ∃ id, changeAt id (Entries.get? old id) (Entries.get? new id) = some c := by
  simp only [changeAt_eq_some_iff, exists_or]
  rw [changesBetween, List.mem_append, List.mem_append, or_assoc]
  refine or_congr (mem_map_unmatched_iff .added hnew)
    (or_congr (mem_map_unmatched_iff .removed hold) ?_)
  rw [List.mem_filterMap]
  constructor
  · rintro ⟨entity, hmem, hchange⟩
    obtain ⟨⟨id, fields⟩, hentry, rfl⟩ := List.mem_map.mp hmem
    rw [Keyed.ofEntry, Keyed.find?_ofEntry] at hchange
    cases ho : Entries.get? old id with
    | none =>
        rw [ho] at hchange
        cases hchange
    | some o =>
        rw [ho] at hchange
        dsimp only [Option.map_some, Keyed.ofEntry] at hchange
        split at hchange
        · cases hchange
        · next hne =>
            cases hchange
            exact ⟨id, o, fields, ho, Entries.get?_of_mem hnew hentry, by simpa using hne, rfl⟩
  · rintro ⟨id, o, n, ho, hn, hne, rfl⟩
    refine ⟨_, List.mem_map_of_mem (Entries.mem_of_get? hn), ?_⟩
    rw [Keyed.ofEntry, Keyed.find?_ofEntry, ho]
    simp [hne, Keyed.ofEntry]

theorem updated_of_some {entities : List Keyed} {entity : Keyed} {c : Change}
    (h : (match Keyed.find? entity.id entities with
      | some old =>
          if (Keyed.payload old.fields).equal (Keyed.payload entity.fields) then none
          else some (.updated old.fields entity)
      | none => none) = some c) : ∃ old, .updated old entity = c := by
  split at h
  · next old _ =>
      split at h
      · cases h
      · exact ⟨old.fields, Option.some.inj h⟩
  · cases h

theorem nodup_changesBetween (hold : Entries.NodupKeys old) (hnew : Entries.NodupKeys new) :
    (changesBetween (old.map Keyed.ofEntry) (new.map Keyed.ofEntry)).Nodup := by
  have hofEntry : ∀ {m : Entries (Entries Value)}, Entries.NodupKeys m →
      (m.map Keyed.ofEntry).Nodup :=
    fun hm => (Entries.nodup_of_nodupKeys hm).map Keyed.ofEntry_injective
  rw [changesBetween]
  refine List.Nodup.append (List.Nodup.append ?added ?removed ?apart) ?updated ?apart'
  case added => exact ((hofEntry hnew).filter _).map fun _ _ => Change.added.inj
  case removed => exact ((hofEntry hold).filter _).map fun _ _ => Change.removed.inj
  case updated =>
    refine (hofEntry hnew).filterMap fun a b c ha hb => ?_
    obtain ⟨o, rfl⟩ := updated_of_some ha
    obtain ⟨o', heq⟩ := updated_of_some hb
    exact (Change.updated.inj heq).2.symm
  case apart =>
    rintro c hadded hremoved
    obtain ⟨a, -, rfl⟩ := List.mem_map.mp hadded
    obtain ⟨b, -, heq⟩ := List.mem_map.mp hremoved
    cases heq
  case apart' =>
    rintro c hmarked hupdated
    obtain ⟨a, -, ha⟩ := List.mem_filterMap.mp hupdated
    obtain ⟨o, rfl⟩ := updated_of_some ha
    rcases List.mem_append.mp hmarked with hadded | hremoved
    · obtain ⟨b, -, heq⟩ := List.mem_map.mp hadded
      cases heq
    · obtain ⟨b, -, heq⟩ := List.mem_map.mp hremoved
      cases heq

theorem nodup_ids_changesBetween (hold : Entries.NodupKeys old) (hnew : Entries.NodupKeys new) :
    ((changesBetween (old.map Keyed.ofEntry) (new.map Keyed.ofEntry)).map Change.id).Nodup := by
  refine (nodup_changesBetween hold hnew).map_on fun c hc d hd hid => ?_
  obtain ⟨i, hi⟩ := (mem_changesBetween_iff hold hnew).mp hc
  obtain ⟨j, hj⟩ := (mem_changesBetween_iff hold hnew).mp hd
  rw [id_of_changeAt hi, id_of_changeAt hj, Value.text.injEq] at hid
  subst hid
  exact Option.some.inj (hi.symm.trans hj)

end Between

/-! ## Carrying out changes -/

section Replay

variable {cs : List Change} {id : Text}

theorem onto_of_eq (m : Text → Option (Entries Value)) {c : Change} (h : c.id = .text id) :
    c.onto m id = c.kept? := by
  rw [Change.onto, h, Keyed.sameKey_text]
  exact if_pos (decide_eq_true rfl)

theorem onto_of_ne (m : Text → Option (Entries Value)) {c : Change} {key : Text}
    (hkey : c.id = .text key) (h : c.id ≠ .text id) : c.onto m id = m id := by
  rw [Change.onto, hkey, Keyed.sameKey_text]
  exact if_neg fun heq => h (by rw [hkey, of_decide_eq_true heq])

theorem replay_of_forall_ne (hids : ∀ c ∈ cs, ∃ key, c.id = .text key)
    (h : ∀ c ∈ cs, c.id ≠ .text id)
    (m : Text → Option (Entries Value)) : replay cs m id = m id := by
  induction cs generalizing m with
  | nil => rfl
  | cons c rest ih =>
      obtain ⟨⟨key, hkey⟩, hids⟩ := List.forall_mem_cons.mp hids
      obtain ⟨hc, hrest⟩ := List.forall_mem_cons.mp h
      show replay rest (c.onto m) id = m id
      rw [ih hids hrest, onto_of_ne m hkey hc]

/-- If every id is changed once, a change leaves what it says under its id. -/
theorem replay_of_mem (hids : ∀ c ∈ cs, ∃ key, c.id = .text key) (hnodup : (cs.map Change.id).Nodup)
    {c : Change} (hc : c ∈ cs) (hid : c.id = .text id) (m : Text → Option (Entries Value)) :
    replay cs m id = c.kept? := by
  induction cs generalizing m with
  | nil => cases hc
  | cons first rest ih =>
      obtain ⟨-, hrest⟩ := List.forall_mem_cons.mp hids
      obtain ⟨hnot, hnodup'⟩ := List.nodup_cons.mp hnodup
      show replay rest (first.onto m) id = c.kept?
      rcases List.mem_cons.mp hc with rfl | hc
      · have hothers : ∀ d ∈ rest, d.id ≠ .text id := fun d hd heq =>
          hnot (hid.trans heq.symm ▸ List.mem_map_of_mem hd)
        rw [replay_of_forall_ne hrest hothers, onto_of_eq m hid]
      · exact ih hrest hnodup' hc _

end Replay

section Between

variable {old new : Entries (Entries Value)} (hold : Entries.NodupKeys old)
  (hnew : Entries.NodupKeys new)

include hold hnew

theorem exists_id_of_mem {c : Change}
    (hc : c ∈ changesBetween (old.map Keyed.ofEntry) (new.map Keyed.ofEntry)) :
    ∃ key, c.id = .text key := by
  obtain ⟨key, hkey⟩ := (mem_changesBetween_iff hold hnew).mp hc
  exact ⟨key, id_of_changeAt hkey⟩

theorem sameContent_replay {order : List Change}
    (hwf : ∀ id, ∀ fields ∈ Entries.get? old id, (Value.map fields).WellFormed)
    (hwf' : ∀ id, ∀ fields ∈ Entries.get? new id, (Value.map fields).WellFormed)
    (horder : order.Perm (changesBetween (old.map Keyed.ofEntry) (new.map Keyed.ofEntry)))
    (id : Text) :
    SameContent (replay order (Entries.get? old) id) (Entries.get? new id) := by
  have hids : ∀ c ∈ order, ∃ key, c.id = .text key :=
    fun c hc => exists_id_of_mem hold hnew (horder.mem_iff.mp hc)
  have hnodup := ((horder.map Change.id).nodup_iff).mpr (nodup_ids_changesBetween hold hnew)
  cases hchange : changeAt id (Entries.get? old id) (Entries.get? new id) with
  | some c =>
      have hmem := horder.mem_iff.mpr ((mem_changesBetween_iff hold hnew).mpr ⟨id, hchange⟩)
      rw [replay_of_mem hids hnodup hmem (id_of_changeAt hchange), kept?_of_changeAt hchange]
      exact sameContent_refl (hwf' id)
  | none =>
      have hothers : ∀ c ∈ order, c.id ≠ .text id := fun c hc heq => by
        obtain ⟨key, hkey⟩ := (mem_changesBetween_iff hold hnew).mp (horder.mem_iff.mp hc)
        obtain rfl : key = id := Value.text.inj ((id_of_changeAt hkey).symm.trans heq)
        rw [hchange] at hkey
        cases hkey
      rw [replay_of_forall_ne hids hothers]
      exact (changeAt_eq_none_iff (hwf id)).mp hchange

theorem changesBetween_eq_nil_iff
    (hwf : ∀ id, ∀ fields ∈ Entries.get? old id, (Value.map fields).WellFormed) :
    changesBetween (old.map Keyed.ofEntry) (new.map Keyed.ofEntry) = [] ↔
      ∀ id, SameContent (Entries.get? old id) (Entries.get? new id) := by
  rw [List.eq_nil_iff_forall_not_mem]
  constructor
  · intro h id
    have hnone : changeAt id (Entries.get? old id) (Entries.get? new id) = none :=
      Option.eq_none_iff_forall_ne_some.mpr fun c hc =>
        h c ((mem_changesBetween_iff hold hnew).mpr ⟨id, hc⟩)
    exact (changeAt_eq_none_iff (hwf id)).mp hnone
  · intro h c hc
    obtain ⟨id, hid⟩ := (mem_changesBetween_iff hold hnew).mp hc
    rw [(changeAt_eq_none_iff (hwf id)).mpr (h id)] at hid
    cases hid

theorem changesBetween_swap
    (hwf : ∀ id, ∀ fields ∈ Entries.get? old id, (Value.map fields).WellFormed)
    (hwf' : ∀ id, ∀ fields ∈ Entries.get? new id, (Value.map fields).WellFormed) :
    (changesBetween (new.map Keyed.ofEntry) (old.map Keyed.ofEntry)).Perm
      ((changesBetween (old.map Keyed.ofEntry) (new.map Keyed.ofEntry)).map Change.reversed) := by
  have hinjective : Function.Injective Change.reversed :=
    Function.LeftInverse.injective Change.reversed_reversed
  rw [List.perm_ext_iff_of_nodup (nodup_changesBetween hnew hold)
    ((nodup_changesBetween hold hnew).map hinjective)]
  intro c
  rw [mem_changesBetween_iff hnew hold, List.mem_map]
  simp only [mem_changesBetween_iff hold hnew, changeAt_swap (hwf _) (hwf' _),
    Option.map_eq_some_iff]
  constructor
  · rintro ⟨id, d, hd, rfl⟩
    exact ⟨d, ⟨id, hd⟩, rfl⟩
  · rintro ⟨d, ⟨id, hd⟩, rfl⟩
    exact ⟨id, d, hd, rfl⟩

end Between

/-! ## The changes between two lists -/

theorem changes_eq {before after : List Value} (hbefore : ∀ v ∈ before, Identified v)
    (hafter : ∀ v ∈ after, Identified v) :
    changes before after =
      .ok (changesBetween ((Entries.ofWrites (before.filterMap keyed?)).map Keyed.ofEntry)
        ((Entries.ofWrites (after.filterMap keyed?)).map Keyed.ofEntry)) := by
  rw [changes, Keyed.ofValues_eq hbefore, Keyed.ofValues_eq hafter]
  rfl

/-- The changes between two lists of entities with texts for their ids.  Carried out one after
another, in whatever order, they make of the entities that count before the ones that count after,
up to id and type; no id is in two of them; there are none exactly if both lists have the same
entities, up to id and type; and the changes back are the same ones reversed, so that what was
added is removed and what was removed is added. -/
theorem changes_replay {before after : List Value} (hbefore : ∀ v ∈ before, Identified v)
    (hafter : ∀ v ∈ after, Identified v) :
    ∃ cs back, changes before after = .ok cs ∧ changes after before = .ok back ∧
      (∀ order, order.Perm cs → ∀ id,
        SameContent (replay order (latest? before) id) (latest? after id)) ∧
      (cs.map Change.id).Nodup ∧
      (cs = [] ↔ ∀ id, SameContent (latest? before id) (latest? after id)) ∧
      back.Perm (cs.map Change.reversed) := by
  have hget : ∀ values, latest? values =
      Entries.get? (Entries.ofWrites (values.filterMap keyed?)) :=
    fun values => funext fun id => (Entries.get?_ofWrites _ id).symm
  have hwf : ∀ values, (∀ v ∈ values, Identified v) →
      ∀ id, ∀ fields ∈ latest? values id, (Value.map fields).WellFormed :=
    fun values hvalues id fields hfields => (hvalues _ (mem_of_latest? hfields)).wellFormed
  have hwf₁ := hwf before hbefore
  have hwf₂ := hwf after hafter
  rw [hget] at hwf₁ hwf₂
  have hnodup₁ := Entries.nodupKeys_ofWrites (before.filterMap keyed?)
  have hnodup₂ := Entries.nodupKeys_ofWrites (after.filterMap keyed?)
  refine ⟨_, _, changes_eq hbefore hafter, changes_eq hafter hbefore, ?_,
    nodup_ids_changesBetween hnodup₁ hnodup₂, ?_, ?_⟩
  · rw [hget, hget]
    exact fun order horder id => sameContent_replay hnodup₁ hnodup₂ hwf₁ hwf₂ horder id
  · rw [hget, hget]
    exact changesBetween_eq_nil_iff hnodup₁ hnodup₂ hwf₁
  · exact changesBetween_swap hnodup₁ hnodup₂ hwf₁ hwf₂

/-- An id that is there twice and whose entity changes its type only is left alone.  Of the three
others one is added, one removed, and one updated. -/
theorem changes_replay_twice :
    let field (name : String) (v : Value) : Text × Value := (text name, v)
    let id (name : String) : Text × Value := (idKey, .text (text name))
    let before := [Value.map [id "a", field "n" (.bool false)], .map [id "b"],
      .map [field "n" (.bool true), id "a"], .map [id "c"]]
    let after := [Value.map [id "d"], .map [id "c", field "n" .null],
      .map [id "a", (typeKey, .text (text "T")), field "n" (.bool true)]]
    let cs := [Change.added (Keyed.ofEntry (text "d", [id "d"])),
      .removed (Keyed.ofEntry (text "b", [id "b"])),
      .updated [id "c"] (Keyed.ofEntry (text "c", [id "c", field "n" .null]))]
    (∀ v ∈ before, Identified v) ∧ (∀ v ∈ after, Identified v) ∧ changes before after = .ok cs ∧
      ∃ back, changes after before = .ok back ∧
        (∀ order, order.Perm cs → ∀ id,
          SameContent (replay order (latest? before) id) (latest? after id)) ∧
        (cs.map Change.id).Nodup ∧
        (cs = [] ↔ ∀ id, SameContent (latest? before id) (latest? after id)) ∧
        back.Perm (cs.map Change.reversed) := by
  intro field id before after cs
  have hbefore : ∀ v ∈ before, Identified v := by
    simp only [before, List.forall_mem_cons]
    refine ⟨⟨?_, rfl⟩, ⟨?_, rfl⟩, ⟨?_, rfl⟩, ⟨?_, rfl⟩, List.forall_mem_nil _⟩
    · exact ⟨show [idKey, text "n"].Nodup by decide +kernel, trivial, trivial, trivial⟩
    · exact ⟨List.pairwise_singleton _ _, trivial, trivial⟩
    · exact ⟨show [text "n", idKey].Nodup by decide +kernel, trivial, trivial, trivial⟩
    · exact ⟨List.pairwise_singleton _ _, trivial, trivial⟩
  have hafter : ∀ v ∈ after, Identified v := by
    simp only [after, List.forall_mem_cons]
    refine ⟨⟨?_, rfl⟩, ⟨?_, rfl⟩, ⟨?_, rfl⟩, List.forall_mem_nil _⟩
    · exact ⟨List.pairwise_singleton _ _, trivial, trivial⟩
    · exact ⟨show [idKey, text "n"].Nodup by decide +kernel, trivial, trivial, trivial⟩
    · exact ⟨show [idKey, typeKey, text "n"].Nodup by decide +kernel, trivial, trivial, trivial,
        trivial⟩
  have hcs : changes before after = .ok cs := rfl
  obtain ⟨found, back, hfound, hback, hlaws⟩ := changes_replay hbefore hafter
  obtain rfl : cs = found := Except.ok.inj (hcs.symm.trans hfound)
  exact ⟨hbefore, hafter, hcs, back, hback, hlaws⟩

end Entity

end InverseTemplate
