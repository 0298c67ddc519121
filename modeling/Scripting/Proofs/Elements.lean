import Scripting.Proofs.Bounds

/-!
# Writing and deleting elements

An element is kept at a spot: in a slot of a storage, or under a key of a hash. Storing to an
element and deleting it either fail and leave everything as it is, or change what is kept at the
spot that the index names and nothing else. What was stored is then read back.
-/

namespace Scripting

/-- Where an element is kept: in a slot of a storage, or under a key of a hash. -/
inductive Spot where
  | slot (storage slot : Nat)
  | entry (id : HashId) (key : Key)
deriving DecidableEq

/-- What a deletion leaves at a spot: null in an array, and nothing in a hash. -/
def Spot.cleared : Spot → Option Value
  | slot _ _ => some .null
  | entry _ _ => none

namespace Table.Indexed

variable {t : Table} (indexed : t.Indexed)
include indexed

/-- The other entries stay as they are, in their order. -/
theorem filter_put (k : Key) (name value : Value) :
    (t.put k name value).2.entries.toList.filter (·.key ≠ k) =
      t.entries.toList.filter (·.key ≠ k) := by
  rcases split_or_absent t.entries.toList k with ⟨before, e, after, split, rfl⟩ | absent
  · rw [(indexed.put_of_split split name value).2, split]
    simp [List.filter_append]
  · rw [(indexed.put_of_absent absent name value).2]
    simp [List.filter_append]

/-- A key that is present keeps its place, and a new one comes last. -/
theorem keys_put (k : Key) (name value : Value) :
    (t.put k name value).2.entries.toList.map Entry.key =
      if k ∈ t.entries.toList.map Entry.key then t.entries.toList.map Entry.key
      else t.entries.toList.map Entry.key ++ [k] := by
  rcases split_or_absent t.entries.toList k with ⟨before, e, after, split, rfl⟩ | absent
  · rw [(indexed.put_of_split split name value).2, split]
    simp
  · have missing : k ∉ t.entries.toList.map Entry.key := by
      intro used
      obtain ⟨e, member, same⟩ := List.mem_map.mp used
      exact absent e member same
    rw [(indexed.put_of_absent absent name value).2, if_neg missing]
    simp

theorem entries_erase (k : Key) :
    (t.erase k).2.entries.toList = t.entries.toList.filter (·.key ≠ k) := by
  rcases split_or_absent t.entries.toList k with ⟨before, e, after, split, rfl⟩ | absent
  · have others := indexed.key_ne_of_split split
    have kept : (before ++ after).filter (·.key ≠ e.key) = before ++ after :=
      List.filter_eq_self.mpr fun d member => decide_eq_true (others d member)
    rw [(indexed.erase_of_split split).2, split, ← kept]
    simp [List.filter_append]
  · rw [indexed.erase_of_absent absent]
    exact (List.filter_eq_self.mpr fun d member => decide_eq_true (absent d member)).symm

end Table.Indexed

namespace Heap

/-! ## Spots -/

/-- The slot in which an array keeps its element of a place. -/
def spotOf (h : Heap) (a : ArrayId) (p : Nat) : Spot :=
  .slot (h.arrays.view a).storage ((h.arrays.view a).start + p)

/-- An index names the spot of an element: one that is there in an array, any in a hash. -/
inductive Addresses (h : Heap) : Value → Value → Spot → Prop where
  | element {a : ArrayId} {index : Value} {p : Nat} : index.Names (h.arrays.length a) p →
      Addresses h (.array a) index (h.spotOf a p)
  | entry {id : HashId} {index : Value} {k : Key} : index.key = .ok k →
      Addresses h (.hash id) index (.entry id k)

/-- What is kept at a spot. -/
def kept? (h : Heap) : Spot → Option Value
  | .slot n i => (h.arrays.storageAt n).slots[i]?
  | .entry id k => (h.table id).find? k

/-- The keys of a hash, in order. -/
def keys (h : Heap) (id : HashId) : List Key := (h.table id).entries.toList.map Entry.key

/-- One heap is the other one with `x` at a spot. -/
structure Written (h : Heap) (spot : Spot) (x : Option Value) (h' : Heap) : Prop where
  scopes : h'.scopes = h.scopes
  functions : h'.functions = h.functions
  views : h'.arrays.views = h.arrays.views
  storages : h'.arrays.storages.size = h.arrays.storages.size
  counts : ∀ n, (h'.arrays.storageAt n).views = (h.arrays.storageAt n).views
  tables : h'.tables.size = h.tables.size
  kept : ∀ other, h'.kept? other = if other = spot then x else h.kept? other
  /-- The other entries of hashes keep their names and their order. -/
  entries : ∀ id, (h'.table id).entries.toList.filter (Spot.entry id ·.key ≠ spot) =
    (h.table id).entries.toList.filter (Spot.entry id ·.key ≠ spot)

variable {h h' : Heap} {container index : Value} {spot : Spot} {x : Option Value}

theorem Addresses.unique {other : Spot} (first : h.Addresses container index spot)
    (second : h.Addresses container index other) : spot = other := by
  cases first with
  | element named =>
    cases second with
    | element also => rw [named.unique also]
  | entry hashable =>
    cases second with
    | entry also =>
      rw [hashable] at also
      cases also
      rfl

theorem kept?_spotOf {a : ArrayId} {p : Nat} (inside : p < h.arrays.length a) :
    h.kept? (h.spotOf a p) = h.arrays.get? a p := by
  rw [ArrayStore.get?_eq, if_pos inside]
  rfl

theorem read_of_addresses (addressed : h.Addresses container index spot) :
    h.read container index = .ok ((h.kept? spot).getD .null) := by
  cases addressed with
  | @element a _ p named =>
    have found : place (h.arrays.length a) index false = .ok p := place_eq_ok_iff.mpr named
    rw [kept?_spotOf (Discipline.place_lt found), read, placeWithin, found]
    rfl
  | entry hashable =>
    rw [read, Table.get, hashable]
    rfl

namespace Written

variable (written : h.Written spot x h')
include written

theorem view (a : ArrayId) : h'.arrays.view a = h.arrays.view a := by
  rw [ArrayStore.view, written.views]
  rfl

/-- No array gets longer or shorter. -/
theorem length (a : ArrayId) : h'.arrays.length a = h.arrays.length a := by
  rw [ArrayStore.length, written.view]
  rfl

theorem addresses {c i : Value} {s : Spot} (addressed : h.Addresses c i s) :
    h'.Addresses c i s := by
  cases addressed with
  | @element a _ p named =>
    have same : h.spotOf a p = h'.spotOf a p := by rw [spotOf, spotOf, written.view]
    rw [← written.length a] at named
    rw [same]
    exact .element named
  | entry hashable => exact .entry hashable

/-- The index that names the spot reads what was written. -/
theorem read (addressed : h.Addresses container index spot) :
    h'.read container index = .ok (x.getD .null) := by
  rw [read_of_addresses (written.addresses addressed), written.kept, if_pos rfl]

/-- An array shows what was written exactly where it covers the spot. -/
theorem shown (a : ArrayId) {p : Nat} (inside : p < h.arrays.length a) :
    h'.arrays.get? a p = if h.spotOf a p = spot then x else h.arrays.get? a p := by
  have same : h'.spotOf a p = h.spotOf a p := by rw [spotOf, spotOf, written.view]
  have covered : p < h'.arrays.length a := by rwa [written.length]
  rw [← kept?_spotOf covered, same, written.kept, kept?_spotOf inside]

end Written

/-! ## What changes write -/

theorem written_element (intact : h.Intact) {a : ArrayId} (leads : h.Leads (.array a)) {p : Nat}
    (inside : p < h.arrays.length a) (v : Value) :
    h.Written (h.spotOf a p) (some v) (h.perform (.element a p v)) := by
  have there := intact.arrays.get?_isSome leads.array_mem inside
  have bound := intact.arrays.slot_lt leads.array_mem inside
  have made : (h.perform (.element a p v)).arrays =
      h.arrays.write (h.arrays.view a).storage ((h.arrays.view a).start + p) v := by
    change (h.arrays.set a p v).2 = _
    rw [ArrayStore.set_eq, if_pos there]
  refine ⟨rfl, rfl, ?_, ?_, ?_, rfl, ?_, fun id => rfl⟩
  · rw [made]
    rfl
  · rw [made, ArrayStore.size_storages_write]
  · intro n
    rw [made, ArrayStore.storageAt_write]
    split <;> rfl
  · intro other
    cases other with
    | entry id k => rfl
    | slot n i =>
      simp only [kept?, made, ArrayStore.storageAt_write, spotOf, Spot.slot.injEq]
      by_cases storage : n = (h.arrays.view a).storage
      · rw [if_pos storage, Array.getElem?_setIfInBounds, storage]
        rw [ArrayStore.slots_eq] at bound
        by_cases here : i = (h.arrays.view a).start + p
        · rw [if_pos here.symm, if_pos bound, if_pos ⟨rfl, here⟩]
        · rw [if_neg (Ne.symm here), if_neg fun both => here both.2]
      · rw [if_neg storage, if_neg fun both => storage both.1]

theorem table_modifyTable {id : HashId} (leads : h.Leads (.hash id)) (f : Table → Table)
    (n : HashId) : (h.modifyTable id f).table n = if n = id then f (h.table n) else h.table n := by
  have there : h.Has (.hash id) := (leads _ rfl).1
  have present : id < h.tables.size := by simpa [Has, cell?] using there
  change (h.tables.modify id f).getD n default = _
  rw [getD_modify]
  simp only [present, and_true]
  rfl

/-- Changing the table of a hash writes the entry of a key if other keys are left alone. -/
theorem written_modifyTable {id : HashId} (leads : h.Leads (.hash id)) {k : Key}
    {f : Table → Table} (own : (f (h.table id)).find? k = x)
    (others : ∀ l, l ≠ k → (f (h.table id)).find? l = (h.table id).find? l)
    (rest : (f (h.table id)).entries.toList.filter (·.key ≠ k) =
      (h.table id).entries.toList.filter (·.key ≠ k)) :
    h.Written (.entry id k) x (h.modifyTable id f) := by
  refine ⟨rfl, rfl, rfl, rfl, fun n => rfl, Array.size_modify, ?_, ?_⟩
  · intro other
    cases other with
    | slot n i => rfl
    | entry n l =>
      simp only [kept?, table_modifyTable leads, Spot.entry.injEq]
      by_cases same : n = id
      · subst same
        by_cases key : l = k
        · rw [if_pos rfl, if_pos ⟨rfl, key⟩, key, own]
        · rw [if_pos rfl, if_neg fun both => key both.2, others l key]
      · rw [if_neg same, if_neg fun both => same both.1]
  · intro n
    rw [table_modifyTable leads]
    by_cases same : n = id
    · subst same
      simpa [Spot.entry.injEq] using rest
    · rw [if_neg same]

theorem written_entry (intact : h.Intact) {id : HashId} (leads : h.Leads (.hash id)) (k : Key)
    (name v : Value) : h.Written (.entry id k) (some v) (h.perform (.entry id k name v)) :=
  have indexed := intact.tables id
  written_modifyTable leads (indexed.find?_put_self k name v)
    (fun _ different => indexed.find?_put_of_ne different name v) (indexed.filter_put k name v)

theorem written_removal (intact : h.Intact) {id : HashId} (leads : h.Leads (.hash id)) (k : Key) :
    h.Written (.entry id k) none (h.perform (.removal id k)) := by
  have indexed := intact.tables id
  refine written_modifyTable leads (indexed.find?_erase_self k)
    (fun _ different => indexed.find?_erase_of_ne different) ?_
  rw [indexed.entries_erase, List.filter_filter]
  simp

/-! ## Storing and deleting -/

theorem keys_entry (intact : h.Intact) {id : HashId} (leads : h.Leads (.hash id)) (k : Key)
    (name v : Value) :
    (h.perform (.entry id k name v)).keys id =
      if k ∈ h.keys id then h.keys id else h.keys id ++ [k] := by
  have made := table_modifyTable leads (fun t => (t.put k name v).2) id
  rw [if_pos rfl] at made
  change ((h.modifyTable id fun t => (t.put k name v).2).table id).entries.toList.map _ = _
  rw [made, (intact.tables id).keys_put]
  rfl

theorem entries_removal (intact : h.Intact) {id : HashId} (leads : h.Leads (.hash id)) (k : Key) :
    ((h.perform (.removal id k)).table id).entries.toList =
      (h.table id).entries.toList.filter (·.key ≠ k) := by
  have made := table_modifyTable leads (fun t => (t.erase k).2) id
  rw [if_pos rfl] at made
  change ((h.modifyTable id fun t => (t.erase k).2).table id).entries.toList = _
  rw [made, (intact.tables id).entries_erase]

/-- The key of an assignment is looked at even if the element is not read first. -/
theorem assignment_of_key {id : HashId} {k : Key} (hashable : index.key = .ok k)
    (op : AssignOperator) (value : Value) :
    h.assignment (.hash id) index op value =
      (applyAssign h op (((h.table id).find? k).getD .null) value).map fun new =>
        (new, .entry id k index new) := by
  unfold assignment
  cases op with
  | assign =>
    rw [hashable]
    rfl
  | _ =>
    dsimp only
    rw [Table.get, hashable]
    rfl

theorem assignment_of_unhashable {id : HashId} {e : RuntimeError}
    (unhashable : index.key = .error e) (op : AssignOperator) (value : Value) :
    h.assignment (.hash id) index op value = .error e := by
  unfold assignment
  cases op with
  | assign =>
    rw [unhashable]
    rfl
  | _ =>
    dsimp only
    rw [Table.get, unhashable]
    rfl

/-- Storing works out the new value from the one that is kept, and writes it in its place. -/
theorem assignment_of_addresses (addressed : h.Addresses container index spot) :
    ∃ change : Value → Change,
      (∀ op value, h.assignment container index op value =
        (applyAssign h op ((h.kept? spot).getD .null) value).map fun new => (new, change new)) ∧
      (h.Intact → h.Leads container → ∀ new,
        h.Written spot (some new) (h.perform (change new)) ∧
        ∀ id k, spot = .entry id k → (h.perform (change new)).keys id =
          if k ∈ h.keys id then h.keys id else h.keys id ++ [k]) := by
  cases addressed with
  | @element a _ p named =>
    have found : place (h.arrays.length a) index false = .ok p := place_eq_ok_iff.mpr named
    have inside : p < h.arrays.length a := Discipline.place_lt found
    refine ⟨.element a p, fun op value => ?_, fun intact leads new => ?_⟩
    · rw [kept?_spotOf inside, assignment, found]
      rfl
    · exact ⟨written_element intact leads inside new, fun _ _ other => by cases other⟩
  | @entry id _ k hashable =>
    refine ⟨.entry id k index, assignment_of_key hashable, fun intact leads new => ?_⟩
    refine ⟨written_entry intact leads k index new, ?_⟩
    rintro _ _ ⟨⟩
    exact keys_entry intact leads k index new

/-- Deleting gives what is kept, and clears its spot. -/
theorem deletion_of_addresses (intact : h.Intact) (leads : h.Leads container)
    (addressed : h.Addresses container index spot) :
    ∃ change, h.deletion container index = .ok ((h.kept? spot).getD .null, change) ∧
      h.Written spot spot.cleared (h.perform change) ∧
      ∀ id k, spot = .entry id k → ((h.perform change).table id).entries.toList =
        (h.table id).entries.toList.filter (·.key ≠ k) := by
  cases addressed with
  | @element a _ p named =>
    have found : place (h.arrays.length a) index false = .ok p := place_eq_ok_iff.mpr named
    have inside : p < h.arrays.length a := Discipline.place_lt found
    refine ⟨.element a p .null, ?_, written_element intact leads inside .null,
      fun _ _ other => by cases other⟩
    rw [kept?_spotOf inside, deletion, found]
    rfl
  | @entry id _ k hashable =>
    refine ⟨.removal id k, ?_, written_removal intact leads k, ?_⟩
    · rw [deletion, hashable]
      rfl
    · rintro _ _ ⟨⟩
      exact entries_removal intact leads k

/-- Where an index addresses nothing, nothing is stored and nothing deleted. -/
theorem refused_of_nowhere (nowhere : ∀ spot, ¬h.Addresses container index spot) :
    (∀ op value, ∃ e, h.assignment container index op value = .error e) ∧
      ∃ e, h.deletion container index = .error e := by
  cases container with
  | array a =>
    cases found : place (h.arrays.length a) index false with
    | ok p => exact absurd (.element (place_eq_ok_iff.mp found)) (nowhere _)
    | error e =>
      refine ⟨fun op value => ⟨e, ?_⟩, e, ?_⟩
      · rw [assignment, found]
        rfl
      · rw [deletion, found]
        rfl
  | hash id =>
    cases key : index.key with
    | ok k => exact absurd (.entry key) (nowhere _)
    | error e =>
      refine ⟨fun op value => ⟨e, assignment_of_unhashable key op value⟩, e, ?_⟩
      rw [deletion, key]
      rfl
  | _ => exact ⟨fun _ _ => ⟨_, rfl⟩, _, rfl⟩

end Heap

namespace Machine

/-- An assignment to an element has stored a value at a spot. -/
structure Stored (m : Machine) (container index : Value) (op : AssignOperator) (value : Value)
    (spot : Spot) (new : Value) (h' : Heap) : Prop where
  addressed : m.heap.Addresses container index spot
  /-- The new value comes from the one that was read before. -/
  computed : ∃ old, m.heap.read container index = .ok old ∧
    applyAssign m.heap op old value = .ok new
  readBack : h'.read container index = .ok new
  written : m.heap.Written spot (some new) h'
  /-- Every array that covers the spot shows the new value there, and the old ones elsewhere. -/
  shown : ∀ a p, p < m.heap.arrays.length a →
    h'.arrays.get? a p = if m.heap.spotOf a p = spot then some new else m.heap.arrays.get? a p
  /-- An entry that was there keeps its place. -/
  keys : ∀ id k, spot = .entry id k →
    h'.keys id = if k ∈ m.heap.keys id then m.heap.keys id else m.heap.keys id ++ [k]

/-- The deletion of an element has cleared a spot. -/
structure Deleted (m : Machine) (container index : Value) (spot : Spot) (old : Value)
    (h' : Heap) : Prop where
  addressed : m.heap.Addresses container index spot
  readBefore : m.heap.read container index = .ok old
  readBack : h'.read container index = .ok .null
  written : m.heap.Written spot spot.cleared h'
  lengths : ∀ a, h'.arrays.length a = m.heap.arrays.length a
  /-- A hash loses the entry of the key, if there is one, and no other. -/
  entries : ∀ id k, spot = .entry id k →
    (h'.table id).entries.toList = (m.heap.table id).entries.toList.filter (·.key ≠ k)

variable {m : Machine} {container index : Value}

theorem commit_assignment (intact : m.heap.Intact) (leads : m.heap.Leads container) {spot : Spot}
    (addressed : m.heap.Addresses container index spot) (op : AssignOperator) (value : Value) :
    (∃ e, commit (·.assignment container index op value) m = .failed (.error e) m ∧
      applyAssign m.heap op ((m.heap.kept? spot).getD .null) value = .error e) ∨
    ∃ new h', commit (·.assignment container index op value) m = .done new { m with heap := h' } ∧
      m.Stored container index op value spot new h' := by
  obtain ⟨change, works, writes⟩ := Heap.assignment_of_addresses addressed
  have work := works op value
  cases computed : applyAssign m.heap op ((m.heap.kept? spot).getD .null) value with
  | error e =>
    rw [computed] at work
    exact .inl ⟨e, Strict.commit_of_error work, rfl⟩
  | ok new =>
    rw [computed] at work
    obtain ⟨written, keys⟩ := writes intact leads new
    refine .inr ⟨new, _, Strict.commit_of_ok work, addressed,
      ⟨_, Heap.read_of_addresses addressed, computed⟩, written.read addressed, written, ?_, keys⟩
    intro a p inside
    exact written.shown a inside

theorem commit_deletion (intact : m.heap.Intact) (leads : m.heap.Leads container) {spot : Spot}
    (addressed : m.heap.Addresses container index spot) :
    ∃ old h', commit (·.deletion container index) m = .done old { m with heap := h' } ∧
      m.Deleted container index spot old h' := by
  obtain ⟨change, work, written, entries⟩ := Heap.deletion_of_addresses intact leads addressed
  have cleared : spot.cleared.getD .null = .null := by cases spot <;> rfl
  refine ⟨_, _, Strict.commit_of_ok work, addressed, Heap.read_of_addresses addressed, ?_, written,
    written.length, entries⟩
  rw [written.read addressed, cleared]

/-- Element writes are all or nothing, in every heap as sessions have it. An assignment to an
element fails and changes nothing, or it stores the new value where the index points, and the index
reads it back. A deletion fails and changes nothing, or it gives the value that was read before and
clears its place. They fail only if the index points nowhere, and an assignment also if the new
value cannot be worked out. -/
theorem element_writes_all_or_nothing :
    (∀ m, Session m → m.heap.Intact) ∧
    ∀ (m : Machine) (container index : Value), m.heap.Intact → m.heap.Leads container →
      (∀ (op : AssignOperator) (value : Value),
        (∃ e, commit (·.assignment container index op value) m = .failed (.error e) m ∧
          ∀ spot, m.heap.Addresses container index spot →
            applyAssign m.heap op ((m.heap.kept? spot).getD .null) value = .error e) ∨
        ∃ spot new h',
          commit (·.assignment container index op value) m = .done new { m with heap := h' } ∧
          m.Stored container index op value spot new h') ∧
      ((∃ e, commit (·.deletion container index) m = .failed (.error e) m ∧
          ∀ spot, ¬m.heap.Addresses container index spot) ∨
        ∃ spot old h', commit (·.deletion container index) m = .done old { m with heap := h' } ∧
          m.Deleted container index spot old h') := by
  refine ⟨fun m session => session.intact.sound, fun m container index intact leads => ?_⟩
  by_cases somewhere : ∃ spot, m.heap.Addresses container index spot
  · obtain ⟨spot, addressed⟩ := somewhere
    refine ⟨fun op value => ?_, .inr ⟨spot, commit_deletion intact leads addressed⟩⟩
    rcases commit_assignment intact leads addressed op value with ⟨e, failed, reason⟩ | stored
    · refine .inl ⟨e, failed, fun other also => ?_⟩
      rw [also.unique addressed, reason]
    · exact .inr ⟨spot, stored⟩
  · have nowhere : ∀ spot, ¬m.heap.Addresses container index spot := fun spot addressed =>
      somewhere ⟨spot, addressed⟩
    obtain ⟨stores, e, deletes⟩ := Heap.refused_of_nowhere nowhere
    refine ⟨fun op value => ?_, .inl ⟨e, Strict.commit_of_error deletes, nowhere⟩⟩
    obtain ⟨e, refused⟩ := stores op value
    exact .inl ⟨e, Strict.commit_of_error refused, fun spot also => absurd also (nowhere spot)⟩

open Evaluation in
/-- An element is changed and then deleted through a slice, counted from its end. -/
theorem element_writes_all_or_nothing_through_slice :
    let three : Expr Unit := .array () [.literal () (.integer 1), .literal () (.integer 2),
      .literal () (.integer 3)]
    let program : Piece := .program ⟨[.expression () (.index () three
      (.slice () (.literal () (.integer 1)) none))]⟩
    ∃ m, (new fun _ => "").complete (program.evaluation 9) = some (.value (.array 1), m) ∧
      m.heap.Leads (.array 1) ∧
      (∃ h', commit (·.assignment (.array 1) (.integer (-2)) .addAssign (.integer 5)) m =
          .done (.integer 7) { m with heap := h' } ∧
        m.Stored (.array 1) (.integer (-2)) .addAssign (.integer 5) (.slot 0 1) (.integer 7) h') ∧
      ∃ h', commit (·.deletion (.array 1) (.integer (-2))) m =
          .done (.integer 2) { m with heap := h' } ∧
        m.Deleted (.array 1) (.integer (-2)) (.slot 0 1) (.integer 2) h' := by
  intro three program
  have ran : ∃ m, (new fun _ => "").complete (program.evaluation 9) =
      some (.value (.array 1), m) ∧ m.heap.arrays.views.size = 2 ∧
      m.heap.spotOf 1 0 = .slot 0 1 ∧ m.heap.arrays.length 1 = 2 ∧
      m.heap.kept? (.slot 0 1) = some (.integer 2) := ⟨_, rfl, rfl, rfl, rfl, rfl⟩
  obtain ⟨m, made, views, spot, length, kept⟩ := ran
  have session : Session m := .evaluate program 9 (.start _) rfl made
  have leads : m.heap.Leads (.array 1) := by
    apply Heap.leads_of_has
    rintro _ ⟨⟩
    simp [Heap.Has, Heap.cell?, views]
  have addressed : m.heap.Addresses (.array 1) (.integer (-2)) (.slot 0 1) := by
    rw [← spot]
    refine .element ?_
    rw [length]
    decide
  obtain ⟨intact, written⟩ := element_writes_all_or_nothing
  obtain ⟨stores, deletes⟩ := written m (.array 1) (.integer (-2)) (intact m session) leads
  refine ⟨m, made, leads, ?_, ?_⟩
  · rcases stores .addAssign (.integer 5) with ⟨e, _, reason⟩ | ⟨_, new, h', ran, stored⟩
    · have failed := reason _ addressed
      rw [kept] at failed
      cases failed
    · cases stored.addressed.unique addressed
      obtain ⟨old, before, computed⟩ := stored.computed
      rw [Heap.read_of_addresses addressed, kept] at before
      cases before
      cases computed
      exact ⟨h', ran, stored⟩
  · rcases deletes with ⟨_, _, nowhere⟩ | ⟨_, old, h', ran, deleted⟩
    · exact absurd addressed (nowhere _)
    · cases deleted.addressed.unique addressed
      have before := deleted.readBefore
      rw [Heap.read_of_addresses addressed, kept] at before
      cases before
      exact ⟨h', ran, deleted⟩

end Machine

end Scripting
