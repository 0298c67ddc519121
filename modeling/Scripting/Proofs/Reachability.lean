import Mathlib.Logic.Relation
import Scripting.Heap

/-!
# The heap as a graph

Frames, views, storages, hashes and functions are the nodes of a graph: a frame leads to its parent
and to what its names are bound to, a view to its storage, a storage and a hash to what they hold,
and a function to the frame in which it was made. A heap is separated from a set of nodes that are
to be spared if no other node leads to them, and it stays so when a cell outside is rewritten or
added and leads to nothing but what is outside as well.
-/

namespace Scripting

/-- Something that has an identity on the heap. -/
inductive Node where
  | frame (f : FrameId)
  | view (a : ArrayId)
  | storage (n : Nat)
  | hash (id : HashId)
  | function (id : FunctionId)
deriving DecidableEq

/-- What a node holds. -/
inductive Cell where
  | frame (frame : Frame)
  | view (view : View)
  | storage (storage : Storage)
  | hash (table : Table)
  | function (closure : Closure)

/-- The node that a value names. -/
def Value.node? : Value → Option Node
  | array a => some (.view a)
  | hash id => some (.hash id)
  | function id => some (.function id)
  | _ => none

/-- The nodes that a cell leads to. -/
def Cell.links : Cell → List Node
  | frame c => c.parent.toList.map .frame ++ c.bindings.filterMap (·.2.node?)
  | view v => [.storage v.storage]
  | storage s => s.slots.toList.filterMap Value.node?
  | hash t => t.entries.toList.flatMap fun e => e.name.node?.toList ++ e.value.node?.toList
  | function c => [.frame c.scope]

namespace Cell

variable {x : Node}

theorem mem_links_frame {c : Frame} : x ∈ (Cell.frame c).links ↔
    (∃ p, c.parent = some p ∧ x = .frame p) ∨ ∃ b ∈ c.bindings, b.2.node? = some x := by
  simp only [links, List.mem_append, List.mem_map, Option.mem_toList, List.mem_filterMap,
    eq_comm (a := x)]

theorem mem_links_storage {s : Storage} :
    x ∈ (Cell.storage s).links ↔ ∃ v ∈ s.slots, v.node? = some x := by
  simp only [links, List.mem_filterMap, Array.mem_toList_iff]

theorem mem_links_hash {t : Table} : x ∈ (Cell.hash t).links ↔
    ∃ e ∈ t.entries, e.name.node? = some x ∨ e.value.node? = some x := by
  simp only [links, List.mem_flatMap, List.mem_append, Option.mem_toList,
    Array.mem_toList_iff]

end Cell

namespace Heap

/-- What is found at a node. -/
def cell? (h : Heap) : Node → Option Cell
  | .frame f => h.scopes.frames[f]?.map .frame
  | .view a => h.arrays.views[a]?.map .view
  | .storage n => h.arrays.storages[n]?.map .storage
  | .hash id => h.tables[id]?.map .hash
  | .function id => h.functions[id]?.map .function

/-- The node is there. -/
def Has (h : Heap) (n : Node) : Prop := (h.cell? n).isSome

/-- One node leads to another. -/
def Link (h : Heap) (n x : Node) : Prop := ∃ c, h.cell? n = some c ∧ x ∈ c.links

/-- One node leads to another in any number of steps. -/
def Reaches (h : Heap) : Node → Node → Prop := Relation.ReflTransGen h.Link

/-- Every link leads to something that is there. -/
def WellFormed (h : Heap) : Prop := ∀ n x, h.Link n x → h.Has x

/-- The nodes that are there. -/
def nodes (h : Heap) : List Node :=
  (List.range h.scopes.frames.size).map .frame ++ (List.range h.arrays.views.size).map .view ++
    (List.range h.arrays.storages.size).map .storage ++ (List.range h.tables.size).map .hash ++
    (List.range h.functions.size).map .function

/-- The nodes that a node leads to. -/
def leads (h : Heap) (n : Node) : List Node := (h.cell? n).elim [] Cell.links

/-- The node is there and is not one of those to be spared. -/
def Free (spared : Node → Prop) (h : Heap) (n : Node) : Prop := h.Has n ∧ ¬spared n

/-- The spared nodes are there, and no other node leads to them. -/
structure Separated (spared : Node → Prop) (h : Heap) : Prop where
  has : ∀ n, spared n → h.Has n
  closed : ∀ n x, h.Link n x → ¬spared n → h.Free spared x

/-- Spared nodes keep what they hold, nodes do not go away, and functions stay as they are. -/
structure Spares (spared : Node → Prop) (h h' : Heap) : Prop where
  same : ∀ n, spared n → h'.cell? n = h.cell? n
  grown : ∀ n, h.Has n → h'.Has n
  functions : ∀ id, h.Has (.function id) → h'.cell? (.function id) = h.cell? (.function id)

/-- A change of a separated heap into another that spares what is to be spared. -/
def SparingStep (spared : Node → Prop) (h h' : Heap) : Prop :=
  h'.Separated spared ∧ h.Spares spared h'

/-- The value names nothing but what is free. -/
def FreeValue (spared : Node → Prop) (h : Heap) (v : Value) : Prop :=
  ∀ n, v.node? = some n → h.Free spared n

variable {spared : Node → Prop} {h h' : Heap}

theorem has_of_cell {n : Node} {c : Cell} (held : h.cell? n = some c) : h.Has n := by
  unfold Has
  rw [held]
  rfl

theorem Has.cell {n : Node} (there : h.Has n) : ∃ c, h.cell? n = some c :=
  Option.isSome_iff_exists.mp there

theorem mem_nodes {n : Node} : n ∈ h.nodes ↔ h.Has n := by
  cases n <;> simp [nodes, Has, cell?]

theorem link_iff {n x : Node} : h.Link n x ↔ x ∈ h.leads n := by
  unfold Link leads
  cases h.cell? n with
  | none => simp
  | some c => simp

theorem wellFormed_iff :
    h.WellFormed ↔ h.nodes.all fun n => (h.leads n).all fun x => (h.cell? x).isSome := by
  simp only [List.all_eq_true, mem_nodes, ← link_iff]
  constructor
  · intro formed n _ x linked
    exact formed n x linked
  · intro formed n x linked
    have there : h.Has n := linked.elim fun _ held => has_of_cell held.1
    exact formed n there x linked

instance (h : Heap) : Decidable h.WellFormed := decidable_of_iff _ wellFormed_iff.symm

/-- What is reached from a list of nodes that lead to one another only is in the list. -/
theorem Reaches.mem_of_closed {ns : List Node} {n x : Node} (reached : h.Reaches n x)
    (closed : ns.all fun m => (h.leads m).all ns.contains) (inside : n ∈ ns) : x ∈ ns := by
  induction reached with
  | refl => exact inside
  | tail _ linked ih =>
    have all := List.all_eq_true.mp (List.all_eq_true.mp closed _ ih) _ (link_iff.mp linked)
    exact List.contains_iff_mem.mp all

theorem Free.mono {n : Node} (free : h.Free spared n) (spares : h.Spares spared h') :
    h'.Free spared n := ⟨spares.grown n free.1, free.2⟩

theorem Spares.refl (spared : Node → Prop) (h : Heap) : h.Spares spared h :=
  ⟨fun _ _ => rfl, fun _ there => there, fun _ _ => rfl⟩

theorem Spares.trans {h'' : Heap} (first : h.Spares spared h') (second : h'.Spares spared h'') :
    h.Spares spared h'' where
  same := fun n kept => (second.same n kept).trans (first.same n kept)
  grown := fun n there => second.grown n (first.grown n there)
  functions := fun id there =>
    (second.functions id (first.grown _ there)).trans (first.functions id there)

theorem FreeValue.mono {v : Value} (free : h.FreeValue spared v) (spares : h.Spares spared h') :
    h'.FreeValue spared v := fun n named => (free n named).mono spares

theorem SparingStep.trans {h'' : Heap} (first : h.SparingStep spared h')
    (second : h'.SparingStep spared h'') : h.SparingStep spared h'' :=
  ⟨second.1, first.2.trans second.2⟩

/-- Where the nodes that are not spared keep leading to such nodes, and the spared ones stay as
they are, the heap stays separated. -/
theorem Separated.of_links (separated : h.Separated spared) (spares : h.Spares spared h')
    (links : ∀ n c, ¬spared n → h'.cell? n = some c →
      h.cell? n = some c ∨ ∀ x ∈ c.links, h'.Free spared x) :
    h'.Separated spared := by
  refine ⟨fun n kept => spares.grown n (separated.has n kept), ?_⟩
  intro n x linked free
  obtain ⟨c, held, member⟩ := linked
  rcases links n c free held with same | reached
  · exact (separated.closed n x ⟨c, same, member⟩ free).mono spares
  · exact reached x member

/-- A cell that is not spared may be rewritten, so long as it leads nowhere new but to what is
free. -/
theorem Separated.rewrite (separated : h.Separated spared) {n : Node} {c d : Cell}
    (data : ∀ id, n ≠ .function id) (free : ¬spared n) (held : h.cell? n = some c)
    (here : h'.cell? n = some d) (others : ∀ m, m ≠ n → h'.cell? m = h.cell? m)
    (links : ∀ x ∈ d.links, x ∈ c.links ∨ h.Free spared x) :
    h.SparingStep spared h' := by
  have spares : h.Spares spared h' := by
    refine ⟨?_, ?_, fun id _ => others _ (data id).symm⟩
    · intro m kept
      exact others m fun same => free (same ▸ kept)
    · intro m there
      by_cases same : m = n
      · exact same ▸ has_of_cell here
      · unfold Has
        rw [others m same]
        exact there
  refine ⟨separated.of_links spares ?_, spares⟩
  intro m e _ found
  by_cases same : m = n
  · subst same
    obtain rfl : d = e := Option.some.inj (here.symm.trans found)
    refine .inr fun x member => ?_
    rcases links x member with linked | reached
    · exact (separated.closed m x ⟨c, held, linked⟩ free).mono spares
    · exact reached.mono spares
  · exact .inl (others m same ▸ found)

/-- A cell that leads to what is free may be added. -/
theorem Separated.add (separated : h.Separated spared) {n : Node} {c : Cell}
    (fresh : h.cell? n = none) (here : h'.cell? n = some c)
    (others : ∀ m, m ≠ n → h'.cell? m = h.cell? m) (links : ∀ x ∈ c.links, h.Free spared x) :
    h.SparingStep spared h' ∧ h'.Free spared n := by
  have missing : ¬h.Has n := by
    unfold Has
    rw [fresh]
    exact Bool.false_ne_true
  have old : ∀ m, h.Has m → h'.cell? m = h.cell? m := fun m there =>
    others m fun same => missing (same ▸ there)
  have spares : h.Spares spared h' := by
    refine ⟨fun m kept => old m (separated.has m kept), ?_, fun id there => old _ there⟩
    intro m there
    unfold Has
    rw [old m there]
    exact there
  refine ⟨⟨separated.of_links spares ?_, spares⟩, has_of_cell here,
    fun kept => missing (separated.has n kept)⟩
  intro m d _ found
  by_cases same : m = n
  · subst same
    obtain rfl : c = d := Option.some.inj (here.symm.trans found)
    exact .inr fun x member => (links x member).mono spares
  · exact .inl (others m same ▸ found)

/-! ### Changes of one cell -/

theorem Separated.modifyFrame (separated : h.Separated spared) {f : FrameId}
    (free : h.Free spared (.frame f)) {g : Bindings → Bindings}
    (kept : ∀ bs, ∀ b ∈ g bs, b ∈ bs ∨ h.FreeValue spared b.2) :
    h.SparingStep spared { h with scopes := h.scopes.modify f g } := by
  obtain ⟨c, held⟩ := free.1.cell
  obtain ⟨frame, found, rfl⟩ := Option.map_eq_some_iff.mp held
  apply separated.rewrite (n := .frame f) (d := .frame ⟨g frame.bindings, frame.parent⟩) nofun
    free.2 held
  · simp [cell?, ScopeTree.modify, Array.getElem?_modify, found]
  · intro m other
    cases m with
    | frame k =>
      have apart : f ≠ k := fun same => other (by rw [same])
      simp [cell?, ScopeTree.modify, Array.getElem?_modify, apart]
    | _ => rfl
  · intro x member
    rcases Cell.mem_links_frame.mp member with above | ⟨b, inside, named⟩
    · exact .inl (Cell.mem_links_frame.mpr (.inl above))
    · rcases kept _ b inside with old | new
      · exact .inl (Cell.mem_links_frame.mpr (.inr ⟨b, old, named⟩))
      · exact .inr (new x named)

theorem Separated.modifyView (separated : h.Separated spared) {a : ArrayId}
    (free : h.Free spared (.view a)) {g : View → View}
    (kept : ∀ v, (g v).storage = v.storage) :
    h.SparingStep spared
      { h with arrays := ⟨h.arrays.views.modify a g, h.arrays.storages⟩ } := by
  obtain ⟨c, held⟩ := free.1.cell
  obtain ⟨view, found, rfl⟩ := Option.map_eq_some_iff.mp held
  apply separated.rewrite (n := .view a) (d := .view (g view)) nofun free.2 held
  · simp [cell?, Array.getElem?_modify, found]
  · intro m other
    cases m with
    | view b =>
      have apart : a ≠ b := fun same => other (by rw [same])
      simp [cell?, Array.getElem?_modify, apart]
    | _ => rfl
  · intro x member
    rw [Cell.links, kept] at member
    exact .inl member

theorem Separated.modifyStorage (separated : h.Separated spared) {n : Nat}
    (free : h.Free spared (.storage n)) {g : Storage → Storage}
    (kept : ∀ s, ∀ v ∈ (g s).slots, v ∈ s.slots ∨ h.FreeValue spared v) :
    h.SparingStep spared
      { h with arrays := ⟨h.arrays.views, h.arrays.storages.modify n g⟩ } := by
  obtain ⟨c, held⟩ := free.1.cell
  obtain ⟨storage, found, rfl⟩ := Option.map_eq_some_iff.mp held
  apply separated.rewrite (n := .storage n) (d := .storage (g storage)) nofun free.2 held
  · simp [cell?, Array.getElem?_modify, found]
  · intro m other
    cases m with
    | storage k =>
      have apart : n ≠ k := fun same => other (by rw [same])
      simp [cell?, Array.getElem?_modify, apart]
    | _ => rfl
  · intro x member
    obtain ⟨v, inside, named⟩ := Cell.mem_links_storage.mp member
    rcases kept _ v inside with old | new
    · exact .inl (Cell.mem_links_storage.mpr ⟨v, old, named⟩)
    · exact .inr (new x named)

theorem Separated.modifyTable (separated : h.Separated spared) {id : HashId}
    (free : h.Free spared (.hash id)) {g : Table → Table}
    (kept : ∀ t, ∀ e ∈ (g t).entries,
      e ∈ t.entries ∨ h.FreeValue spared e.name ∧ h.FreeValue spared e.value) :
    h.SparingStep spared (h.modifyTable id g) := by
  obtain ⟨c, held⟩ := free.1.cell
  obtain ⟨table, found, rfl⟩ := Option.map_eq_some_iff.mp held
  apply separated.rewrite (n := .hash id) (d := .hash (g table)) nofun free.2 held
  · simp [cell?, Heap.modifyTable, Array.getElem?_modify, found]
  · intro m other
    cases m with
    | hash k =>
      have apart : id ≠ k := fun same => other (by rw [same])
      simp [cell?, Heap.modifyTable, Array.getElem?_modify, apart]
    | _ => rfl
  · intro x member
    obtain ⟨e, inside, named⟩ := Cell.mem_links_hash.mp member
    rcases kept _ e inside with old | ⟨name, value⟩
    · exact .inl (Cell.mem_links_hash.mpr ⟨e, old, named⟩)
    · exact .inr (named.elim (name x) (value x))

theorem Separated.pushFrame (separated : h.Separated spared) {f : FrameId}
    (free : h.Free spared (.frame f)) {bs : Bindings} (bound : ∀ b ∈ bs, h.FreeValue spared b.2) :
    h.SparingStep spared { h with scopes := ⟨h.scopes.frames.push ⟨bs, some f⟩⟩ } ∧
      Free spared { h with scopes := ⟨h.scopes.frames.push ⟨bs, some f⟩⟩ }
        (.frame h.scopes.frames.size) := by
  apply separated.add (c := .frame ⟨bs, some f⟩)
  · simp [cell?]
  · simp [cell?]
  · intro m other
    cases m with
    | frame k =>
      have apart : k ≠ h.scopes.frames.size := fun same => other (by rw [same])
      simp [cell?, Array.getElem?_push, apart]
    | _ => rfl
  · intro x member
    rcases Cell.mem_links_frame.mp member with ⟨p, same, rfl⟩ | ⟨b, inside, named⟩
    · cases same
      exact free
    · exact bound b inside x named

theorem Separated.pushView (separated : h.Separated spared) {v : View}
    (free : h.Free spared (.storage v.storage)) :
    h.SparingStep spared { h with arrays := ⟨h.arrays.views.push v, h.arrays.storages⟩ } ∧
      Free spared { h with arrays := ⟨h.arrays.views.push v, h.arrays.storages⟩ }
        (.view h.arrays.views.size) := by
  apply separated.add (c := .view v)
  · simp [cell?]
  · simp [cell?]
  · intro m other
    cases m with
    | view b =>
      have apart : b ≠ h.arrays.views.size := fun same => other (by rw [same])
      simp [cell?, Array.getElem?_push, apart]
    | _ => rfl
  · intro x member
    rw [Cell.links, List.mem_singleton] at member
    exact member ▸ free

theorem Separated.pushStorage (separated : h.Separated spared) {s : Storage}
    (held : ∀ v ∈ s.slots, h.FreeValue spared v) :
    h.SparingStep spared { h with arrays := ⟨h.arrays.views, h.arrays.storages.push s⟩ } ∧
      Free spared { h with arrays := ⟨h.arrays.views, h.arrays.storages.push s⟩ }
        (.storage h.arrays.storages.size) := by
  apply separated.add (c := .storage s)
  · simp [cell?]
  · simp [cell?]
  · intro m other
    cases m with
    | storage k =>
      have apart : k ≠ h.arrays.storages.size := fun same => other (by rw [same])
      simp [cell?, Array.getElem?_push, apart]
    | _ => rfl
  · intro x member
    obtain ⟨v, inside, named⟩ := Cell.mem_links_storage.mp member
    exact held v inside x named

theorem Separated.newHash (separated : h.Separated spared) {t : Table}
    (held : ∀ e ∈ t.entries, h.FreeValue spared e.name ∧ h.FreeValue spared e.value) :
    h.SparingStep spared (h.newHash t).2 ∧ (h.newHash t).2.Free spared (.hash h.tables.size) := by
  apply separated.add (c := .hash t)
  · simp [cell?]
  · simp [cell?, Heap.newHash]
  · intro m other
    cases m with
    | hash k =>
      have apart : k ≠ h.tables.size := fun same => other (by rw [same])
      simp [cell?, Heap.newHash, Array.getElem?_push, apart]
    | _ => rfl
  · intro x member
    obtain ⟨e, inside, named⟩ := Cell.mem_links_hash.mp member
    exact named.elim ((held e inside).1 x) ((held e inside).2 x)

theorem Separated.newFunction (separated : h.Separated spared) {c : Closure}
    (free : h.Free spared (.frame c.scope)) :
    h.SparingStep spared (h.newFunction c).2 ∧
      (h.newFunction c).2.Free spared (.function h.functions.size) := by
  apply separated.add (c := .function c)
  · simp [cell?]
  · simp [cell?, Heap.newFunction]
  · intro m other
    cases m with
    | function k =>
      have apart : k ≠ h.functions.size := fun same => other (by rw [same])
      simp [cell?, Heap.newFunction, Array.getElem?_push, apart]
    | _ => rfl
  · intro x member
    rw [Cell.links, List.mem_singleton] at member
    exact member ▸ free

end Heap

end Scripting
