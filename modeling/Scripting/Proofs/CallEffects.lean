import Scripting.Proofs.Evaluation
import Scripting.Proofs.Reachability

/-!
# What a call can touch

A call changes nothing but what the frame of the function and the arguments lead to. Whatever else
was there before is spared by every evaluation that starts out among the others.
-/

namespace Scripting

namespace Bindings

variable {bs : Bindings} {name : String}

theorem exists_of_find? {v : Value} (found : bs.find? name = some v) : ∃ b ∈ bs, b.2 = v := by
  induction bs with
  | nil => cases found
  | cons b bs ih =>
    rw [find?] at found
    split at found
    · exact ⟨b, List.mem_cons_self, Option.some.inj found⟩
    · obtain ⟨d, inside, same⟩ := ih found
      exact ⟨d, List.mem_cons_of_mem b inside, same⟩

theorem mem_of_mem_drop {b : String × Value} (member : b ∈ bs.drop name) : b ∈ bs := by
  induction bs with
  | nil => cases member
  | cons d bs ih =>
    rw [drop] at member
    split at member
    · exact List.mem_cons_of_mem d member
    · rcases List.mem_cons.mp member with rfl | inside
      · exact List.mem_cons_self
      · exact List.mem_cons_of_mem d (ih inside)

end Bindings

namespace Table

variable {t : Table} {k : Key}

theorem exists_of_find? {v : Value} (found : t.find? k = some v) :
    ∃ e ∈ t.entries, e.value = v := by
  obtain ⟨i, _, there⟩ := Option.bind_eq_some_iff.mp found
  obtain ⟨e, here, same⟩ := Option.map_eq_some_iff.mp there
  exact ⟨e, Array.mem_of_getElem? here, same⟩

theorem mem_or_eq_of_mem_put {name value : Value} {e : Entry}
    (member : e ∈ (t.put k name value).2.entries) : e ∈ t.entries ∨ e = ⟨k, name, value⟩ := by
  unfold put at member
  dsimp only at member
  split at member
  · exact Array.mem_or_eq_of_mem_setIfInBounds member
  · exact Array.mem_push.mp member

theorem mem_of_mem_erase {e : Entry} (member : e ∈ (t.erase k).2.entries) : e ∈ t.entries := by
  unfold erase at member
  split at member
  · exact member
  · rw [← Array.mem_toList_iff, Array.toList_eraseIdxIfInBounds] at member
    exact Array.mem_toList_iff.mp (List.mem_of_mem_eraseIdx member)

end Table

namespace Heap

variable {spared : Node → Prop} {h : Heap}

theorem getElem?_eq_getD {α : Type} {xs : Array α} {i : Nat} (there : xs[i]?.isSome) (d : α) :
    xs[i]? = some (xs.getD i d) := by
  obtain ⟨x, found⟩ := Option.isSome_iff_exists.mp there
  rw [Array.getD_eq_getD_getElem?, found, Option.getD_some]

theorem cell?_function {id : FunctionId} (there : h.Has (.function id)) :
    h.cell? (.function id) = some (.function (h.closure id)) :=
  congrArg (Option.map _) (getElem?_eq_getD (by simpa [Has, cell?] using there) _)

theorem cell?_view {a : ArrayId} (there : h.Has (.view a)) :
    h.cell? (.view a) = some (.view (h.arrays.view a)) :=
  congrArg (Option.map _) (getElem?_eq_getD (by simpa [Has, cell?] using there) _)

theorem cell?_storage {n : Nat} (there : h.Has (.storage n)) :
    h.cell? (.storage n) = some (.storage (h.arrays.storageAt n)) :=
  congrArg (Option.map _) (getElem?_eq_getD (by simpa [Has, cell?] using there) _)

theorem cell?_hash {id : HashId} (there : h.Has (.hash id)) :
    h.cell? (.hash id) = some (.hash (h.table id)) :=
  congrArg (Option.map _) (getElem?_eq_getD (by simpa [Has, cell?] using there) _)

theorem FreeValue.of_node {v : Value} {n : Node} (named : v.node? = some n)
    (free : h.Free spared n) : h.FreeValue spared v := by
  intro x other
  rw [named] at other
  cases other
  exact free

namespace Separated

variable (separated : h.Separated spared)

include separated

/-! ### What is read -/

theorem follow {n x : Node} {c : Cell} (free : h.Free spared n) (held : h.cell? n = some c)
    (member : x ∈ c.links) : h.Free spared x :=
  separated.closed n x ⟨c, held, member⟩ free.2

theorem parent {f p : FrameId} (free : h.Free spared (.frame f))
    (found : h.scopes.parent? f = some p) : h.Free spared (.frame p) := by
  obtain ⟨frame, held, above⟩ := Option.bind_eq_some_iff.mp found
  apply separated.follow free (c := .frame frame)
  · rw [cell?, held, Option.map_some]
  · exact Cell.mem_links_frame.mpr (.inl ⟨p, above, rfl⟩)

theorem binding {f : FrameId} {name : String} {v : Value} (free : h.Free spared (.frame f))
    (found : h.scopes.getCurrent f name = some v) : h.FreeValue spared v := by
  obtain ⟨frame, held, bound⟩ := Option.bind_eq_some_iff.mp found
  obtain ⟨b, inside, rfl⟩ := Bindings.exists_of_find? bound
  intro n named
  apply separated.follow free (c := .frame frame)
  · rw [cell?, held, Option.map_some]
  · exact Cell.mem_links_frame.mpr (.inr ⟨b, inside, named⟩)

theorem captured {id : FunctionId} (free : h.Free spared (.function id)) :
    h.Free spared (.frame (h.closure id).scope) :=
  separated.follow free (cell?_function free.1) (List.mem_singleton_self _)

theorem storage {a : ArrayId} (free : h.Free spared (.view a)) :
    h.Free spared (.storage (h.arrays.view a).storage) :=
  separated.follow free (cell?_view free.1) (List.mem_singleton_self _)

theorem slot {a : ArrayId} {i : Nat} {v : Value} (free : h.Free spared (.view a))
    (found : (h.arrays.slots a)[i]? = some v) : h.FreeValue spared v := by
  have below := separated.storage free
  intro n named
  apply separated.follow below (cell?_storage below.1)
  exact Cell.mem_links_storage.mpr ⟨v, Array.mem_of_getElem? found, named⟩

theorem entry {id : HashId} {k : Key} {v : Value} (free : h.Free spared (.hash id))
    (found : (h.table id).find? k = some v) : h.FreeValue spared v := by
  obtain ⟨e, inside, rfl⟩ := Table.exists_of_find? found
  intro n named
  apply separated.follow free (cell?_hash free.1)
  exact Cell.mem_links_hash.mpr ⟨e, inside, .inr named⟩

/-! ### What is changed in the arrays -/

theorem newArray {elements : Array Value} (held : ∀ v ∈ elements, h.FreeValue spared v) :
    h.SparingStep spared (h.newArray elements).2 ∧
      (h.newArray elements).2.FreeValue spared (h.newArray elements).1 := by
  obtain ⟨first, storage⟩ := separated.pushStorage (s := ⟨elements, 1⟩) held
  obtain ⟨second, view⟩ := first.1.pushView
    (v := ⟨h.arrays.storages.size, 0, elements.size⟩) storage
  exact ⟨first.trans second, .of_node rfl view⟩

theorem newView {a : ArrayId} (free : h.Free spared (.view a)) (low high : Nat) :
    h.SparingStep spared (h.newView a low high).2 ∧
      (h.newView a low high).2.FreeValue spared (h.newView a low high).1 := by
  have below := separated.storage free
  have first := separated.modifyStorage below (g := fun c => ⟨c.slots, c.views + 1⟩)
    fun _ _ inside => .inl inside
  obtain ⟨second, view⟩ := first.1.pushView
    (v := ⟨(h.arrays.view a).storage, (h.arrays.view a).start + low, high - low⟩)
    (below.mono first.2)
  exact ⟨first.trans second, .of_node rfl view⟩

theorem resize {a : ArrayId} (free : h.Free spared (.view a)) (length : Nat) :
    h.SparingStep spared { h with arrays := h.arrays.resize a length } :=
  separated.modifyView free fun _ => rfl

theorem write {n : Nat} {v : Value} (free : h.Free spared (.storage n)) (slot : Nat)
    (value : h.FreeValue spared v) :
    h.SparingStep spared { h with arrays := h.arrays.write n slot v } := by
  apply separated.modifyStorage free
  intro s w inside
  rcases Array.mem_or_eq_of_mem_setIfInBounds inside with old | rfl
  · exact .inl old
  · exact .inr value

theorem writeOrAppend {n : Nat} {v : Value} (free : h.Free spared (.storage n)) (slot : Nat)
    (value : h.FreeValue spared v) :
    h.SparingStep spared { h with arrays := h.arrays.writeOrAppend n slot v } := by
  apply separated.modifyStorage free
  intro s w inside
  dsimp only at inside
  split at inside
  · rcases Array.mem_or_eq_of_mem_setIfInBounds inside with old | rfl
    · exact .inl old
    · exact .inr value
  · rcases Array.mem_push.mp inside with old | rfl
    · exact .inl old
    · exact .inr value

theorem release {n : Nat} (free : h.Free spared (.storage n)) (slot : Nat) :
    h.SparingStep spared { h with arrays := h.arrays.release n slot } := by
  apply separated.modifyStorage free
  intro s w inside
  dsimp only at inside
  split at inside
  · rw [← Array.mem_toList_iff, Array.take_eq_extract, Array.toList_extract,
      List.extract_eq_take_drop] at inside
    exact .inl (Array.mem_toList_iff.mp (List.mem_of_mem_take inside))
  · exact .inl inside

theorem set {a : ArrayId} {v : Value} (free : h.Free spared (.view a)) (i : Nat)
    (value : h.FreeValue spared v) : h.SparingStep spared (h.onArrays (·.set a i v)).2 := by
  change h.SparingStep spared { h with arrays := (h.arrays.set a i v).2 }
  unfold ArrayStore.set
  dsimp only
  split
  · exact separated.write (separated.storage free) _ value
  · exact ⟨separated, .refl spared h⟩

theorem push {a : ArrayId} {v : Value} (free : h.Free spared (.view a))
    (value : h.FreeValue spared v) : h.SparingStep spared (h.onArrays (·.push a v)).2 := by
  have first := separated.writeOrAppend (separated.storage free)
    ((h.arrays.view a).start + (h.arrays.view a).length) value
  exact first.trans (first.1.resize (free.mono first.2) _)

theorem pop {a : ArrayId} (free : h.Free spared (.view a)) :
    h.SparingStep spared (h.onArrays (·.pop a)).2 := by
  change h.SparingStep spared { h with arrays := (h.arrays.pop a).2 }
  unfold ArrayStore.pop
  dsimp only
  split
  · exact ⟨separated, .refl spared h⟩
  · have first := separated.resize free ((h.arrays.view a).length - 1)
    exact first.trans (first.1.release ((separated.storage free).mono first.2) _)

end Separated

/-- Evaluation among the nodes that are not spared. -/
def sparing (spared : Node → Prop) : Discipline where
  Sound := Separated spared
  Open h f := h.Free spared (.frame f)
  Allowed := FreeValue spared
  Step := Spares spared
  refl := .refl spared
  trans := .trans
  open_mono := fun spares free => free.mono spares
  allowed_mono := fun spares free => free.mono spares
  plain := by
    intro h v plain n named
    cases v with
    | array | hash | function => cases plain
    | _ => cases named
  parent := fun separated free found => separated.parent free found
  binding := fun separated free found => separated.binding free found
  captured := fun separated free => separated.captured (free _ rfl)
  slot := fun separated free => separated.slot (free _ rfl)
  entry := fun separated free => separated.entry (free _ rfl)
  child := fun separated free bound => separated.pushFrame free bound
  bind := by
    intro h f name v separated free value
    apply separated.modifyFrame free
    intro bs b inside
    rcases Discipline.mem_put inside with old | rfl
    · exact .inl old
    · exact .inr value
  unbind := fun separated free =>
    separated.modifyFrame free fun _ _ inside => .inl (Bindings.mem_of_mem_drop inside)
  newArray := fun separated held => separated.newArray held
  newView := fun separated free _ _ => separated.newView (free _ rfl) _ _
  set := fun separated free _ value => separated.set (free _ rfl) _ value
  push := fun separated free value => separated.push (free _ rfl) value
  pop := fun separated free => separated.pop (free _ rfl)
  newHash := by
    intro h t separated _ held
    obtain ⟨step, free⟩ := separated.newHash held
    exact ⟨step, .of_node rfl free⟩
  putEntry := by
    intro h id k name v separated free named value
    apply separated.modifyTable (free _ rfl)
    intro t e inside
    rcases Table.mem_or_eq_of_mem_put inside with old | rfl
    · exact .inl old
    · exact .inr ⟨named, value⟩
  eraseEntry := fun separated free =>
    separated.modifyTable (free _ rfl) fun _ _ inside => .inl (Table.mem_of_mem_erase inside)
  newFunction := by
    intro h c separated free
    obtain ⟨step, made⟩ := separated.newFunction free
    exact ⟨step, .of_node rfl made⟩

theorem separated_nothing : h.Separated (fun _ => False) ↔ h.WellFormed := by
  constructor
  · intro separated n x linked
    exact (separated.closed n x linked id).1
  · intro formed
    exact ⟨nofun, fun n x linked _ => ⟨formed n x linked, id⟩⟩

/-- The frame of a function or an argument of its call leads to the node. -/
def ReachedByCall (h : Heap) (id : FunctionId) (args : List Value) (n : Node) : Prop :=
  h.Reaches (.frame (h.closure id).scope) n ∨
    ∃ v ∈ args, ∃ root, v.node? = some root ∧ h.Reaches root n

variable {id : FunctionId} {args : List Value}

theorem ReachedByCall.step {n x : Node} (reached : h.ReachedByCall id args n)
    (linked : h.Link n x) : h.ReachedByCall id args x := by
  rcases reached with captured | ⟨v, given, root, named, path⟩
  · exact .inl (captured.tail linked)
  · exact .inr ⟨v, given, root, named, path.tail linked⟩

/-- What is there, cannot be reached by a call, and is not the function itself, which a call handles
even where nothing leads back to it. -/
def UnreachedByCall (h : Heap) (id : FunctionId) (args : List Value) (n : Node) : Prop :=
  h.Has n ∧ ¬h.ReachedByCall id args n ∧ n ≠ .function id

theorem WellFormed.separated (formed : h.WellFormed) (id : FunctionId) (args : List Value) :
    h.Separated (h.UnreachedByCall id args) := by
  refine ⟨fun n unreached => unreached.1, ?_⟩
  intro n x linked reachable
  refine ⟨formed n x linked, fun unreached => unreached.2.1 ?_⟩
  have there : h.Has n := linked.elim fun _ held => has_of_cell held.1
  by_cases callee : n = .function id
  · -- The function itself leads to its frame only.
    subst callee
    obtain ⟨c, held, member⟩ := linked
    rw [cell?_function there] at held
    cases held
    rw [Cell.links, List.mem_singleton] at member
    exact member ▸ .inl .refl
  · have reached : h.ReachedByCall id args n := by
      by_contra away
      exact reachable ⟨there, away, callee⟩
    exact reached.step linked

end Heap

namespace Machine

variable {m m' : Machine} {completion : Completion}

/-- The heap is well-formed and the current frame is there. -/
structure WellFormed (m : Machine) : Prop where
  heap : m.heap.WellFormed
  scope : m.heap.Has (.frame m.scope)

theorem wellFormed_new (clock : Nat → String) : (new clock).WellFormed := by
  refine ⟨?_, rfl⟩
  change (Heap.mk .empty #[] ⟨#[⟨[], none⟩]⟩ #[]).WellFormed
  decide

/-- Whatever statements are run on a machine in order, it stays in order. -/
theorem WellFormed.evalStatements (formed : m.WellFormed) {ss : List (Stmt Unit)}
    (ended : m.evalStatements ss = some (completion, m')) : m'.WellFormed := by
  let D := Heap.sparing fun _ => False
  have ready : D.Ready m.heap m.scope :=
    ⟨Heap.separated_nothing.mpr formed.heap, formed.scope, id⟩
  have null : D.Allowed m.heap .null := D.plain _ rfl
  obtain ⟨advance, scope⟩ := keeps_complete
    (Discipline.keeps_statements (Discipline.keeps_parts D fuel) ready null ss) ended
  refine ⟨Heap.separated_nothing.mp advance.1, ?_⟩
  rw [scope]
  exact advance.2.grown _ formed.scope

/-- A call that ends, in whatever way, leaves everything that was there before as it was, unless
the frame of the function or an argument leads to it. -/
theorem unreached_unchanged_by_call (id : FunctionId) (args : List Value)
    (formed : m.heap.WellFormed) (callee : m.heap.Has (.function id))
    (given : ∀ v ∈ args, ∀ n, v.node? = some n → m.heap.Has n) (fuel : Nat)
    (ended : m.complete (Evaluation.execute (Evaluation.parts fuel) id args) =
      some (completion, m')) :
    (∀ n, m.heap.Has n → ¬m.heap.ReachedByCall id args n → m'.heap.cell? n = m.heap.cell? n) ∧
      m'.scope = m.scope ∧
      (m.heap.Has (.frame m.scope) → ¬m.heap.ReachedByCall id args (.frame m.scope) →
        m'.heap.scopes.frames[m.scope]? = m.heap.scopes.frames[m.scope]?) := by
  have separated := formed.separated id args
  have function : m.heap.FreeValue (m.heap.UnreachedByCall id args) (.function id) :=
    .of_node rfl ⟨callee, fun unreached => unreached.2.2 rfl⟩
  have arguments : ∀ v ∈ args, m.heap.FreeValue (m.heap.UnreachedByCall id args) v := by
    intro v member n named
    exact ⟨given v member n named, fun unreached =>
      unreached.2.1 (.inr ⟨v, member, n, named, .refl⟩)⟩
  obtain ⟨⟨_, spares⟩, scope⟩ := keeps_complete
    (Discipline.keeps_execute (D := Heap.sparing _) (Discipline.keeps_parts _ fuel) separated
      function arguments) ended
  have unchanged : ∀ n, m.heap.Has n → ¬m.heap.ReachedByCall id args n →
      m'.heap.cell? n = m.heap.cell? n := by
    intro n there unreached
    by_cases itself : n = .function id
    · subst itself
      exact spares.functions id there
    · exact spares.same n ⟨there, unreached, itself⟩
  refine ⟨unchanged, scope, fun there unreached => ?_⟩
  have same := unchanged _ there unreached
  exact Option.map_injective (fun _ _ => Cell.frame.inj) same

/-- A machine in a frame that hides the `total` of the frame around it. The function was made in the
outer frame; it stores its argument to `total` and then looks up a name that is not bound. -/
def shadowing : Machine :=
  let name (s : String) : Expr Unit := .identifier () ⟨s, ()⟩
  let body : Block Unit := .mk () [.expression () (.assign () .assign (name "total") (name "n")),
    .expression () (name "missing")]
  { heap :=
      { arrays := ⟨#[⟨0, 0, 1⟩], #[⟨#[.integer 5], 1⟩]⟩
        tables := #[]
        scopes := ⟨#[⟨[("total", .null), ("store", .function 0)], none⟩,
          ⟨[("total", .array 0)], some 0⟩]⟩
        functions := #[⟨["n"], body, 0⟩] }
    scope := 1
    sink := .empty
    cancellation := .never
    clock := ⟨fun _ => "", 0⟩ }

/-- The call has stored to the outer frame before it failed, but the frame and the array of the
caller are as they were. -/
theorem unreached_unchanged_by_call_shadowing : ∃ m', shadowing.complete
      (Evaluation.execute (Evaluation.parts 8) 0 [.integer 7]) =
        some (.failed (.unknownIdentifier "missing"), m') ∧
    m'.heap.scopes.getCurrent 0 "total" = some (.integer 7) ∧
    m'.heap.cell? (.storage 0) = shadowing.heap.cell? (.storage 0) ∧
    m'.heap.scopes.frames[1]? = shadowing.heap.scopes.frames[1]? := by
  have plain : ∀ v ∈ [Value.integer 7], ∀ n, v.node? ≠ some n := by
    simp [Value.node?]
  have unreached : ∀ n ∉ [Node.frame 0, .function 0],
      ¬shadowing.heap.ReachedByCall 0 [.integer 7] n := by
    intro n outside reached
    rcases reached with captured | ⟨v, given, root, named, _⟩
    · exact outside (captured.mem_of_closed (by decide) (by decide))
    · exact plain v given root named
  refine ⟨_, rfl, rfl, ?_⟩
  obtain ⟨unchanged, _, frame⟩ := unreached_unchanged_by_call (m := shadowing) 0 [.integer 7]
    (by decide) rfl (fun v given n named => absurd named (plain v given n)) 8 rfl
  exact ⟨unchanged (.storage 0) rfl (unreached _ (by decide)), frame rfl (unreached _ (by decide))⟩

end Machine

end Scripting
