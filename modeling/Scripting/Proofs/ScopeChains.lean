import Scripting.Proofs.Veils

/-!
# Frames as chains of maps

Each frame is a map from names to values, and the frames from one up to its root form a chain. A
lookup takes the first of them that binds the name. Whoever changes a tree through some frame
changes one binding at most (`Differs`), which may lie in a frame that others see as well; what
they see of it is said by the path from their frame up. `ScopeUse` hands out frames in any order,
and whatever was done with them, the tree is made of such chains.
-/

namespace Scripting

namespace Bindings

variable {bs : Bindings} {name n : String}

theorem map_fst_put (x : Value) : (bs.put name x).map Prod.fst =
    if name ∈ bs.map Prod.fst then bs.map Prod.fst else bs.map Prod.fst ++ [name] := by
  induction bs with
  | nil => simp [put]
  | cons b bs ih =>
    obtain ⟨m, v⟩ := b
    by_cases here : m = name
    · simp [put, here]
    · simp only [put, if_neg here, List.map_cons, ih, List.mem_cons, Ne.symm here, false_or]
      split <;> simp

theorem map_fst_drop : (bs.drop name).map Prod.fst = (bs.map Prod.fst).erase name := by
  induction bs with
  | nil => rfl
  | cons b bs ih =>
    obtain ⟨m, v⟩ := b
    by_cases here : m = name
    · simp [drop, here]
    · simp [drop, here, ih]

theorem nodup_put (single : (bs.map Prod.fst).Nodup) (x : Value) :
    ((bs.put name x).map Prod.fst).Nodup := by
  rw [map_fst_put]
  split
  · exact single
  · rename_i new
    rw [← List.concat_eq_append]
    exact single.concat new

theorem nodup_drop (single : (bs.map Prod.fst).Nodup) : ((bs.drop name).map Prod.fst).Nodup := by
  rw [map_fst_drop]
  exact single.erase name

theorem find?_eq_none (absent : n ∉ bs.map Prod.fst) : bs.find? n = none := by
  induction bs with
  | nil => rfl
  | cons b bs ih =>
    simp only [List.map_cons, List.mem_cons, not_or] at absent
    rw [find?, if_neg (Ne.symm absent.1), ih absent.2]

/-- Without a second binding of the name, taking one out leaves none. -/
theorem find?_drop (single : (bs.map Prod.fst).Nodup) :
    (bs.drop name).find? n = if name = n then none else bs.find? n := by
  induction bs with
  | nil => simp [drop, find?]
  | cons b bs ih =>
    obtain ⟨m, v⟩ := b
    simp only [List.map_cons, List.nodup_cons] at single
    rw [drop]
    by_cases here : m = name
    · subst here
      rw [if_pos rfl, find?]
      by_cases same : m = n
      · rw [if_pos same, ← same, find?_eq_none single.1]
      · rw [if_neg same, if_neg same]
    · rw [if_neg here, find?, find?, ih single.2]
      by_cases same : name = n
      · rw [if_pos same, if_pos same, if_neg fun equal => here (equal.trans same.symm)]
      · rw [if_neg same, if_neg same]

end Bindings

namespace ScopeTree

variable {t t' : ScopeTree} {f g o p : FrameId} {fs : List FrameId} {name n : String}

/-! ### The path to the root -/

/-- The frames from one up to its root, the nearest first. -/
inductive Path (t : ScopeTree) : FrameId → List FrameId → Prop where
  | root {f : FrameId} : f < t.frames.size → t.parent? f = none → Path t f [f]
  | inside {f p : FrameId} {fs : List FrameId} :
    t.parent? f = some p → Path t p fs → Path t f (f :: fs)

theorem Rooted.exists_path (rooted : t.Rooted f) : ∃ fs, t.Path f fs := by
  induction rooted with
  | root there top => exact ⟨_, .root there top⟩
  | inside above _ ih =>
    obtain ⟨fs, path⟩ := ih
    exact ⟨_, .inside above path⟩

/-- The frames around a frame are older. -/
theorem Path.le (path : t.Path f fs) (aged : t.Aged) : ∀ g ∈ fs, g ≤ f := by
  induction path with
  | root there top => simp
  | inside above path ih =>
    intro g held
    rcases List.mem_cons.mp held with rfl | held
    · exact Nat.le_refl _
    · exact Nat.le_of_lt (Nat.lt_of_le_of_lt (ih g held) (aged _ _ above))

theorem Path.congr (path : t.Path f fs) (size : t'.frames.size = t.frames.size)
    (parents : ∀ f, t'.parent? f = t.parent? f) : t'.Path f fs := by
  induction path with
  | root there top => exact .root (by rwa [size]) (by rwa [parents])
  | inside above path ih => exact .inside (by rwa [parents]) ih

/-- A name is looked up in the frame and, if it is not bound there, from the frame around it. -/
theorem get_of_some {v : Value} (bound : t.getCurrent f name = some v) :
    t.get f name = some v := by
  rw [get, owner_of_some bound]
  exact bound

theorem get_of_none (aged : t.Aged) (unbound : t.getCurrent f name = none) :
    t.get f name = (t.parent? f).bind (t.get · name) := by
  rw [get, owner_of_none aged unbound]
  cases t.parent? f <;> rfl

/-- The owner of a name is the first frame on the path that binds it. -/
theorem Path.owner_eq (path : t.Path f fs) (aged : t.Aged) (name : String) :
    t.owner f name = fs.find? fun g => (t.getCurrent g name).isSome := by
  induction path with
  | @root f there top =>
    cases bound : t.getCurrent f name with
    | some v => simp [owner_of_some bound, bound]
    | none => simp [owner_of_none aged bound, bound, top]
  | @inside f p fs above path ih =>
    cases bound : t.getCurrent f name with
    | some v => simp [owner_of_some bound, bound]
    | none => simp [owner_of_none aged bound, bound, above, ih]

/-- The value of a name is that of the first frame on the path that binds it. -/
theorem Path.get_eq (path : t.Path f fs) (aged : t.Aged) (name : String) :
    t.get f name = fs.findSome? (t.getCurrent · name) := by
  induction path with
  | @root f there top =>
    cases bound : t.getCurrent f name with
    | some v => simp [get_of_some bound, bound]
    | none => simp [get_of_none aged bound, bound, top]
  | @inside f p fs above path ih =>
    cases bound : t.getCurrent f name with
    | some v => simp [get_of_some bound, bound]
    | none => simp [get_of_none aged bound, bound, above, ih]

/-- A name has a value exactly if some frame on the path owns it. -/
theorem isSome_get : (t.get f name).isSome = (t.owner f name).isSome := by
  rw [get]
  cases found : t.owner f name with
  | none => rfl
  | some o => exact isSome_of_owner found

/-! ### One binding changed -/

/-- A lookup of the name along these frames comes to the given frame before any that binds the
name. -/
def Passes (t : ScopeTree) (name : String) (o : FrameId) (fs : List FrameId) : Prop :=
  fs.find? (fun f => f = o ∨ (t.getCurrent f name).isSome) = some o

/-- The second tree differs from the first one in the binding of a name in one frame at most, and
this is `now` what it is. Nothing else is changed, and only lookups that come to this binding first
can tell. -/
structure Differs (t t' : ScopeTree) (o : FrameId) (name : String) (now : Option Value) : Prop where
  size : t'.frames.size = t.frames.size
  parents : ∀ f, t'.parent? f = t.parent? f
  here : t'.getCurrent o name = now
  elsewhere : ∀ f n, ¬ (f = o ∧ n = name) → t'.getCurrent f n = t.getCurrent f n
  passing : ∀ f fs, t.Path f fs → t.Passes name o fs → t'.get f name = t'.get o name
  others : ∀ f fs n, t.Path f fs → ¬ (n = name ∧ t.Passes name o fs) → t'.get f n = t.get f n

theorem findSome?_elsewhere
    (elsewhere : ∀ f n, ¬ (f = o ∧ n = name) → t'.getCurrent f n = t.getCurrent f n)
    (other : ¬ (n = name ∧ t.Passes name o fs)) :
    fs.findSome? (t'.getCurrent · n) = fs.findSome? (t.getCurrent · n) := by
  induction fs with
  | nil => rfl
  | cons f fs ih =>
    by_cases same : n = name
    · subst same
      simp only [Passes, true_and, List.find?_cons] at other ih
      by_cases here : f = o
      · simp [here] at other
      · rw [List.findSome?_cons, List.findSome?_cons, elsewhere f n fun both => here both.1]
        cases bound : t.getCurrent f n with
        | some v => rfl
        | none => exact ih (by simpa [here, bound] using other)
    · rw [List.findSome?_cons, List.findSome?_cons, elsewhere f n fun both => same both.2]
      cases t.getCurrent f n with
      | some v => rfl
      | none => exact ih fun both => same both.1

theorem Path.get_passing (path : t.Path f fs) (aged : t'.Aged)
    (parents : ∀ f, t'.parent? f = t.parent? f)
    (elsewhere : ∀ f, f ≠ o → t'.getCurrent f name = t.getCurrent f name)
    (passes : t.Passes name o fs) : t'.get f name = t'.get o name := by
  unfold Passes at passes
  induction path with
  | @root f there top =>
    have found := List.mem_of_find?_eq_some passes
    rw [List.mem_singleton.mp found]
  | @inside f p fs above path ih =>
    by_cases here : f = o
    · rw [here]
    · cases bound : t.getCurrent f name with
      | some v => simp [here, bound] at passes
      | none =>
        rw [get_of_none aged (by rw [elsewhere f here, bound]), parents, above]
        exact ih (by simpa [List.find?_cons, here, bound] using passes)

theorem getCurrent_modify (o : FrameId) (change : Bindings → Bindings) (f : FrameId)
    (name : String) : (t.modify o change).getCurrent f name =
      (t.frames[f]?.map Frame.bindings).bind fun bs =>
        (if o = f then change bs else bs).find? name := by
  rw [getCurrent_eq_bind, bindings_modify]
  split <;> cases t.frames[f]? <;> rfl

/-- What changes the bindings of a frame at one name only, changes the tree there only. -/
theorem Differs.of_modify (aged : t.Aged) (there : o < t.frames.size)
    {change : Bindings → Bindings} {now : Option Value}
    (changed : ∀ frame, t.frames[o]? = some frame → ∀ n,
      (change frame.bindings).find? n = if name = n then now else frame.bindings.find? n) :
    t.Differs (t.modify o change) o name now := by
  obtain ⟨frame, held⟩ : ∃ frame, t.frames[o]? = some frame := ⟨_, Array.getElem?_eq_getElem there⟩
  have here : (t.modify o change).getCurrent o name = now := by
    rw [getCurrent_modify, held]
    simp [changed frame held]
  have elsewhere : ∀ f n, ¬ (f = o ∧ n = name) →
      (t.modify o change).getCurrent f n = t.getCurrent f n := by
    intro f n other
    rw [getCurrent_modify, getCurrent_eq_bind]
    by_cases same : o = f
    · subst same
      have distinct : name ≠ n := fun equal => other ⟨rfl, equal.symm⟩
      simp [held, changed frame held, distinct]
    · simp only [if_neg same]
  have aged' := aged.modify o change
  have parents := parent?_modify (t := t) o change
  have size := size_modify (t := t) o change
  refine ⟨size, parents, here, elsewhere, fun f fs path passes => ?_, fun f fs n path other => ?_⟩
  · exact path.get_passing aged' parents (fun f apart => elsewhere f name (by simp [apart])) passes
  · rw [(path.congr size parents).get_eq aged', path.get_eq aged]
    exact findSome?_elsewhere elsewhere other

/-- No frame binds a name twice. -/
def Single (t : ScopeTree) : Prop :=
  ∀ (f : FrameId) (frame : Frame), t.frames[f]? = some frame →
    (frame.bindings.map Prod.fst).Nodup

theorem Single.push (single : t.Single) (parent : Option FrameId) :
    Single ⟨t.frames.push ⟨[], parent⟩⟩ := by
  intro f frame held
  rw [Array.getElem?_push] at held
  split at held
  · cases held
    exact List.nodup_nil
  · exact single f frame held

theorem Single.modify (single : t.Single) (o : FrameId) {change : Bindings → Bindings}
    (keeps : ∀ bs : Bindings, (bs.map Prod.fst).Nodup → ((change bs).map Prod.fst).Nodup) :
    (t.modify o change).Single := by
  intro f frame held
  rw [ScopeTree.modify, Array.getElem?_modify] at held
  split at held
  · obtain ⟨old, found, rfl⟩ := Option.map_eq_some_iff.mp held
    exact keeps _ (single f old found)
  · exact single f frame held

/-- A name is bound in frames that are there. -/
theorem lt_size_of_owner (found : t.owner f name = some o) : o < t.frames.size := by
  have bound := isSome_of_owner found
  by_contra beyond
  rw [getCurrent, Array.getElem?_eq_none (Nat.le_of_not_lt beyond)] at bound
  cases bound

theorem differs_put (aged : t.Aged) (there : o < t.frames.size) (name : String) (x : Value) :
    t.Differs (t.modify o (·.put name x)) o name (some x) :=
  .of_modify aged there fun _ _ _ => Bindings.find?_put x

theorem differs_drop (aged : t.Aged) (single : t.Single) (there : o < t.frames.size)
    (name : String) : t.Differs (t.modify o (·.drop name)) o name none :=
  .of_modify aged there fun frame held _ => Bindings.find?_drop (single o frame held)

/-- What a lookup goes through, if the first frame that binds the name no longer does. -/
theorem Path.filterMap_tail (path : t.Path f fs) (aged : t.Aged)
    (found : fs.find? (fun g => (t.getCurrent g name).isSome) = some o)
    (differs : t.Differs t' o name none) :
    fs.filterMap (t'.getCurrent · name) = (fs.filterMap (t.getCurrent · name)).tail := by
  induction path with
  | @root f there top =>
    obtain rfl := List.mem_singleton.mp (List.mem_of_find?_eq_some found)
    cases bound : t.getCurrent o name <;> simp [differs.here, bound]
  | @inside f p fs above path ih =>
    cases bound : t.getCurrent f name with
    | some v =>
      -- The frame itself loses its binding; those around it are older and keep theirs.
      obtain rfl : f = o := by simpa [bound] using found
      have kept : ∀ g ∈ fs, t'.getCurrent g name = t.getCurrent g name := by
        intro g held
        refine differs.elsewhere g name fun both => ?_
        have older := Nat.lt_of_le_of_lt (path.le aged g held) (aged f p above)
        exact Nat.ne_of_lt older both.1
      simp [differs.here, bound, List.filterMap_congr kept]
    | none =>
      have inner : fs.find? (fun g => (t.getCurrent g name).isSome) = some o := by
        simpa [bound] using found
      have apart : f ≠ o := by
        rintro rfl
        have owned := List.find?_some found
        simp [bound] at owned
      simp [differs.elsewhere f name (by simp [apart]), bound, ih inner]

/-- A reset changes the binding in the first frame on the path that has one. -/
theorem Path.reset (path : t.Path f fs) (aged : t.Aged) (name : String) (x : Value) :
    (t.reset f name x).1 = (t.get f name).isSome ∧
    match fs.find? fun g => (t.getCurrent g name).isSome with
    | some o => t.Differs (t.reset f name x).2 o name (some x)
    | none => (t.reset f name x).2 = t := by
  rw [isSome_get, ← path.owner_eq aged name]
  unfold ScopeTree.reset
  cases found : t.owner f name with
  | none => exact ⟨rfl, rfl⟩
  | some o => exact ⟨rfl, differs_put aged (lt_size_of_owner found) name x⟩

/-- A deletion takes out the binding in the first frame on the path that has one. -/
theorem Path.delete (path : t.Path f fs) (aged : t.Aged) (single : t.Single) (name : String) :
    (t.delete f name).1 = t.get f name ∧
    match fs.find? fun g => (t.getCurrent g name).isSome with
    | some o => t.Differs (t.delete f name).2 o name none
    | none => (t.delete f name).2 = t := by
  rw [get, ← path.owner_eq aged name]
  unfold ScopeTree.delete
  cases found : t.owner f name with
  | none => exact ⟨rfl, rfl⟩
  | some o => exact ⟨rfl, differs_drop aged single (lt_size_of_owner found) name⟩

/-- What a deletion uncovers is the next binding on the path. -/
theorem Path.get_delete (path : t.Path f fs) (aged : t.Aged) (single : t.Single) (name : String) :
    (t.delete f name).2.get f name = (fs.filterMap (t.getCurrent · name)).tail.head? := by
  have deleted := (path.delete aged single name).2
  cases found : fs.find? fun g => (t.getCurrent g name).isSome with
  | none =>
    rw [found] at deleted
    rw [show (t.delete f name).2 = t from deleted, path.get_eq aged]
    have unbound : ∀ g ∈ fs, t.getCurrent g name = none := by simpa using found
    rw [List.findSome?_eq_none_iff.mpr unbound, List.filterMap_eq_nil_iff.mpr unbound]
    rfl
  | some o =>
    rw [found] at deleted
    have differs : t.Differs (t.delete f name).2 o name none := deleted
    have aged' : (t.delete f name).2.Aged := by
      intro g p above
      rw [differs.parents] at above
      exact aged g p above
    rw [(path.congr differs.size differs.parents).get_eq aged', ← List.head?_filterMap,
      path.filterMap_tail aged found differs]

/-- The second tree has one more frame, which is empty and lies inside `around`. -/
structure Gains (t t' : ScopeTree) (o : FrameId) (around : Option FrameId) : Prop where
  new : o = t.frames.size
  size : t'.frames.size = t.frames.size + 1
  parent : t'.parent? o = around
  parents : ∀ f, f ≠ o → t'.parent? f = t.parent? f
  empty : ∀ n, t'.getCurrent o n = none
  bindings : ∀ f n, t'.getCurrent f n = t.getCurrent f n
  lookup : ∀ n, t'.get o n = around.bind (t.get · n)
  others : ∀ f fs n, t.Path f fs → t'.get f n = t.get f n

theorem Path.push (path : t.Path f fs) (frame : Frame) :
    Path ⟨t.frames.push frame⟩ f fs := by
  have kept : ∀ f < t.frames.size, ScopeTree.parent? ⟨t.frames.push frame⟩ f = t.parent? f :=
    (extends_push frame).parents
  induction path with
  | root there top => exact .root (by simpa using Nat.lt_succ_of_lt there) (by rwa [kept _ there])
  | inside above path ih => exact .inside (by rwa [kept _ (lt_size_of_parent above)]) ih

theorem gains_push (aged : t.Aged) {around : Option FrameId}
    (there : ∀ p, around = some p → p < t.frames.size) :
    t.Gains ⟨t.frames.push ⟨[], around⟩⟩ t.frames.size around := by
  have aged' : Aged ⟨t.frames.push ⟨[], around⟩⟩ := aged.push there
  have bindings : ∀ f n,
      ScopeTree.getCurrent ⟨t.frames.push ⟨[], around⟩⟩ f n = t.getCurrent f n := by
    intro f n
    unfold getCurrent
    rw [Array.getElem?_push]
    split
    · rename_i last
      simp [last, Bindings.find?]
    · rfl
  have empty : ∀ n, ScopeTree.getCurrent ⟨t.frames.push ⟨[], around⟩⟩ t.frames.size n = none := by
    intro n
    rw [bindings, getCurrent, Array.getElem?_eq_none (Nat.le_refl _)]
    rfl
  have others : ∀ f fs n, t.Path f fs →
      ScopeTree.get ⟨t.frames.push ⟨[], around⟩⟩ f n = t.get f n := by
    intro f fs n path
    rw [(path.push _).get_eq aged', path.get_eq aged]
    simp only [bindings]
  refine ⟨rfl, by simp, ?_, fun f apart => ?_, empty, bindings, fun n => ?_, others⟩
  · rw [parent?_push, if_pos rfl]
  · rw [parent?_push, if_neg apart]
  · rw [get_of_none aged' (empty n), parent?_push, if_pos rfl]
    cases around with
    | none => rfl
    | some p =>
      obtain ⟨fs, path⟩ := (aged.rooted (there p rfl)).exists_path
      exact others p fs n path

end ScopeTree

/-- What is done with frames. A frame is known by the handles that were given out for it, each of
which has a number. -/
inductive ScopeOp where
  | new
  | child (handle : Nat)
  /-- Another handle of the same frame. -/
  | clone (handle : Nat)
  | define (handle : Nat) (name : String) (x : Value)
  | reset (handle : Nat) (name : String) (x : Value)
  | delete (handle : Nat) (name : String)
  | get (handle : Nat) (name : String)
  | getCurrent (handle : Nat) (name : String)

/-- Frames and the handles given out for them. -/
structure ScopeUse where
  tree : ScopeTree
  handles : Array FrameId

namespace ScopeUse

/-- Nothing was made yet. -/
def start : ScopeUse := ⟨.empty, #[]⟩

/-- Gives out a handle for a new frame. -/
def hold (u : ScopeUse) : FrameId × ScopeTree → ScopeUse
  | (f, t) => ⟨t, u.handles.push f⟩

/-- Goes on with the frame of a handle. Without such a handle nothing can be done. -/
def through (u : ScopeUse) (handle : Nat) (next : FrameId → ScopeUse) : ScopeUse :=
  match u.handles[handle]? with
  | some f => next f
  | none => u

/-- Carries out one operation. -/
def step (u : ScopeUse) : ScopeOp → ScopeUse
  | .new => u.hold u.tree.root
  | .child h => u.through h fun f => u.hold (u.tree.child f)
  | .clone h => u.through h fun f => { u with handles := u.handles.push f }
  | .define h n x => u.through h fun f => { u with tree := u.tree.define f n x }
  | .reset h n x => u.through h fun f => { u with tree := (u.tree.reset f n x).2 }
  | .delete h n => u.through h fun f => { u with tree := (u.tree.delete f n).2 }
  | .get _ _ | .getCurrent _ _ => u

/-- Carries out operations in turn. -/
def run (ops : List ScopeOp) : ScopeUse := ops.foldl step start

/-- Parents are older, no frame binds a name twice, and every handle leads to a frame. -/
structure Sound (u : ScopeUse) : Prop where
  aged : u.tree.Aged
  single : u.tree.Single
  held : ∀ f ∈ u.handles, f < u.tree.frames.size

namespace Sound

variable {u : ScopeUse}

theorem hold_push (sound : u.Sound) {around : Option FrameId}
    (there : ∀ p, around = some p → p < u.tree.frames.size) :
    (u.hold (u.tree.frames.size, ⟨u.tree.frames.push ⟨[], around⟩⟩)).Sound where
  aged := sound.aged.push there
  single := sound.single.push around
  held := by
    intro f given
    show f < (u.tree.frames.push _).size
    rw [Array.size_push]
    rcases Array.mem_push.mp given with old | rfl
    · exact Nat.lt_succ_of_lt (sound.held f old)
    · exact Nat.lt_succ_self _

theorem modify (sound : u.Sound) (o : FrameId) {change : Bindings → Bindings}
    (keeps : ∀ bs : Bindings, (bs.map Prod.fst).Nodup → ((change bs).map Prod.fst).Nodup) :
    Sound { u with tree := u.tree.modify o change } where
  aged := sound.aged.modify o change
  single := sound.single.modify o keeps
  held := by
    intro f given
    rw [ScopeTree.size_modify]
    exact sound.held f given

theorem through (sound : u.Sound) (handle : Nat) {next : FrameId → ScopeUse}
    (there : ∀ f ∈ u.handles, (next f).Sound) : (u.through handle next).Sound := by
  unfold ScopeUse.through
  split
  · rename_i f given
    exact there f (Array.mem_of_getElem? given)
  · exact sound

theorem step (sound : u.Sound) (op : ScopeOp) : (u.step op).Sound := by
  cases op with
  | new => exact sound.hold_push nofun
  | child h =>
    refine sound.through h fun f given => sound.hold_push fun p same => ?_
    cases same
    exact sound.held f given
  | clone h =>
    refine sound.through h fun f given => ⟨sound.aged, sound.single, fun g again => ?_⟩
    rcases Array.mem_push.mp again with old | rfl
    · exact sound.held g old
    · exact sound.held g given
  | define h n x =>
    exact sound.through h fun f _ => sound.modify f fun _ single => Bindings.nodup_put single x
  | reset h n x =>
    refine sound.through h fun f _ => ?_
    unfold ScopeTree.reset
    split
    · exact sound.modify _ fun _ single => Bindings.nodup_put single x
    · exact sound
  | delete h n =>
    refine sound.through h fun f _ => ?_
    unfold ScopeTree.delete
    split
    · exact sound.modify _ fun _ single => Bindings.nodup_drop single
    · exact sound
  | get h n => exact sound
  | getCurrent h n => exact sound

end Sound

theorem sound_start : start.Sound where
  aged := by
    intro f p above
    exact absurd (ScopeTree.lt_size_of_parent above) (Nat.not_lt_zero f)
  single := by
    intro f frame held
    simp [start, ScopeTree.empty] at held
  held := by
    intro f given
    simp [start] at given

theorem sound_run (ops : List ScopeOp) : (run ops).Sound := by
  unfold run
  generalize begun : start = u
  have sound : u.Sound := begun ▸ sound_start
  clear begun
  induction ops generalizing u with
  | nil => exact sound
  | cons op ops ih => exact ih (u.step op) (sound.step op)

/-- The frames are chains of maps, and every operation on one of them acts as it does on a chain. -/
structure Chained (u : ScopeUse) : Prop where
  /-- The way up from every frame ends at a root. -/
  path : ∀ f ∈ u.handles, ∃ fs, u.tree.Path f fs
  /-- The value of a name is that in the first frame that binds it. -/
  get : ∀ f fs, u.tree.Path f fs → ∀ n, u.tree.get f n = fs.findSome? (u.tree.getCurrent · n)
  /-- A new frame is empty and changes nothing for the others. -/
  root : u.tree.Gains u.tree.root.2 u.tree.root.1 none
  child : ∀ f ∈ u.handles, u.tree.Gains (u.tree.child f).2 (u.tree.child f).1 (some f)
  /-- A definition changes the frame's own binding of the name. -/
  define : ∀ f ∈ u.handles, ∀ n x, u.tree.Differs (u.tree.define f n x) f n (some x)
  /-- A reset changes the binding in the first frame that has one, and says whether there is. -/
  reset : ∀ f fs, u.tree.Path f fs → ∀ n x,
    (u.tree.reset f n x).1 = (u.tree.get f n).isSome ∧
    match fs.find? fun g => (u.tree.getCurrent g n).isSome with
    | some o => u.tree.Differs (u.tree.reset f n x).2 o n (some x)
    | none => (u.tree.reset f n x).2 = u.tree
  /-- A deletion takes that binding out and gives its value. -/
  delete : ∀ f fs, u.tree.Path f fs → ∀ n,
    (u.tree.delete f n).1 = u.tree.get f n ∧
    match fs.find? fun g => (u.tree.getCurrent g n).isSome with
    | some o => u.tree.Differs (u.tree.delete f n).2 o n none
    | none => (u.tree.delete f n).2 = u.tree
  /-- After a deletion the next binding further up is seen. -/
  uncover : ∀ f fs, u.tree.Path f fs → ∀ n,
    (u.tree.delete f n).2.get f n = (fs.filterMap (u.tree.getCurrent · n)).tail.head?

/-- Whatever is done with frames, in whatever order and through whatever handles, they are chains
of maps. -/
theorem chained_after_run (ops : List ScopeOp) : (run ops).Chained := by
  have sound := sound_run ops
  generalize run ops = u at sound
  exact
    { path := fun f given => (sound.aged.rooted (sound.held f given)).exists_path
      get := fun f fs path n => path.get_eq sound.aged n
      root := ScopeTree.gains_push sound.aged nofun
      child := fun f given => ScopeTree.gains_push sound.aged (by
        rintro p ⟨⟩
        exact sound.held f given)
      define := fun f given n x => ScopeTree.differs_put sound.aged (sound.held f given) n x
      reset := fun f fs path n x => path.reset sound.aged n x
      delete := fun f fs path n => path.delete sound.aged sound.single n
      uncover := fun f fs path n => path.get_delete sound.aged sound.single n }

example : (run [.new, .child 0, .child 0, .define 0 "a" (.integer 1),
    .reset 1 "a" (.integer 2)]).tree.get 2 "a" = some (.integer 2) := by
  rfl

end ScopeUse

end Scripting
