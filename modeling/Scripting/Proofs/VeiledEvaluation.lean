import Scripting.Proofs.Coupling
import Scripting.Proofs.Unfoldings
import Scripting.Proofs.Veils

/-!
# Evaluation looks through a veil

Two machines are `Twins` if their heaps are alike and code that keeps to some usage of names may be
evaluated in the current frames of both. Such code then ends in the same way on both of them, and
the machines that it leaves are alike again: `Veil.tracks_parts`, by induction on fuel from one
lemma for each construct.
-/

namespace Scripting

open Evaluation Machine

/-- The outcome with another state. -/
def Outcome.mapState {σ τ ε α : Type} (f : σ → τ) : Outcome σ ε α → Outcome τ ε α
  | .done a s => .done a (f s)
  | .failed e s => .failed e (f s)
  | .exhausted => .exhausted

namespace Heap

/-- The heap with other frames and functions. -/
def withFrames (h : Heap) (scopes : ScopeTree) (functions : Array Closure) : Heap :=
  { h with scopes, functions }

/-! ### Collections change in the same way whatever the frames are -/

/-- The change does not look at frames and functions, and leaves them. -/
def OnCollections {α : Type} (change : Heap → α × Heap) : Prop :=
  ∀ h s fs, change (h.withFrames s fs) = ((change h).1, (change h).2.withFrames s fs)

theorem onCollections_valueOfCut (c : Cut) : OnCollections (·.valueOfCut c) := by
  intro h s fs
  cases c <;> rfl

theorem perform_withFrames (c : Change) (h : Heap) (s : ScopeTree) (fs : Array Closure) :
    (h.withFrames s fs).perform c = (h.perform c).withFrames s fs := by
  cases c <;> rfl

theorem pushAll_withFrames (a : ArrayId) (vs : List Value) (h : Heap) (s : ScopeTree)
    (fs : Array Closure) :
    pushAll a vs (h.withFrames s fs) = (pushAll a vs h).mapState (·.withFrames s fs) := by
  induction vs generalizing h with
  | nil => rfl
  | cons v vs ih => exact ih (h.onArrays (·.push a v)).2

theorem callMethod_withFrames (object : Value) (name : String) (args : List Value) (h : Heap)
    (s : ScopeTree) (fs : Array Closure) :
    callMethod object name args (h.withFrames s fs) =
      (callMethod object name args h).mapState (·.withFrames s fs) := by
  unfold callMethod
  split
  · unfold textMethod
    split
    · split <;> rfl
    · split <;> rfl
    · split <;> rfl
    · rfl
  · rename_i a
    unfold arrayMethod
    split
    · rw [Attempt.bind_run, Attempt.bind_run, pushAll_withFrames]
      cases pushAll a args h <;> rfl
    · unfold popLast
      dsimp only [withFrames, onArrays]
      rcases h.arrays.pop a with ⟨_ | v, arrays⟩ <;> rfl
    · rfl
  · rfl

end Heap

namespace Evaluation

/-- What a round of a loop does when its body has ended. -/
def afterBody (p : Parts) (condition update : Option (Expr Unit)) :
    Except Stop Value → Eval (Value × Bool)
  | .ok v => endRound p condition update v
  | .error .continued => endRound p condition update .null
  | .error .broke => pure (.null, false)
  | .error (.returned v) => .fail (.returned v)
  | .error (.error e) => raise e

theorem forRound_eq (p : Parts) (condition update : Option (Expr Unit)) (b : Block Unit) :
    forRound p condition update b = (block p b).capture >>= afterBody p condition update := rfl

end Evaluation

namespace Veil

variable {V : Veil} {u : Usage} {h k : Heap} {m n m' n' : Machine} {α β : Type}

/-! ### What is worked out from a heap -/

namespace Alike

variable (alike : V.Alike h k)
include alike

theorem table (id : HashId) : k.table id = h.table id := by
  rw [Heap.table, Heap.table, alike.tables]

theorem render : k.render = h.render := by
  have functions : ∀ id, (k.closure id).render = (h.closure id).render := by
    intro id
    rw [Closure.render, Closure.render, (alike.closures id).parameters, (alike.closures id).body]
  funext v
  refine Heap.renderWithin_congr functions fun path w shorter found => ?_
  cases w with
  | array a => exact congrFun (congrArg ArrayStore.elements alike.arrays) a
  | hash id => exact congrArg Table.pairs (alike.table id)
  | _ => trivial

theorem applyInfix (op : InfixOperator) (x y : Value) :
    Scripting.applyInfix k op x y = Scripting.applyInfix h op x y := by
  unfold Scripting.applyInfix
  rw [alike.render]

theorem applyAssign (op : AssignOperator) (old new : Value) :
    Scripting.applyAssign k op old new = Scripting.applyAssign h op old new := by
  unfold Scripting.applyAssign
  rw [alike.render]

theorem read (c i : Value) : k.read c i = h.read c i := by
  unfold Heap.read
  simp only [alike.arrays, alike.table]

theorem cut (c low : Value) (high : Option Value) : k.cut c low high = h.cut c low high := by
  unfold Heap.cut
  rw [alike.arrays]

theorem assignment (c i : Value) (op : AssignOperator) (v : Value) :
    k.assignment c i op v = h.assignment c i op v := by
  unfold Heap.assignment
  simp only [alike.arrays, alike.table, alike.applyAssign]

theorem deletion (c i : Value) : k.deletion c i = h.deletion c i := by
  unfold Heap.deletion
  simp only [alike.arrays, alike.table]

theorem toInteger (v : Value) : Evaluation.toInteger k v = Evaluation.toInteger h v := by
  unfold Evaluation.toInteger
  rw [alike.render]

/-- The heaps hold the same collections, so one is the other with its own frames. -/
theorem eq_withFrames : k = h.withFrames k.scopes k.functions := by
  obtain ⟨arrays, tables, scopes, functions⟩ := k
  cases alike.arrays
  cases alike.tables
  rfl

theorem withFrames (h' : Heap) :
    V.Alike (h'.withFrames h.scopes h.functions) (h'.withFrames k.scopes k.functions) :=
  alike.of_collections rfl rfl rfl rfl rfl rfl

end Alike

/-! ### Two machines -/

/-- The heaps are alike, and what the machines are connected to is the same. -/
structure Paired (V : Veil) (m n : Machine) : Prop where
  heap : V.Alike m.heap n.heap
  sink : n.sink = m.sink
  cancellation : n.cancellation = m.cancellation
  clock : n.clock = m.clock

/-- Code that keeps to the usage may be evaluated on both machines. -/
structure Twins (V : Veil) (u : Usage) (m n : Machine) : Prop extends V.Paired m n where
  stands : V.Stands u m.heap.scopes n.heap.scopes m.scope n.scope

/-- What an evaluation leaves of the frames. -/
structure After (m m' : Machine) : Prop where
  scope : m'.scope = m.scope
  grown : m.heap.scopes.Extends m'.heap.scopes

theorem After.refl (m : Machine) : After m m := ⟨rfl, .refl _⟩

theorem After.trans {m'' : Machine} (first : After m m') (second : After m' m'') : After m m'' :=
  ⟨second.scope.trans first.scope, first.grown.trans second.grown⟩

theorem After.scope_eq {n' : Machine} (first : After m m') (second : After n n')
    (same : n.scope = m.scope) : n'.scope = m'.scope := by
  rw [first.scope, second.scope, same]

/-- Both evaluations end in the same way. -/
inductive Ends (V : Veil) (m n : Machine) :
    Outcome Machine Stop α → Outcome Machine Stop α → Prop where
  | done (a : α) {m' n' : Machine} : After m m' → After n n' → V.Paired m' n' →
      Ends V m n (.done a m') (.done a n')
  | failed (stop : Stop) {m' n' : Machine} : After m m' → After n n' → V.Paired m' n' →
      Ends V m n (.failed stop m') (.failed stop n')
  | exhausted : Ends V m n .exhausted .exhausted

/-- The evaluation ends in the same way on twins. -/
def Tracks (V : Veil) (u : Usage) (p : Eval α) : Prop :=
  ∀ m n, V.Twins u m n → V.Ends m n (p m) (p n)

theorem Twins.after (twins : V.Twins u m n) (first : After m m') (second : After n n')
    (paired : V.Paired m' n') : V.Twins u m' n' where
  toPaired := paired
  stands := by
    rw [first.scope, second.scope]
    exact twins.stands.mono twins.heap.aged twins.heap.size first.grown second.grown

/-- Both heaps have the same collections again, and the frames and functions that they had. -/
theorem Twins.collections (twins : V.Twins u m n) {h' k' : Heap} (c : Heap)
    (left : h' = c.withFrames m.heap.scopes m.heap.functions)
    (right : k' = c.withFrames n.heap.scopes n.heap.functions) :
    After m { m with heap := h' } ∧ After n { n with heap := k' } ∧
      V.Paired { m with heap := h' } { n with heap := k' } := by
  subst left right
  exact ⟨⟨rfl, .refl _⟩, ⟨rfl, .refl _⟩, twins.heap.withFrames c, twins.sink, twins.cancellation,
    twins.clock⟩

theorem Ends.from_earlier {m₁ n₁ : Machine} {o o' : Outcome Machine Stop α} (first : After m m₁)
    (second : After n n₁) (ends : V.Ends m₁ n₁ o o') : V.Ends m n o o' := by
  cases ends with
  | done a after after' paired => exact .done a (first.trans after) (second.trans after') paired
  | failed stop after after' paired =>
    exact .failed stop (first.trans after) (second.trans after') paired
  | exhausted => exact .exhausted

theorem Ends.bind {p q : Eval α} {r s : α → Eval β} (first : V.Ends m n (p m) (q n))
    (next : ∀ a m' n', After m m' → After n n' → V.Paired m' n' → V.Ends m' n' (r a m') (s a n')) :
    V.Ends m n ((p >>= r) m) ((q >>= s) n) := by
  rw [Attempt.bind_run, Attempt.bind_run]
  generalize p m = left at first
  generalize q n = right at first
  cases first with
  | done a after after' paired => exact (next a _ _ after after' paired).from_earlier after after'
  | failed stop after after' paired => exact .failed stop after after' paired
  | exhausted => exact .exhausted

theorem Ends.capture {p q : Eval α} (ends : V.Ends m n (p m) (q n)) :
    V.Ends m n (p.capture m) (q.capture n) := by
  unfold Attempt.capture
  generalize p m = left at ends
  generalize q n = right at ends
  cases ends with
  | done a after after' paired => exact .done _ after after' paired
  | failed stop after after' paired => exact .done _ after after' paired
  | exhausted => exact .exhausted

/-- Going back to the frame in which an evaluation was begun in another one. -/
theorem Ends.reframe_left {m₁ : Machine} {o o' : Outcome Machine Stop α} (ends : V.Ends m₁ n o o')
    (grown : m.heap.scopes.Extends m₁.heap.scopes) : V.Ends m n (o.reframe m.scope) o' := by
  cases ends with
  | done a after after' paired =>
    exact .done a ⟨rfl, grown.trans after.grown⟩ after'
      ⟨paired.heap, paired.sink, paired.cancellation, paired.clock⟩
  | failed stop after after' paired =>
    exact .failed stop ⟨rfl, grown.trans after.grown⟩ after'
      ⟨paired.heap, paired.sink, paired.cancellation, paired.clock⟩
  | exhausted => exact .exhausted

theorem Ends.reframe_right {n₁ : Machine} {o o' : Outcome Machine Stop α} (ends : V.Ends m n₁ o o')
    (grown : n.heap.scopes.Extends n₁.heap.scopes) : V.Ends m n o (o'.reframe n.scope) := by
  cases ends with
  | done a after after' paired =>
    exact .done a after ⟨rfl, grown.trans after'.grown⟩
      ⟨paired.heap, paired.sink, paired.cancellation, paired.clock⟩
  | failed stop after after' paired =>
    exact .failed stop after ⟨rfl, grown.trans after'.grown⟩
      ⟨paired.heap, paired.sink, paired.cancellation, paired.clock⟩
  | exhausted => exact .exhausted

/-! ### Evaluations that end in the same way -/

namespace Tracks

theorem pure (a : α) : V.Tracks u (Pure.pure a) :=
  fun m n twins => .done a (.refl m) (.refl n) twins.toPaired

theorem fail (stop : Stop) : V.Tracks u (Attempt.fail stop : Eval α) :=
  fun m n twins => .failed stop (.refl m) (.refl n) twins.toPaired

theorem raise (e : RuntimeError) : V.Tracks u (Machine.raise e : Eval α) := fail (.error e)

theorem outOfFuel : V.Tracks u (Attempt.outOfFuel : Eval α) := fun _ _ _ => .exhausted

theorem bind {p : Eval α} {r : α → Eval β} (first : V.Tracks u p)
    (next : ∀ a, V.Tracks u (r a)) : V.Tracks u (p >>= r) := by
  intro m n twins
  apply (first m n twins).bind
  intro a m' n' after after' paired
  exact next a m' n' (twins.after after after' paired)

theorem capture {p : Eval α} (tracks : V.Tracks u p) : V.Tracks u p.capture :=
  fun m n twins => (tracks m n twins).capture

theorem ofExcept (r : Except RuntimeError α) : V.Tracks u (Machine.ofExcept r) := by
  cases r with
  | ok a => exact .pure a
  | error e => exact .raise e

theorem consult {look : Heap → Except RuntimeError α}
    (same : ∀ h k, V.Alike h k → look k = look h) : V.Tracks u (Machine.consult look) := by
  intro m n twins
  unfold Machine.consult
  rw [same m.heap n.heap twins.heap]
  cases look m.heap with
  | ok a => exact .done a (.refl m) (.refl n) twins.toPaired
  | error e => exact .failed (.error e) (.refl m) (.refl n) twins.toPaired

theorem look {f : Heap → α} (same : ∀ h k, V.Alike h k → f k = f h) :
    V.Tracks u (Machine.consult fun h => .ok (f h)) :=
  .consult fun h k alike => congrArg Except.ok (same h k alike)

theorem onHeap {change : Heap → α × Heap} (collections : Heap.OnCollections change) :
    V.Tracks u (Machine.onHeap change) := by
  intro m n twins
  have left := collections m.heap m.heap.scopes m.heap.functions
  have right := collections m.heap n.heap.scopes n.heap.functions
  rw [← twins.heap.eq_withFrames] at right
  obtain ⟨after, after', paired⟩ := twins.collections (change m.heap).2 (congrArg Prod.snd left)
    (congrArg Prod.snd right)
  show V.Ends m n (.done (change m.heap).1 _) (.done (change n.heap).1 _)
  rw [congrArg Prod.fst right]
  exact .done (change m.heap).1 after after' paired

theorem commit {work : Heap → Except RuntimeError (Value × Change)}
    (same : ∀ h k, V.Alike h k → work k = work h) : V.Tracks u (Machine.commit work) := by
  intro m n twins
  unfold Machine.commit
  rw [same m.heap n.heap twins.heap]
  cases work m.heap with
  | ok result =>
    have left := Heap.perform_withFrames result.2 m.heap m.heap.scopes m.heap.functions
    have right := Heap.perform_withFrames result.2 m.heap n.heap.scopes n.heap.functions
    rw [← twins.heap.eq_withFrames] at right
    obtain ⟨after, after', paired⟩ := twins.collections (m.heap.perform result.2) left right
    exact .done result.1 after after' paired
  | error e => exact .failed (.error e) (.refl m) (.refl n) twins.toPaired

theorem act {action : Heap.Action Value} (collections : ∀ h s fs,
      action (h.withFrames s fs) = (action h).mapState (·.withFrames s fs)) :
    V.Tracks u (Machine.act action) := by
  intro m n twins
  have left := collections m.heap m.heap.scopes m.heap.functions
  have right := collections m.heap n.heap.scopes n.heap.functions
  rw [← twins.heap.eq_withFrames] at right
  change action m.heap = _ at left
  unfold Machine.act
  dsimp only
  rw [right]
  cases ran : action m.heap with
  | done v h' =>
    rw [ran] at left
    obtain ⟨after, after', paired⟩ := twins.collections h' (Outcome.done.inj left).2 rfl
    exact .done v after after' paired
  | failed e h' =>
    rw [ran] at left
    obtain ⟨after, after', paired⟩ := twins.collections h' (Outcome.failed.inj left).2 rfl
    exact .failed (.error e) after after' paired
  | exhausted => exact .exhausted

theorem check : V.Tracks u Machine.check := by
  rintro ⟨h, f, sink, signal, clock⟩ ⟨k, g, _, _, _⟩ ⟨⟨alike, rfl, rfl, rfl⟩, stands⟩
  unfold Machine.check
  dsimp only
  split
  · exact .failed _ (.refl _) (.refl _) ⟨alike, rfl, rfl, rfl⟩
  · exact .done () ⟨rfl, .refl _⟩ ⟨rfl, .refl _⟩ ⟨alike, rfl, rfl, rfl⟩

theorem write (piece : String) : V.Tracks u (Machine.write piece) := by
  rintro ⟨h, f, sink, signal, clock⟩ ⟨k, g, _, _, _⟩ ⟨⟨alike, rfl, rfl, rfl⟩, stands⟩
  unfold Machine.write
  dsimp only
  split
  · exact .done () ⟨rfl, .refl _⟩ ⟨rfl, .refl _⟩ ⟨alike, rfl, rfl, rfl⟩
  · exact .failed _ (.refl _) (.refl _) ⟨alike, rfl, rfl, rfl⟩

theorem readClock : V.Tracks u Machine.readClock := by
  rintro ⟨h, f, sink, signal, clock⟩ ⟨k, g, _, _, _⟩ ⟨⟨alike, rfl, rfl, rfl⟩, stands⟩
  exact .done _ ⟨rfl, .refl _⟩ ⟨rfl, .refl _⟩ ⟨alike, rfl, rfl, rfl⟩

end Tracks

/-! ### Names and frames -/

/-- A frame is changed in the same way, and a veil gets no other names. -/
theorem Twins.modify (twins : V.Twins u m n) (o : FrameId) (change : Bindings → Bindings)
    (thin : V.frames o → ∀ bs : Bindings, (∀ n, (bs.find? n).isSome → V.names n) →
      ∀ n, ((change bs).find? n).isSome → V.names n) (a : α) :
    V.Ends m n
      (.done a { m with heap := { m.heap with scopes := m.heap.scopes.modify o change } })
      (.done a { n with heap := { n.heap with scopes := n.heap.scopes.modify o change } }) :=
  .done a ⟨rfl, ScopeTree.extends_modify o change⟩ ⟨rfl, ScopeTree.extends_modify o change⟩
    ⟨twins.heap.modify o change thin, twins.sink, twins.cancellation, twins.clock⟩

theorem thin_put {name : String} (named : V.names name) (v : Value) (bs : Bindings)
    (thin : ∀ n, (bs.find? n).isSome → V.names n) :
    ∀ n, ((bs.put name v).find? n).isSome → V.names n := by
  intro n found
  rw [Bindings.find?_put] at found
  by_cases same : name = n
  · rwa [← same]
  · rw [if_neg same] at found
    exact thin n found

/-- Code that may bind a name stands in one frame. -/
theorem Twins.scope_eq (twins : V.Twins u m n) {name : String} (bound : u.binds name) :
    n.scope = m.scope := by
  by_contra other
  exact twins.stands.apart (Ne.symm other) name bound

section Names

variable {name : String}

theorem tracks_lookup (mentioned : u.mentions name) : V.Tracks u (lookup name) := by
  intro m n twins
  unfold lookup
  rw [twins.heap.get twins.stands mentioned]
  split
  · exact .done _ (.refl m) (.refl n) twins.toPaired
  · split
    · exact .done _ (.refl m) (.refl n) twins.toPaired
    · exact .failed _ (.refl m) (.refl n) twins.toPaired

theorem tracks_rebind (mentioned : u.mentions name) (v : Value) : V.Tracks u (rebind name v) := by
  intro m n twins
  show V.Ends m n
    (.done () { m with heap := { m.heap with scopes := (m.heap.scopes.reset m.scope name v).2 } })
    (.done () { n with heap := { n.heap with scopes := (n.heap.scopes.reset n.scope name v).2 } })
  unfold ScopeTree.reset
  rw [twins.heap.owner twins.stands mentioned]
  cases owned : m.heap.scopes.owner m.scope name with
  | none => exact .done () (.refl m) (.refl n) twins.toPaired
  | some o =>
    refine twins.modify o (·.put name v) ?_ ()
    intro veil
    exact thin_put ((twins.heap.thin o veil).2 name (ScopeTree.isSome_of_owner owned)) v

theorem tracks_define (bound : u.binds name) (v : Value) : V.Tracks u (define name v) := by
  intro m n twins
  have thin := twins.stands.thin
  have same : n.heap.scopes.define n.scope name v = n.heap.scopes.define m.scope name v := by
    rw [twins.scope_eq bound]
  show V.Ends m n
    (.done () { m with heap := { m.heap with scopes := m.heap.scopes.define m.scope name v } })
    (.done () { n with heap := { n.heap with scopes := n.heap.scopes.define n.scope name v } })
  rw [same]
  exact twins.modify m.scope (·.put name v) (fun veil => thin_put (thin veil name bound) v) ()

theorem tracks_delete (mentioned : u.mentions name) : V.Tracks u (do
    let f ← currentFrame
    onHeap fun h => h.onScopes (·.delete f name)) := by
  intro m n twins
  show V.Ends m n
    (.done (m.heap.scopes.delete m.scope name).1
      { m with heap := { m.heap with scopes := (m.heap.scopes.delete m.scope name).2 } })
    (.done (n.heap.scopes.delete n.scope name).1
      { n with heap := { n.heap with scopes := (n.heap.scopes.delete n.scope name).2 } })
  unfold ScopeTree.delete
  rw [twins.heap.owner twins.stands mentioned]
  cases m.heap.scopes.owner m.scope name with
  | none => exact .done none (.refl m) (.refl n) twins.toPaired
  | some o =>
    dsimp only
    rw [twins.heap.getCurrent]
    exact twins.modify o _ (fun _ _ thin n found => thin n (Bindings.isSome_find?_of_drop found)) _

/-- Looking up a name and going on with what it is bound to. -/
theorem tracks_get (mentioned : u.mentions name) {r : Option Value → Eval α}
    (next : ∀ v, V.Tracks u (r v)) : V.Tracks u (do
      let f ← currentFrame
      let v ← consult fun h => .ok (h.scopes.get f name)
      r v) := by
  intro m n twins
  show V.Ends m n (r (m.heap.scopes.get m.scope name) m) (r (n.heap.scopes.get n.scope name) n)
  rw [twins.heap.get twins.stands mentioned]
  exact next _ m n twins

end Names

/-- A new frame in frames in which code stands. -/
theorem Paired.enter {f g : FrameId} (paired : V.Paired m n)
    (stands : V.Stands u m.heap.scopes n.heap.scopes f g) (bs : Bindings) :
    V.Twins u.inside
      { m with
        heap := { m.heap with scopes := ⟨m.heap.scopes.frames.push ⟨bs, some f⟩⟩ }
        scope := m.heap.scopes.frames.size }
      { n with
        heap := { n.heap with scopes := ⟨n.heap.scopes.frames.push ⟨bs, some g⟩⟩ }
        scope := n.heap.scopes.frames.size } where
  heap := paired.heap.push stands bs
  sink := paired.sink
  cancellation := paired.cancellation
  clock := paired.clock
  stands := paired.heap.stands_push stands bs

/-- A captured evaluation in a new frame with bindings, in frames in which code stands. -/
theorem Twins.captured {v : Usage} {f g : FrameId} {p : Eval α} {r : Except Stop α → Eval β}
    (twins : V.Twins u m n) (stands : V.Stands v m.heap.scopes n.heap.scopes f g) (bs : Bindings)
    (tracks : V.Tracks v.inside p) (next : ∀ result, V.Tracks u (r result)) :
    V.Ends m n
      ((do
        let k ← onHeap fun h => h.onScopes (·.childWith f bs)
        let result ← (inFrame k p).capture
        r result : Eval β) m)
      ((do
        let k ← onHeap fun h => h.onScopes (·.childWith g bs)
        let result ← (inFrame k p).capture
        r result : Eval β) n) := by
  have entered := twins.enter stands bs
  have first : After m { m with heap :=
      { m.heap with scopes := ⟨m.heap.scopes.frames.push ⟨bs, some f⟩⟩ } } :=
    ⟨rfl, ScopeTree.extends_push _⟩
  have second : After n { n with heap :=
      { n.heap with scopes := ⟨n.heap.scopes.frames.push ⟨bs, some g⟩⟩ } } :=
    ⟨rfl, ScopeTree.extends_push _⟩
  refine Ends.from_earlier first second (Ends.bind (Ends.capture ?_) ?_)
  · rw [inFrame_run, inFrame_run]
    exact .reframe_left (.reframe_right (tracks _ _ entered) (.refl _)) (.refl _)
  · intro result m' n' after after' paired
    exact next result m' n' (twins.after (first.trans after) (second.trans after') paired)

theorem Tracks.inChild {p : Eval α} (tracks : V.Tracks u.inside p) :
    V.Tracks u (Machine.inChild p) := by
  intro m n twins
  rw [inChild_run, inChild_run]
  have inside := tracks _ _ (twins.enter twins.stands [])
  exact .reframe_left (.reframe_right inside (ScopeTree.extends_push _)) (ScopeTree.extends_push _)

theorem tracks_function (ps : List String) (b : Block Unit)
    (mentioned : ∀ n ∈ b.mentions, u.mentions n) : V.Tracks u (do
      let f ← currentFrame
      onHeap (·.newFunction ⟨ps, b, f⟩)) := by
  intro m n twins
  have same : V.SameFunction m.heap.scopes n.heap.scopes ⟨ps, b, m.scope⟩ ⟨ps, b, n.scope⟩ := by
    refine ⟨rfl, rfl, twins.stands.there, twins.stands.meets, fun _ _ => False.elim,
      fun _ _ => id, ?_⟩
    exact twins.stands.sees.imp_right fun others n inside => others n (mentioned n inside)
  show V.Ends m n (.done (Value.function m.heap.functions.size) _)
    (.done (Value.function n.heap.functions.size) _)
  rw [twins.heap.functions]
  exact .done _ ⟨rfl, .refl _⟩ ⟨rfl, .refl _⟩
    ⟨twins.heap.newFunction same, twins.sink, twins.cancellation, twins.clock⟩

/-! ### Builtin functions -/

theorem tracks_printLine (args : List Value) : V.Tracks u (printLine args) := by
  have line : V.Tracks u (consult fun h => .ok (", ".intercalate (args.map h.render))) :=
    .look fun h k alike => by rw [alike.render]
  refine line.bind fun text => ?_
  have written : V.Tracks u (writeLine text) := by
    unfold writeLine
    split
    · exact (Tracks.pure ()).bind fun _ => .write _
    · exact (Tracks.write text).bind fun _ => .write _
  exact written.bind fun _ => .pure _

theorem tracks_callBuiltin (b : Builtin) (args : List Value) :
    V.Tracks u (Evaluation.callBuiltin b args) := by
  unfold Evaluation.callBuiltin
  split
  · unfold lengthOf
    split
    · exact .pure _
    · exact .look fun h k alike => by rw [alike.arrays]
    · exact .look fun h k alike => by rw [alike.table]
    · exact .raise _
  · exact .ofExcept _
  · exact .look fun h k alike => by rw [alike.render]
  · exact .consult fun h k alike => alike.toInteger _
  · exact Tracks.readClock.bind fun _ => .pure _
  · exact tracks_printLine _
  · exact .raise _

/-! ### Constructs over their parts -/

/-- The parts of a construct end in the same way on twins, so long as they keep to the usage. -/
structure PartsTracked (V : Veil) (p : Parts) : Prop where
  expression : ∀ {u : Usage} (e : Expr Unit), u.Covers e.binds e.mentions →
    V.Tracks u (p.expression e)
  statement : ∀ {u : Usage} (s : Stmt Unit), u.Covers s.binds s.mentions →
    V.Tracks u (p.statement s)

section Constructs

variable {p : Parts} (parts : V.PartsTracked p)
include parts

theorem tracks_statements (result : Value) {ss : List (Stmt Unit)}
    (covers : u.Covers (Stmt.bindsList ss) (Stmt.mentionsList ss)) :
    V.Tracks u (statements p result ss) := by
  induction ss generalizing result with
  | nil => exact .pure result
  | cons s ss ih =>
    obtain ⟨first, rest⟩ := Usage.covers_append.mp covers
    rw [statements]
    split
    · exact ih result rest
    · exact (parts.statement s first).bind fun v => ih v rest

theorem tracks_block {b : Block Unit} (covers : u.Covers b.binds b.mentions) :
    V.Tracks u (block p b) := by
  cases b with
  | mk _ ss => exact tracks_statements parts .null covers

theorem tracks_values {es : List (Expr Unit)}
    (covers : u.Covers (Expr.bindsList es) (Expr.mentionsList es)) :
    V.Tracks u (values p es) := by
  induction es with
  | nil => exact .pure []
  | cons e es ih =>
    obtain ⟨first, rest⟩ := Usage.covers_append.mp covers
    exact (parts.expression e first).bind fun v => (ih rest).bind fun vs => .pure (v :: vs)

theorem tracks_optional {e : Option (Expr Unit)}
    (covers : u.Covers (Expr.bindsOption e) (Expr.mentionsOption e)) :
    V.Tracks u (Evaluation.optional p e) := by
  cases e with
  | none => exact .pure none
  | some e => exact (parts.expression e covers).bind fun v => .pure (some v)

theorem tracks_entries (t : Table) {ps : List (Expr Unit × Expr Unit)}
    (covers : u.Covers (Expr.bindsPairs ps) (Expr.mentionsPairs ps)) :
    V.Tracks u (entries p t ps) := by
  induction ps generalizing t with
  | nil => exact .pure t
  | cons pair ps ih =>
    obtain ⟨k, e⟩ := pair
    -- What is left to do once the name of the entry is known.
    have named : ∀ name : Value, u.Covers (e.binds ++ Expr.bindsPairs ps)
        (e.mentions ++ Expr.mentionsPairs ps) → V.Tracks u (do
          let key ← ofExcept name.key
          let v ← p.expression e
          entries p (t.put key name v).2 ps) := by
      intro name covers
      obtain ⟨value, rest⟩ := Usage.covers_append.mp covers
      exact (Tracks.ofExcept name.key).bind fun key => (parts.expression e value).bind fun v =>
        ih _ rest
    unfold entries
    cases k with
    | identifier m i => exact (Tracks.pure (.text i.name)).bind fun name => named name covers
    | _ =>
      obtain ⟨key, rest⟩ := Usage.covers_append.mp covers
      exact (parts.expression _ key).bind fun name => named name rest

/-! ### Calls -/

/-- The body of a function looks at the frame of the function as the function does. -/
theorem tracks_execute (id : FunctionId) (args : List Value) : V.Tracks u (execute p id args) := by
  intro m n twins
  have same := twins.heap.closures id
  unfold execute
  rw [Attempt.bind_run, Attempt.bind_run]
  dsimp only [consult]
  generalize m.heap.closure id = c at same
  generalize n.heap.closure id = d at same
  obtain ⟨_, _, f⟩ := c
  obtain ⟨ps, b, g⟩ := d
  obtain ⟨rfl, rfl, stands⟩ := same
  dsimp only at stands ⊢
  split
  · have body : V.Tracks (called b).inside (block p b) :=
      tracks_block parts (Usage.covers_inside.mpr fun _ inside => inside)
    refine twins.captured stands (bindParameters ps args) body fun result => ?_
    cases result with
    | ok v => exact .pure v
    | error stop =>
      cases stop with
      | error e => exact .raise e
      | returned v => exact .pure v
      | broke | continued => exact .pure _
  · exact Tracks.raise _ m n twins

theorem tracks_call (callee : Value) (args : List Value) :
    V.Tracks u (Evaluation.call p callee args) := by
  have refused : V.Tracks u (do
      let text ← consult fun h => .ok (h.render callee)
      raise (.notAFunction text) : Eval Value) := by
    have text : V.Tracks u (consult fun h => .ok (h.render callee)) :=
      .look fun h k alike => by rw [alike.render]
    exact text.bind fun _ => .raise _
  cases callee with
  | function id => exact tracks_execute parts id args
  | builtin b => exact tracks_callBuiltin b args
  | _ => exact refused

/-! ### Storing -/

omit parts in
theorem tracks_answer (result : Option Value) (name : String) :
    V.Tracks u (match result with
      | some v => Pure.pure v
      | none => Machine.raise (.unknownIdentifier name)) := by
  cases result with
  | some v => exact .pure v
  | none => exact .raise _

theorem tracks_deleteTarget {target : Expr Unit} (covers : u.Covers target.binds target.mentions) :
    V.Tracks u (deleteTarget p target) := by
  cases target with
  | identifier m i =>
    have deleted : V.Tracks u (do
        let f ← currentFrame
        onHeap fun h => h.onScopes (·.delete f i.name)) :=
      tracks_delete (covers.2 i.name (List.mem_singleton.mpr rfl))
    exact deleted.bind fun result => tracks_answer result i.name
  | index m container key =>
    obtain ⟨left, right⟩ := Usage.covers_append.mp covers
    exact (parts.expression container left).bind fun c => (parts.expression key right).bind fun k =>
      .commit fun _ _ alike => alike.deletion c k
  | _ => exact .raise _

omit parts in
theorem tracks_assignName {name : String} (mentioned : u.mentions name) (op : AssignOperator)
    (v : Value) : V.Tracks u (assignName name op v) := by
  refine tracks_get mentioned fun bound => ?_
  cases bound with
  | none => exact .raise _
  | some old =>
    have worked : V.Tracks u (consult (applyAssign · op old v)) :=
      .consult fun _ _ alike => alike.applyAssign op old v
    exact worked.bind fun new => (tracks_rebind mentioned new).bind fun _ => .pure new

theorem tracks_assign (op : AssignOperator) {target value : Expr Unit}
    (covers : u.Covers (target.binds ++ value.binds) (target.mentions ++ value.mentions)) :
    V.Tracks u (assign p op target value) := by
  obtain ⟨place, operand⟩ := Usage.covers_append.mp covers
  refine (parts.expression value operand).bind fun v => ?_
  cases target with
  | identifier m i =>
    exact tracks_assignName (place.2 i.name (List.mem_singleton.mpr rfl)) op v
  | index m container key =>
    obtain ⟨left, right⟩ := Usage.covers_append.mp place
    dsimp only
    split
    · exact .raise _
    · exact (parts.expression container left).bind fun c =>
        (parts.expression key right).bind fun k =>
          .commit fun _ _ alike => alike.assignment c k op v
  | _ => exact .raise _

theorem tracks_stepValue {operand : Expr Unit} (covers : u.Covers operand.binds operand.mentions)
    (delta : Int64) (before : Bool) : V.Tracks u (stepValue p operand delta before) :=
  (parts.expression operand covers).bind fun _ => .pure _

theorem tracks_step (operand : Expr Unit) (covers : u.Covers operand.binds operand.mentions)
    (delta : Int64) (before : Bool) : V.Tracks u (step p operand delta before) := by
  cases operand with
  | identifier m i =>
    have mentioned := covers.2 i.name (List.mem_singleton.mpr rfl)
    refine (tracks_lookup mentioned).bind fun old => ?_
    cases old.stepped delta with
    | some v => exact (tracks_rebind mentioned v).bind fun _ => .pure _
    | none => exact .pure _
  | index m container key =>
    obtain ⟨left, right⟩ := Usage.covers_append.mp covers
    unfold step
    dsimp only
    split
    · exact tracks_stepValue parts covers delta before
    · refine (parts.expression container left).bind fun c =>
        (parts.expression key right).bind fun k => ?_
      have found : V.Tracks u (consult (·.read c k)) := .consult fun _ _ alike => alike.read c k
      refine found.bind fun old => ?_
      cases old.stepped delta with
      | some v =>
        have stored : V.Tracks u (commit (·.assignment c k .assign v)) :=
          .commit fun _ _ alike => alike.assignment c k .assign v
        exact stored.bind fun _ => .pure _
      | none => exact .pure _
  | _ => exact tracks_stepValue parts covers delta before

/-! ### Loops -/

theorem tracks_whileRounds {c : Expr Unit} {b : Block Unit}
    (condition : u.Covers c.binds c.mentions) (body : u.Covers b.binds b.mentions) (fuel : Nat)
    (result : Value) :
    V.Tracks u (whileRounds p c b fuel result) := by
  induction fuel generalizing result with
  | zero => exact .outOfFuel
  | succ fuel ih =>
    rw [whileRounds]
    refine (parts.expression c condition).bind fun v => ?_
    split
    · refine (tracks_block parts body).capture.bind fun ended => ?_
      cases ended with
      | ok v => exact ih v
      | error stop =>
        cases stop with
        | continued => exact ih .null
        | broke => exact .pure _
        | returned v | error e => exact .fail _
    · exact .pure result

theorem tracks_loopCondition {c : Option (Expr Unit)}
    (covers : u.Covers (Expr.bindsOption c) (Expr.mentionsOption c)) :
    V.Tracks u (loopCondition p c) := by
  cases c with
  | none => exact .pure true
  | some c => exact (parts.expression c covers).bind fun v => .pure v.isTruthy

section Header

variable {c update : Option (Expr Unit)}
  (condition : u.Covers (Expr.bindsOption c) (Expr.mentionsOption c))
  (advance : u.Covers (Expr.bindsOption update) (Expr.mentionsOption update))
include condition advance

theorem tracks_loopAdvance : V.Tracks u (loopAdvance p c update) := by
  cases update with
  | none => exact (Tracks.pure ()).bind fun _ => tracks_loopCondition parts condition
  | some e =>
    exact (parts.expression e advance).bind fun _ => tracks_loopCondition parts condition

theorem tracks_endRound (value : Value) : V.Tracks u (endRound p c update value) := by
  refine (tracks_loopAdvance parts condition advance).capture.bind fun ended => ?_
  cases ended with
  | ok again => exact .pure (value, again)
  | error stop =>
    cases stop with
    | broke => exact .pure (value, false)
    | continued | returned v | error e => exact .fail _

theorem tracks_afterBody (ended : Except Stop Value) : V.Tracks u (afterBody p c update ended) := by
  cases ended with
  | ok v => exact tracks_endRound parts condition advance v
  | error stop =>
    cases stop with
    | continued => exact tracks_endRound parts condition advance .null
    | broke => exact .pure _
    | returned v | error e => exact .fail _

theorem tracks_forRound {b : Block Unit} (body : u.Covers b.binds b.mentions) :
    V.Tracks u (forRound p c update b) := by
  rw [forRound_eq]
  exact (tracks_block parts body).capture.bind (tracks_afterBody parts condition advance)

end Header

theorem tracks_forRounds {c update : Option (Expr Unit)} {b : Block Unit}
    (condition : ∀ n ∈ Expr.mentionsOption c, u.mentions n)
    (advance : ∀ n ∈ Expr.mentionsOption update, u.mentions n)
    (body : ∀ n ∈ b.mentions, u.mentions n) (fuel : Nat) (result : Value) (again : Bool) :
    V.Tracks u (forRounds p c update b fuel result again) := by
  induction fuel generalizing result again with
  | zero => exact .outOfFuel
  | succ fuel ih =>
    cases again with
    | false => exact .pure result
    | true =>
      have round : V.Tracks u.inside (forRound p c update b) :=
        tracks_forRound parts (Usage.covers_inside.mpr condition)
          (Usage.covers_inside.mpr advance) (Usage.covers_inside.mpr body)
      exact (Tracks.inChild round).bind fun next => ih next.1 next.2

/-- A loop with three clauses, in its own frame. -/
theorem tracks_forLoop (fuel : Nat) {first : Option (Stmt Unit)} {c update : Option (Expr Unit)}
    {b : Block Unit} (begins : ∀ n ∈ Stmt.mentionsOption first, u.mentions n)
    (condition : ∀ n ∈ Expr.mentionsOption c, u.mentions n)
    (advance : ∀ n ∈ Expr.mentionsOption update, u.mentions n)
    (body : ∀ n ∈ b.mentions, u.mentions n) :
    V.Tracks u.inside (forLoop p fuel first c update b) := by
  have rounds : V.Tracks u.inside (do
      let again ← loopCondition p c
      forRounds p c update b fuel .null again) :=
    (tracks_loopCondition parts (Usage.covers_inside.mpr condition)).bind fun again =>
      tracks_forRounds (u := u.inside) parts condition advance body fuel .null again
  cases first with
  | none => exact (Tracks.pure ()).bind fun _ => rounds
  | some s =>
    exact (parts.statement s (Usage.covers_inside.mpr begins)).bind fun _ => rounds

/-! ### Elements -/

theorem tracks_method (whole : Expr Unit) {object called : Expr Unit}
    (covers : u.Covers (Expr.binds (.method () object called))
      (Expr.mentions (.method () object called))) :
    V.Tracks u (method p whole object called) := by
  unfold method
  cases called with
  | call m name args =>
    obtain ⟨receiver, arguments⟩ := Usage.covers_append.mp covers
    exact (parts.expression object receiver).bind fun x =>
      (tracks_values parts arguments).bind fun vs =>
        .act (Heap.callMethod_withFrames x name.render vs)
  | _ => exact (parts.expression object covers).bind fun x => .raise _

theorem tracks_index {container key : Expr Unit}
    (covers : u.Covers (container.binds ++ key.binds) (container.mentions ++ key.mentions)) :
    V.Tracks u (index p container key) := by
  obtain ⟨left, right⟩ := Usage.covers_append.mp covers
  refine (parts.expression container left).bind fun c => ?_
  cases key with
  | slice m low high =>
    obtain ⟨first, last⟩ := Usage.covers_append.mp right
    refine (parts.expression low first).bind fun l => (tracks_optional parts last).bind fun r => ?_
    have found : V.Tracks u (consult (·.cut c l r)) := .consult fun _ _ alike => alike.cut c l r
    exact found.bind fun part => .onHeap (Heap.onCollections_valueOfCut part)
  | _ =>
    exact (parts.expression _ right).bind fun k => .consult fun _ _ alike => alike.read c k

/-! ### Expressions and statements -/

theorem tracks_unary (op : PrefixOperator) {operand : Expr Unit}
    (covers : u.Covers operand.binds operand.mentions) : V.Tracks u (unary p op operand) := by
  have applied : V.Tracks u (do let v ← p.expression operand; ofExcept (applyPrefix op v)) :=
    (parts.expression operand covers).bind fun v => .ofExcept _
  cases op with
  | increment => exact tracks_step parts operand covers 1 true
  | decrement => exact tracks_step parts operand covers (-1) true
  | negate | logicalNot => exact applied

theorem tracks_conditional {c : Expr Unit} {yes : Block Unit} {no : Option (Block Unit)} (m : Unit)
    (fuel : Nat) (covers : u.Covers (Expr.binds (.conditional m c yes no))
      (Expr.mentions (.conditional m c yes no))) :
    V.Tracks u (expressionOver p fuel (.conditional m c yes no)) := by
  obtain ⟨condition, branches⟩ := Usage.covers_append.mp covers
  obtain ⟨first, second⟩ := Usage.covers_append.mp branches
  refine (parts.expression c condition).bind fun v => ?_
  split
  · exact tracks_block parts first
  · cases no with
    | some b => exact tracks_block parts second
    | none => exact .pure _

theorem tracks_expressionOver (fuel : Nat) {e : Expr Unit} (covers : u.Covers e.binds e.mentions) :
    V.Tracks u (expressionOver p fuel e) := by
  cases e with
  | missing m => exact .pure _
  | identifier m i => exact tracks_lookup (covers.2 i.name (List.mem_singleton.mpr rfl))
  | literal m l => exact .pure _
  | array m es =>
    exact (tracks_values parts covers).bind fun vs => .onHeap fun _ _ _ => rfl
  | hash m ps => exact (tracks_entries parts .empty covers).bind fun t => .onHeap fun _ _ _ => rfl
  | function m ps b x => exact tracks_function _ b covers.2
  | unary m op operand => exact tracks_unary parts op covers
  | binary m op l r =>
    obtain ⟨left, right⟩ := Usage.covers_append.mp covers
    exact (parts.expression l left).bind fun x => (parts.expression r right).bind fun y =>
      .consult fun _ _ alike => alike.applyInfix op x y
  | step m op operand =>
    cases op with
    | increment => exact tracks_step parts operand covers 1 false
    | decrement => exact tracks_step parts operand covers (-1) false
  | assign m op target value => exact tracks_assign parts op covers
  | conditional m c yes no => exact tracks_conditional parts m fuel covers
  | whileLoop m c b =>
    have inside : u.inside.Covers (c.binds ++ b.binds) (c.mentions ++ b.mentions) := covers.inside
    obtain ⟨condition, body⟩ := Usage.covers_append.mp inside
    exact .inChild (tracks_whileRounds parts condition body fuel .null)
  | forLoop m first c update b =>
    obtain ⟨-, mentioned⟩ := covers
    simp only [Expr.mentions, List.mem_append, or_imp, forall_and] at mentioned
    obtain ⟨begins, condition, advance, body⟩ := mentioned
    exact .inChild (tracks_forLoop parts fuel begins condition advance body)
  | breakLoop m => exact .fail .broke
  | continueLoop m => exact .fail .continued
  | typeof m operand => exact (parts.expression operand covers).bind fun v => .pure _
  | call m callee args =>
    obtain ⟨function, arguments⟩ := Usage.covers_append.mp covers
    exact (parts.expression callee function).bind fun f =>
      (tracks_values parts arguments).bind fun vs => tracks_call parts f vs
  | method m object called => exact tracks_method parts _ covers
  | index m container key => exact tracks_index parts covers
  | slice m low high => exact .raise _

omit parts in
/-- What a `let` does, from what its name is bound to. -/
theorem tracks_unlessBound (old : Option Value) {i : Identifier Unit} {e : Expr Unit}
    (bound : u.binds i.name) (value : V.Tracks u (p.expression e)) :
    V.Tracks u (match old with
      | some _ => Machine.raise (.redefined i.name)
      | none => do
        let v ← p.expression e
        define i.name v
        return v) := by
  cases old with
  | some old => exact .raise _
  | none => exact value.bind fun v => (tracks_define bound v).bind fun _ => .pure v

theorem tracks_letBinding (m : Unit) {i : Identifier Unit} {e : Expr Unit}
    (covers : u.Covers (i.name :: e.binds) e.mentions) :
    V.Tracks u (statementOver p (.letBinding m i e)) := by
  have bound : u.binds i.name := covers.1 i.name List.mem_cons_self
  have value : V.Tracks u (p.expression e) :=
    parts.expression e ⟨fun n inside => covers.1 n (List.mem_cons_of_mem _ inside), covers.2⟩
  intro m n twins
  have same : n.heap.scopes.getCurrent n.scope i.name =
      m.heap.scopes.getCurrent m.scope i.name := by
    rw [twins.scope_eq bound, twins.heap.getCurrent]
  have ended := tracks_unlessBound (m.heap.scopes.getCurrent m.scope i.name) bound value m n twins
  nth_rewrite 2 [← same] at ended
  exact ended

theorem tracks_statementOver {s : Stmt Unit} (covers : u.Covers s.binds s.mentions) :
    V.Tracks u (statementOver p s) := by
  cases s with
  | letBinding m i e => exact tracks_letBinding parts m covers
  | deletion m target => exact tracks_deleteTarget parts covers
  | returning m value =>
    cases value with
    | some e => exact (parts.expression e covers).bind fun v => .fail (.returned v)
    | none => exact (Tracks.pure .null).bind fun v => .fail (.returned v)
  | expression m e => exact parts.expression e covers

end Constructs

/-- Code that keeps to the usage ends in the same way on twins, with any amount of fuel. -/
theorem tracks_parts (V : Veil) (fuel : Nat) : V.PartsTracked (parts fuel) := by
  induction fuel with
  | zero => exact ⟨fun _ _ => .outOfFuel, fun _ _ => .outOfFuel⟩
  | succ fuel ih =>
    constructor
    · intro u e covers
      change V.Tracks u (expression (fuel + 1) e)
      rw [expression, Attempt.deepen_eq]
      exact Tracks.check.bind fun _ => tracks_expressionOver ih fuel covers
    · intro u s covers
      change V.Tracks u (statement (fuel + 1) s)
      rw [statement, Attempt.deepen_eq]
      exact Tracks.check.bind fun _ => tracks_statementOver ih covers

end Veil

end Scripting
