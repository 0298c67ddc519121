import Scripting.Evaluation
import Scripting.Proofs.Aliasing
import Scripting.Proofs.Table

/-!
# What evaluation keeps to

A `Discipline` says which heaps are in order, in which frames evaluation may work, which values it
may handle and what may become of a heap. It comes with one law for each way to read the heap and
each way to change it. Here are the rules for putting evaluations together, and that operators,
methods and builtins keep to a discipline. `Discipline.keeps_parts` and `Discipline.keeps_execute`
say so of evaluation as a whole, however it ends.
-/

namespace Scripting

/-- The value names no array, hash or function, and is no error. -/
def Value.isPlain : Value → Bool
  | integer _ | float _ | boolean _ | null | text _ | builtin _ => true
  | array _ | hash _ | function _ | error _ => false

/-- Rules for the heap that hold for whole evaluations if they hold for single changes. -/
structure Discipline where
  /-- The heap is in order. -/
  Sound : Heap → Prop
  /-- Evaluation may work in the frame. -/
  Open : Heap → FrameId → Prop
  /-- Evaluation may handle the value. -/
  Allowed : Heap → Value → Prop
  /-- The first heap may become the second one. -/
  Step : Heap → Heap → Prop
  refl : ∀ h, Step h h
  trans : ∀ {h₁ h₂ h₃}, Step h₁ h₂ → Step h₂ h₃ → Step h₁ h₃
  open_mono : ∀ {h h' f}, Step h h' → Open h f → Open h' f
  allowed_mono : ∀ {h h' v}, Step h h' → Allowed h v → Allowed h' v
  plain : ∀ (h : Heap) {v : Value}, v.isPlain → Allowed h v
  -- What is read from the heap.
  parent : ∀ {h f p}, Sound h → Open h f → h.scopes.parent? f = some p → Open h p
  binding : ∀ {h f name v}, Sound h → Open h f → h.scopes.getCurrent f name = some v → Allowed h v
  captured : ∀ {h id}, Sound h → Allowed h (.function id) → Open h (h.closure id).scope
  slot : ∀ {h a} {i : Nat} {v}, Sound h → Allowed h (.array a) → (h.arrays.slots a)[i]? = some v →
    Allowed h v
  entry : ∀ {h id k v}, Sound h → Allowed h (.hash id) → (h.table id).find? k = some v → Allowed h v
  -- What is changed in the frames.
  child : ∀ {h f bs}, Sound h → Open h f → (∀ b ∈ bs, Allowed h b.2) →
    (Sound (h.onScopes (·.childWith f bs)).2 ∧ Step h (h.onScopes (·.childWith f bs)).2) ∧
      Open (h.onScopes (·.childWith f bs)).2 (h.onScopes (·.childWith f bs)).1
  bind : ∀ {h f name v}, Sound h → Open h f → Allowed h v →
    Sound { h with scopes := h.scopes.modify f (·.put name v) } ∧
      Step h { h with scopes := h.scopes.modify f (·.put name v) }
  unbind : ∀ {h f name}, Sound h → Open h f →
    Sound { h with scopes := h.scopes.modify f (·.drop name) } ∧
      Step h { h with scopes := h.scopes.modify f (·.drop name) }
  -- What is changed in the arrays.
  newArray : ∀ {h elements}, Sound h → (∀ v ∈ elements, Allowed h v) →
    (Sound (h.newArray elements).2 ∧ Step h (h.newArray elements).2) ∧
      Allowed (h.newArray elements).2 (h.newArray elements).1
  newView : ∀ {h a low high}, Sound h → Allowed h (.array a) → low ≤ high →
    high ≤ h.arrays.length a → (Sound (h.newView a low high).2 ∧ Step h (h.newView a low high).2) ∧
      Allowed (h.newView a low high).2 (h.newView a low high).1
  set : ∀ {h a i v}, Sound h → Allowed h (.array a) → i < h.arrays.length a → Allowed h v →
    Sound (h.onArrays (·.set a i v)).2 ∧ Step h (h.onArrays (·.set a i v)).2
  push : ∀ {h a v}, Sound h → Allowed h (.array a) → Allowed h v →
    Sound (h.onArrays (·.push a v)).2 ∧ Step h (h.onArrays (·.push a v)).2
  pop : ∀ {h a}, Sound h → Allowed h (.array a) →
    Sound (h.onArrays (·.pop a)).2 ∧ Step h (h.onArrays (·.pop a)).2
  -- What is changed in the hashes.
  newHash : ∀ {h t}, Sound h → t.Indexed →
    (∀ e ∈ t.entries, Allowed h e.name ∧ Allowed h e.value) →
    (Sound (h.newHash t).2 ∧ Step h (h.newHash t).2) ∧ Allowed (h.newHash t).2 (h.newHash t).1
  putEntry : ∀ {h id k name v}, Sound h → Allowed h (.hash id) → Allowed h name → Allowed h v →
    Sound (h.modifyTable id fun t => (t.put k name v).2) ∧
      Step h (h.modifyTable id fun t => (t.put k name v).2)
  eraseEntry : ∀ {h id k}, Sound h → Allowed h (.hash id) →
    Sound (h.modifyTable id fun t => (t.erase k).2) ∧
      Step h (h.modifyTable id fun t => (t.erase k).2)
  -- What is changed in the functions.
  newFunction : ∀ {h c}, Sound h → Open h c.scope →
    (Sound (h.newFunction c).2 ∧ Step h (h.newFunction c).2) ∧
      Allowed (h.newFunction c).2 (h.newFunction c).1

namespace Discipline

variable (D : Discipline)

/-- A heap in order that the first heap may become. -/
def Advance (h h' : Heap) : Prop := D.Sound h' ∧ D.Step h h'

/-- Evaluation may go to work. -/
structure Ready (h : Heap) (f : FrameId) : Prop where
  sound : D.Sound h
  opened : D.Open h f

/-- A value that is returned is one that may be handled. -/
def StopAllowed (h : Heap) : Stop → Prop
  | .returned v => D.Allowed h v
  | .error _ | .broke | .continued => True

/-- An evaluation that began with this heap and frame ended in order: in the same frame, and with a
result as described if it has one. -/
def Ends {α : Type} (h : Heap) (f : FrameId) (Q : Heap → α → Prop) :
    Outcome Machine Stop α → Prop
  | .done a m => D.Advance h m.heap ∧ m.scope = f ∧ Q m.heap a
  | .failed stop m => D.Advance h m.heap ∧ m.scope = f ∧ D.StopAllowed m.heap stop
  | .exhausted => True

/-- An evaluation that begins with this heap and frame ends in order. -/
def Keeps {α : Type} (h : Heap) (f : FrameId) (p : Eval α) (Q : Heap → α → Prop) : Prop :=
  ∀ m : Machine, m.heap = h → m.scope = f → D.Ends h f Q (p m)

/-- The parts of a construct keep to the discipline. -/
structure PartsKeep (p : Evaluation.Parts) : Prop where
  expression : ∀ (e : Expr Unit) {h : Heap} {f : FrameId}, D.Ready h f →
    D.Keeps h f (p.expression e) D.Allowed
  statement : ∀ (s : Stmt Unit) {h : Heap} {f : FrameId}, D.Ready h f →
    D.Keeps h f (p.statement s) D.Allowed

variable {D} {α β : Type} {h h' h'' : Heap} {f : FrameId}

theorem Advance.refl (sound : D.Sound h) : D.Advance h h := ⟨sound, D.refl h⟩

theorem Advance.trans (first : D.Advance h h') (second : D.Advance h' h'') : D.Advance h h'' :=
  ⟨second.1, D.trans first.2 second.2⟩

theorem Ready.advance (ready : D.Ready h f) (advance : D.Advance h h') : D.Ready h' f :=
  ⟨advance.1, D.open_mono advance.2 ready.opened⟩

namespace Keeps

variable {p : Eval α} {g : α → Eval β} {Q : Heap → α → Prop} {R : Heap → β → Prop}

theorem pure (sound : D.Sound h) {a : α} (result : Q h a) : D.Keeps h f (Pure.pure a) Q := by
  intro m heap scope
  subst heap
  exact ⟨.refl sound, scope, result⟩

theorem fail (sound : D.Sound h) {stop : Stop} (allowed : D.StopAllowed h stop) :
    D.Keeps h f (Attempt.fail stop) Q := by
  intro m heap scope
  subst heap
  exact ⟨.refl sound, scope, allowed⟩

theorem raise (sound : D.Sound h) (e : RuntimeError) : D.Keeps h f (Machine.raise e) Q :=
  fail sound trivial

theorem outOfFuel : D.Keeps h f (Attempt.outOfFuel : Eval α) Q := by
  intro m _ _
  trivial

theorem bind (first : D.Keeps h f p Q)
    (next : ∀ a h', D.Advance h h' → Q h' a → D.Keeps h' f (g a) R) :
    D.Keeps h f (p >>= g) R := by
  intro m heap scope
  have ended := first m heap scope
  rw [Attempt.bind_run]
  cases ran : p m with
  | exhausted => trivial
  | failed stop n =>
    rw [ran] at ended
    exact ended
  | done a n =>
    rw [ran] at ended
    obtain ⟨advance, restored, result⟩ := ended
    have rest := next a n.heap advance result n rfl restored
    dsimp only
    cases more : g a n with
    | exhausted => trivial
    | failed stop o =>
      rw [more] at rest
      exact ⟨advance.trans rest.1, rest.2⟩
    | done b o =>
      rw [more] at rest
      exact ⟨advance.trans rest.1, rest.2⟩

theorem mono (kept : D.Keeps h f p Q) {Q' : Heap → α → Prop} (weaker : ∀ h a, Q h a → Q' h a) :
    D.Keeps h f p Q' := by
  intro m heap scope
  have ended := kept m heap scope
  cases ran : p m with
  | exhausted => trivial
  | failed stop n =>
    rw [ran] at ended
    exact ended
  | done a n =>
    rw [ran] at ended
    exact ⟨ended.1, ended.2.1, weaker _ _ ended.2.2⟩

theorem ofExcept (sound : D.Sound h) {r : Except RuntimeError α} (result : ∀ a, r = .ok a → Q h a) :
    D.Keeps h f (Machine.ofExcept r) Q := by
  cases r with
  | ok a => exact pure sound (result a rfl)
  | error e => exact raise sound e

theorem consult (sound : D.Sound h) {look : Heap → Except RuntimeError α}
    (result : ∀ a, look h = .ok a → Q h a) : D.Keeps h f (Machine.consult look) Q := by
  intro m heap scope
  subst heap
  unfold Machine.consult
  cases found : look m.heap with
  | ok a => exact ⟨.refl sound, scope, result a found⟩
  | error e => exact ⟨.refl sound, scope, trivial⟩

theorem onHeap {change : Heap → α × Heap} (advance : D.Advance h (change h).2)
    (result : Q (change h).2 (change h).1) : D.Keeps h f (Machine.onHeap change) Q := by
  intro m heap scope
  subst heap
  exact ⟨advance, scope, result⟩

theorem currentFrame {g : FrameId → Eval β} (kept : D.Keeps h f (g f) R) :
    D.Keeps h f (Machine.currentFrame >>= g) R := by
  intro m heap scope
  subst scope
  exact kept m heap rfl

theorem capture (kept : D.Keeps h f p Q) : D.Keeps h f p.capture fun h' r =>
    (∀ a, r = .ok a → Q h' a) ∧ ∀ stop, r = .error stop → D.StopAllowed h' stop := by
  intro m heap scope
  have ended := kept m heap scope
  unfold Attempt.capture
  cases ran : p m with
  | exhausted => trivial
  | failed stop n =>
    rw [ran] at ended
    refine ⟨ended.1, ended.2.1, nofun, ?_⟩
    intro other same
    cases same
    exact ended.2.2
  | done a n =>
    rw [ran] at ended
    refine ⟨ended.1, ended.2.1, ?_, nofun⟩
    intro other same
    cases same
    exact ended.2.2

theorem inFrame {g : FrameId} (kept : D.Keeps h g p Q) : D.Keeps h f (Machine.inFrame g p) Q := by
  intro m heap scope
  have ended := kept ⟨m.heap, g, m.sink, m.cancellation, m.clock⟩ heap rfl
  unfold Machine.inFrame
  dsimp only
  cases ran : p ⟨m.heap, g, m.sink, m.cancellation, m.clock⟩ with
  | exhausted => trivial
  | failed stop n =>
    rw [ran] at ended
    exact ⟨ended.1, scope, ended.2.2⟩
  | done a n =>
    rw [ran] at ended
    exact ⟨ended.1, scope, ended.2.2⟩

theorem inChild (ready : D.Ready h f)
    (kept : ∀ h' g, D.Advance h h' → D.Ready h' g → D.Keeps h' g p Q) :
    D.Keeps h f (Machine.inChild p) Q := by
  have empty : ∀ b ∈ ([] : Bindings), D.Allowed h b.2 := nofun
  obtain ⟨advance, opened⟩ := D.child ready.sound ready.opened empty
  have made : D.Keeps h f (Machine.onHeap fun h => h.onScopes (·.child f)) D.Open :=
    onHeap advance opened
  unfold Machine.inChild
  apply currentFrame
  apply made.bind
  intro g h' advanced opened
  exact inFrame (kept h' g advanced ⟨advanced.1, opened⟩)

theorem check (sound : D.Sound h) : D.Keeps h f Machine.check fun h' _ => h' = h := by
  intro m heap scope
  subst heap
  unfold Machine.check
  dsimp only
  split
  · exact ⟨.refl sound, scope, trivial⟩
  · exact ⟨.refl sound, scope, rfl⟩

theorem write (sound : D.Sound h) (piece : String) :
    D.Keeps h f (Machine.write piece) fun _ _ => True := by
  intro m heap scope
  subst heap
  unfold Machine.write
  dsimp only
  split
  · exact ⟨.refl sound, scope, trivial⟩
  · exact ⟨.refl sound, scope, trivial⟩

theorem readClock (sound : D.Sound h) : D.Keeps h f Machine.readClock fun _ _ => True := by
  intro m heap scope
  subst heap
  exact ⟨.refl sound, scope, trivial⟩

end Keeps

/-- A change of a collection that only names what may be handled. -/
def ChangeAllowed (D : Discipline) (h : Heap) : Change → Prop
  | .element a p x => D.Allowed h (.array a) ∧ p < h.arrays.length a ∧ D.Allowed h x
  | .entry id _ name x => D.Allowed h (.hash id) ∧ D.Allowed h name ∧ D.Allowed h x
  | .removal id _ => D.Allowed h (.hash id)

theorem ChangeAllowed.advance (sound : D.Sound h) {c : Change} (allowed : D.ChangeAllowed h c) :
    D.Advance h (h.perform c) := by
  cases c with
  | element a p x => exact D.set sound allowed.1 allowed.2.1 allowed.2.2
  | entry id k name x => exact D.putEntry sound allowed.1 allowed.2.1 allowed.2.2
  | removal id k => exact D.eraseEntry sound allowed

theorem Keeps.commit (sound : D.Sound h) {work : Heap → Except RuntimeError (Value × Change)}
    (result : ∀ v c, work h = .ok (v, c) → D.Allowed h v ∧ D.ChangeAllowed h c) :
    D.Keeps h f (Machine.commit work) D.Allowed := by
  intro m heap scope
  subst heap
  unfold Machine.commit
  cases found : work m.heap with
  | error e => exact ⟨.refl sound, scope, trivial⟩
  | ok pair =>
    obtain ⟨v, c⟩ := pair
    obtain ⟨value, change⟩ := result v c found
    have advance := change.advance sound
    exact ⟨advance, scope, D.allowed_mono advance.2 value⟩

/-- An action on the heap keeps to the discipline. -/
def ActionKeeps (D : Discipline) (h : Heap) (act : Heap.Action Value) : Prop :=
  match act h with
  | .done v h' => D.Advance h h' ∧ D.Allowed h' v
  | .failed _ h' => D.Advance h h'
  | .exhausted => True

theorem Keeps.act {action : Heap.Action Value} (kept : D.ActionKeeps h action) :
    D.Keeps h f (Machine.act action) D.Allowed := by
  intro m heap scope
  subst heap
  unfold Machine.act
  unfold ActionKeeps at kept
  dsimp only
  cases ran : action m.heap with
  | done v h' =>
    rw [ran] at kept
    exact ⟨kept.1, scope, kept.2⟩
  | failed e h' =>
    rw [ran] at kept
    exact ⟨kept, scope, trivial⟩
  | exhausted => trivial

/-! ### Values that are worked out -/

theorem applyNumeric_isPlain {op : InfixOperator} {l r v : Value}
    (worked : applyNumeric op l r = .ok v) : v.isPlain := by
  unfold applyNumeric at worked
  grind [Value.isPlain]

theorem applyInfix_isPlain {op : InfixOperator} {l r v : Value}
    (worked : applyInfix h op l r = .ok v) : v.isPlain := by
  unfold applyInfix at worked
  grind [Value.isPlain, applyNumeric_isPlain]

theorem stepped_isPlain {v w : Value} {delta : Int64} (worked : v.stepped delta = some w) :
    w.isPlain := by
  unfold Value.stepped at worked
  grind [Value.isPlain]

theorem applyPrefix_isPlain {op : PrefixOperator} {v w : Value}
    (worked : applyPrefix op v = .ok w) : w.isPlain := by
  unfold applyPrefix Value.stepped at worked
  grind [Value.isPlain]

theorem applyAssign_allowed {op : AssignOperator} {old new v : Value} (allowed : D.Allowed h new)
    (worked : applyAssign h op old new = .ok v) : D.Allowed h v := by
  unfold applyAssign at worked
  split at worked
  · cases worked
    exact allowed
  · split at worked
    · exact D.plain h (applyNumeric_isPlain worked)
    · split at worked
      · cases worked
        exact D.plain h rfl
      · cases worked

/-! ### Values that are looked up -/

theorem open_ownerWithin (sound : D.Sound h) {name : String} {n : Nat} {o : FrameId}
    (opened : D.Open h f) (found : h.scopes.ownerWithin name n f = some o) : D.Open h o := by
  induction n generalizing f with
  | zero => cases found
  | succ n ih =>
    rw [ScopeTree.ownerWithin] at found
    split at found
    · cases found
      exact opened
    · split at found
      · rename_i p above
        exact ih (D.parent sound opened above) found
      · cases found

theorem Ready.owner (ready : D.Ready h f) {name : String} {o : FrameId}
    (found : h.scopes.owner f name = some o) : D.Open h o :=
  open_ownerWithin ready.sound ready.opened found

theorem Ready.get (ready : D.Ready h f) {name : String} {v : Value}
    (found : h.scopes.get f name = some v) : D.Allowed h v := by
  unfold ScopeTree.get at found
  obtain ⟨o, owner, here⟩ := Option.bind_eq_some_iff.mp found
  exact D.binding ready.sound (ready.owner owner) here

theorem allowed_get? (sound : D.Sound h) {a : ArrayId} (array : D.Allowed h (.array a)) (i : Nat) :
    D.Allowed h ((h.arrays.get? a i).getD .null) := by
  cases found : h.arrays.get? a i with
  | none => exact D.plain h rfl
  | some v =>
    rw [ArrayStore.get?_eq] at found
    split at found
    · exact D.slot sound array found
    · cases found

theorem allowed_find? (sound : D.Sound h) {id : HashId} (hash : D.Allowed h (.hash id)) (k : Key) :
    D.Allowed h (((h.table id).find? k).getD .null) := by
  cases found : (h.table id).find? k with
  | none => exact D.plain h rfl
  | some v => exact D.entry sound hash found

theorem exists_of_bind_ok {x : Except RuntimeError α} {g : α → Except RuntimeError β} {b : β}
    (worked : (x >>= g) = .ok b) : ∃ a, x = .ok a ∧ g a = .ok b := by
  cases x with
  | error e => cases worked
  | ok a => exact ⟨a, rfl, worked⟩

theorem read_allowed (sound : D.Sound h) {container index v : Value}
    (allowed : D.Allowed h container) (found : h.read container index = .ok v) :
    D.Allowed h v := by
  cases container with
  | array a =>
    obtain ⟨place, _, here⟩ := exists_of_bind_ok found
    cases place with
    | none =>
      cases here
      exact D.plain h rfl
    | some p =>
      cases here
      exact allowed_get? sound allowed p
  | text s =>
    obtain ⟨place, _, here⟩ := exists_of_bind_ok found
    split at here <;> cases here <;> exact D.plain h rfl
  | hash id =>
    obtain ⟨value, looked, here⟩ := exists_of_bind_ok found
    cases here
    unfold Table.get at looked
    cases key : index.key with
    | error e =>
      rw [key] at looked
      cases looked
    | ok k =>
      rw [key] at looked
      cases looked
      exact allowed_find? sound allowed k
  | _ => cases found

theorem place_lt {length p : Nat} {index : Value} (found : place length index false = .ok p) :
    p < length := by
  have bound := place_bounds found
  rwa [if_neg Bool.false_ne_true, Nat.add_zero] at bound

theorem assignment_allowed {container index value v : Value}
    {op : AssignOperator} {c : Change} (allowed : D.Allowed h container)
    (name : D.Allowed h index) (operand : D.Allowed h value)
    (found : h.assignment container index op value = .ok (v, c)) :
    D.Allowed h v ∧ D.ChangeAllowed h c := by
  cases container with
  | array a =>
    obtain ⟨p, inside, rest⟩ := exists_of_bind_ok found
    obtain ⟨new, worked, here⟩ := exists_of_bind_ok rest
    cases here
    have stored := applyAssign_allowed operand worked
    exact ⟨stored, allowed, place_lt inside, stored⟩
  | hash id =>
    cases op with
    | assign =>
      obtain ⟨new, same, rest⟩ := exists_of_bind_ok found
      obtain ⟨key, _, here⟩ := exists_of_bind_ok rest
      cases same
      cases here
      exact ⟨operand, allowed, name, operand⟩
    | _ =>
      obtain ⟨old, _, rest⟩ := exists_of_bind_ok found
      obtain ⟨new, worked, more⟩ := exists_of_bind_ok rest
      obtain ⟨key, _, here⟩ := exists_of_bind_ok more
      cases here
      have stored := applyAssign_allowed operand worked
      exact ⟨stored, allowed, name, stored⟩
  | _ => cases found

theorem deletion_allowed (sound : D.Sound h) {container index v : Value} {c : Change}
    (allowed : D.Allowed h container) (found : h.deletion container index = .ok (v, c)) :
    D.Allowed h v ∧ D.ChangeAllowed h c := by
  cases container with
  | array a =>
    obtain ⟨p, inside, here⟩ := exists_of_bind_ok found
    cases here
    exact ⟨allowed_get? sound allowed p, allowed, place_lt inside, D.plain h rfl⟩
  | hash id =>
    obtain ⟨key, _, here⟩ := exists_of_bind_ok found
    cases here
    exact ⟨allowed_find? sound allowed key, allowed⟩
  | _ => cases found

/-- What is cut out of a value that may be handled. -/
def CutAllowed (D : Discipline) (h : Heap) : Cut → Prop
  | .part a first last => D.Allowed h (.array a) ∧ first ≤ last ∧ last ≤ h.arrays.length a
  | .text _ => True

theorem cut_allowed {container low : Value} {high : Option Value} {c : Cut}
    (allowed : D.Allowed h container) (found : h.cut container low high = .ok c) :
    D.CutAllowed h c := by
  cases container with
  | array a =>
    obtain ⟨bounds, inside, here⟩ := exists_of_bind_ok found
    cases here
    exact ⟨allowed, sliceBounds_ordered inside⟩
  | text s =>
    obtain ⟨bounds, _, here⟩ := exists_of_bind_ok found
    cases here
    trivial
  | _ => cases found

/-! ### Methods and builtin functions -/

theorem newTexts_keeps (sound : D.Sound h) (parts : List (List Char)) :
    D.ActionKeeps h (Heap.newTexts parts) := by
  apply D.newArray sound
  intro v member
  obtain ⟨part, _, rfl⟩ := List.mem_map.mp (List.mem_toArray.mp member)
  exact D.plain h rfl

theorem textMethod_keeps (sound : D.Sound h) (s method : String) (args : List Value) :
    D.ActionKeeps h (Heap.textMethod s method args) := by
  have failed : ∀ e, D.ActionKeeps h (Attempt.fail e) := fun _ => Advance.refl sound
  have text : ∀ s, D.ActionKeeps h (Pure.pure (.text s)) := fun _ => ⟨.refl sound, D.plain h rfl⟩
  unfold Heap.textMethod
  split
  · split
    · exact text _
    · exact failed _
  · split
    · exact text _
    · exact failed _
  · split
    · exact newTexts_keeps sound _
    · exact failed _
    · exact failed _
  · exact failed _

theorem pushAll_advance (sound : D.Sound h) {a : ArrayId} (array : D.Allowed h (.array a))
    {args : List Value} (allowed : ∀ v ∈ args, D.Allowed h v) :
    ∃ h', Heap.pushAll a args h = .done () h' ∧ D.Advance h h' := by
  induction args generalizing h with
  | nil => exact ⟨h, rfl, .refl sound⟩
  | cons v vs ih =>
    have pushed : D.Advance h (h.onArrays (·.push a v)).2 :=
      D.push sound array (allowed v List.mem_cons_self)
    obtain ⟨h', ran, advance⟩ := ih pushed.1 (D.allowed_mono pushed.2 array) fun w member =>
      D.allowed_mono pushed.2 (allowed w (List.mem_cons_of_mem _ member))
    exact ⟨h', ran, pushed.trans advance⟩

theorem allowed_pop (sound : D.Sound h) {a : ArrayId} (array : D.Allowed h (.array a)) {v : Value}
    (last : (h.arrays.pop a).1 = some v) : D.Allowed h v := by
  rw [ArrayStore.pop_eq] at last
  split at last
  · cases last
  · exact D.slot sound array last

theorem pop_keeps (sound : D.Sound h) {a : ArrayId} (array : D.Allowed h (.array a))
    (args : List Value) : D.ActionKeeps h (Heap.arrayMethod a "pop" args) := by
  have popped : D.Advance h (h.onArrays (·.pop a)).2 := D.pop sound array
  have whole : Heap.arrayMethod a "pop" args h = Heap.popLast a h := rfl
  unfold ActionKeeps
  rw [whole]
  unfold Heap.popLast
  cases ran : h.onArrays (·.pop a) with
  | mk last h' =>
    rw [ran] at popped
    cases last with
    | none => exact popped
    | some v =>
      have same : (h.arrays.pop a).1 = some v := congrArg Prod.fst ran
      exact ⟨popped, D.allowed_mono popped.2 (allowed_pop sound array same)⟩

theorem push_keeps (sound : D.Sound h) {a : ArrayId} (array : D.Allowed h (.array a))
    {args : List Value} (allowed : ∀ v ∈ args, D.Allowed h v) :
    D.ActionKeeps h (Heap.arrayMethod a "push" args) := by
  obtain ⟨h', ran, advance⟩ := pushAll_advance sound array allowed
  have whole : Heap.arrayMethod a "push" args h =
      .done (.integer (Int64.ofNat (h'.arrays.length a))) h' := by
    change (Heap.pushAll a args >>= _) h = _
    rw [Attempt.bind_run, ran]
    rfl
  unfold ActionKeeps
  rw [whole]
  exact ⟨advance, D.plain h' rfl⟩

theorem arrayMethod_keeps (sound : D.Sound h) {a : ArrayId} (array : D.Allowed h (.array a))
    (method : String) {args : List Value} (allowed : ∀ v ∈ args, D.Allowed h v) :
    D.ActionKeeps h (Heap.arrayMethod a method args) := by
  by_cases push : method = "push"
  · rw [push]
    exact push_keeps sound array allowed
  · by_cases pop : method = "pop"
    · rw [pop]
      exact pop_keeps sound array args
    · have other : Heap.arrayMethod a method args = .fail (.noMethod method .array) := by
        fun_cases Heap.arrayMethod a method args
        · exact absurd rfl push
        · exact absurd rfl pop
        · rfl
      rw [other]
      exact Advance.refl sound

theorem callMethod_keeps (sound : D.Sound h) {object : Value} (allowed : D.Allowed h object)
    (method : String) {args : List Value} (each : ∀ v ∈ args, D.Allowed h v) :
    D.ActionKeeps h (Heap.callMethod object method args) := by
  unfold Heap.callMethod
  split
  · exact textMethod_keeps sound _ _ _
  · exact arrayMethod_keeps sound allowed method each
  · exact Advance.refl sound

theorem toNumber_isPlain {v w : Value} (worked : Evaluation.toNumber v = .ok w) : w.isPlain := by
  unfold Evaluation.toNumber at worked
  grind [Value.isPlain]

theorem toInteger_isPlain {v w : Value} (worked : Evaluation.toInteger h v = .ok w) :
    w.isPlain := by
  unfold Evaluation.toInteger at worked
  grind [Value.isPlain]

theorem keeps_writeLine (sound : D.Sound h) (text : String) :
    D.Keeps h f (Machine.writeLine text) fun _ _ => True := by
  have nothing : D.Keeps h f (Pure.pure ()) fun _ _ => True := .pure sound trivial
  unfold Machine.writeLine
  split
  · exact nothing.bind fun _ h' advance _ => .write advance.1 _
  · exact (Keeps.write sound text).bind fun _ h' advance _ => .write advance.1 _

theorem keeps_printLine (sound : D.Sound h) (args : List Value) :
    D.Keeps h f (Evaluation.printLine args) D.Allowed := by
  unfold Evaluation.printLine
  have line : D.Keeps h f (Machine.consult fun h => .ok (", ".intercalate (args.map h.render)))
      fun _ _ => True := .consult sound fun _ _ => trivial
  apply line.bind
  intro text h' advance _
  apply (keeps_writeLine advance.1 text).bind
  intro _ h'' advance' _
  exact .pure advance'.1 (D.plain h'' rfl)

theorem keeps_callBuiltin (sound : D.Sound h) (b : Builtin) (args : List Value) :
    D.Keeps h f (Evaluation.callBuiltin b args) D.Allowed := by
  have looked : ∀ {look : Heap → Value}, (look h).isPlain →
      D.Keeps h f (Machine.consult fun h => .ok (look h)) D.Allowed := by
    intro look plain
    apply Keeps.consult sound
    intro v same
    cases same
    exact D.plain h plain
  unfold Evaluation.callBuiltin
  split
  · unfold Evaluation.lengthOf
    split
    · exact .pure sound (D.plain h rfl)
    · exact looked rfl
    · exact looked rfl
    · exact .raise sound _
  · exact .ofExcept sound fun v worked => D.plain h (toNumber_isPlain worked)
  · exact looked rfl
  · exact .consult sound fun v worked => D.plain h (toInteger_isPlain worked)
  · exact (Keeps.readClock sound).bind fun text h' advance _ => .pure advance.1 (D.plain h' rfl)
  · exact keeps_printLine sound _
  · exact .raise sound _

end Discipline

end Scripting
