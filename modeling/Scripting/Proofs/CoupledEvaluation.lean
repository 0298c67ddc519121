import Scripting.Proofs.Coupling

/-!
# Coupled evaluations

`Coupling.Fits` says of primitives that each of them is coupled with the operation of evaluation that
it stands for. Then so is every construct, over parts that are coupled, and from that by induction on
fuel every expression, every statement and every piece of a program.
-/

namespace Scripting

open Evaluation Machine

/-! ### Only a check times out -/

theorem check_cancelled {m : Machine} (cancelled : m.cancellation.isCancelled) :
    Machine.check m = .failed (.error .timeout) m := if_pos cancelled

theorem check_passed {m : Machine} (cancelled : ¬ m.cancellation.isCancelled) :
    Machine.check m = .done () { m with cancellation := m.cancellation.tick } := if_neg cancelled

theorem check_prints (m : Machine) : (Machine.check m).PrintsAfter m.sink := by
  by_cases cancelled : m.cancellation.isCancelled
  · rw [check_cancelled cancelled]
    exact .refl m.sink
  · rw [check_passed cancelled]
    exact .refl m.sink

theorem bind_ne_timeout {α β : Type} {x : Except RuntimeError α} {g : α → Except RuntimeError β}
    (first : x ≠ .error .timeout) (next : ∀ a, g a ≠ .error .timeout) :
    (x >>= g) ≠ .error .timeout := by
  cases x with
  | ok a => exact next a
  | error e =>
    rintro ⟨⟩
    exact first rfl

theorem map_ne_timeout {α β : Type} {x : Except RuntimeError α} (g : α → β)
    (first : x ≠ .error .timeout) : x.map g ≠ .error .timeout := by
  cases x with
  | ok a => nofun
  | error e =>
    rintro ⟨⟩
    exact first rfl

theorem place_ne_timeout (length : Nat) (index : Value) (asEnd : Bool) :
    place length index asEnd ≠ .error .timeout := by
  unfold place
  grind

theorem placeWithin_ne_timeout (length : Nat) (index : Value) :
    placeWithin length index ≠ .error .timeout := by
  unfold placeWithin
  grind [place_ne_timeout]

theorem sliceBounds_ne_timeout (length : Nat) (low : Value) (high : Option Value) :
    sliceBounds length low high ≠ .error .timeout := by
  unfold sliceBounds
  refine bind_ne_timeout (place_ne_timeout _ _ _) fun first => ?_
  have ordered : ∀ last : Nat, (if last < first then do
        throw (RuntimeError.sliceBounds first last)
        pure (first, last)
      else pure (first, last)) ≠ Except.error RuntimeError.timeout := by
    intro last
    split <;> nofun
  cases high with
  | none => exact ordered length
  | some v => exact bind_ne_timeout (place_ne_timeout _ _ _) ordered

theorem key_ne_timeout (v : Value) : v.key ≠ .error .timeout := by
  unfold Value.key
  grind

theorem applyNumeric_ne_timeout (op : InfixOperator) (l r : Value) :
    applyNumeric op l r ≠ .error .timeout := by
  unfold applyNumeric
  grind

theorem applyInfix_ne_timeout (h : Heap) (op : InfixOperator) (l r : Value) :
    applyInfix h op l r ≠ .error .timeout := by
  unfold applyInfix
  grind [applyNumeric_ne_timeout]

theorem applyAssign_ne_timeout (h : Heap) (op : AssignOperator) (old new : Value) :
    applyAssign h op old new ≠ .error .timeout := by
  unfold applyAssign
  grind [applyNumeric_ne_timeout]

theorem applyPrefix_ne_timeout (op : PrefixOperator) (v : Value) :
    applyPrefix op v ≠ .error .timeout := by
  unfold applyPrefix
  grind

theorem toNumber_ne_timeout (v : Value) : toNumber v ≠ .error .timeout := by
  unfold toNumber
  grind

theorem toInteger_ne_timeout (h : Heap) (v : Value) : toInteger h v ≠ .error .timeout := by
  unfold toInteger
  grind

namespace Heap

variable (h : Heap) (container index : Value)

theorem read_ne_timeout : h.read container index ≠ .error .timeout := by
  unfold read
  split
  · refine bind_ne_timeout (placeWithin_ne_timeout _ _) fun p => ?_
    split <;> nofun
  · refine bind_ne_timeout (placeWithin_ne_timeout _ _) fun p => ?_
    split <;> nofun
  · exact bind_ne_timeout (map_ne_timeout _ (key_ne_timeout index)) fun _ => nofun
  · nofun

theorem cut_ne_timeout (high : Option Value) : h.cut container index high ≠ .error .timeout := by
  unfold cut
  split
  · exact bind_ne_timeout (sliceBounds_ne_timeout _ _ _) fun _ => nofun
  · exact bind_ne_timeout (sliceBounds_ne_timeout _ _ _) fun _ => nofun
  · nofun

theorem assignment_ne_timeout (op : AssignOperator) (value : Value) :
    h.assignment container index op value ≠ .error .timeout := by
  unfold assignment
  split
  · exact bind_ne_timeout (place_ne_timeout _ _ _) fun p =>
      bind_ne_timeout (applyAssign_ne_timeout _ _ _ _) fun _ => nofun
  · cases op with
    | assign =>
      exact bind_ne_timeout (x := .ok value) nofun fun new =>
        bind_ne_timeout (key_ne_timeout index) fun _ same => nomatch same
    | _ =>
      exact bind_ne_timeout (map_ne_timeout _ (key_ne_timeout index)) fun old =>
        bind_ne_timeout (applyAssign_ne_timeout _ _ _ _) fun new =>
          bind_ne_timeout (key_ne_timeout _) fun _ same => nomatch same
  · nofun
  · nofun

theorem deletion_ne_timeout : h.deletion container index ≠ .error .timeout := by
  unfold deletion
  split
  · exact bind_ne_timeout (place_ne_timeout _ _ _) fun _ => nofun
  · exact bind_ne_timeout (key_ne_timeout _) fun _ => nofun
  · nofun

theorem pushAll_done (a : ArrayId) (args : List Value) :
    ∃ h', pushAll a args h = .done () h' := by
  induction args generalizing h with
  | nil => exact ⟨h, rfl⟩
  | cons v vs ih => exact ih (h.onArrays (·.push a v)).2

theorem callMethod_ne_timeout (object : Value) (name : String) (args : List Value) (h' : Heap) :
    callMethod object name args h ≠ .failed .timeout h' := by
  unfold callMethod
  split
  · unfold textMethod
    split
    · split <;> nofun
    · split <;> nofun
    · split <;> nofun
    · nofun
  · rename_i a
    unfold arrayMethod
    split
    · obtain ⟨k, pushed⟩ := pushAll_done h a args
      rw [Attempt.bind_run, pushed]
      nofun
    · unfold popLast
      split <;> nofun
    · nofun
  · nofun

end Heap

namespace Coupling

variable {C : Coupling} {h : Heap} {f : FrameId}

/-- Each of the primitives is coupled with the operation that it stands for. -/
structure Fits (C : Coupling) (o : Primitives) : Prop where
  check : ∀ {h f}, C.discipline.Ready h f →
    C.Couples h f Machine.check o.check fun _ _ => True
  observe : ∀ {h f vs}, C.discipline.Ready h f → (∀ v ∈ vs, C.discipline.Allowed h v) →
    C.Couples h f (pure ()) (o.observe vs) fun _ _ => True
  typeof : ∀ {h f v}, C.discipline.Ready h f → C.discipline.Allowed h v →
    C.Couples h f (pure (.text v.kind.name)) (o.typeof v) C.discipline.Allowed
  put : ∀ {h f t k name v}, C.discipline.Ready h f → C.discipline.TableAllowed h t →
    C.discipline.Allowed h name → C.discipline.Allowed h v →
    C.Couples h f (pure (t.put k name v).2) (o.put t k name v) C.discipline.TableAllowed
  binary : ∀ {h f op x y}, C.discipline.Ready h f → C.discipline.Allowed h x →
    C.discipline.Allowed h y →
    C.Couples h f (consult (applyInfix · op x y)) (o.binary op x y) C.discipline.Allowed
  compound : ∀ {h f op old v}, C.discipline.Ready h f → C.discipline.Allowed h old →
    C.discipline.Allowed h v →
    C.Couples h f (consult (applyAssign · op old v)) (o.compound op old v) C.discipline.Allowed
  read : ∀ {h f c k}, C.discipline.Ready h f → C.discipline.Allowed h c →
    C.discipline.Allowed h k →
    C.Couples h f (consult (·.read c k)) (o.read c k) C.discipline.Allowed
  slice : ∀ {h f c low high}, C.discipline.Ready h f → C.discipline.Allowed h c →
    C.Couples h f (sliceOf c low high) (o.slice c low high) C.discipline.Allowed
  store : ∀ {h f c k op v}, C.discipline.Ready h f → C.discipline.Allowed h c →
    C.discipline.Allowed h k → C.discipline.Allowed h v →
    C.Couples h f (commit (·.assignment c k op v)) (o.store c k op v) C.discipline.Allowed
  remove : ∀ {h f c k}, C.discipline.Ready h f → C.discipline.Allowed h c →
    C.Couples h f (commit (·.deletion c k)) (o.remove c k) C.discipline.Allowed
  method : ∀ {h f object name args}, C.discipline.Ready h f → C.discipline.Allowed h object →
    (∀ v ∈ args, C.discipline.Allowed h v) →
    C.Couples h f (act (Heap.callMethod object name args)) (o.method object name args)
      C.discipline.Allowed
  builtin : ∀ {h f b args}, C.discipline.Ready h f → (∀ v ∈ args, C.discipline.Allowed h v) →
    C.Couples h f (Evaluation.callBuiltin b args) (o.builtin b args) C.discipline.Allowed

/-- The parts of a construct are coupled. -/
structure PartsCoupled (C : Coupling) (p q : Parts) : Prop where
  expression : ∀ (e : Expr Unit) {h : Heap} {f : FrameId}, C.discipline.Ready h f →
    C.Couples h f (p.expression e) (q.expression e) C.discipline.Allowed
  statement : ∀ (s : Stmt Unit) {h : Heap} {f : FrameId}, C.discipline.Ready h f →
    C.Couples h f (p.statement s) (q.statement s) C.discipline.Allowed

/-! ### What the constructs do themselves -/

theorem couples_ofExcept {α : Type} {r : Except RuntimeError α} {Q : Heap → α → Prop}
    (sound : C.discipline.Sound h) (other : r ≠ .error .timeout)
    (result : ∀ a, r = .ok a → Q h a) : C.Couples h f (ofExcept r) (ofExcept r) Q := by
  cases r with
  | ok a => exact .pure sound (result a rfl)
  | error e =>
    refine .raise sound ?_
    rintro rfl
    exact other rfl

/-- Reading what is always there. -/
theorem couples_look {α : Type} {look : Heap → α} {Q : Heap → α → Prop}
    (sound : C.discipline.Sound h) (result : Q h (look h)) :
    C.Couples h f (consult fun h => .ok (look h)) (consult fun h => .ok (look h)) Q := by
  have silent : Silent (consult fun h => .ok (look h)) := .consult fun _ => nofun
  refine silent.couples (.consult sound ?_)
  rintro a ⟨⟩
  exact result

theorem couples_rebind (ready : C.discipline.Ready h f) (name : String) {v : Value}
    (allowed : C.discipline.Allowed h v) :
    C.Couples h f (rebind name v) (rebind name v) fun _ _ => True := by
  have kept := Discipline.keeps_rebind ready name allowed
  unfold rebind at kept ⊢
  apply Couples.currentFrame
  refine (Silent.onHeap _).couples ?_
  intro m heap scope
  subst scope
  exact kept m heap rfl

theorem couples_define (ready : C.discipline.Ready h f) (name : String) {v : Value}
    (allowed : C.discipline.Allowed h v) :
    C.Couples h f (define name v) (define name v) fun _ _ => True := by
  unfold define
  apply Couples.currentFrame
  exact (Silent.onHeap _).couples
    (.onHeap (C.discipline.bind ready.sound ready.opened allowed) trivial)

section Constructs

variable {p q : Parts} {o : Primitives} (parts : C.PartsCoupled p q)
include parts

/-! ### Rows of parts -/

theorem couples_statements (ready : C.discipline.Ready h f) {result : Value}
    (allowed : C.discipline.Allowed h result) (ss : List (Stmt Unit)) :
    C.Couples h f (statements p result ss) (statements q result ss) C.discipline.Allowed := by
  induction ss generalizing h result with
  | nil => exact .pure ready.sound allowed
  | cons s ss ih =>
    rw [statements, statements]
    split
    · exact ih ready allowed
    · apply (parts.statement s ready).bind
      intro v h' advance value
      exact ih (ready.advance advance) value

theorem couples_block (ready : C.discipline.Ready h f) (b : Block Unit) :
    C.Couples h f (block p b) (block q b) C.discipline.Allowed :=
  couples_statements parts ready (C.discipline.plain h rfl) b.stmts

theorem couples_values (ready : C.discipline.Ready h f) (es : List (Expr Unit)) :
    C.Couples h f (values p es) (values q es)
      fun h' vs => ∀ v ∈ vs, C.discipline.Allowed h' v := by
  induction es generalizing h with
  | nil => exact .pure ready.sound nofun
  | cons e es ih =>
    rw [values, values]
    apply (parts.expression e ready).bind
    intro v h' advance value
    apply (ih (ready.advance advance)).bind
    intro vs h'' advance' others
    refine .pure advance'.1 ?_
    intro w member
    rcases List.mem_cons.mp member with rfl | inside
    · exact C.discipline.allowed_mono advance'.2 value
    · exact others w inside

theorem couples_optional (ready : C.discipline.Ready h f) (e : Option (Expr Unit)) :
    C.Couples h f (Evaluation.optional p e) (Evaluation.optional q e) fun _ _ => True := by
  cases e with
  | none => exact .pure ready.sound trivial
  | some e =>
    exact (parts.expression e ready).bind fun _ h' advance _ => .pure advance.1 trivial

theorem couples_entries (fits : C.Fits o) (ready : C.discipline.Ready h f) {t : Table}
    (table : C.discipline.TableAllowed h t) (ps : List (Expr Unit × Expr Unit)) :
    C.Couples h f (Evaluation.entries p t ps) (o.entries q t ps) C.discipline.TableAllowed := by
  induction ps generalizing h t with
  | nil => exact .pure ready.sound table
  | cons pair ps ih =>
    obtain ⟨k, e⟩ := pair
    -- What is left to do once the name of the entry is known.
    have named : ∀ {name : Value} {h₁ : Heap}, C.discipline.Advance h h₁ →
        C.discipline.Allowed h₁ name → C.Couples h₁ f
          (do
            let key ← Machine.ofExcept name.key
            let v ← p.expression e
            Evaluation.entries p (t.put key name v).2 ps)
          (do
            let key ← Machine.ofExcept name.key
            let v ← q.expression e
            let t ← o.put t key name v
            o.entries q t ps) C.discipline.TableAllowed := by
      intro name h₁ first allowed
      have ready₁ := ready.advance first
      apply (couples_ofExcept first.1 (key_ne_timeout name) (Q := fun _ _ => True)
        fun _ _ => trivial).bind
      intro key h₂ second _
      have ready₂ := ready₁.advance second
      apply (parts.expression e ready₂).bind
      intro v h₃ third value
      have whole := (first.trans second).trans third
      have ready₃ := ready.advance whole
      exact (fits.put ready₃ (table.mono whole)
        (C.discipline.allowed_mono (second.trans third).2 allowed) value).bind
          fun t' h₄ fourth table => ih (ready₃.advance fourth) table
    unfold Evaluation.entries Primitives.entries
    cases k with
    | identifier m i =>
      have name : C.Couples h f (Pure.pure (.text i.name)) (Pure.pure (.text i.name))
          C.discipline.Allowed := .pure ready.sound (C.discipline.plain h rfl)
      exact name.bind fun _ _ first allowed => named first allowed
    | _ => exact (parts.expression _ ready).bind fun _ _ first allowed => named first allowed

/-! ### Calls -/

theorem couples_execute (sound : C.discipline.Sound h) {id : FunctionId}
    (callee : C.discipline.Allowed h (.function id)) {args : List Value}
    (allowed : ∀ v ∈ args, C.discipline.Allowed h v) :
    C.Couples h f (execute p id args) (execute q id args) C.discipline.Allowed := by
  have closure : C.Couples h f (Machine.consult fun h => .ok (h.closure id))
      (Machine.consult fun h => .ok (h.closure id)) fun h' c => h' = h ∧ c = h.closure id :=
    couples_look sound ⟨rfl, rfl⟩
  unfold execute
  apply closure.bind
  rintro c h' - ⟨rfl, rfl⟩
  split
  · obtain ⟨advance, opened⟩ := C.discipline.child sound (C.discipline.captured sound callee)
      (Discipline.allowed_bindParameters (h'.closure id).parameters allowed)
    have made : C.Couples h' f
        (Machine.onHeap fun h => h.onScopes
          (·.childWith (h'.closure id).scope (bindParameters (h'.closure id).parameters args)))
        (Machine.onHeap fun h => h.onScopes
          (·.childWith (h'.closure id).scope (bindParameters (h'.closure id).parameters args)))
        C.discipline.Open := (Silent.onHeap _).couples (.onHeap advance opened)
    apply made.bind
    intro k h₁ first opened
    refine (Couples.inFrame (couples_block parts ⟨first.1, opened⟩ _)).captured ?_ ?_ rfl rfl
    · intro v h₂ second value
      exact .pure second.1 value
    · intro stop h₂ second value other
      cases stop with
      | error e => exact .fail second.1 trivial other
      | returned v => exact .pure second.1 value
      | broke | continued => exact .pure second.1 (C.discipline.plain h₂ rfl)
  · exact .raise sound nofun

theorem couples_call (fits : C.Fits o) (ready : C.discipline.Ready h f) {callee : Value}
    (function : C.discipline.Allowed h callee) {args : List Value}
    (allowed : ∀ v ∈ args, C.discipline.Allowed h v) :
    C.Couples h f (Evaluation.call p callee args) (o.call q callee args)
      C.discipline.Allowed := by
  have refused : C.Couples h f
      (do let text ← Machine.consult fun h => .ok (h.render callee); raise (.notAFunction text))
      (do let text ← Machine.consult fun h => .ok (h.render callee); raise (.notAFunction text))
      C.discipline.Allowed := by
    have text : C.Couples h f (Machine.consult fun h => .ok (h.render callee))
        (Machine.consult fun h => .ok (h.render callee)) fun _ _ => True :=
      couples_look ready.sound trivial
    exact text.bind fun _ h' advance _ => .raise advance.1 nofun
  cases callee with
  | function id => exact couples_execute parts ready.sound function allowed
  | builtin b => exact fits.builtin ready allowed
  | _ => exact refused

/-! ### Storing -/

theorem couples_deleteTarget (fits : C.Fits o) (ready : C.discipline.Ready h f)
    (target : Expr Unit) :
    C.Couples h f (Evaluation.deleteTarget p target) (o.deleteTarget q target)
      C.discipline.Allowed := by
  cases target with
  | identifier m i =>
    apply Couples.currentFrame
    apply ((Silent.onHeap _).couples (Discipline.keeps_delete ready i.name)).bind
    intro result h' advance value
    cases result with
    | some v => exact .pure advance.1 (value v rfl)
    | none => exact .raise advance.1 nofun
  | index m container key =>
    apply (parts.expression container ready).bind
    intro c h₁ first allowed
    apply (parts.expression key (ready.advance first)).bind
    intro k h₂ second _
    exact fits.remove ((ready.advance first).advance second)
      (C.discipline.allowed_mono second.2 allowed)
  | _ => exact .raise ready.sound nofun

omit parts in
theorem couples_assignName (fits : C.Fits o) (ready : C.discipline.Ready h f) (name : String)
    (op : AssignOperator) {v : Value} (allowed : C.discipline.Allowed h v) :
    C.Couples h f (Evaluation.assignName name op v) (o.assignName name op v)
      C.discipline.Allowed := by
  unfold Evaluation.assignName Primitives.assignName
  apply Couples.currentFrame
  have looked : C.Couples h f (Machine.consult fun h => .ok (h.scopes.get f name))
      (Machine.consult fun h => .ok (h.scopes.get f name))
      fun h' r => ∀ old, r = some old → C.discipline.Allowed h' old :=
    couples_look ready.sound fun _ found => ready.get found
  apply looked.bind
  intro result h₁ first bound
  have ready₁ := ready.advance first
  cases result with
  | none => exact .raise first.1 nofun
  | some old =>
    apply (fits.compound ready₁ (bound old rfl) (C.discipline.allowed_mono first.2 allowed)).bind
    intro new h₂ second stored
    apply (couples_rebind (ready₁.advance second) name stored).bind
    intro _ h₃ third _
    exact .pure third.1 (C.discipline.allowed_mono third.2 stored)

theorem couples_assign (fits : C.Fits o) (ready : C.discipline.Ready h f) (op : AssignOperator)
    (target value : Expr Unit) :
    C.Couples h f (Evaluation.assign p op target value) (o.assign q op target value)
      C.discipline.Allowed := by
  unfold Evaluation.assign Primitives.assign
  apply (parts.expression value ready).bind
  intro v h₁ first operand
  have ready₁ := ready.advance first
  cases target with
  | identifier m i => exact couples_assignName fits ready₁ i.name op operand
  | index m container key =>
    dsimp only
    split
    · exact .raise first.1 nofun
    · apply (parts.expression container ready₁).bind
      intro c h₂ second allowed
      apply (parts.expression key (ready₁.advance second)).bind
      intro k h₃ third name
      exact fits.store ((ready₁.advance second).advance third)
        (C.discipline.allowed_mono third.2 allowed) name
        (C.discipline.allowed_mono (second.trans third).2 operand)
  | _ => exact .raise first.1 nofun

theorem couples_stepValue (ready : C.discipline.Ready h f) (operand : Expr Unit) (delta : Int64)
    (before : Bool) :
    C.Couples h f (stepValue p operand delta before) (stepValue q operand delta before)
      C.discipline.Allowed := by
  apply (parts.expression operand ready).bind
  intro old h' advance allowed
  exact .pure advance.1 (Discipline.stepResult_allowed allowed
    (fun v stepped => C.discipline.plain h' (Discipline.stepped_isPlain stepped)) before)

theorem couples_step (fits : C.Fits o) (ready : C.discipline.Ready h f) (operand : Expr Unit)
    (delta : Int64) (before : Bool) :
    C.Couples h f (Evaluation.step p operand delta before) (o.step q operand delta before)
      C.discipline.Allowed := by
  cases operand with
  | identifier m i =>
    unfold Primitives.step Evaluation.step
    apply ((Silent.lookup i.name).couples (Discipline.keeps_lookup ready i.name)).bind
    intro old h₁ first allowed
    cases stepped : old.stepped delta with
    | some v =>
      have stored : C.discipline.Allowed h₁ v :=
        C.discipline.plain h₁ (Discipline.stepped_isPlain stepped)
      apply (couples_rebind (ready.advance first) i.name stored).bind
      intro _ h₂ second _
      refine .pure second.1 (Discipline.stepResult_allowed
        (C.discipline.allowed_mono second.2 allowed) ?_ before)
      rintro w ⟨⟩
      exact C.discipline.allowed_mono second.2 stored
    | none => exact .pure first.1 (C.discipline.plain h₁ rfl)
  | index m container key =>
    unfold Evaluation.step Primitives.step
    dsimp only
    split
    · exact couples_stepValue parts ready _ delta before
    · apply (parts.expression container ready).bind
      intro c h₁ first allowed
      apply (parts.expression key (ready.advance first)).bind
      intro k h₂ second name
      have ready₂ := (ready.advance first).advance second
      have here := C.discipline.allowed_mono second.2 allowed
      apply (fits.read ready₂ here name).bind
      intro old h₃ third old'
      have ready₃ := ready₂.advance third
      cases stepped : old.stepped delta with
      | some v =>
        have stored : C.discipline.Allowed h₃ v :=
          C.discipline.plain h₃ (Discipline.stepped_isPlain stepped)
        apply (fits.store ready₃ (C.discipline.allowed_mono third.2 here)
          (C.discipline.allowed_mono third.2 name) stored).bind
        intro _ h₄ fourth _
        refine .pure fourth.1 (Discipline.stepResult_allowed
          (C.discipline.allowed_mono fourth.2 old') ?_ before)
        rintro w ⟨⟩
        exact C.discipline.allowed_mono fourth.2 stored
      | none => exact .pure third.1 (C.discipline.plain h₃ rfl)
  | _ => exact couples_stepValue parts ready _ delta before

/-! ### Loops -/

theorem couples_whileRounds (ready : C.discipline.Ready h f) (condition : Expr Unit)
    (body : Block Unit) (fuel : Nat) {result : Value} (allowed : C.discipline.Allowed h result) :
    C.Couples h f (whileRounds p condition body fuel result)
      (whileRounds q condition body fuel result) C.discipline.Allowed := by
  induction fuel generalizing h result with
  | zero => exact .outOfFuel
  | succ fuel ih =>
    rw [whileRounds, whileRounds]
    apply (parts.expression condition ready).bind
    intro c h₁ first _
    have ready₁ := ready.advance first
    split
    · refine (couples_block parts ready₁ body).captured ?_ ?_ rfl rfl
      · intro v h₂ second value
        exact ih (ready₁.advance second) value
      · intro stop h₂ second value other
        cases stop with
        | continued => exact ih (ready₁.advance second) (C.discipline.plain h₂ rfl)
        | broke => exact .pure second.1 (C.discipline.plain h₂ rfl)
        | returned v | error e => exact .fail second.1 value other
    · exact .pure first.1 (C.discipline.allowed_mono first.2 allowed)

theorem couples_loopCondition (ready : C.discipline.Ready h f) (condition : Option (Expr Unit)) :
    C.Couples h f (loopCondition p condition) (loopCondition q condition) fun _ _ => True := by
  cases condition with
  | none => exact .pure ready.sound trivial
  | some c => exact (parts.expression c ready).bind fun _ h' advance _ => .pure advance.1 trivial

theorem couples_loopAdvance (ready : C.discipline.Ready h f)
    (condition update : Option (Expr Unit)) :
    C.Couples h f (loopAdvance p condition update) (loopAdvance q condition update)
      fun _ _ => True := by
  cases update with
  | none => exact couples_loopCondition parts ready condition
  | some e =>
    exact (parts.expression e ready).bind fun _ h' advance _ =>
      couples_loopCondition parts (ready.advance advance) condition

theorem couples_endRound (ready : C.discipline.Ready h f) (condition update : Option (Expr Unit))
    {v : Value} (allowed : C.discipline.Allowed h v) :
    C.Couples h f (endRound p condition update v) (endRound q condition update v)
      fun h' r => C.discipline.Allowed h' r.1 := by
  refine (couples_loopAdvance parts ready condition update).captured ?_ ?_ rfl rfl
  · intro again h₁ first _
    exact .pure first.1 (C.discipline.allowed_mono first.2 allowed)
  · intro stop h₁ first value other
    cases stop with
    | broke => exact .pure first.1 (C.discipline.allowed_mono first.2 allowed)
    | continued | returned v | error e => exact .fail first.1 value other

theorem couples_forRound (ready : C.discipline.Ready h f) (condition update : Option (Expr Unit))
    (body : Block Unit) :
    C.Couples h f (forRound p condition update body) (forRound q condition update body)
      fun h' r => C.discipline.Allowed h' r.1 := by
  refine (couples_block parts ready body).captured ?_ ?_ rfl rfl
  · intro v h₁ first value
    exact couples_endRound parts (ready.advance first) condition update value
  · intro stop h₁ first value other
    cases stop with
    | continued =>
      exact couples_endRound parts (ready.advance first) condition update
        (C.discipline.plain h₁ rfl)
    | broke => exact .pure first.1 (C.discipline.plain h₁ rfl)
    | returned v | error e => exact .fail first.1 value other

theorem couples_forRounds (ready : C.discipline.Ready h f) (condition update : Option (Expr Unit))
    (body : Block Unit) (fuel : Nat) {result : Value} (allowed : C.discipline.Allowed h result)
    (again : Bool) :
    C.Couples h f (forRounds p condition update body fuel result again)
      (forRounds q condition update body fuel result again) C.discipline.Allowed := by
  induction fuel generalizing h result again with
  | zero => exact .outOfFuel
  | succ fuel ih =>
    cases again with
    | false => exact .pure ready.sound allowed
    | true =>
      rw [forRounds, forRounds]
      apply (Couples.inChild ready fun h₁ k first inner =>
        couples_forRound parts inner condition update body).bind
      rintro ⟨value, more⟩ h₁ first allowed
      exact ih (ready.advance first) allowed more

theorem couples_forLoop (ready : C.discipline.Ready h f) (fuel : Nat)
    (start : Option (Stmt Unit)) (condition update : Option (Expr Unit)) (body : Block Unit) :
    C.Couples h f (forLoop p fuel start condition update body)
      (forLoop q fuel start condition update body) C.discipline.Allowed := by
  have rounds : ∀ {h₁ : Heap}, C.discipline.Ready h₁ f → C.Couples h₁ f
      (do
        let again ← loopCondition p condition
        forRounds p condition update body fuel .null again)
      (do
        let again ← loopCondition q condition
        forRounds q condition update body fuel .null again) C.discipline.Allowed := by
    intro h₁ ready₁
    apply (couples_loopCondition parts ready₁ condition).bind
    intro again h₂ second _
    exact couples_forRounds parts (ready₁.advance second) condition update body fuel
      (C.discipline.plain h₂ rfl) again
  cases start with
  | none => exact rounds ready
  | some s =>
    exact (parts.statement s ready).bind fun _ h₁ first _ => rounds (ready.advance first)

/-! ### Elements -/

theorem couples_method (fits : C.Fits o) (ready : C.discipline.Ready h f)
    (whole object called : Expr Unit) :
    C.Couples h f (Evaluation.method p whole object called) (o.methodCall q whole object called)
      C.discipline.Allowed := by
  unfold Evaluation.method Primitives.methodCall
  apply (parts.expression object ready).bind
  intro x h₁ first allowed
  cases called with
  | call m name args =>
    apply (couples_values parts (ready.advance first) args).bind
    intro vs h₂ second each
    have ready₂ := (ready.advance first).advance second
    exact (fits.observe ready₂ each).bind fun _ h₃ third _ =>
      fits.method (ready₂.advance third)
        (C.discipline.allowed_mono (second.trans third).2 allowed)
        fun v member => C.discipline.allowed_mono third.2 (each v member)
  | _ => exact .raise first.1 nofun

theorem couples_index (fits : C.Fits o) (ready : C.discipline.Ready h f)
    (container key : Expr Unit) :
    C.Couples h f (Evaluation.index p container key) (o.index q container key)
      C.discipline.Allowed := by
  unfold Evaluation.index Primitives.index
  apply (parts.expression container ready).bind
  intro c h₁ first allowed
  have ready₁ := ready.advance first
  cases key with
  | slice m low high =>
    apply (parts.expression low ready₁).bind
    intro l h₂ second _
    have ready₂ := ready₁.advance second
    apply (couples_optional parts ready₂ high).bind
    intro r h₃ third _
    exact fits.slice (ready₂.advance third)
      (C.discipline.allowed_mono (second.trans third).2 allowed)
  | _ =>
    apply (parts.expression _ ready₁).bind
    intro k h₂ second name
    exact fits.read (ready₁.advance second) (C.discipline.allowed_mono second.2 allowed) name

/-! ### Expressions and statements -/

theorem couples_unary (fits : C.Fits o) (ready : C.discipline.Ready h f) (op : PrefixOperator)
    (operand : Expr Unit) :
    C.Couples h f (Evaluation.unary p op operand) (o.unary q op operand)
      C.discipline.Allowed := by
  have applied : C.Couples h f
      (do let v ← p.expression operand; ofExcept (applyPrefix op v))
      (do let v ← q.expression operand; ofExcept (applyPrefix op v)) C.discipline.Allowed := by
    apply (parts.expression operand ready).bind
    intro v h' advance _
    exact couples_ofExcept advance.1 (applyPrefix_ne_timeout op v) fun w worked =>
      C.discipline.plain h' (Discipline.applyPrefix_isPlain worked)
  cases op with
  | increment => exact couples_step parts fits ready operand 1 true
  | decrement => exact couples_step parts fits ready operand (-1) true
  | negate | logicalNot => exact applied

theorem couples_expressionOver (fits : C.Fits o) (ready : C.discipline.Ready h f) (fuel : Nat)
    (e : Expr Unit) :
    C.Couples h f (Evaluation.expressionOver p fuel e) (o.expressionOver q fuel e)
      C.discipline.Allowed := by
  cases e with
  | missing m => exact .pure ready.sound (C.discipline.plain h rfl)
  | identifier m i =>
    exact (Silent.lookup i.name).couples (Discipline.keeps_lookup ready i.name)
  | literal m l => exact .pure ready.sound (C.discipline.plain h (by cases l <;> rfl))
  | array m es =>
    apply (couples_values parts ready es).bind
    intro vs h' advance each
    obtain ⟨made, value⟩ := C.discipline.newArray advance.1 fun v member =>
      each v (List.mem_toArray.mp member)
    exact (Silent.onHeap _).couples (.onHeap made value)
  | hash m ps =>
    apply (couples_entries parts fits ready .empty ps).bind
    intro t h' advance table
    obtain ⟨made, value⟩ := C.discipline.newHash advance.1 table.indexed table.entries
    exact (Silent.onHeap _).couples (.onHeap made value)
  | function m ps b x =>
    apply Couples.currentFrame
    obtain ⟨made, value⟩ :=
      C.discipline.newFunction (c := ⟨ps.map (·.name), b, f⟩) ready.sound ready.opened
    exact (Silent.onHeap _).couples (.onHeap made value)
  | unary m op operand => exact couples_unary parts fits ready op operand
  | binary m op l r =>
    apply (parts.expression l ready).bind
    intro x h₁ first left
    apply (parts.expression r (ready.advance first)).bind
    intro y h₂ second right
    exact fits.binary ((ready.advance first).advance second)
      (C.discipline.allowed_mono second.2 left) right
  | step m op operand =>
    cases op with
    | increment => exact couples_step parts fits ready operand 1 false
    | decrement => exact couples_step parts fits ready operand (-1) false
  | assign m op target value => exact couples_assign parts fits ready op target value
  | conditional m c yes no =>
    apply (parts.expression c ready).bind
    intro v h' advance _
    have ready' := ready.advance advance
    split
    · exact couples_block parts ready' yes
    · cases no with
      | some b => exact couples_block parts ready' b
      | none => exact .pure advance.1 (C.discipline.plain h' rfl)
  | whileLoop m c b =>
    exact .inChild ready fun h' k _ inner =>
      couples_whileRounds parts inner c b fuel (C.discipline.plain h' rfl)
  | forLoop m start c u b =>
    exact .inChild ready fun h' k _ inner => couples_forLoop parts inner fuel start c u b
  | breakLoop m => exact .fail ready.sound trivial nofun
  | continueLoop m => exact .fail ready.sound trivial nofun
  | typeof m operand =>
    exact (parts.expression operand ready).bind fun _ h' advance allowed =>
      fits.typeof (ready.advance advance) allowed
  | call m callee args =>
    apply (parts.expression callee ready).bind
    intro c h₁ first allowed
    apply (couples_values parts (ready.advance first) args).bind
    intro vs h₂ second each
    have ready₂ := (ready.advance first).advance second
    exact (fits.observe ready₂ each).bind fun _ h₃ third _ =>
      couples_call parts fits (ready₂.advance third)
        (C.discipline.allowed_mono (second.trans third).2 allowed)
        fun v member => C.discipline.allowed_mono third.2 (each v member)
  | method m object called => exact couples_method parts fits ready _ object called
  | index m container key => exact couples_index parts fits ready container key
  | slice m low high => exact .raise ready.sound nofun

theorem couples_letBinding (ready : C.discipline.Ready h f) (m : Unit) (name : Identifier Unit)
    (value : Expr Unit) :
    C.Couples h f (Evaluation.statementOver p (.letBinding m name value))
      (Evaluation.statementOver q (.letBinding m name value)) C.discipline.Allowed := by
  apply Couples.currentFrame
  have looked : C.Couples h f (Machine.consult fun h => .ok (h.scopes.getCurrent f name.name))
      (Machine.consult fun h => .ok (h.scopes.getCurrent f name.name)) fun _ _ => True :=
    couples_look ready.sound trivial
  apply looked.bind
  intro bound h₁ first _
  cases bound with
  | some old => exact .raise first.1 nofun
  | none =>
    apply (parts.expression value (ready.advance first)).bind
    intro v h₂ second allowed
    apply (couples_define ((ready.advance first).advance second) name.name allowed).bind
    intro _ h₃ third _
    exact .pure third.1 (C.discipline.allowed_mono third.2 allowed)

theorem couples_statementOver (fits : C.Fits o) (ready : C.discipline.Ready h f)
    (s : Stmt Unit) :
    C.Couples h f (Evaluation.statementOver p s) (o.statementOver q s) C.discipline.Allowed := by
  have returned : ∀ {v : Value} {h' : Heap}, C.discipline.Advance h h' →
      C.discipline.Allowed h' v → C.Couples h' f (Attempt.fail (.returned v) : Eval Value)
        (do o.observe [v]; Attempt.fail (.returned v)) C.discipline.Allowed := by
    intro v h' advance allowed
    have each : ∀ w ∈ [v], C.discipline.Allowed h' w := by
      simpa using allowed
    change C.Couples h' f (Pure.pure () >>= fun _ => Attempt.fail (.returned v)) _ _
    apply (fits.observe (ready.advance advance) each).bind
    intro _ h'' further _
    exact .fail further.1 (C.discipline.allowed_mono further.2 allowed) nofun
  cases s with
  | letBinding m name value => exact couples_letBinding parts ready m name value
  | deletion m target => exact couples_deleteTarget parts fits ready target
  | returning m value =>
    cases value with
    | some e =>
      exact (parts.expression e ready).bind fun v h' advance allowed => returned advance allowed
    | none =>
      have null : C.Couples h f (Pure.pure .null) (Pure.pure .null) C.discipline.Allowed :=
        .pure ready.sound (C.discipline.plain h rfl)
      exact null.bind fun v h' advance allowed => returned advance allowed
  | expression m e => exact parts.expression e ready

end Constructs

/-- A value that comes up is looked at, and evaluation goes on with it. -/
theorem couples_observed {o : Primitives} (fits : C.Fits o) (ready : C.discipline.Ready h f)
    {p q : Eval Value} (coupled : C.Couples h f p q C.discipline.Allowed) :
    C.Couples h f p (do let v ← q; o.observe [v]; return v) C.discipline.Allowed := by
  have looked : C.Couples h f (do let v ← p; Primitives.standard.observe [v]; return v)
      (do let v ← q; o.observe [v]; return v) C.discipline.Allowed := by
    apply coupled.bind
    intro v h' advance allowed
    have each : ∀ w ∈ [v], C.discipline.Allowed h' w := by
      simpa using allowed
    exact (fits.observe (ready.advance advance) each).bind fun _ h'' further _ =>
      .pure further.1 (C.discipline.allowed_mono further.2 allowed)
  rwa [Primitives.bind_observe_standard] at looked

/-- Evaluation and evaluation with other primitives are coupled, with any amount of fuel. -/
theorem couples_parts {o : Primitives} (fits : C.Fits o) (fuel : Nat) :
    C.PartsCoupled (Evaluation.parts fuel) (o.parts fuel) := by
  induction fuel with
  | zero => exact ⟨fun _ _ _ _ => .outOfFuel, fun _ _ _ _ => .outOfFuel⟩
  | succ fuel ih =>
    constructor
    · intro e h f ready
      change C.Couples h f (Evaluation.expression (fuel + 1) e) (o.expression (fuel + 1) e) _
      rw [Evaluation.expression, Attempt.deepen_eq, Primitives.expression]
      apply (fits.check ready).bind
      intro _ h' advance _
      have ready' := ready.advance advance
      exact couples_observed fits ready' (couples_expressionOver ih fits ready' fuel e)
    · intro s h f ready
      change C.Couples h f (Evaluation.statement (fuel + 1) s) (o.statement (fuel + 1) s) _
      rw [Evaluation.statement, Attempt.deepen_eq, Primitives.statement]
      apply (fits.check ready).bind
      intro _ h' advance _
      have ready' := ready.advance advance
      exact couples_observed fits ready' (couples_statementOver ih fits ready' s)

end Coupling

/-- The values that a piece names may be handled. -/
def Evaluation.Piece.Allowed (D : Discipline) (h : Heap) : Piece → Prop
  | .call id args => D.Allowed h (.function id) ∧ ∀ v ∈ args, D.Allowed h v
  | .builtin _ args => ∀ v ∈ args, D.Allowed h v
  | .method object _ args => D.Allowed h object ∧ ∀ v ∈ args, D.Allowed h v
  | .expression _ | .statement _ | .block _ | .program _ => True

namespace Coupling

variable {C : Coupling} {h : Heap} {f : FrameId} {o : Primitives}

/-- Evaluation and evaluation with other primitives are coupled. -/
theorem couples_evaluation (fits : C.Fits o) (fuel : Nat) (piece : Piece)
    (ready : C.discipline.Ready h f) (allowed : piece.Allowed C.discipline h) :
    C.Couples h f (piece.evaluation fuel) (o.evaluation fuel piece) C.discipline.Allowed := by
  have parts := couples_parts fits fuel
  cases piece with
  | expression e => exact parts.expression e ready
  | statement s => exact parts.statement s ready
  | block b => exact couples_block parts ready b
  | program p => exact couples_statements parts ready (C.discipline.plain h rfl) p.stmts
  | call id args => exact couples_execute parts ready.sound allowed.1 allowed.2
  | builtin b args => exact fits.builtin ready allowed
  | method object name args => exact fits.method ready allowed.1 allowed.2

/-! ### The operations as they are -/

/-- Printing is coupled with itself, and so is reading the clock. -/
structure Connected (C : Coupling) : Prop where
  write : ∀ {h f} (piece : String), C.discipline.Sound h →
    C.Couples h f (Machine.write piece) (Machine.write piece) fun _ _ => True
  readClock : ∀ {h f}, C.discipline.Sound h →
    C.Couples h f Machine.readClock Machine.readClock fun _ _ => True

/-- The runs print to the same output and read the same clock. -/
theorem connected_of
    (alike : ∀ {m n}, C.Linked m n → n.sink = m.sink ∧ n.clock = m.clock)
    (printed : ∀ {m n} (sink : Sink) (lines : Nat), C.Linked m n →
      C.Linked { m with sink, cancellation := m.cancellation.printed lines }
        { n with sink, cancellation := n.cancellation.printed lines })
    (read : ∀ {m n} (clock : Clock), C.Linked m n → C.Linked { m with clock } { n with clock }) :
    C.Connected := by
  refine ⟨fun piece sound => ?_, fun sound => ?_⟩
  · refine ⟨.write sound piece, fun m _ _ => ?_, fun m n _ _ linked => ?_⟩
    · unfold Machine.write
      dsimp only
      split
      · rename_i written
        exact .write written
      · exact .refl m.sink
    · obtain ⟨h, f, sink, signal, clock⟩ := m
      obtain ⟨h', f', _, signal', _⟩ := n
      obtain ⟨rfl, rfl⟩ := alike linked
      unfold Machine.write
      dsimp only
      split
      · exact .done () (printed _ _ linked)
      · exact .failed _ nofun linked
  · refine ⟨.readClock sound, fun m _ _ => .refl m.sink, fun m n _ _ linked => ?_⟩
    obtain ⟨h, f, sink, signal, clock⟩ := m
    obtain ⟨h', f', _, signal', _⟩ := n
    obtain ⟨rfl, rfl⟩ := alike linked
    exact .done _ (read _ linked)

theorem couples_printLine (connected : C.Connected) (sound : C.discipline.Sound h)
    (args : List Value) :
    C.Couples h f (printLine args) (printLine args) C.discipline.Allowed := by
  have line : C.Couples h f (consult fun h => .ok (", ".intercalate (args.map h.render)))
      (consult fun h => .ok (", ".intercalate (args.map h.render))) fun _ _ => True :=
    couples_look sound trivial
  unfold printLine
  apply line.bind
  intro text h₁ first _
  have written : C.Couples h₁ f (writeLine text) (writeLine text) fun _ _ => True := by
    have nothing : C.Couples h₁ f (Pure.pure ()) (Pure.pure ()) fun _ _ => True :=
      .pure first.1 trivial
    unfold writeLine
    split
    · exact nothing.bind fun _ h₂ second _ => connected.write _ second.1
    · exact (connected.write text first.1).bind fun _ h₂ second _ => connected.write _ second.1
  exact written.bind fun _ h₂ second _ => .pure second.1 (C.discipline.plain h₂ rfl)

theorem couples_callBuiltin (connected : C.Connected) (sound : C.discipline.Sound h) (b : Builtin)
    (args : List Value) :
    C.Couples h f (Evaluation.callBuiltin b args) (Evaluation.callBuiltin b args)
      C.discipline.Allowed := by
  have looked : ∀ {look : Heap → Value}, (look h).isPlain →
      C.Couples h f (consult fun h => .ok (look h)) (consult fun h => .ok (look h))
        C.discipline.Allowed := fun plain => couples_look sound (C.discipline.plain h plain)
  unfold Evaluation.callBuiltin
  split
  · unfold lengthOf
    split
    · exact .pure sound (C.discipline.plain h rfl)
    · exact looked rfl
    · exact looked rfl
    · exact .raise sound nofun
  · exact couples_ofExcept sound (toNumber_ne_timeout _) fun v worked =>
      C.discipline.plain h (Discipline.toNumber_isPlain worked)
  · exact looked rfl
  · exact (Silent.consult fun h => toInteger_ne_timeout h _).couples (.consult sound
      fun v worked => C.discipline.plain h (Discipline.toInteger_isPlain worked))
  · exact (connected.readClock sound).bind fun text h' advance _ =>
      .pure advance.1 (C.discipline.plain h' rfl)
  · exact couples_printLine connected sound _
  · exact .raise sound nofun

/-- The operations of evaluation are coupled with themselves, if only the check is. -/
theorem fits_standard (connected : C.Connected) {check : Eval Unit}
    (checked : ∀ {h f}, C.discipline.Ready h f →
      C.Couples h f Machine.check check fun _ _ => True) :
    C.Fits { Primitives.standard with check } where
  check := checked
  observe ready _ := .pure ready.sound trivial
  typeof ready _ := .pure ready.sound (C.discipline.plain _ rfl)
  put ready table name value := .pure ready.sound (table.put _ name value)
  binary ready _ _ := (Silent.consult fun h => applyInfix_ne_timeout h _ _ _).couples
    (.consult ready.sound fun _ worked =>
      C.discipline.plain _ (Discipline.applyInfix_isPlain worked))
  compound ready _ operand := (Silent.consult fun h => applyAssign_ne_timeout h _ _ _).couples
    (.consult ready.sound fun _ worked => Discipline.applyAssign_allowed operand worked)
  read ready container _ := (Silent.consult fun h => h.read_ne_timeout _ _).couples
    (.consult ready.sound fun _ found => Discipline.read_allowed ready.sound container found)
  slice ready container := ((Silent.consult fun h => h.cut_ne_timeout _ _ _).bind
    fun _ => .onHeap _).couples (Discipline.keeps_sliceOf ready.sound container _)
  store ready container name operand :=
    (Silent.commit fun h => h.assignment_ne_timeout _ _ _ _).couples (.commit ready.sound
      fun _ _ found => Discipline.assignment_allowed container name operand found)
  remove ready container := (Silent.commit fun h => h.deletion_ne_timeout _ _).couples
    (.commit ready.sound fun _ _ found => Discipline.deletion_allowed ready.sound container found)
  method ready object each := (Silent.act fun h => h.callMethod_ne_timeout _ _ _).couples
    (.act (Discipline.callMethod_keeps ready.sound object _ each))
  builtin ready _ := couples_callBuiltin connected ready.sound _ _

/-! ### Runs that are the same -/

/-- What two runs leave behind at a check that fails in both. -/
structure Residue where
  Left : Machine → Machine → Prop
  reframe : ∀ {m n : Machine} (f : FrameId), Left m n →
    Left { m with scope := f } { n with scope := f }

/-- The two runs are the same up to a failing check, and then their machines are as described. -/
def equal (D : Discipline) (R : Residue) : Coupling where
  discipline := D
  Linked := Eq
  Past o n := ∃ m, o = .failed (.error .timeout) m ∧ R.Left m n
  same := by
    rintro m n rfl
    exact ⟨rfl, rfl⟩
  relink := by
    rintro m n h f rfl
    rfl
  reframe := by
    rintro o n f ⟨m, rfl, left⟩
    exact ⟨_, rfl, R.reframe f left⟩
  grown := by
    rintro m m' n ⟨_, ⟨⟩, _⟩
  stopped := by
    rintro m n stop ⟨_, ⟨⟩, _⟩
  lost := by
    rintro m n ⟨_, ⟨⟩, _⟩
  resumed := by
    rintro stop m n ⟨_, ⟨⟩, _⟩ other
    exact absurd rfl other

/-- Doing in another way what comes to the same. -/
theorem Couples.of_eq {α : Type} {p q q' : Eval α} {Q : Heap → α → Prop}
    (coupled : C.Couples h f p q Q)
    (same : ∀ m : Machine, m.heap = h → m.scope = f → q' m = q m) : C.Couples h f p q' Q := by
  refine ⟨coupled.keeps, coupled.prints, fun m n heap scope linked => ?_⟩
  obtain ⟨heaps, frames⟩ := C.same linked
  rw [same n (heaps.trans heap) (frames.trans scope)]
  exact coupled.ends m n heap scope linked

section Equal

variable {D : Discipline} {R : Residue}

theorem connected_equal : (equal D R).Connected := by
  apply connected_of
  · rintro m n rfl
    exact ⟨rfl, rfl⟩
  · rintro m n sink lines rfl
    rfl
  · rintro m n clock rfl
    rfl

/-- A check that fails at the same time as the check of evaluation, and leaves what is described. -/
theorem couples_check_equal {check : Eval Unit} (sound : D.Sound h)
    (passed : ∀ m : Machine, m.heap = h → m.scope = f → ¬ m.cancellation.isCancelled →
      check m = Machine.check m)
    (failed : ∀ m : Machine, m.heap = h → m.scope = f → m.cancellation.isCancelled →
      ∃ n, check m = .failed (.error .timeout) n ∧ R.Left m n) :
    (equal D R).Couples h f Machine.check check fun _ _ => True := by
  refine ⟨(Discipline.Keeps.check sound).mono fun _ _ _ => trivial, fun m _ _ => check_prints m, ?_⟩
  rintro m n heap scope rfl
  by_cases cancelled : m.cancellation.isCancelled
  · obtain ⟨n, stopped, left⟩ := failed m heap scope cancelled
    rw [stopped, check_cancelled cancelled]
    exact .past ⟨m, rfl, left⟩
  · rw [passed m heap scope cancelled, check_passed cancelled]
    exact .done () rfl

end Equal

end Coupling

end Scripting
