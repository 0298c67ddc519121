import Scripting.Proofs.Discipline
import Scripting.Session

/-!
# Evaluation keeps to a discipline

One lemma for each construct, over parts that keep to the discipline, and from them by induction on
fuel the same for every expression, every statement and every call.
-/

namespace Scripting.Discipline

open Evaluation

variable {D : Discipline} {p : Parts} {h : Heap} {f : FrameId}

/-! ### Names -/

theorem keeps_lookup (ready : D.Ready h f) (name : String) :
    D.Keeps h f (lookup name) D.Allowed := by
  intro m heap scope
  subst heap scope
  unfold lookup
  split
  · rename_i v found
    exact ⟨.refl ready.sound, rfl, ready.get found⟩
  · split
    · exact ⟨.refl ready.sound, rfl, D.plain _ rfl⟩
    · exact ⟨.refl ready.sound, rfl, trivial⟩

theorem keeps_rebind (ready : D.Ready h f) (name : String) {v : Value} (allowed : D.Allowed h v) :
    D.Keeps h f (rebind name v) fun _ _ => True := by
  unfold rebind
  apply Keeps.currentFrame
  refine Keeps.onHeap ?_ trivial
  change D.Advance h { h with scopes := (h.scopes.reset f name v).2 }
  unfold ScopeTree.reset
  split
  · rename_i o owner
    exact D.bind ready.sound (ready.owner owner) allowed
  · exact .refl ready.sound

theorem keeps_define (ready : D.Ready h f) (name : String) {v : Value} (allowed : D.Allowed h v) :
    D.Keeps h f (define name v) fun _ _ => True := by
  unfold define
  apply Keeps.currentFrame
  exact Keeps.onHeap (D.bind ready.sound ready.opened allowed) trivial

/-! ### Rows of parts -/

theorem keeps_statements (kept : D.PartsKeep p) (ready : D.Ready h f) {result : Value}
    (allowed : D.Allowed h result) (ss : List (Stmt Unit)) :
    D.Keeps h f (statements p result ss) D.Allowed := by
  induction ss generalizing h result with
  | nil => exact .pure ready.sound allowed
  | cons s ss ih =>
    rw [statements]
    split
    · exact ih ready allowed
    · apply (kept.statement s ready).bind
      intro v h' advance value
      exact ih (ready.advance advance) value

theorem keeps_block (kept : D.PartsKeep p) (ready : D.Ready h f) (b : Block Unit) :
    D.Keeps h f (block p b) D.Allowed :=
  keeps_statements kept ready (D.plain h rfl) b.stmts

theorem keeps_values (kept : D.PartsKeep p) (ready : D.Ready h f) (es : List (Expr Unit)) :
    D.Keeps h f (values p es) fun h' vs => ∀ v ∈ vs, D.Allowed h' v := by
  induction es generalizing h with
  | nil => exact .pure ready.sound nofun
  | cons e es ih =>
    rw [values]
    apply (kept.expression e ready).bind
    intro v h' advance value
    apply (ih (ready.advance advance)).bind
    intro vs h'' advance' others
    refine .pure advance'.1 ?_
    intro w member
    rcases List.mem_cons.mp member with rfl | inside
    · exact D.allowed_mono advance'.2 value
    · exact others w inside

/-- A table under construction. -/
structure TableAllowed (D : Discipline) (h : Heap) (t : Table) : Prop where
  indexed : t.Indexed
  entries : ∀ e ∈ t.entries, D.Allowed h e.name ∧ D.Allowed h e.value

theorem TableAllowed.empty : D.TableAllowed h .empty := ⟨.empty, by simp [Table.empty]⟩

theorem TableAllowed.mono {h' : Heap} {t : Table} (table : D.TableAllowed h t)
    (advance : D.Advance h h') : D.TableAllowed h' t where
  indexed := table.indexed
  entries := by
    intro e member
    obtain ⟨name, value⟩ := table.entries e member
    exact ⟨D.allowed_mono advance.2 name, D.allowed_mono advance.2 value⟩

theorem TableAllowed.put {t : Table} (table : D.TableAllowed h t) (k : Key) {name value : Value}
    (named : D.Allowed h name) (held : D.Allowed h value) :
    D.TableAllowed h (t.put k name value).2 where
  indexed := table.indexed.put k name value
  entries := by
    intro e member
    rw [← Array.mem_toList_iff] at member
    rcases (table.indexed.mem_put k name value e).mp member with rfl | ⟨old, _⟩
    · exact ⟨named, held⟩
    · exact table.entries e (Array.mem_toList_iff.mp old)

theorem keeps_entries (kept : D.PartsKeep p) (ready : D.Ready h f) {t : Table}
    (table : D.TableAllowed h t) (ps : List (Expr Unit × Expr Unit)) :
    D.Keeps h f (entries p t ps) D.TableAllowed := by
  induction ps generalizing h t with
  | nil => exact .pure ready.sound table
  | cons pair ps ih =>
    obtain ⟨k, e⟩ := pair
    -- What is left to do once the name of the entry is known.
    have named : ∀ {name : Value} {h₁ : Heap}, D.Advance h h₁ → D.Allowed h₁ name →
        D.Keeps h₁ f (do
          let key ← Machine.ofExcept name.key
          let v ← p.expression e
          entries p (t.put key name v).2 ps) D.TableAllowed := by
      intro name h₁ first allowed
      have hashed : D.Keeps h₁ f (Machine.ofExcept name.key) fun _ _ => True :=
        .ofExcept first.1 fun _ _ => trivial
      apply hashed.bind
      intro key h₂ second _
      apply (kept.expression e ((ready.advance first).advance second)).bind
      intro v h₃ third value
      have whole := (first.trans second).trans third
      exact ih (ready.advance whole) ((table.mono whole).put key
        (D.allowed_mono (second.trans third).2 allowed) value)
    unfold entries
    split
    · exact (Keeps.pure ready.sound (D.plain h rfl)).bind fun _ _ first allowed =>
        named first allowed
    · exact (kept.expression _ ready).bind fun _ _ first allowed => named first allowed

/-! ### Calls -/

theorem mem_put {bs : Bindings} {name : String} {x : Value} {b : String × Value}
    (member : b ∈ bs.put name x) : b ∈ bs ∨ b.2 = x := by
  induction bs with
  | nil =>
    rw [Bindings.put, List.mem_singleton] at member
    exact .inr (by rw [member])
  | cons c cs ih =>
    rw [Bindings.put] at member
    split at member
    · rcases List.mem_cons.mp member with rfl | inside
      · exact .inr rfl
      · exact .inl (List.mem_cons_of_mem _ inside)
    · rcases List.mem_cons.mp member with rfl | inside
      · exact .inl List.mem_cons_self
      · rcases ih inside with old | new
        · exact .inl (List.mem_cons_of_mem _ old)
        · exact .inr new

theorem allowed_bindParameters (parameters : List String) {args : List Value}
    (allowed : ∀ v ∈ args, D.Allowed h v) :
    ∀ b ∈ bindParameters parameters args, D.Allowed h b.2 := by
  have each : ∀ (pairs : List (String × Value)) (bs : Bindings),
      (∀ q ∈ pairs, D.Allowed h q.2) → (∀ b ∈ bs, D.Allowed h b.2) →
      ∀ b ∈ pairs.foldl (fun bs b => bs.put b.1 b.2) bs, D.Allowed h b.2 := by
    intro pairs
    induction pairs with
    | nil => exact fun bs _ held => held
    | cons q pairs ih =>
      intro bs some held
      apply ih _ fun r member => some r (List.mem_cons_of_mem _ member)
      intro b member
      rcases mem_put member with old | new
      · exact held b old
      · rw [new]
        exact some q List.mem_cons_self
  apply each
  · intro q member
    exact allowed q.2 (List.of_mem_zip member).2
  · nofun

/-- A call keeps to the discipline whatever frame it is made from: only what the function captured
and the arguments matter. -/
theorem keeps_execute (kept : D.PartsKeep p) (sound : D.Sound h) {id : FunctionId}
    (callee : D.Allowed h (.function id)) {args : List Value}
    (allowed : ∀ v ∈ args, D.Allowed h v) : D.Keeps h f (execute p id args) D.Allowed := by
  have closure : D.Keeps h f (Machine.consult fun h => .ok (h.closure id))
      fun h' c => h' = h ∧ c = h.closure id := by
    apply Keeps.consult sound
    intro c same
    cases same
    exact ⟨rfl, rfl⟩
  unfold execute
  apply closure.bind
  rintro c h' - ⟨rfl, rfl⟩
  split
  · obtain ⟨advance, opened⟩ := D.child sound (D.captured sound callee)
      (allowed_bindParameters (h'.closure id).parameters allowed)
    have made : D.Keeps h' f (Machine.onHeap fun h => h.onScopes
        (·.childWith (h'.closure id).scope (bindParameters (h'.closure id).parameters args)))
        D.Open := .onHeap advance opened
    apply made.bind
    intro g h₁ first opened
    apply (Keeps.capture (Keeps.inFrame (keeps_block kept ⟨first.1, opened⟩ _))).bind
    rintro result h₂ second ⟨value, stop⟩
    split
    · exact .pure second.1 (value _ rfl)
    · exact .pure second.1 (stop _ rfl)
    · exact .pure second.1 (D.plain h₂ rfl)
    · exact .pure second.1 (D.plain h₂ rfl)
    · exact .raise second.1 _
  · exact .raise sound _

theorem keeps_call (kept : D.PartsKeep p) (ready : D.Ready h f) {callee : Value}
    (function : D.Allowed h callee) {args : List Value} (allowed : ∀ v ∈ args, D.Allowed h v) :
    D.Keeps h f (call p callee args) D.Allowed := by
  unfold call
  split
  · exact keeps_execute kept ready.sound function allowed
  · exact keeps_callBuiltin ready.sound _ _
  · have text : D.Keeps h f (Machine.consult fun h => .ok (h.render callee)) fun _ _ => True :=
      .consult ready.sound fun _ _ => trivial
    exact text.bind fun _ h' advance _ => .raise advance.1 _

/-! ### Storing -/

theorem keeps_delete (ready : D.Ready h f) (name : String) :
    D.Keeps h f (Machine.onHeap fun h => h.onScopes (·.delete f name))
      fun h' result => ∀ v, result = some v → D.Allowed h' v := by
  have deleted : D.Advance h { h with scopes := (h.scopes.delete f name).2 } ∧
      ∀ v, (h.scopes.delete f name).1 = some v → D.Allowed h v := by
    unfold ScopeTree.delete
    split
    · rename_i o owner
      have opened := ready.owner owner
      exact ⟨D.unbind ready.sound opened, fun v held => D.binding ready.sound opened held⟩
    · exact ⟨.refl ready.sound, nofun⟩
  exact .onHeap deleted.1 fun v held => D.allowed_mono deleted.1.2 (deleted.2 v held)

theorem keeps_deleteTarget (kept : D.PartsKeep p) (ready : D.Ready h f) (target : Expr Unit) :
    D.Keeps h f (deleteTarget p target) D.Allowed := by
  unfold deleteTarget
  split
  · rename_i i
    apply Keeps.currentFrame
    apply (keeps_delete ready i.name).bind
    intro result h' advance value
    split
    · exact .pure advance.1 (value _ rfl)
    · exact .raise advance.1 _
  · rename_i container key
    apply (kept.expression container ready).bind
    intro c h₁ first allowed
    apply (kept.expression key (ready.advance first)).bind
    intro k h₂ second _
    exact .commit second.1 fun v change found =>
      deletion_allowed second.1 (D.allowed_mono second.2 allowed) found
  · exact .raise ready.sound _

theorem keeps_assignName (ready : D.Ready h f) (name : String) (op : AssignOperator) {v : Value}
    (allowed : D.Allowed h v) : D.Keeps h f (assignName name op v) D.Allowed := by
  unfold assignName
  apply Keeps.currentFrame
  have looked : D.Keeps h f (Machine.consult fun h => .ok (h.scopes.get f name))
      fun _ _ => True := .consult ready.sound fun _ _ => trivial
  apply looked.bind
  intro result h₁ first _
  split
  · rename_i old
    have worked : D.Keeps h₁ f (Machine.consult (applyAssign · op old v)) D.Allowed :=
      .consult first.1 fun new done => applyAssign_allowed (D.allowed_mono first.2 allowed) done
    apply worked.bind
    intro new h₂ second stored
    apply (keeps_rebind ((ready.advance first).advance second) name stored).bind
    intro _ h₃ third _
    exact .pure third.1 (D.allowed_mono third.2 stored)
  · exact .raise first.1 _

theorem keeps_assign (kept : D.PartsKeep p) (ready : D.Ready h f) (op : AssignOperator)
    (target value : Expr Unit) : D.Keeps h f (assign p op target value) D.Allowed := by
  unfold assign
  apply (kept.expression value ready).bind
  intro v h₁ first operand
  have ready₁ := ready.advance first
  split
  · exact keeps_assignName ready₁ _ op operand
  · rename_i container key
    split
    · exact .raise first.1 _
    · apply (kept.expression container ready₁).bind
      intro c h₂ second allowed
      apply (kept.expression key (ready₁.advance second)).bind
      intro k h₃ third name
      exact .commit third.1 fun w change found =>
        assignment_allowed (D.allowed_mono third.2 allowed) name
          (D.allowed_mono (second.trans third).2 operand) found
  · exact .raise first.1 _

theorem stepResult_allowed {old : Value} (allowed : D.Allowed h old) {new : Option Value}
    (stepped : ∀ v, new = some v → D.Allowed h v) (before : Bool) :
    D.Allowed h (stepResult old new before) := by
  unfold stepResult
  split
  · split
    · exact stepped _ rfl
    · exact allowed
  · exact D.plain h rfl

theorem keeps_stepValue (kept : D.PartsKeep p) (ready : D.Ready h f) (operand : Expr Unit)
    (delta : Int64) (before : Bool) :
    D.Keeps h f (stepValue p operand delta before) D.Allowed := by
  unfold stepValue
  apply (kept.expression operand ready).bind
  intro old h' advance allowed
  exact .pure advance.1 (stepResult_allowed allowed
    (fun v stepped => D.plain h' (stepped_isPlain stepped)) before)

theorem keeps_step (kept : D.PartsKeep p) (ready : D.Ready h f) (operand : Expr Unit)
    (delta : Int64) (before : Bool) : D.Keeps h f (step p operand delta before) D.Allowed := by
  unfold step
  split
  · rename_i i
    apply (keeps_lookup ready i.name).bind
    intro old h₁ first allowed
    split
    · rename_i v stepped
      have stored : D.Allowed h₁ v := D.plain h₁ (stepped_isPlain stepped)
      apply (keeps_rebind (ready.advance first) i.name stored).bind
      intro _ h₂ second _
      refine .pure second.1 (stepResult_allowed (D.allowed_mono second.2 allowed) ?_ before)
      rintro w ⟨⟩
      exact D.allowed_mono second.2 stored
    · exact .pure first.1 (D.plain h₁ rfl)
  · rename_i container key
    split
    · exact keeps_stepValue kept ready _ delta before
    · apply (kept.expression container ready).bind
      intro c h₁ first allowed
      apply (kept.expression key (ready.advance first)).bind
      intro k h₂ second name
      have here := D.allowed_mono second.2 allowed
      have looked : D.Keeps h₂ f (Machine.consult (·.read c k)) D.Allowed :=
        .consult second.1 fun v found => read_allowed second.1 here found
      apply looked.bind
      intro old h₃ third old'
      split
      · rename_i v stepped
        have stored : D.Allowed h₃ v := D.plain h₃ (stepped_isPlain stepped)
        have written : D.Keeps h₃ f (Machine.commit (·.assignment c k .assign v)) D.Allowed :=
          .commit third.1 fun w change found => assignment_allowed (D.allowed_mono third.2 here)
            (D.allowed_mono third.2 name) stored found
        apply written.bind
        intro _ h₄ fourth _
        refine .pure fourth.1 (stepResult_allowed (D.allowed_mono fourth.2 old') ?_ before)
        rintro w ⟨⟩
        exact D.allowed_mono fourth.2 stored
      · exact .pure third.1 (D.plain h₃ rfl)
  · exact keeps_stepValue kept ready _ delta before

/-! ### Loops -/

theorem keeps_whileRounds (kept : D.PartsKeep p) (ready : D.Ready h f) (condition : Expr Unit)
    (body : Block Unit) (fuel : Nat) {result : Value} (allowed : D.Allowed h result) :
    D.Keeps h f (whileRounds p condition body fuel result) D.Allowed := by
  induction fuel generalizing h result with
  | zero => exact .outOfFuel
  | succ fuel ih =>
    rw [whileRounds]
    apply (kept.expression condition ready).bind
    intro c h₁ first _
    have ready₁ := ready.advance first
    split
    · apply (Keeps.capture (keeps_block kept ready₁ body)).bind
      rintro ended h₂ second ⟨value, stop⟩
      have ready₂ := ready₁.advance second
      split
      · exact ih ready₂ (value _ rfl)
      · exact ih ready₂ (D.plain h₂ rfl)
      · exact .pure second.1 (D.plain h₂ rfl)
      · exact .fail second.1 (stop _ rfl)
    · exact .pure first.1 (D.allowed_mono first.2 allowed)

theorem keeps_loopCondition (kept : D.PartsKeep p) (ready : D.Ready h f)
    (condition : Option (Expr Unit)) : D.Keeps h f (loopCondition p condition) fun _ _ => True := by
  unfold loopCondition
  split
  · exact (kept.expression _ ready).bind fun _ h' advance _ => .pure advance.1 trivial
  · exact .pure ready.sound trivial

theorem keeps_loopAdvance (kept : D.PartsKeep p) (ready : D.Ready h f)
    (condition update : Option (Expr Unit)) :
    D.Keeps h f (loopAdvance p condition update) fun _ _ => True := by
  unfold loopAdvance
  split
  · exact (kept.expression _ ready).bind fun _ h' advance _ =>
      keeps_loopCondition kept (ready.advance advance) condition
  · exact keeps_loopCondition kept ready condition

theorem keeps_endRound (kept : D.PartsKeep p) (ready : D.Ready h f)
    (condition update : Option (Expr Unit)) {v : Value} (allowed : D.Allowed h v) :
    D.Keeps h f (endRound p condition update v) fun h' r => D.Allowed h' r.1 := by
  unfold endRound
  apply (Keeps.capture (keeps_loopAdvance kept ready condition update)).bind
  rintro again h₁ first ⟨_, stop⟩
  split
  · exact .pure first.1 (D.allowed_mono first.2 allowed)
  · exact .pure first.1 (D.allowed_mono first.2 allowed)
  · exact .fail first.1 (stop _ rfl)

theorem keeps_forRound (kept : D.PartsKeep p) (ready : D.Ready h f)
    (condition update : Option (Expr Unit)) (body : Block Unit) :
    D.Keeps h f (forRound p condition update body) fun h' r => D.Allowed h' r.1 := by
  unfold forRound
  apply (Keeps.capture (keeps_block kept ready body)).bind
  rintro ended h₁ first ⟨value, stop⟩
  have ready₁ := ready.advance first
  split
  · exact keeps_endRound kept ready₁ condition update (value _ rfl)
  · exact keeps_endRound kept ready₁ condition update (D.plain h₁ rfl)
  · exact .pure first.1 (D.plain h₁ rfl)
  · exact .fail first.1 (stop _ rfl)
  · exact .raise first.1 _

theorem keeps_forRounds (kept : D.PartsKeep p) (ready : D.Ready h f)
    (condition update : Option (Expr Unit)) (body : Block Unit) (fuel : Nat) {result : Value}
    (allowed : D.Allowed h result) (again : Bool) :
    D.Keeps h f (forRounds p condition update body fuel result again) D.Allowed := by
  induction fuel generalizing h result again with
  | zero => exact .outOfFuel
  | succ fuel ih =>
    cases again with
    | false => exact .pure ready.sound allowed
    | true =>
      rw [forRounds]
      apply (Keeps.inChild ready fun h₁ g first inner =>
        keeps_forRound kept inner condition update body).bind
      rintro ⟨value, more⟩ h₁ first allowed
      exact ih (ready.advance first) allowed more

theorem keeps_forLoop (kept : D.PartsKeep p) (ready : D.Ready h f) (fuel : Nat)
    (start : Option (Stmt Unit)) (condition update : Option (Expr Unit)) (body : Block Unit) :
    D.Keeps h f (forLoop p fuel start condition update body) D.Allowed := by
  have rounds : ∀ {h₁ : Heap}, D.Ready h₁ f → D.Keeps h₁ f (do
      let again ← loopCondition p condition
      forRounds p condition update body fuel .null again) D.Allowed := by
    intro h₁ ready₁
    apply (keeps_loopCondition kept ready₁ condition).bind
    intro again h₂ second _
    exact keeps_forRounds kept (ready₁.advance second) condition update body fuel (D.plain h₂ rfl)
      again
  unfold forLoop
  split
  · exact (kept.statement _ ready).bind fun _ h₁ first _ => rounds (ready.advance first)
  · exact rounds ready

/-! ### Elements -/

theorem keeps_method (kept : D.PartsKeep p) (ready : D.Ready h f)
    (whole object called : Expr Unit) :
    D.Keeps h f (method p whole object called) D.Allowed := by
  unfold method
  apply (kept.expression object ready).bind
  intro o h₁ first allowed
  split
  · apply (keeps_values kept (ready.advance first) _).bind
    intro vs h₂ second each
    exact .act (callMethod_keeps second.1 (D.allowed_mono second.2 allowed) _ each)
  · exact .raise first.1 _

theorem keeps_sliceOf (sound : D.Sound h) {container low : Value} (allowed : D.Allowed h container)
    (high : Option Value) : D.Keeps h f (sliceOf container low high) D.Allowed := by
  have looked : D.Keeps h f (Machine.consult (·.cut container low high))
      fun h' c => h' = h ∧ D.CutAllowed h c :=
    .consult sound fun c found => ⟨rfl, cut_allowed allowed found⟩
  unfold sliceOf
  apply looked.bind
  rintro c h' - ⟨rfl, part⟩
  cases c with
  | part a first last =>
    obtain ⟨advance, view⟩ := D.newView sound part.1 part.2.1 part.2.2
    exact .onHeap advance view
  | text s => exact .onHeap (.refl sound) (D.plain h' rfl)

theorem keeps_optional (kept : D.PartsKeep p) (ready : D.Ready h f) (e : Option (Expr Unit)) :
    D.Keeps h f (Evaluation.optional p e) fun _ _ => True := by
  unfold Evaluation.optional
  split
  · exact (kept.expression _ ready).bind fun _ h' advance _ => .pure advance.1 trivial
  · exact .pure ready.sound trivial

theorem keeps_index (kept : D.PartsKeep p) (ready : D.Ready h f) (container key : Expr Unit) :
    D.Keeps h f (index p container key) D.Allowed := by
  unfold index
  apply (kept.expression container ready).bind
  intro c h₁ first allowed
  have ready₁ := ready.advance first
  split
  · rename_i low high
    apply (kept.expression low ready₁).bind
    intro l h₂ second _
    apply (keeps_optional kept (ready₁.advance second) high).bind
    intro r h₃ third _
    exact keeps_sliceOf third.1 (D.allowed_mono (second.trans third).2 allowed) r
  · apply (kept.expression key ready₁).bind
    intro k h₂ second _
    exact .consult second.1 fun v found =>
      read_allowed second.1 (D.allowed_mono second.2 allowed) found

/-! ### Expressions and statements -/

theorem keeps_unary (kept : D.PartsKeep p) (ready : D.Ready h f) (op : PrefixOperator)
    (operand : Expr Unit) : D.Keeps h f (unary p op operand) D.Allowed := by
  unfold unary
  split
  · exact keeps_step kept ready operand 1 true
  · exact keeps_step kept ready operand (-1) true
  · apply (kept.expression operand ready).bind
    intro v h' advance _
    exact .ofExcept advance.1 fun w worked => D.plain h' (applyPrefix_isPlain worked)

theorem keeps_expressionOver (kept : D.PartsKeep p) (ready : D.Ready h f) (fuel : Nat)
    (e : Expr Unit) : D.Keeps h f (expressionOver p fuel e) D.Allowed := by
  cases e with
  | missing m => exact .pure ready.sound (D.plain h rfl)
  | identifier m i => exact keeps_lookup ready i.name
  | literal m l => exact .pure ready.sound (D.plain h (by cases l <;> rfl))
  | array m es =>
    apply (keeps_values kept ready es).bind
    intro vs h' advance each
    obtain ⟨made, value⟩ := D.newArray advance.1 fun v member => each v (List.mem_toArray.mp member)
    exact .onHeap made value
  | hash m ps =>
    apply (keeps_entries kept ready .empty ps).bind
    intro t h' advance table
    obtain ⟨made, value⟩ := D.newHash advance.1 table.indexed table.entries
    exact .onHeap made value
  | function m ps b x =>
    apply Keeps.currentFrame
    obtain ⟨made, value⟩ := D.newFunction (c := ⟨ps.map (·.name), b, f⟩) ready.sound ready.opened
    exact .onHeap made value
  | unary m op operand => exact keeps_unary kept ready op operand
  | binary m op l r =>
    apply (kept.expression l ready).bind
    intro x h₁ first _
    apply (kept.expression r (ready.advance first)).bind
    intro y h₂ second _
    exact .consult second.1 fun v worked => D.plain h₂ (applyInfix_isPlain worked)
  | step m op operand =>
    cases op with
    | increment => exact keeps_step kept ready operand 1 false
    | decrement => exact keeps_step kept ready operand (-1) false
  | assign m op target value => exact keeps_assign kept ready op target value
  | conditional m c yes no =>
    apply (kept.expression c ready).bind
    intro v h' advance _
    have ready' := ready.advance advance
    split
    · exact keeps_block kept ready' yes
    · split
      · exact keeps_block kept ready' _
      · exact .pure advance.1 (D.plain h' rfl)
  | whileLoop m c b =>
    exact .inChild ready fun h' g _ inner =>
      keeps_whileRounds kept inner c b fuel (D.plain h' rfl)
  | forLoop m start c u b =>
    exact .inChild ready fun h' g _ inner => keeps_forLoop kept inner fuel start c u b
  | breakLoop m => exact .fail ready.sound trivial
  | continueLoop m => exact .fail ready.sound trivial
  | typeof m operand =>
    exact (kept.expression operand ready).bind fun _ h' advance _ =>
      .pure advance.1 (D.plain h' rfl)
  | call m callee args =>
    apply (kept.expression callee ready).bind
    intro c h₁ first allowed
    apply (keeps_values kept (ready.advance first) args).bind
    intro vs h₂ second each
    exact keeps_call kept ((ready.advance first).advance second) (D.allowed_mono second.2 allowed)
      each
  | method m object called => exact keeps_method kept ready _ object called
  | index m container key => exact keeps_index kept ready container key
  | slice m low high => exact .raise ready.sound _

theorem keeps_letBinding (kept : D.PartsKeep p) (ready : D.Ready h f) (m : Unit)
    (name : Identifier Unit) (value : Expr Unit) :
    D.Keeps h f (statementOver p (.letBinding m name value)) D.Allowed := by
  apply Keeps.currentFrame
  have looked : D.Keeps h f (Machine.consult fun h => .ok (h.scopes.getCurrent f name.name))
      fun _ _ => True := .consult ready.sound fun _ _ => trivial
  apply looked.bind
  intro bound h₁ first _
  split
  · exact .raise first.1 _
  · apply (kept.expression value (ready.advance first)).bind
    intro v h₂ second allowed
    apply (keeps_define ((ready.advance first).advance second) name.name allowed).bind
    intro _ h₃ third _
    exact .pure third.1 (D.allowed_mono third.2 allowed)

theorem keeps_statementOver (kept : D.PartsKeep p) (ready : D.Ready h f) (s : Stmt Unit) :
    D.Keeps h f (statementOver p s) D.Allowed := by
  cases s with
  | letBinding m name value => exact keeps_letBinding kept ready m name value
  | deletion m target => exact keeps_deleteTarget kept ready target
  | returning m value =>
    cases value with
    | some e =>
      exact (kept.expression e ready).bind fun v h' advance allowed => .fail advance.1 allowed
    | none =>
      have null : D.Keeps h f (Pure.pure .null) D.Allowed := .pure ready.sound (D.plain h rfl)
      exact null.bind fun v h' advance allowed => .fail advance.1 allowed
  | expression m e => exact kept.expression e ready

/-- Evaluation with any amount of fuel keeps to the discipline. -/
theorem keeps_parts (D : Discipline) (fuel : Nat) : D.PartsKeep (parts fuel) := by
  induction fuel with
  | zero => exact ⟨fun _ _ _ _ => .outOfFuel, fun _ _ _ _ => .outOfFuel⟩
  | succ fuel ih =>
    constructor
    · intro e h f ready
      change D.Keeps h f (expression (fuel + 1) e) D.Allowed
      rw [expression, Attempt.deepen_eq]
      apply (Keeps.check ready.sound).bind
      rintro _ h' - rfl
      exact keeps_expressionOver ih ready fuel e
    · intro s h f ready
      change D.Keeps h f (statement (fuel + 1) s) D.Allowed
      rw [statement, Attempt.deepen_eq]
      apply (Keeps.check ready.sound).bind
      rintro _ h' - rfl
      exact keeps_statementOver ih ready s

end Scripting.Discipline

namespace Scripting.Machine

/-- An evaluation that keeps to a discipline leaves the heap in order and the frame as it was,
however it completes. -/
theorem keeps_complete {D : Discipline} {m m' : Machine} {p : Eval Value}
    {c : Completion} (kept : D.Keeps m.heap m.scope p D.Allowed)
    (ended : m.complete p = some (c, m')) :
    D.Advance m.heap m'.heap ∧ m'.scope = m.scope := by
  have ends := kept m rfl rfl
  rcases complete_cases ended with ⟨v, _, ran⟩ | ⟨stop, _, ran⟩
  · rw [ran] at ends
    exact ⟨ends.1, ends.2.1⟩
  · rw [ran] at ends
    exact ⟨ends.1, ends.2.1⟩

end Scripting.Machine
