import Scripting.Proofs.VeiledEvaluation

/-!
# The frame of a loop and the frames of its rounds

The body of a loop with three clauses is evaluated in a frame of its round, and so are the update
and the condition for the next round, while the first statement and the first condition are
evaluated in the frame of the loop. In `loopWithHeader` the whole header is evaluated in the frame of
the loop. The two loops do the same if the body has no new binding for a name that the condition or
the update mentions: then the frame of a round is a veil between them and the frame of the loop. A
body that has one takes the header away from the variable of the loop.
-/

namespace Scripting

open Machine

namespace Evaluation

/-- One round of a loop with only its body in a frame of the round. -/
def headerRound (p : Parts) (condition update : Option (Expr Unit)) (body : Block Unit) :
    Eval (Value × Bool) := do
  let ended ← (inChild (block p body)).capture
  afterBody p condition update ended

/-- The rounds of such a loop. -/
def headerRounds (p : Parts) (condition update : Option (Expr Unit)) (body : Block Unit) :
    Nat → Value → Bool → Eval Value
  | 0, _, _ => .outOfFuel
  | _ + 1, result, false => pure result
  | fuel + 1, _, true => do
    let (value, again) ← headerRound p condition update body
    headerRounds p condition update body fuel value again

/-- A loop with three clauses, in the frame of the loop, that stays there for its header. -/
def headerLoop (p : Parts) (fuel : Nat) (first : Option (Stmt Unit))
    (condition update : Option (Expr Unit)) (body : Block Unit) : Eval Value := do
  match first with
  | some s => let _ ← p.statement s
  | none => pure ()
  let again ← loopCondition p condition
  headerRounds p condition update body fuel .null again

/-- Evaluates a loop with three clauses with its header in the frame of the loop. -/
def loopWithHeader (fuel : Nat) (first : Option (Stmt Unit)) (condition update : Option (Expr Unit))
    (body : Block Unit) : Eval Value := do
  check
  inChild (headerLoop (parts fuel) fuel first condition update body)

end Evaluation

open Evaluation

namespace ScopeTree

theorem getElem?_frames_eq {s t : ScopeTree} {f : FrameId}
    (bindings : t.frames[f]?.map Frame.bindings = s.frames[f]?.map Frame.bindings)
    (parents : t.parent? f = s.parent? f) : t.frames[f]? = s.frames[f]? := by
  unfold parent? at parents
  cases left : s.frames[f]? with
  | none => simpa [left] using bindings
  | some a =>
    cases right : t.frames[f]? with
    | none => simp [left, right] at bindings
    | some b =>
      obtain ⟨bs, p⟩ := a
      obtain ⟨bs', p'⟩ := b
      simp only [left, right, Option.map_some, Option.some.injEq] at bindings
      simp only [left, right, Option.bind_some] at parents
      rw [bindings, parents]

end ScopeTree

namespace Veil

variable {V : Veil} {u : Usage} {m n m₁ n₁ : Machine}

/-- The frame of a new round is a veil, so long as the code in it binds only the names of veils. -/
theorem Twins.round (twins : V.Twins u m n) :
    (V.adding m.heap.scopes.frames.size).Twins ⟨V.names, u.mentions⟩ m.entered n.entered where
  heap := by
    refine (twins.heap.push twins.stands []).adding ?_ ?_ ?_
    · show _ < (m.heap.scopes.frames.push _).size
      rw [Array.size_push]
      exact Nat.lt_succ_self _
    · intro name
      rw [ScopeTree.getCurrent_eq_bind]
      simp [Bindings.find?]
    · intro id
      exact Nat.ne_of_lt (twins.heap.closures id).stands.there
  sink := twins.sink
  cancellation := twins.cancellation
  clock := twins.clock
  stands := by
    have inside := twins.heap.stands_push twins.stands []
    exact ⟨inside.there, .inl twins.heap.size.symm, fun _ _ => id,
      fun other => absurd twins.heap.size.symm other, inside.sees⟩

/-- After the body of a round, a header that does not mention the names of the veil may be evaluated
in the frame of the round as well as in the frame of the loop. -/
theorem Twins.header (twins : V.Twins u m n) (same : n.scope = m.scope)
    (after : After m.entered m₁) (after' : After n n₁)
    (paired : (V.adding m.heap.scopes.frames.size).Paired m₁ n₁) :
    (V.adding m.heap.scopes.frames.size).Twins ⟨fun _ => False, fun name => ¬ V.names name⟩
      m₁ n₁ where
  toPaired := paired
  stands := by
    have there := (twins.heap.stands_push twins.stands []).there
    have above : m₁.heap.scopes.parent? m.heap.scopes.frames.size = some m.scope := by
      rw [after.grown.parents _ there]
      show (ScopeTree.mk (m.heap.scopes.frames.push _)).parent? _ = _
      rw [ScopeTree.parent?_push, if_pos rfl]
    rw [after.scope, after'.scope, same]
    exact ⟨Nat.lt_of_lt_of_le there after.grown.grown, .inr ⟨.inr rfl, above⟩,
      fun _ _ => False.elim, fun _ _ => id, .inr fun _ => id⟩

/-- After a round the machines are twins again, and there is one more veil. -/
theorem Twins.next (twins : V.Twins u m n) (after : After m m₁) (after' : After n n₁)
    (paired : (V.adding m.heap.scopes.frames.size).Paired m₁ n₁) :
    (V.adding m.heap.scopes.frames.size).Twins u m₁ n₁ where
  toPaired := paired
  stands := by
    rw [after.scope, after'.scope]
    exact (twins.stands.adding (Nat.ne_of_lt twins.stands.there)).mono twins.heap.aged
      twins.heap.size after.grown after'.grown

/-- Going on after the first evaluation, with more veils. -/
theorem Ends.bind_some {α β : Type} {p q : Eval α} {r s : α → Eval β}
    (first : V.Ends m n (p m) (q n))
    (next : ∀ a m₁ n₁, After m m₁ → After n n₁ → V.Paired m₁ n₁ →
      ∃ W : Veil, W.Ends m₁ n₁ (r a m₁) (s a n₁)) :
    ∃ W : Veil, W.Ends m n ((p >>= r) m) ((q >>= s) n) := by
  rw [Attempt.bind_run, Attempt.bind_run]
  generalize p m = left at first
  generalize q n = right at first
  cases first with
  | done a after after' paired =>
    obtain ⟨W, ends⟩ := next a _ _ after after' paired
    exact ⟨W, ends.from_earlier after after'⟩
  | failed stop after after' paired => exact ⟨V, .failed stop after after' paired⟩
  | exhausted => exact ⟨V, .exhausted⟩

section Rounds

variable {p : Parts} {c update : Option (Expr Unit)} {b : Block Unit}

/-- The names that the body of a loop binds are those of the veil, and the header does not bind any
name and mentions none of these. -/
structure Parted (V : Veil) (c update : Option (Expr Unit)) (b : Block Unit) : Prop where
  body : ∀ n ∈ b.binds, V.names n
  condition : Expr.bindsOption c = [] ∧ ∀ n ∈ Expr.mentionsOption c, ¬ V.names n
  update : Expr.bindsOption update = [] ∧ ∀ n ∈ Expr.mentionsOption update, ¬ V.names n

/-- Any name may be bound and mentioned. -/
def anything : Usage := ⟨fun _ => True, fun _ => True⟩

variable (tracked : ∀ W : Veil, W.PartsTracked p)
include tracked

theorem ends_round (parted : V.Parted c update b) (twins : V.Twins anything m n)
    (same : n.scope = m.scope) :
    (V.adding m.heap.scopes.frames.size).Ends m n (inChild (forRound p c update b) m)
      (headerRound p c update b n) := by
  rw [inChild_run, forRound_eq]
  -- Both bodies are evaluated in the frame of the round; then only the first machine stays there.
  refine Ends.reframe_left (Ends.bind (Ends.capture ?_) ?_) (ScopeTree.extends_push _)
  · rw [inChild_run]
    have body := tracks_block (tracked _) (u := ⟨V.names, anything.mentions⟩)
      ⟨parted.body, fun _ _ => trivial⟩ _ _ twins.round
    exact body.reframe_right (ScopeTree.extends_push _)
  · intro ended m₁ n₁ after after' paired
    refine tracks_afterBody (tracked _) ?_ ?_ ended m₁ n₁ (twins.header same after after' paired)
    · rw [parted.condition.1]
      exact ⟨nofun, parted.condition.2⟩
    · rw [parted.update.1]
      exact ⟨nofun, parted.update.2⟩

/-- Rounds end alike: the frame of each round is one more veil for the rounds after it. -/
theorem ends_rounds (parted : V.Parted c update b) (twins : V.Twins anything m n)
    (same : n.scope = m.scope) (fuel : Nat) (result : Value) (again : Bool) :
    ∃ W : Veil, W.Ends m n (forRounds p c update b fuel result again m)
      (headerRounds p c update b fuel result again n) := by
  induction fuel generalizing V m n result again with
  | zero => exact ⟨V, .exhausted⟩
  | succ fuel ih =>
    cases again with
    | false => exact ⟨V, .done result (.refl m) (.refl n) twins.toPaired⟩
    | true =>
      refine Ends.bind_some (ends_round tracked parted twins same) ?_
      intro next m₁ n₁ after after' paired
      have parted' : (V.adding m.heap.scopes.frames.size).Parted c update b :=
        ⟨parted.body, parted.condition, parted.update⟩
      exact ih parted' (twins.next after after' paired) (after.scope_eq after' same) next.1 next.2

theorem ends_forLoop (parted : V.Parted c update b) (twins : V.Twins anything m n)
    (same : n.scope = m.scope) (fuel : Nat) (first : Option (Stmt Unit)) :
    ∃ W : Veil, W.Ends m n (forLoop p fuel first c update b m)
      (headerLoop p fuel first c update b n) := by
  have rounds : ∀ m n, V.Twins anything m n → n.scope = m.scope → ∃ W : Veil, W.Ends m n
      ((do let again ← loopCondition p c; forRounds p c update b fuel .null again : Eval Value) m)
      ((do let again ← loopCondition p c; headerRounds p c update b fuel .null again : Eval Value)
        n) := by
    intro m n twins same
    have condition : V.Tracks anything (loopCondition p c) :=
      tracks_loopCondition (tracked V) ⟨fun _ _ => trivial, fun _ _ => trivial⟩
    refine Ends.bind_some (condition m n twins) ?_
    intro again m₁ n₁ after after' paired
    exact ends_rounds tracked parted (twins.after after after' paired)
      (after.scope_eq after' same) fuel .null again
  cases first with
  | none => exact rounds m n twins same
  | some s =>
    have begins : V.Tracks anything (p.statement s) :=
      (tracked V).statement s ⟨fun _ _ => trivial, fun _ _ => trivial⟩
    refine Ends.bind_some (begins m n twins) ?_
    intro _ m₁ n₁ after after' paired
    exact rounds m₁ n₁ (twins.after after after' paired) (after.scope_eq after' same)

theorem ends_loop (parted : V.Parted c update b) (twins : V.Twins anything m n) (fuel : Nat)
    (first : Option (Stmt Unit)) :
    ∃ W : Veil, W.Ends m n (inChild (forLoop p fuel first c update b) m)
      (inChild (headerLoop p fuel first c update b) n) := by
  have entered : V.Twins anything m.entered n.entered := twins.enter twins.stands []
  obtain ⟨W, inside⟩ := ends_forLoop tracked parted entered twins.heap.size fuel first
  rw [inChild_run, inChild_run]
  exact ⟨W, .reframe_left (.reframe_right inside (ScopeTree.extends_push _))
    (ScopeTree.extends_push _)⟩

end Rounds

end Veil

namespace Machine

variable {m : Machine}

/-- Two ways in which an evaluation may leave a machine: they agree on everything but the parents of
the frames that the evaluation made, and the frames of the functions that it made. -/
structure SameSince (m m' n' : Machine) : Prop where
  scope : n'.scope = m'.scope
  sink : n'.sink = m'.sink
  cancellation : n'.cancellation = m'.cancellation
  clock : n'.clock = m'.clock
  arrays : n'.heap.arrays = m'.heap.arrays
  tables : n'.heap.tables = m'.heap.tables
  functions : n'.heap.functions.size = m'.heap.functions.size ∧
    ∀ id, (n'.heap.closure id).parameters = (m'.heap.closure id).parameters ∧
      (n'.heap.closure id).body = (m'.heap.closure id).body
  frames : ∀ f < m.heap.scopes.frames.size,
    n'.heap.scopes.frames[f]? = m'.heap.scopes.frames[f]?

theorem sameSince_of_paired {V : Veil} {m' n' : Machine} (after : Veil.After m m')
    (after' : Veil.After m n') (paired : V.Paired m' n') : SameSince m m' n' where
  scope := after'.scope.trans after.scope.symm
  sink := paired.sink
  cancellation := paired.cancellation
  clock := paired.clock
  arrays := paired.heap.arrays
  tables := paired.heap.tables
  functions := ⟨paired.heap.functions, fun id =>
    ⟨(paired.heap.closures id).parameters, (paired.heap.closures id).body⟩⟩
  frames := by
    intro f there
    refine ScopeTree.getElem?_frames_eq (paired.heap.bindings f) ?_
    rw [after'.grown.parents f there, after.grown.parents f there]

/-- Both evaluations complete in the same way, or neither does. -/
theorem complete_of_veil {V : Veil} {p q : Eval Value} (ends : V.Ends m m (p m) (q m)) :
    Option.Rel (fun x y => y.1 = x.1 ∧ SameSince m x.2 y.2) (m.complete p) (m.complete q) := by
  unfold complete
  generalize p m = left at ends
  generalize q m = right at ends
  cases ends with
  | done a after after' paired => exact .some ⟨rfl, sameSince_of_paired after after' paired⟩
  | failed stop after after' paired => exact .some ⟨rfl, sameSince_of_paired after after' paired⟩
  | exhausted => exact .none

/-- If the condition and the update of a loop bind nothing, and mention none of the names that the
body binds in the frame of its round, the loop completes as if its header was evaluated in the frame
of the loop: in the same way, with the same output, and with the same effect on collections and on
every frame that was there before. -/
theorem header_belongs_to_loop (m : Machine) (grounded : m.Grounded) (fuel : Nat) (mark : Unit)
    (first : Option (Stmt Unit)) (c update : Option (Expr Unit)) (b : Block Unit)
    (condition : Expr.bindsOption c = []) (advance : Expr.bindsOption update = [])
    (apart : ∀ name ∈ b.binds,
      name ∉ Expr.mentionsOption c ∧ name ∉ Expr.mentionsOption update) :
    Option.Rel (fun x y => y.1 = x.1 ∧ SameSince m x.2 y.2)
      (m.complete (expression (fuel + 1) (.forLoop mark first c update b)))
      (m.complete (loopWithHeader fuel first c update b)) := by
  let V : Veil := ⟨fun _ => False, (· ∈ b.binds)⟩
  have parted : V.Parted c update b :=
    ⟨fun _ => id, ⟨condition, fun n mentioned bound => (apart n bound).1 mentioned⟩,
      ⟨advance, fun n mentioned bound => (apart n bound).2 mentioned⟩⟩
  have start : V.Twins Veil.anything m m :=
    ⟨⟨.refl grounded.heap nofun, rfl, rfl, rfl⟩, .refl grounded.heap.aged grounded.scope nofun⟩
  have whole : expression (fuel + 1) (.forLoop mark first c update b) = (do
      check
      inChild (forLoop (parts fuel) fuel first c update b)) := by
    rw [expression, Attempt.deepen_eq]
    rfl
  have ended : ∃ W : Veil, W.Ends m m (expression (fuel + 1) (.forLoop mark first c update b) m)
      (loopWithHeader fuel first c update b m) := by
    rw [whole]
    refine Veil.Ends.bind_some (Veil.Tracks.check m m start) ?_
    intro _ m₁ n₁ after after' paired
    exact Veil.ends_loop (fun W => W.tracks_parts fuel) parted (start.after after after' paired)
      fuel first
  obtain ⟨W, ends⟩ := ended
  exact complete_of_veil ends

/-- The body binds a name of its own, and the header changes the variable of the loop. -/
theorem header_belongs_to_loop_beside_another :
    let i : Expr Unit := .identifier () ⟨"i", ()⟩
    let first : Stmt Unit := .letBinding () ⟨"i", ()⟩ (.literal () (.boolean true))
    let update : Expr Unit := .assign () .assign i (.literal () (.boolean false))
    let body : Block Unit := .mk () [.letBinding () ⟨"j", ()⟩ i]
    let m := new fun _ => ""
    (m.Grounded ∧ Expr.bindsOption (some i) = [] ∧ Expr.bindsOption (some update) = [] ∧
      ∀ name ∈ body.binds, name ∉ Expr.mentionsOption (some i) ∧
        name ∉ Expr.mentionsOption (some update)) ∧
    ∃ m' n' : Machine,
      m.complete (expression 8 (.forLoop () (some first) (some i) (some update) body)) =
        some (.value (.boolean true), m') ∧
      m.complete (loopWithHeader 7 (some first) (some i) (some update) body) =
        some (.value (.boolean true), n') ∧
      SameSince m m' n' := by
  intro i first update body m
  have apart : ∀ name ∈ body.binds, name ∉ Expr.mentionsOption (some i) ∧
      name ∉ Expr.mentionsOption (some update) := by
    decide
  have same := header_belongs_to_loop m (grounded_new _) 7 () (some first) (some i) (some update)
    body rfl rfl apart
  refine ⟨⟨grounded_new _, rfl, rfl, apart⟩, _, _, rfl, rfl, ?_⟩
  cases same with
  | some agree => exact agree.2

/-- A body that binds the variable of the loop anew takes the header away from it: here the loop
goes on for a second round, and the outer variable is back at its old value. -/
theorem body_takes_header_away :
    let i : Expr Unit := .identifier () ⟨"i", ()⟩
    let n : Expr Unit := .identifier () ⟨"n", ()⟩
    let first : Stmt Unit := .letBinding () ⟨"i", ()⟩ (.literal () (.boolean true))
    let update : Expr Unit := .assign () .assign i (.unary () .logicalNot i)
    let body : Block Unit := .mk () [.letBinding () ⟨"i", ()⟩ n,
      .expression () (.assign () .assign n (.unary () .logicalNot n))]
    let start := new fun _ => ""
    let m : Machine := { start with heap := { start.heap with
      scopes := start.heap.scopes.define start.scope "n" (.boolean false) } }
    ∃ m' n' : Machine,
      m.complete (expression 8 (.forLoop () (some first) (some i) (some update) body)) =
        some (.value (.boolean false), m') ∧
      m.complete (loopWithHeader 7 (some first) (some i) (some update) body) =
        some (.value (.boolean true), n') ∧
      m'.heap.scopes.getCurrent m.scope "n" = some (.boolean false) ∧
      n'.heap.scopes.getCurrent m.scope "n" = some (.boolean true) :=
  ⟨_, _, rfl, rfl, rfl, rfl⟩

end Machine

end Scripting
