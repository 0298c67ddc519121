import Scripting.Proofs.CoupledEvaluation

/-!
# Cancelled evaluations

A signal that fires only cuts an evaluation short. Up to the first check that fails the cancelled
run and the one that nothing cancels are the same. From then on the cancelled run does nothing but
end, so that what it has printed is the beginning of what the other one prints.
-/

namespace Scripting

open Evaluation

namespace Machine

/-- The machines differ in their signals only, and that of the first one never fires. -/
inductive Unsignalled : Machine → Machine → Prop where
  | mk (heap : Heap) (scope : FrameId) (sink : Sink) (c : Cancellation) (clock : Clock) :
      Unsignalled ⟨heap, scope, sink, .never, clock⟩ ⟨heap, scope, sink, c, clock⟩

/-- Fails if evaluation was cancelled, and then leaves this heap and this output behind. -/
def checkLeaving (h : Heap) (s : Sink) : Eval Unit := fun m =>
  if m.cancellation.isCancelled then .failed (.error .timeout) { m with heap := h, sink := s }
  else check m

end Machine

/-- Evaluation in which a check that fails leaves this heap and this output behind. -/
def Primitives.leaving (h : Heap) (s : Sink) : Primitives :=
  { standard with check := Machine.checkLeaving h s }

namespace Coupling

/-! ### A run that nothing cancels, and a run that may be cancelled -/

/-- The runs agree but for the signal, until the second one is cut off with a beginning of what the
first one prints. -/
def uncancelled : Coupling where
  discipline := Heap.grounding False
  Linked := Machine.Unsignalled
  Past
    | .done _ m, n | .failed _ m, n => n.sink.GrowsTo m.sink
    | .exhausted, _ => True
  same := by
    rintro _ _ ⟨⟩
    exact ⟨rfl, rfl⟩
  relink := by
    rintro _ _ h f ⟨⟩
    exact .mk h f _ _ _
  reframe := by
    intro o n f past
    cases o <;> exact past
  grown past more := past.trans more
  stopped _ past := past
  lost _ := trivial
  resumed past _ := past

theorem connected_uncancelled : uncancelled.Connected := by
  apply connected_of
  · rintro _ _ ⟨⟩
    exact ⟨rfl, rfl⟩
  · rintro _ _ sink lines ⟨⟩
    exact .mk _ _ sink _ _
  · rintro _ _ clock ⟨⟩
    exact .mk _ _ _ _ clock

theorem couples_check_uncancelled {h : Heap} {f : FrameId} :
    uncancelled.Couples h f Machine.check Machine.check fun _ _ => True := by
  refine ⟨(Discipline.Keeps.check False.elim).mono fun _ _ _ => trivial,
    fun m _ _ => check_prints m, ?_⟩
  rintro _ _ - - ⟨heap, scope, sink, c, clock⟩
  have passed : Machine.check ⟨heap, scope, sink, .never, clock⟩ =
      .done () ⟨heap, scope, sink, .never, clock⟩ := rfl
  rw [passed]
  by_cases cancelled : c.isCancelled
  · rw [check_cancelled cancelled]
    exact .past (.refl sink)
  · rw [check_passed cancelled]
    exact .done () (.mk heap scope sink c.tick clock)

theorem fits_uncancelled : uncancelled.Fits .standard :=
  fits_standard connected_uncancelled fun _ => couples_check_uncancelled

/-! ### What a failing check leaves behind -/

/-- A run beside one in which failing checks leave this heap and this output behind. -/
def leaving (h : Heap) (s : Sink) : Coupling :=
  equal (Heap.grounding False) ⟨fun _ n => n.heap = h ∧ n.sink = s, fun _ left => left⟩

theorem fits_leaving (h : Heap) (s : Sink) : (leaving h s).Fits (.leaving h s) := by
  refine fits_standard connected_equal fun ready => couples_check_equal ready.sound ?_ ?_
  · intro m _ _ passed
    exact if_neg passed
  · intro m _ _ cancelled
    exact ⟨_, if_pos cancelled, rfl, rfl⟩

end Coupling

namespace Evaluation.Piece

variable (piece : Piece) (fuel : Nat)

/-- Nothing needs to be known of a machine or of a piece. -/
theorem couples_unconditionally {C : Coupling} {o : Primitives} (fits : C.Fits o)
    (lax : C.discipline = Heap.grounding False) (h : Heap) (f : FrameId) :
    C.Couples h f (piece.evaluation fuel) (o.evaluation fuel piece) C.discipline.Allowed := by
  refine Coupling.couples_evaluation fits fuel piece ?_ ?_
  · rw [lax]
    exact ⟨False.elim, False.elim⟩
  · rw [lax]
    cases piece with
    | call | method => exact ⟨trivial, fun _ _ => trivial⟩
    | builtin => exact fun _ _ => trivial
    | expression | statement | block | program => trivial

end Evaluation.Piece

namespace Machine

variable {m n : Machine} {p q : Eval Value} {r : Completion}

theorem complete_of_done {v : Value} (ran : p m = .done v n) :
    m.complete p = some (.value v, n) := by
  unfold complete
  rw [ran]

theorem complete_of_failed {stop : Stop} (ran : p m = .failed stop n) :
    m.complete p = some (.ofStop stop, n) := by
  unfold complete
  rw [ran]

theorem ofStop_eq_timeout {stop : Stop} (same : Completion.ofStop stop = .failed .timeout) :
    stop = .error .timeout := by
  cases stop with
  | error e =>
    cases same
    rfl
  | returned | broke | continued => cases same

/-- How the second run completes, from how the first one does. -/
theorem complete_of_ends {C : Coupling} {m' : Machine} (ends : C.Ends (p m) (q m'))
    (completed : m.complete p = some (r, n)) :
    ∃ r' n', m'.complete q = some (r', n') ∧
      (r' = r ∧ r ≠ .failed .timeout ∧ C.Linked n n' ∨
        r' = .failed .timeout ∧ C.Past (p m).forget n') := by
  obtain ⟨v, rfl, ran⟩ | ⟨stop, rfl, ran⟩ := complete_cases completed
  · rw [ran] at ends ⊢
    cases other : q m' with
    | done w n' =>
      rw [other] at ends
      cases ends with
      | done _ linked => exact ⟨_, _, complete_of_done other, .inl ⟨rfl, nofun, linked⟩⟩
    | failed stop n' =>
      rw [other] at ends
      cases ends with
      | past past => exact ⟨_, _, complete_of_failed other, .inr ⟨rfl, past⟩⟩
    | exhausted =>
      rw [other] at ends
      cases ends
  · rw [ran] at ends ⊢
    cases other : q m' with
    | done w n' =>
      rw [other] at ends
      cases ends
    | failed stop' n' =>
      rw [other] at ends
      cases ends with
      | failed _ different linked =>
        exact ⟨_, _, complete_of_failed other,
          .inl ⟨rfl, fun same => different (ofStop_eq_timeout same), linked⟩⟩
      | past past => exact ⟨_, _, complete_of_failed other, .inr ⟨rfl, past⟩⟩
    | exhausted =>
      rw [other] at ends
      cases ends

variable (piece : Piece) (fuel : Nat)

/-- What was printed before stays. -/
theorem complete_prints (completed : m.complete (piece.evaluation fuel) = some (r, n)) :
    m.sink.GrowsTo n.sink := by
  have prints := (piece.couples_unconditionally fuel Coupling.fits_uncancelled rfl m.heap
    m.scope).prints m rfl rfl
  obtain ⟨v, _, ran⟩ | ⟨stop, _, ran⟩ := complete_cases completed
  · rw [ran] at prints
    exact prints
  · rw [ran] at prints
    exact prints

/-- A run that is cancelled completes in the same way as one that is not, or at a check. -/
theorem complete_cancelled (c : Cancellation)
    (completed : { m with cancellation := .never }.complete (piece.evaluation fuel) = some (r, n)) :
    ∃ r' n', { m with cancellation := c }.complete (piece.evaluation fuel) = some (r', n') ∧
      (r' = r ∧ n' = { n with cancellation := n'.cancellation } ∨
        r' = .failed .timeout ∧ n'.sink.GrowsTo n.sink) := by
  have ends := (piece.couples_unconditionally fuel Coupling.fits_uncancelled rfl m.heap
    m.scope).ends { m with cancellation := .never } { m with cancellation := c } rfl rfl
      (.mk m.heap m.scope m.sink c m.clock)
  rw [Primitives.evaluation_standard] at ends
  obtain ⟨r', n', other, ⟨same, _, linked⟩ | ⟨timeout, past⟩⟩ := complete_of_ends ends completed
  · cases linked
    exact ⟨r', _, other, .inl ⟨same, rfl⟩⟩
  · refine ⟨r', n', other, .inr ⟨timeout, ?_⟩⟩
    obtain ⟨v, _, ran⟩ | ⟨stop, _, ran⟩ := complete_cases completed
    · rw [ran] at past
      exact past
    · rw [ran] at past
      exact past

/-- Whatever a failing check leaves behind is what the run ends with. -/
theorem complete_leaving (h : Heap) (s : Sink)
    (completed : m.complete (piece.evaluation fuel) = some (r, n)) :
    ∃ n', m.complete ((Primitives.leaving h s).evaluation fuel piece) = some (r, n') ∧
      (r = .failed .timeout → n'.heap = h ∧ n'.sink = s) ∧ (r ≠ .failed .timeout → n' = n) := by
  have ends := (piece.couples_unconditionally fuel (Coupling.fits_leaving h s) rfl m.heap
    m.scope).ends m m rfl rfl rfl
  obtain ⟨r', n', other, ⟨rfl, different, linked⟩ | ⟨rfl, past⟩⟩ :=
    complete_of_ends ends completed
  · exact ⟨n', other, fun timeout => absurd timeout different, fun _ => linked.symm⟩
  · obtain ⟨k, stopped, left⟩ := past
    obtain ⟨v, _, ran⟩ | ⟨stop, rfl, ran⟩ := complete_cases completed
    · rw [ran] at stopped
      cases stopped
    · rw [ran] at stopped
      cases stopped
      exact ⟨n', other, fun _ => left, fun different => absurd rfl different⟩

/-- Whatever is evaluated, on whatever machine, and whenever the signal fires: if the run that
nothing cancels ends, then so does the cancelled one. What it prints is the beginning of what the
other one prints. It completes in the same way, with the same machine but for the signal, or it
times out; and then the heap and the output are those that the failing check left behind. -/
theorem cancellation_cuts_short (m m₁ : Machine) (r : Completion) (c : Cancellation)
    (ended : { m with cancellation := .never }.complete (piece.evaluation fuel) = some (r, m₁)) :
    ∃ r' m₂, { m with cancellation := c }.complete (piece.evaluation fuel) = some (r', m₂) ∧
      (∃ shown more, m₂.sink.text = m.sink.text ++ shown ∧
        m₁.sink.text = m.sink.text ++ (shown ++ more)) ∧
      (r' = r ∧ m₂ = { m₁ with cancellation := m₂.cancellation } ∨ r' = .failed .timeout) ∧
      ∀ h s, ∃ m₃, { m with cancellation := c }.complete
          ((Primitives.leaving h s).evaluation fuel piece) = some (r', m₃) ∧
        (r' = .failed .timeout → m₃.heap = h ∧ m₃.sink = s) ∧
        (r' ≠ .failed .timeout → m₃ = m₂) := by
  obtain ⟨r', m₂, completed, comparison⟩ := complete_cancelled piece fuel c ended
  obtain ⟨shown, here⟩ := complete_prints piece fuel completed
  refine ⟨r', m₂, completed, ?_, ?_, fun h s => complete_leaving piece fuel h s completed⟩
  · rcases comparison with ⟨_, same⟩ | ⟨_, more, grown⟩
    · refine ⟨shown, "", here, ?_⟩
      rw [same] at here
      rw [String.append_empty]
      exact here
    · refine ⟨shown, more, here, ?_⟩
      rw [grown, here, String.append_assoc]
  · rcases comparison with same | ⟨timeout, _⟩
    · exact .inl same
    · exact .inr timeout

/-- Three lines are printed, and the signal fires when there are two. -/
theorem cancellation_cuts_short_after_two_lines :
    let line : Stmt Unit := .expression () (.call () (.identifier () ⟨"print", ()⟩) [])
    let program : Piece := .program ⟨[line, line, line]⟩
    let m := new fun _ => ""
    let cancelled := { m with cancellation := .afterLines 2 }
    (∃ m₁, { m with cancellation := .never }.complete (program.evaluation 9) =
      some (.value .null, m₁) ∧ m₁.sink.text = "\n\n\n") ∧
    (∃ m₂, cancelled.complete (program.evaluation 9) = some (.failed .timeout, m₂) ∧
      m₂.sink.text = "\n\n") ∧
    ∀ h s, ∃ m₃, cancelled.complete ((Primitives.leaving h s).evaluation 9 program) =
      some (.failed .timeout, m₃) ∧ m₃.heap = h ∧ m₃.sink = s := by
  intro line program m cancelled
  have whole : ∃ m₁, { m with cancellation := .never }.complete (program.evaluation 9) =
      some (.value .null, m₁) ∧ m₁.sink.text = "\n\n\n" := ⟨_, rfl, by decide⟩
  have cut : ∃ m₂, cancelled.complete (program.evaluation 9) = some (.failed .timeout, m₂) ∧
      m₂.sink.text = "\n\n" := ⟨_, rfl, by decide⟩
  refine ⟨whole, cut, fun h s => ?_⟩
  obtain ⟨m₁, ended, _⟩ := whole
  obtain ⟨m₂, timeout, _⟩ := cut
  obtain ⟨r', _, completed, _, _, leaving⟩ :=
    cancellation_cuts_short program 9 m m₁ _ (.afterLines 2) ended
  cases timeout.symm.trans completed
  obtain ⟨m₃, left, behind, _⟩ := leaving h s
  exact ⟨m₃, left, behind rfl⟩

end Machine

end Scripting
