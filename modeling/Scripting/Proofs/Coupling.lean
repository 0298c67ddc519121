import Scripting.Proofs.Primitives

/-!
# Two evaluations side by side

A `Coupling` relates the machines of two evaluations that go through the same program. As long as
they are linked they agree on the heap and the frame, and do the same. The second one may be cut off
by a failing check; then it has ended, the first one goes on, and `Past` says what is known of the
two from then on. `Coupling.couples_evaluation` carries this through whole evaluations: the first
one is evaluation as it is, the second one may use other `Primitives`, so long as each of them is
coupled with the operation that it stands for.
-/

namespace Scripting

open Evaluation Machine

/-- What was printed to the first sink is the beginning of what was printed to the second one. -/
def Sink.GrowsTo (s t : Sink) : Prop := ∃ more, t.text = s.text ++ more

namespace Sink.GrowsTo

variable {s t u : Sink}

theorem refl (s : Sink) : s.GrowsTo s := ⟨"", by simp⟩

theorem trans (first : s.GrowsTo t) (second : t.GrowsTo u) : s.GrowsTo u := by
  obtain ⟨more, grown⟩ := first
  obtain ⟨rest, further⟩ := second
  exact ⟨more ++ rest, by rw [further, grown, String.append_assoc]⟩

theorem write {piece : String} (written : s.write piece = some t) : s.GrowsTo t := by
  unfold Sink.write at written
  split at written
  split at written
  · cases written
    exact ⟨piece, rfl⟩
  · cases written
  · cases written
    exact ⟨piece, rfl⟩

end Sink.GrowsTo

namespace Outcome

variable {α : Type}

/-- The outcome without its value. -/
def forget : Outcome Machine Stop α → Outcome Machine Stop Unit
  | .done _ m => .done () m
  | .failed stop m => .failed stop m
  | .exhausted => .exhausted

/-- The outcome in another frame. -/
def reframe (f : FrameId) : Outcome Machine Stop α → Outcome Machine Stop α
  | .done a m => .done a { m with scope := f }
  | .failed stop m => .failed stop { m with scope := f }
  | .exhausted => .exhausted

/-- What was printed before is still there. -/
def PrintsAfter (s : Sink) : Outcome Machine Stop α → Prop
  | .done _ m | .failed _ m => s.GrowsTo m.sink
  | .exhausted => True

theorem PrintsAfter.from_earlier {s t : Sink} {o : Outcome Machine Stop α} (first : s.GrowsTo t)
    (rest : o.PrintsAfter t) : o.PrintsAfter s := by
  cases o with
  | done | failed => exact first.trans rest
  | exhausted => trivial

theorem forget_reframe (o : Outcome Machine Stop α) (f : FrameId) :
    (o.reframe f).forget = o.forget.reframe f := by
  cases o <;> rfl

end Outcome

theorem Machine.inFrame_run {α : Type} (f : FrameId) (p : Eval α) (m : Machine) :
    inFrame f p m = (p { m with scope := f }).reframe m.scope := by
  unfold inFrame
  dsimp only
  cases p { m with scope := f } <;> rfl

/-- The machine in a new frame inside its current one. -/
def Machine.entered (m : Machine) : Machine where
  heap := (m.heap.onScopes (·.child m.scope)).2
  scope := (m.heap.onScopes (·.child m.scope)).1
  sink := m.sink
  cancellation := m.cancellation
  clock := m.clock

theorem Machine.inChild_run {α : Type} (p : Eval α) (m : Machine) :
    inChild p m = (p m.entered).reframe m.scope := by
  show inFrame m.entered.scope p { m.entered with scope := m.scope } = _
  rw [inFrame_run]

/-- How two runs of one program are related. -/
structure Coupling where
  /-- What the first run keeps to. -/
  discipline : Discipline
  /-- The two runs are at the same place and agree. -/
  Linked : Machine → Machine → Prop
  /-- The second run was cut off and left this machine, the first one has this outcome so far. -/
  Past : Outcome Machine Stop Unit → Machine → Prop
  same : ∀ {m n}, Linked m n → n.heap = m.heap ∧ n.scope = m.scope
  relink : ∀ {m n} (h : Heap) (f : FrameId), Linked m n →
    Linked { m with heap := h, scope := f } { n with heap := h, scope := f }
  reframe : ∀ {o n} (f : FrameId), Past o n → Past (o.reframe f) { n with scope := f }
  grown : ∀ {m m' n}, Past (.done () m) n → m.sink.GrowsTo m'.sink → Past (.done () m') n
  stopped : ∀ {m n} (stop : Stop), Past (.done () m) n → Past (.failed stop m) n
  lost : ∀ {m n}, Past (.done () m) n → Past .exhausted n
  resumed : ∀ {stop m n}, Past (.failed stop m) n → stop ≠ .error .timeout → Past (.done () m) n

namespace Coupling

variable (C : Coupling) {α β : Type}

/-- How the two runs end: in the same way, or the second one at a failing check. -/
inductive Ends : Outcome Machine Stop α → Outcome Machine Stop α → Prop where
  | done (a : α) {m n : Machine} : C.Linked m n → Ends (.done a m) (.done a n)
  | failed (stop : Stop) {m n : Machine} : stop ≠ .error .timeout → C.Linked m n →
      Ends (.failed stop m) (.failed stop n)
  | exhausted : Ends .exhausted .exhausted
  | past {o : Outcome Machine Stop α} {n : Machine} : C.Past o.forget n →
      Ends o (.failed (.error .timeout) n)

/-- From this heap and frame on the two evaluations stay related, and the first one has a result as
described. -/
structure Couples (h : Heap) (f : FrameId) (p q : Eval α) (Q : Heap → α → Prop) : Prop where
  keeps : C.discipline.Keeps h f p Q
  prints : ∀ m : Machine, m.heap = h → m.scope = f → (p m).PrintsAfter m.sink
  ends : ∀ m n : Machine, m.heap = h → m.scope = f → C.Linked m n → C.Ends (p m) (q n)

variable {C} {h h' : Heap} {f : FrameId}

/-- The first run goes on after the second one was cut off. -/
theorem past_forget {o : Outcome Machine Stop α} {m n : Machine} (past : C.Past (.done () m) n)
    (prints : o.PrintsAfter m.sink) : C.Past o.forget n := by
  cases o with
  | done a m' => exact C.grown past prints
  | failed stop m' => exact C.stopped stop (C.grown past prints)
  | exhausted => exact C.lost past

namespace Couples

variable {p q : Eval α} {g g' : α → Eval β} {Q : Heap → α → Prop} {R : Heap → β → Prop}

theorem pure (sound : C.discipline.Sound h) {a : α} (result : Q h a) :
    C.Couples h f (Pure.pure a) (Pure.pure a) Q where
  keeps := .pure sound result
  prints m _ _ := .refl m.sink
  ends _ _ _ _ linked := .done a linked

theorem fail (sound : C.discipline.Sound h) {stop : Stop}
    (allowed : C.discipline.StopAllowed h stop) (other : stop ≠ .error .timeout) :
    C.Couples h f (Attempt.fail stop) (Attempt.fail stop) Q where
  keeps := .fail sound allowed
  prints m _ _ := .refl m.sink
  ends _ _ _ _ linked := .failed stop other linked

theorem raise (sound : C.discipline.Sound h) {e : RuntimeError} (other : e ≠ .timeout) :
    C.Couples h f (Machine.raise e) (Machine.raise e) Q :=
  fail sound trivial fun same => other (Stop.error.inj same)

theorem outOfFuel : C.Couples h f (Attempt.outOfFuel : Eval α) Attempt.outOfFuel Q where
  keeps := .outOfFuel
  prints _ _ _ := trivial
  ends _ _ _ _ _ := .exhausted

theorem bind (first : C.Couples h f p q Q)
    (next : ∀ a h', C.discipline.Advance h h' → Q h' a → C.Couples h' f (g a) (g' a) R) :
    C.Couples h f (p >>= g) (q >>= g') R := by
  refine ⟨first.keeps.bind fun a h' advance result => (next a h' advance result).keeps, ?_, ?_⟩
  · intro m heap scope
    have kept := first.keeps m heap scope
    have printed := first.prints m heap scope
    rw [Attempt.bind_run]
    generalize p m = left at kept printed
    cases left with
    | exhausted => trivial
    | failed => exact printed
    | done a m' =>
      obtain ⟨advance, restored, result⟩ := kept
      exact .from_earlier printed ((next a _ advance result).prints m' rfl restored)
  · intro m n heap scope linked
    have kept := first.keeps m heap scope
    have ended := first.ends m n heap scope linked
    rw [Attempt.bind_run, Attempt.bind_run]
    generalize p m = left at kept ended
    generalize q n = right at ended
    cases ended with
    | done a linked =>
      obtain ⟨advance, restored, result⟩ := kept
      exact (next a _ advance result).ends _ _ rfl restored linked
    | failed stop other linked => exact .failed stop other linked
    | exhausted => exact .exhausted
    | past past =>
      cases left with
      | done a m' =>
        obtain ⟨advance, restored, result⟩ := kept
        exact .past (past_forget past ((next a _ advance result).prints m' rfl restored))
      | failed => exact .past past
      | exhausted => exact .past past

/-- A result that is captured and looked at. A failed check goes through on both sides. -/
theorem captured {r r' : Except Stop α → Eval β} (first : C.Couples h f p q Q)
    (value : ∀ a h', C.discipline.Advance h h' → Q h' a →
      C.Couples h' f (r (.ok a)) (r' (.ok a)) R)
    (stopped : ∀ stop h', C.discipline.Advance h h' → C.discipline.StopAllowed h' stop →
      stop ≠ .error .timeout → C.Couples h' f (r (.error stop)) (r' (.error stop)) R)
    (through : r (.error (.error .timeout)) = .fail (.error .timeout))
    (through' : r' (.error (.error .timeout)) = .fail (.error .timeout)) :
    C.Couples h f (p.capture >>= r) (q.capture >>= r') R := by
  -- With the second run gone, the first one does what it does with any stop, a failed check too.
  have alone : ∀ stop h', C.discipline.Advance h h' → C.discipline.StopAllowed h' stop →
      C.discipline.Keeps h' f (r (.error stop)) R ∧
      ∀ m : Machine, m.heap = h' → m.scope = f → (r (.error stop) m).PrintsAfter m.sink := by
    intro stop h' advance allowed
    by_cases timeout : stop = .error .timeout
    · rw [timeout, through]
      exact ⟨.fail advance.1 trivial, fun m _ _ => Sink.GrowsTo.refl m.sink⟩
    · exact ⟨(stopped stop h' advance allowed timeout).keeps,
        (stopped stop h' advance allowed timeout).prints⟩
  refine ⟨?_, ?_, ?_⟩
  · apply (Discipline.Keeps.capture first.keeps).bind
    rintro result h' advance ⟨fine, failed⟩
    cases result with
    | ok a => exact (value a h' advance (fine a rfl)).keeps
    | error stop => exact (alone stop h' advance (failed stop rfl)).1
  · intro m heap scope
    have kept := first.keeps m heap scope
    have printed := first.prints m heap scope
    rw [Attempt.bind_run, Attempt.capture]
    generalize p m = left at kept printed
    cases left with
    | exhausted => trivial
    | done a m' =>
      obtain ⟨advance, restored, result⟩ := kept
      exact .from_earlier printed ((value a _ advance result).prints m' rfl restored)
    | failed stop m' =>
      obtain ⟨advance, restored, allowed⟩ := kept
      exact .from_earlier printed ((alone stop _ advance allowed).2 m' rfl restored)
  · intro m n heap scope linked
    have kept := first.keeps m heap scope
    have ended := first.ends m n heap scope linked
    rw [Attempt.bind_run, Attempt.bind_run, Attempt.capture, Attempt.capture]
    generalize p m = left at kept ended
    generalize q n = right at ended
    cases ended with
    | done a linked =>
      obtain ⟨advance, restored, result⟩ := kept
      exact (value a _ advance result).ends _ _ rfl restored linked
    | failed stop other linked =>
      obtain ⟨advance, restored, allowed⟩ := kept
      exact (stopped stop _ advance allowed other).ends _ _ rfl restored linked
    | exhausted => exact .exhausted
    | past past =>
      dsimp only
      rw [through']
      cases left with
      | done a m' =>
        obtain ⟨advance, restored, result⟩ := kept
        exact .past (past_forget past ((value a _ advance result).prints m' rfl restored))
      | failed stop m' =>
        obtain ⟨advance, restored, allowed⟩ := kept
        by_cases timeout : stop = .error .timeout
        · cases timeout
          dsimp only
          rw [through]
          exact .past past
        · exact .past (past_forget (C.resumed past timeout)
            ((alone stop _ advance allowed).2 m' rfl restored))
      | exhausted => exact .past past

theorem inFrame {k : FrameId} (coupled : C.Couples h k p q Q) :
    C.Couples h f (Machine.inFrame k p) (Machine.inFrame k q) Q := by
  refine ⟨.inFrame coupled.keeps, ?_, ?_⟩
  · intro m heap scope
    have inside := coupled.prints { m with scope := k } heap rfl
    rw [inFrame_run]
    generalize p { m with scope := k } = left at inside
    cases left <;> exact inside
  · intro m n heap scope linked
    obtain ⟨-, frames⟩ := C.same linked
    have inside := coupled.ends { m with scope := k } { n with scope := k } heap rfl
      (by simpa [(C.same linked).1] using C.relink m.heap k linked)
    rw [inFrame_run, inFrame_run, frames]
    generalize p { m with scope := k } = left at inside
    generalize q { n with scope := k } = right at inside
    cases inside with
    | done a linked =>
      rename_i m' n'
      refine .done a ?_
      simpa [(C.same linked).1] using C.relink m'.heap m.scope linked
    | failed stop other linked =>
      rename_i m' n'
      refine .failed stop other ?_
      simpa [(C.same linked).1] using C.relink m'.heap m.scope linked
    | exhausted => exact .exhausted
    | past past =>
      refine .past ?_
      rw [Outcome.forget_reframe]
      exact C.reframe m.scope past

theorem currentFrame {k k' : FrameId → Eval β} (coupled : C.Couples h f (k f) (k' f) R) :
    C.Couples h f (Machine.currentFrame >>= k) (Machine.currentFrame >>= k') R := by
  refine ⟨.currentFrame coupled.keeps, ?_, ?_⟩
  · intro m heap scope
    subst scope
    exact coupled.prints m heap rfl
  · intro m n heap scope linked
    have frames := (C.same linked).2
    subst scope
    show C.Ends (k m.scope m) (k' n.scope n)
    rw [frames]
    exact coupled.ends m n heap rfl linked

end Couples

/-- Two outcomes that differ in the rest of the machine only, and not for a failed check. -/
inductive Alike (m n : Machine) : Outcome Machine Stop α → Outcome Machine Stop α → Prop where
  | done (a : α) (h : Heap) : Alike m n (.done a { m with heap := h }) (.done a { n with heap := h })
  | failed (stop : Stop) (h : Heap) : stop ≠ .error .timeout →
      Alike m n (.failed stop { m with heap := h }) (.failed stop { n with heap := h })
  | exhausted : Alike m n .exhausted .exhausted

/-- The evaluation looks at the heap and the frame only, changes the heap only, and never fails for
a check. -/
def Silent (p : Eval α) : Prop :=
  ∀ m n : Machine, m.heap = n.heap → m.scope = n.scope → Alike m n (p m) (p n)

namespace Silent

theorem consult {look : Heap → Except RuntimeError α} (other : ∀ h, look h ≠ .error .timeout) :
    Silent (Machine.consult look) := by
  rintro ⟨h, f, sink, signal, clock⟩ ⟨_, _, sink', signal', clock'⟩ rfl rfl
  unfold Machine.consult
  cases looked : look h with
  | ok a => exact .done a h
  | error e =>
    refine .failed (.error e) h ?_
    rintro ⟨⟩
    exact other h looked

theorem onHeap (change : Heap → α × Heap) : Silent (Machine.onHeap change) := by
  rintro ⟨h, f, sink, signal, clock⟩ ⟨_, _, sink', signal', clock'⟩ rfl rfl
  exact .done (change h).1 (change h).2

theorem commit {work : Heap → Except RuntimeError (Value × Change)}
    (other : ∀ h, work h ≠ .error .timeout) : Silent (Machine.commit work) := by
  rintro ⟨h, f, sink, signal, clock⟩ ⟨_, _, sink', signal', clock'⟩ rfl rfl
  unfold Machine.commit
  cases worked : work h with
  | ok result => exact .done result.1 (h.perform result.2)
  | error e =>
    refine .failed (.error e) h ?_
    rintro ⟨⟩
    exact other h worked

theorem act {action : Heap.Action Value} (other : ∀ h h', action h ≠ .failed .timeout h') :
    Silent (Machine.act action) := by
  rintro ⟨h, f, sink, signal, clock⟩ ⟨_, _, sink', signal', clock'⟩ rfl rfl
  unfold Machine.act
  dsimp only
  cases ran : action h with
  | done v k => exact .done v k
  | failed e k =>
    refine .failed (.error e) k ?_
    rintro ⟨⟩
    exact other h k ran
  | exhausted => exact .exhausted

theorem bind {p : Eval α} {g : α → Eval β} (first : Silent p) (next : ∀ a, Silent (g a)) :
    Silent (p >>= g) := by
  intro m n heaps frames
  have alike := first m n heaps frames
  rw [Attempt.bind_run, Attempt.bind_run]
  generalize p m = left at alike
  generalize p n = right at alike
  cases alike with
  | exhausted => exact .exhausted
  | failed stop h other => exact .failed stop h other
  | done a h =>
    have rest := next a { m with heap := h } { n with heap := h } rfl frames
    dsimp only
    generalize g a { m with heap := h } = left at rest
    generalize g a { n with heap := h } = right at rest
    cases rest with
    | exhausted => exact .exhausted
    | failed stop k other => exact .failed stop k other
    | done b k => exact .done b k

theorem lookup (name : String) : Silent (Evaluation.lookup name) := by
  rintro ⟨h, f, sink, signal, clock⟩ ⟨_, _, sink', signal', clock'⟩ rfl rfl
  unfold Evaluation.lookup
  dsimp only
  split
  · exact .done _ h
  · split
    · exact .done _ h
    · exact .failed _ h nofun

/-- What is silent is coupled with itself. -/
theorem couples {p : Eval α} (silent : Silent p) {Q : Heap → α → Prop}
    (keeps : C.discipline.Keeps h f p Q) : C.Couples h f p p Q := by
  refine ⟨keeps, ?_, ?_⟩
  · intro m _ _
    have alike := silent m m rfl rfl
    generalize p m = left at alike
    cases alike with
    | done | failed => exact Sink.GrowsTo.refl m.sink
    | exhausted => trivial
  · intro m n _ _ linked
    obtain ⟨heaps, frames⟩ := C.same linked
    have alike := silent m n heaps.symm frames.symm
    have kept : ∀ k, C.Linked { m with heap := k } { n with heap := k } := by
      intro k
      simpa [frames] using C.relink k m.scope linked
    generalize p m = left at alike
    generalize p n = right at alike
    cases alike with
    | done a k => exact .done a (kept k)
    | failed stop k other => exact .failed stop other (kept k)
    | exhausted => exact .exhausted

end Silent

/-- Going into a new frame. -/
theorem Couples.inChild {p q : Eval α} {Q : Heap → α → Prop} (ready : C.discipline.Ready h f)
    (coupled : ∀ h' k, C.discipline.Advance h h' → C.discipline.Ready h' k →
      C.Couples h' k p q Q) :
    C.Couples h f (Machine.inChild p) (Machine.inChild q) Q := by
  have empty : ∀ b ∈ ([] : Bindings), C.discipline.Allowed h b.2 := nofun
  obtain ⟨advance, opened⟩ := C.discipline.child ready.sound ready.opened empty
  have made : C.Couples h f (Machine.onHeap fun h => h.onScopes (·.child f))
      (Machine.onHeap fun h => h.onScopes (·.child f)) C.discipline.Open :=
    (Silent.onHeap _).couples (.onHeap advance opened)
  unfold Machine.inChild
  apply Couples.currentFrame
  apply made.bind
  intro k h' advanced opened
  exact .inFrame (coupled h' k advanced ⟨advanced.1, opened⟩)

end Coupling

end Scripting
