import Scripting.Proofs.LineBreaks
import Scripting.Proofs.Parsing

/-!
# Reading in front of more tokens

What a parser reads without an error it reads as well where more tokens follow, so long as the first
of these is a semicolon: no construct takes one up at its end. `Follows` says so of two parsers, of
which the second one meets the tokens of the first and then the others, and may have more fuel. It
says besides that the first parser comes to an end, gives no token back, and passes over no token
that is not a word of the language. Here are the rules for putting such parsers together, one for
each way.
-/

namespace Scripting.Parser

/-- So many tokens are there in front, all of them words of the language. -/
def Known : Nat → List SpannedToken → Prop
  | 0, _ => True
  | _ + 1, [] => False
  | n + 1, t :: ts => t.token.isProper ∧ Known n ts

theorem Known.exists_cons {n : Nat} {ts : List SpannedToken} (known : Known (n + 1) ts) :
    ∃ u us, ts = u :: us ∧ u.token.isProper ∧ Known n us := by
  cases ts with
  | nil => cases known
  | cons u us => exact ⟨u, us, rfl, known.1, known.2⟩

theorem Known.mono {n m : Nat} {ts : List SpannedToken} (known : Known n ts) (le : m ≤ n) :
    Known m ts := by
  induction m generalizing n ts with
  | zero => trivial
  | succ m ih =>
    cases n with
    | zero => cases le
    | succ n =>
      obtain ⟨u, us, rfl, proper, rest⟩ := known.exists_cons
      exact ⟨proper, ih rest (Nat.le_of_succ_le_succ le)⟩

theorem Known.le_length {n : Nat} {ts : List SpannedToken} (known : Known n ts) :
    n ≤ ts.length := by
  induction n generalizing ts with
  | zero => exact Nat.zero_le _
  | succ n ih =>
    obtain ⟨u, us, rfl, _, rest⟩ := known.exists_cons
    exact Nat.succ_le_succ (ih rest)

theorem known_one_iff (s : State) : Known 1 s.tokens ↔ s.current.token.isProper := by
  unfold State.current
  cases s.tokens with
  | nil => exact ⟨nofun, nofun⟩
  | cons u us => exact ⟨fun known => known.1, fun proper => ⟨proper, trivial⟩⟩

theorem improper_of_unknown {s : State} (unknown : ¬Known 1 s.tokens) :
    s.current.token.isProper = false :=
  Bool.eq_false_iff.mpr fun proper => unknown ((known_one_iff s).mpr proper)

theorem known_two_iff {s : State} (known : Known 1 s.tokens) :
    Known 2 s.tokens ↔ s.peek.token.isProper := by
  obtain ⟨u, us, here, proper, _⟩ := known.exists_cons
  unfold State.peek
  rw [here]
  cases us with
  | nil => exact ⟨fun further => further.2.elim, nofun⟩
  | cons v vs => exact ⟨fun further => further.2.1, fun fine => ⟨proper, fine, trivial⟩⟩

/-- Every token that is left is a word of the language. -/
def State.Proper (s : State) : Prop := ∀ t ∈ s.tokens, t.token.isProper

/-- Where tokens follow, the first of them is a semicolon. -/
def Opens (tail : List Token) : Prop := ∀ w ∈ tail.head?, w = .sign .semicolon

/-- The second reader has the tokens of the first one in front of it, and then the tail. -/
def Before (tail : List Token) (s s' : State) : Prop :=
  s'.tokens.map (·.token) = s.tokens.map (·.token) ++ tail

section Before

variable {tail : List Token} {s s' : State} {t : SpannedToken} {ts : List SpannedToken}

theorem Before.exists_cons (before : Before tail s s') (here : s.tokens = t :: ts) :
    ∃ t' ts', s'.tokens = t' :: ts' ∧ t'.token = t.token ∧
      ts'.map (·.token) = ts.map (·.token) ++ tail := by
  unfold Before at before
  rw [here, List.map_cons, List.cons_append] at before
  obtain ⟨t', ts', there, token, rest⟩ := List.map_eq_cons_iff.mp before
  exact ⟨t', ts', there, token, rest⟩

/-- Both readers look at the same token, where there is one. -/
theorem Before.current (before : Before tail s s') (here : s.tokens = t :: ts) :
    s'.current.token = s.current.token := by
  obtain ⟨t', ts', there, token, _⟩ := before.exists_cons here
  simp only [State.current, here, there, List.headD_cons, token]

/-- Both readers have the same token next, except that the first one may be at its end and the
second one before a semicolon. -/
theorem Before.peek (opens : Opens tail) (before : Before tail s s') (here : s.tokens = t :: ts) :
    s'.peek.token = s.peek.token ∨
      tail ≠ [] ∧ ts = [] ∧ s'.peek.token = .sign .semicolon := by
  obtain ⟨t', ts', there, _, rest⟩ := before.exists_cons here
  simp only [State.peek, here, there, List.tail_cons]
  cases ts with
  | cons u us =>
    obtain ⟨u', us', further, token, _⟩ := List.map_eq_cons_iff.mp rest
    rw [further]
    exact .inl token
  | nil =>
    rw [List.map_nil, List.nil_append] at rest
    cases ts' with
    | nil => exact .inl rfl
    | cons u' us' => exact .inr ⟨by simp [← rest], rfl, opens _ (by rw [← rest]; rfl)⟩

theorem Before.bump (before : Before tail s s') (here : s.tokens = t :: ts) :
    Before tail { s with tokens := s.tokens.tail } { s' with tokens := s'.tokens.tail } := by
  obtain ⟨t', ts', there, _, rest⟩ := before.exists_cons here
  simpa only [Before, here, there, List.tail_cons] using rest

end Before

variable {α β γ δ : Type}

/-- A parser that began at `s` ended with a value at `t` and without an error, and the other one
follows it. -/
structure Clean (tail : List Token) (view : α → γ) (p' : Parse α) (s : State) (a : α) (t : State) :
    Prop where
  begun : Known 1 s.tokens
  errors : s.errors = #[]
  proper : t.Proper → s.Proper
  same : ∀ s', Before tail s s' → ∃ b t', p' s' = .done b t' ∧ view b = view a ∧
    Before tail t t' ∧ t'.errors = s'.errors

/-- How a parser that began at `s` may end. -/
def Goes (tail : List Token) (view : α → γ) (p' : Parse α) (s : State) :
    Outcome State SyntaxError α → Prop
  | .done a t => t.tokens <:+ s.tokens ∧ Known 1 t.tokens ∧
      (t.errors = #[] → Clean tail view p' s a t)
  | .failed _ t => t.tokens <:+ s.tokens
  | .exhausted => False

section Goes

variable {tail : List Token} {view : α → γ} {p' q' : Parse α} {s t u : State} {a : α}
  {o : Outcome State SyntaxError α}

/-- What is so of the way on from a later place is so from an earlier one. -/
theorem Goes.from_earlier (goes : Goes tail view q' t o) (suffix : t.tokens <:+ s.tokens)
    (clean : ∀ a u, o = .done a u → u.errors = #[] → Clean tail view p' s a u) :
    Goes tail view p' s o := by
  cases o with
  | exhausted => exact goes
  | failed e u => exact List.IsSuffix.trans goes suffix
  | done a u =>
    obtain ⟨further, reached, _⟩ := goes
    exact ⟨further.trans suffix, reached, clean a u rfl⟩

/-- What starts at no word of the language is not read without an error. -/
theorem Goes.of_unknown (goes : Goes tail view q' s o) (unknown : ¬Known 1 s.tokens) :
    Goes tail view p' s o := by
  cases o with
  | exhausted => exact goes
  | failed e u => exact goes
  | done a u =>
    obtain ⟨suffix, reached, clean⟩ := goes
    exact ⟨suffix, reached, fun none => absurd (clean none).begun unknown⟩

/-- A parser may do what depends on the place where the other reader stands. -/
theorem Goes.of_each {q : State → Parse α} (base : Goes tail view q' s o)
    (each : ∀ s', Before tail s s' → Goes tail view (q s') s o) (same : ∀ s', p' s' = q s' s') :
    Goes tail view p' s o := by
  cases o with
  | exhausted => exact base
  | failed e u => exact base
  | done a u =>
    obtain ⟨suffix, reached, clean⟩ := base
    refine ⟨suffix, reached, fun none => { clean none with same := fun s' before => ?_ }⟩
    rw [same]
    exact ((each s' before).2.2 none).same s' before

theorem Goes.clean (goes : Goes tail view p' s o) (done : o = .done a t)
    (none : t.errors = #[]) : Clean tail view p' s a t := by
  subst done
  exact goes.2.2 none

theorem Goes.current {view' : β → δ} {f f' : SpannedToken → Parse β} (front : Known 1 s.tokens)
    (rest : ∀ t', t'.token = s.current.token → Goes tail view' (f' t') s (f s.current s)) :
    Goes tail view' (Parser.current >>= f') s ((Parser.current >>= f) s) := by
  obtain ⟨u, us, here, _, _⟩ := front.exists_cons
  exact (rest _ rfl).of_each (fun s' before => rest s'.current (before.current here)) fun _ => rfl

theorem Goes.peek {view' : β → δ} {f f' : SpannedToken → Parse β}
    (same : ∀ s', Before tail s s' → s'.peek.token = s.peek.token)
    (rest : ∀ t', t'.token = s.peek.token → Goes tail view' (f' t') s (f s.peek s)) :
    Goes tail view' (Parser.peek >>= f') s ((Parser.peek >>= f) s) :=
  (rest _ rfl).of_each (fun s' before => rest s'.peek (same s' before)) fun _ => rfl

/-- Both parsers come to a place, and go on from there. -/
theorem Goes.after {p : Parse α} {view' : β → δ} {f f' : α → Parse β} (run : p s = .done a t)
    (suffix : t.tokens <:+ s.tokens)
    (first : Known 1 t.tokens → t.errors = #[] → Clean tail view p' s a t)
    (rest : ∀ b, view b = view a → Goes tail view' (f' b) t (f a t)) :
    Goes tail view' (p' >>= f') s ((p >>= f) s) := by
  rw [bind_done run]
  refine (rest a rfl).from_earlier suffix fun c u ended none => ?_
  have later (b : α) (same : view b = view a) := (rest b same).clean ended none
  have earlier := first (later a rfl).begun (later a rfl).errors
  refine ⟨earlier.begun, earlier.errors, earlier.proper ∘ (later a rfl).proper, ?_⟩
  intro s' before
  obtain ⟨b, t', ran, same, between, errors⟩ := earlier.same s' before
  obtain ⟨d, u', ran', same', after, errors'⟩ := (later b same).same t' between
  exact ⟨d, u', (bind_done ran).trans ran', same', after, errors'.trans errors⟩

theorem Goes.bind {p : Parse α} {view' : β → δ} {f f' : α → Parse β}
    (start : Goes tail view p' s (p s))
    (rest : ∀ a b t, view b = view a → t.tokens <:+ s.tokens → Known 1 t.tokens →
      Goes tail view' (f' b) t (f a t)) :
    Goes tail view' (p' >>= f') s ((p >>= f) s) := by
  cases run : p s with
  | exhausted =>
    rw [run] at start
    exact start.elim
  | failed e t =>
    rw [run] at start
    rw [Attempt.bind_run, run]
    exact start
  | done a t =>
    rw [run] at start
    obtain ⟨suffix, reached, clean⟩ := start
    exact .after run suffix (fun _ none => clean none) fun b same => rest a b t same suffix reached

end Goes

/-- The second parser follows the first one, where `known` tokens are known and no more than `room`
are left. Their values are the same as far as the view goes. -/
def Follows (tail : List Token) (known room : Nat) (view : α → γ) (p p' : Parse α) : Prop :=
  ∀ s, s.tokens.length ≤ room → Known known s.tokens → Goes tail view p' s (p s)

section Binds

theorem current_at (s : State) : current s = .done s.current s := rfl

theorem expectCurrent_bind (sign : Sign) (f : Unit → Parse β) :
    expectCurrent sign >>= f = current >>= fun now =>
      if now.token = .sign sign then f ()
      else failAt now (.expectedToken (.sign sign) now.token) := by
  rw [expectCurrent, Attempt.bind_assoc]
  congr 1
  funext now
  split <;> rfl

theorem expectPeek_bind (sign : Sign) (f : Unit → Parse β) :
    expectPeek sign >>= f = peek >>= fun next =>
      if next.token = .sign sign then bump >>= f
      else failAt next (.expectedToken (.sign sign) next.token) := by
  rw [expectPeek, Attempt.bind_assoc]
  congr 1
  funext next
  split <;> rfl

theorem nameAfter_bind (f : Identifier Span → Parse β) :
    nameAfter >>= f = peek >>= fun next =>
      match next.token with
      | .identifier name => bump >>= fun _ => f ⟨name, next.span⟩
      | other => failAt next (.expectedToken (.identifier "") other) := by
  rw [nameAfter, Attempt.bind_assoc]
  congr 1
  funext next
  obtain ⟨token, span⟩ := next
  cases token <;> rfl

end Binds

namespace Follows

variable {tail : List Token} {known room : Nat} {view : α → γ} {view' : β → δ} {p p' q q' : Parse α}
  {f f' : α → Parse β}

theorem mono {known' room' : Nat} (follows : Follows tail known room view p p')
    (more : known ≤ known') (less : room' ≤ room) : Follows tail known' room' view p p' := by
  intro s length front
  exact follows s (Nat.le_trans length less) (front.mono more)

/-- What is known to be there has to fit. -/
theorem of_pos (follows : 0 < room → Follows tail (known + 1) room view p p') :
    Follows tail (known + 1) room view p p' := by
  intro s length front
  have filled := front.le_length
  exact follows (by omega) s length front

theorem pure {a b : α} (same : view b = view a) :
    Follows tail 1 room view (Pure.pure a) (Pure.pure b) := by
  intro s _ front
  refine ⟨List.suffix_refl _, front, fun clean => ⟨front, clean, id, ?_⟩⟩
  intro s' before
  exact ⟨b, s', rfl, same, before, rfl⟩

/-- What fails is followed by anything. -/
theorem failAt {t : SpannedToken} {fault : SyntaxFault} :
    Follows tail known room view (failAt t fault) p' := by
  intro s _ _
  exact List.suffix_refl _

theorem bind (first : Follows tail known room view p p')
    (rest : ∀ a b, view b = view a → Follows tail 1 room view' (f a) (f' b)) :
    Follows tail known room view' (p >>= f) (p' >>= f') := by
  intro s length front
  refine (first s length front).bind fun a b t same suffix reached => ?_
  exact rest a b same t (Nat.le_trans suffix.length_le length) reached

/-- A reader that knows its token may move on. -/
theorem bump {f f' : Unit → Parse β} (rest : Follows tail known (room - 1) view' (f ()) (f' ())) :
    Follows tail (known + 1) room view' (Parser.bump >>= f) (Parser.bump >>= f') := by
  intro s length front
  obtain ⟨u, us, here, proper, behind⟩ := front.exists_cons
  have moved : Parser.bump s = .done () { s with tokens := us } := by
    simp only [Parser.bump, here, List.tail_cons]
  have shorter : us.length ≤ room - 1 := by
    rw [here] at length
    exact Nat.le_sub_one_of_lt length
  have goes := rest { s with tokens := us } shorter behind
  rw [bind_done moved]
  refine goes.from_earlier (here ▸ List.suffix_cons u us) fun a t run none => ?_
  have later := goes.clean run none
  refine ⟨here ▸ ⟨proper, trivial⟩, later.errors, fun left w member => ?_, fun s' before => ?_⟩
  · rw [here] at member
    rcases List.mem_cons.mp member with rfl | member
    · exact proper
    · exact later.proper left w member
  · have between := before.bump here
    rw [here, List.tail_cons] at between
    exact later.same _ between

/-- A reader that knows its token may look at it. -/
theorem current_known {f f' : SpannedToken → Parse β}
    (rest : ∀ t t' : SpannedToken, t'.token = t.token → t.token.isProper →
      Follows tail (known + 1) room view' (f t) (f' t')) :
    Follows tail (known + 1) room view' (current >>= f) (current >>= f') := by
  intro s length front
  have first : Known 1 s.tokens := front.mono (by omega)
  refine Goes.current first fun t' same => ?_
  exact rest s.current t' same ((known_one_iff s).mp first) s length front

/-- A reader that knows nothing may look at its token. Where this is no word of the language,
reading has to fail. -/
theorem current {f f' : SpannedToken → Parse β}
    (word : ∀ t t' : SpannedToken, t'.token = t.token → t.token.isProper → 0 < room →
      Follows tail 1 room view' (f t) (f' t'))
    (other : ∀ t : SpannedToken, t.token.isProper = false →
      Follows tail 0 room view' (f t) (f' t)) :
    Follows tail 0 room view' (Parser.current >>= f) (Parser.current >>= f') := by
  intro s length _
  by_cases front : Known 1 s.tokens
  · exact of_pos (fun filled => current_known fun t t' same proper => word t t' same proper filled)
      s length front
  · exact (other _ (improper_of_unknown front) s length trivial).of_unknown front

/-- A reader that knows its token may look at the next one. At the end of the tokens the other
reader may find a semicolon there. -/
theorem peek (opens : Opens tail) {f f' : SpannedToken → Parse β}
    (word : ∀ t t' : SpannedToken, t'.token = t.token → t.token.isProper → 1 < room →
      Follows tail 2 room view' (f t) (f' t'))
    (other : ∀ t t' : SpannedToken, t.token.isProper = false →
      t'.token = t.token ∨ t'.token = .sign .semicolon → Follows tail 1 room view' (f t) (f' t')) :
    Follows tail 1 room view' (Parser.peek >>= f) (Parser.peek >>= f') := by
  intro s length front
  obtain ⟨u, us, here, _, _⟩ := front.exists_cons
  by_cases further : Known 2 s.tokens
  · have proper := (known_two_iff front).mp further
    have filled := further.le_length
    refine Goes.peek (fun s' before => ?_) fun t' same =>
      word s.peek t' same proper (by omega) s length further
    rcases before.peek opens here with same | ⟨_, rfl, _⟩
    · exact same
    · rw [here] at filled
      exact absurd filled (by simp)
  · have improper : s.peek.token.isProper = false :=
      Bool.eq_false_iff.mpr fun proper => further ((known_two_iff front).mpr proper)
    have goes (t' : SpannedToken) (same : t'.token = s.peek.token ∨ t'.token = .sign .semicolon) :=
      other s.peek t' improper same s length front
    refine (goes _ (.inl rfl)).of_each (fun s' before => goes s'.peek ?_) fun _ => rfl
    exact (before.peek opens here).imp_right fun last => last.2.2

/-- The span of what was read does not count. -/
theorem spanFrom {start start' : Span} {f f' : Span → Parse β}
    (rest : ∀ a b, Follows tail 1 room view' (f a) (f' b)) :
    Follows tail 1 room view' (Parser.spanFrom start >>= f) (Parser.spanFrom start' >>= f') := by
  show Follows tail 1 room view' (Parser.current >>= fun t => f (start.extend t.span))
    (Parser.current >>= fun t => f' (start'.extend t.span))
  exact current_known fun _ _ _ _ => rest _ _

/-- A reader that knows its token may find a word next that is no semicolon. -/
theorem peekIf (opens : Opens tail) {word : Token}
    (proper : word.isProper) (other : word ≠ .sign .semicolon)
    (found : 1 < room → Follows tail 2 room view p p') (absent : Follows tail 1 room view q q') :
    Follows tail 1 room view (Parser.peek >>= fun t => if t.token = word then p else q)
      (Parser.peek >>= fun t => if t.token = word then p' else q') := by
  refine peek opens (fun t t' same _ filled => ?_) fun t t' improper same => ?_
  · rw [same]
    split
    · exact found filled
    · exact absent.mono (Nat.le_succ 1) (Nat.le_refl _)
  · have elsewhere : t.token ≠ word := Token.ne_of_isProper improper proper
    have elsewhere' : t'.token ≠ word := by
      rcases same with same | semicolon
      · rw [same]
        exact elsewhere
      · rw [semicolon]
        exact other.symm
    rw [if_neg elsewhere, if_neg elsewhere']
    exact absent

theorem peekIs (opens : Opens tail) {sign : Sign}
    (other : sign ≠ .semicolon) (found : 1 < room → Follows tail 2 room view p p')
    (absent : Follows tail 1 room view q q') :
    Follows tail 1 room view (Parser.peekIs sign >>= fun b => if b then p else q)
      (Parser.peekIs sign >>= fun b => if b then p' else q') := by
  show Follows tail 1 room view
    (Parser.peek >>= fun t => if decide (t.token = .sign sign) then p else q)
    (Parser.peek >>= fun t => if decide (t.token = .sign sign) then p' else q')
  simp only [decide_eq_true_eq]
  exact peekIf opens rfl (by simpa using other) found absent

/-- A reader that knows nothing may ask for a sign. Where it does not find it, it has to read
something else. -/
theorem currentIs {sign : Sign} (found : Follows tail 1 room view p p')
    (absent : Follows tail 0 room view q q') :
    Follows tail 0 room view (Parser.currentIs sign >>= fun b => if b then p else q)
      (Parser.currentIs sign >>= fun b => if b then p' else q') := by
  show Follows tail 0 room view
    (Parser.current >>= fun t => if decide (t.token = .sign sign) then p else q)
    (Parser.current >>= fun t => if decide (t.token = .sign sign) then p' else q')
  simp only [decide_eq_true_eq]
  refine current (fun t t' same _ _ => ?_) fun t improper => ?_
  · rw [same]
    split
    · exact found
    · exact absent.mono (Nat.zero_le 1) (Nat.le_refl _)
  · have elsewhere : t.token ≠ .sign sign := Token.ne_of_isProper improper rfl
    rw [if_neg elsewhere, if_neg elsewhere]
    exact absent

theorem expectCurrent {sign : Sign} {f f' : Unit → Parse β}
    (rest : Follows tail 1 room view' (f ()) (f' ())) :
    Follows tail 1 room view' (Parser.expectCurrent sign >>= f)
      (Parser.expectCurrent sign >>= f') := by
  rw [expectCurrent_bind, expectCurrent_bind]
  refine current_known fun t t' same _ => ?_
  rw [same]
  split
  · exact rest
  · exact failAt

theorem expectPeek (opens : Opens tail) {sign : Sign}
    {f f' : Unit → Parse β} (rest : Follows tail 1 (room - 1) view' (f ()) (f' ())) :
    Follows tail 1 room view' (Parser.expectPeek sign >>= f) (Parser.expectPeek sign >>= f') := by
  rw [expectPeek_bind, expectPeek_bind]
  refine peek opens (fun t t' same _ _ => ?_) fun t t' improper _ => ?_
  · rw [same]
    split
    · exact bump rest
    · exact failAt
  · rw [if_neg (Token.ne_of_isProper improper rfl)]
    exact failAt

theorem nameAfter (opens : Opens tail)
    {f f' : Identifier Span → Parse β}
    (rest : ∀ i j, (j.map fun _ => ()) = i.map (fun _ => ()) →
      Follows tail 1 (room - 1) view' (f i) (f' j)) :
    Follows tail 1 room view' (Parser.nameAfter >>= f) (Parser.nameAfter >>= f') := by
  rw [nameAfter_bind, nameAfter_bind]
  refine peek opens (fun t t' same _ _ => ?_) fun t t' improper _ => ?_
  · rw [same]
    split
    · exact bump (rest _ _ rfl)
    · exact failAt
  · split
    · rename_i here
      rw [here] at improper
      cases improper
    · exact failAt

end Follows

end Scripting.Parser
