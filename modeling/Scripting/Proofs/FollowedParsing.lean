import Scripting.Proofs.Following
import Scripting.Proofs.ReadBack

/-!
# Constructs in front of more tokens

Every construct follows its counterpart: one lemma for each, over parts that do. Statements are read
one after the other, and what goes wrong in one leaves an error behind, so a run without errors is
one in which every statement was followed (`CleanRun`). Only a return without a value differs at the
end of the tokens, where it takes up a semicolon that the other reader finds. `follows_parts` ties
the knot by induction on fuel.
-/

namespace Scripting.Parser

/-- The second parts follow the first ones. -/
structure PartsFollow (tail : List Token) (room : Nat) (p p' : Parts) : Prop where
  expression : ∀ level, Follows tail 0 room Expr.erase (p.expression level) (p'.expression level)
  block : Follows tail 1 room (Block.map fun _ => ()) p.block p'.block

section Constructs

variable {tail : List Token} {room n n' : Nat} {p p' : Parts}

theorem PartsFollow.mono {room' : Nat} (parts : PartsFollow tail room p p') (le : room' ≤ room) :
    PartsFollow tail room' p p' where
  expression level := (parts.expression level).mono (Nat.le_refl _) le
  block := parts.block.mono (Nat.le_refl _) le

variable (opens : Opens tail)

include opens

theorem follows_listRest (parts : PartsFollow tail (room - 2) p p') (enough : room < n)
    (more : n ≤ n') {read read' : List (Expr Span)}
    (same : read'.map Expr.erase = read.map Expr.erase) :
    Follows tail 1 room (List.map Expr.erase) (listRest p n read) (listRest p' n' read') := by
  induction n generalizing room n' read read' with
  | zero => cases enough
  | succ n ih =>
    cases n' with
    | zero => cases more
    | succ n' =>
      rw [listRest, listRest]
      refine .peekIs opens (by decide) (fun filled => .bump (.bump ?_)) (.pure ?_)
      · refine (parts.expression _).bind fun e e' erased => ?_
        exact ih (parts.mono (by omega)) (by omega) (by omega) (by simp [erased, same])
      · rw [List.map_reverse, List.map_reverse, same]

theorem follows_listUntil (parts : PartsFollow tail (room - 1) p p') (enough : room ≤ n)
    (more : n ≤ n') {close : Sign} (other : close ≠ .semicolon) :
    Follows tail 1 room (List.map Expr.erase) (listUntil p n close) (listUntil p' n' close) := by
  refine .of_pos fun filled => ?_
  unfold listUntil
  refine .peekIs opens other (fun _ => .bump (.pure rfl)) (.bump ?_)
  refine (parts.expression _).bind fun e e' erased => ?_
  refine (follows_listRest opens (parts.mono (by omega)) (by omega) more (by simp [erased])).bind
    fun es es' same => ?_
  exact .expectPeek opens (.pure same)

theorem follows_pairsRest (parts : PartsFollow tail (room - 1) p p') (enough : room ≤ n)
    (filled : 0 < n) (more : n ≤ n') {read read' : List (Expr Span × Expr Span)}
    (same : Expr.mapPairs (fun _ => ()) read' = Expr.mapPairs (fun _ => ()) read) :
    Follows tail 1 room (Expr.mapPairs fun _ => ()) (pairsRest p n read)
      (pairsRest p' n' read') := by
  induction n generalizing room n' read read' with
  | zero => cases filled
  | succ n ih =>
    cases n' with
    | zero => cases more
    | succ n' =>
      rw [pairsRest, pairsRest]
      refine .bump ((parts.expression _).bind fun k k' key => .expectPeek opens (.bump ?_))
      refine ((parts.mono (by omega)).expression _).bind fun v v' value => ?_
      have longer : Expr.mapPairs (fun _ => ()) ((k', v') :: read') =
          Expr.mapPairs (fun _ => ()) ((k, v) :: read) := by
        simp only [Expr.mapPairs, Expr.erase] at key value ⊢
        rw [key, value, same]
      refine .peekIs opens (by decide) (fun left => .bump ?_) (.expectPeek opens (.pure ?_))
      · exact ih (parts.mono (by omega)) (by omega) (by omega) (by omega) longer
      · rw [Expr.mapPairs_eq] at longer ⊢
        rw [Expr.mapPairs_eq, List.map_reverse, List.map_reverse, longer, Expr.mapPairs_eq]

theorem follows_pairs (parts : PartsFollow tail (room - 1) p p') (enough : room ≤ n)
    (more : n ≤ n') :
    Follows tail 1 room (Expr.mapPairs fun _ => ()) (pairs p n) (pairs p' n') := by
  refine .of_pos fun filled => ?_
  unfold pairs
  refine .peekIs opens (by decide) (fun _ => .bump (.pure rfl)) ?_
  exact follows_pairsRest opens parts enough (by omega) more rfl

theorem follows_parametersRest (enough : room < n) (more : n ≤ n')
    {read read' : List (Identifier Span)}
    (same : read'.map (Identifier.map fun _ => ()) = read.map (Identifier.map fun _ => ())) :
    Follows tail 1 room (List.map (Identifier.map fun _ => ())) (parametersRest n read)
      (parametersRest n' read') := by
  induction n generalizing room n' read read' with
  | zero => cases enough
  | succ n ih =>
    cases n' with
    | zero => cases more
    | succ n' =>
      rw [parametersRest, parametersRest]
      refine .peekIs opens (by decide) (fun filled => .bump (.nameAfter opens fun i j name => ?_))
        (.pure ?_)
      · exact ih (by omega) (by omega) (by simp [name, same])
      · rw [List.map_reverse, List.map_reverse, same]

theorem follows_parameters (enough : room ≤ n) (more : n ≤ n') :
    Follows tail 1 room (List.map (Identifier.map fun _ => ())) (parameters n) (parameters n') := by
  refine .of_pos fun filled => ?_
  unfold parameters
  refine .peekIs opens (by decide) (fun _ => .bump (.pure rfl)) ?_
  refine .nameAfter opens fun i j name => ?_
  refine (follows_parametersRest opens (by omega) more (by simp [name])).bind fun is js same => ?_
  exact .expectPeek opens (.pure same)

theorem follows_function (parts : PartsFollow tail (room - 1) p p') (enough : room ≤ n)
    (more : n ≤ n') : Follows tail 1 room Expr.erase (function p n) (function p' n') := by
  unfold function
  refine .current_known fun t t' _ _ => .expectPeek opens ?_
  refine (follows_parameters opens (by omega) more).bind fun is js names => .expectPeek opens ?_
  refine (parts.block.mono (Nat.le_refl _) (by omega)).bind fun b b' body => .spanFrom fun _ _ => ?_
  refine .pure ?_
  simp only [Expr.erase, Expr.map, names, body]

theorem follows_condition (parts : PartsFollow tail (room - 1) p p') :
    Follows tail 1 room Expr.erase (condition p) (condition p') := by
  unfold condition
  refine .expectPeek opens ?_
  refine ((parts.expression _).mono (Nat.zero_le _) (Nat.le_refl _)).bind fun e e' erased => ?_
  exact .expectCurrent (.pure erased)

theorem follows_conditional (parts : PartsFollow tail (room - 1) p p') :
    Follows tail 1 room Expr.erase (conditional p) (conditional p') := by
  unfold conditional
  refine .current_known fun t t' _ _ => ?_
  refine (follows_condition opens parts).bind fun c c' condition => .expectPeek opens ?_
  refine parts.block.bind fun b b' yes => ?_
  refine .peekIf opens rfl (by decide) (fun _ => .bump (.expectPeek opens ?_)) ?_
  · refine (parts.block.mono (Nat.le_refl _) (by omega)).bind fun d d' no => ?_
    exact .spanFrom fun _ _ => .pure (by simp only [Expr.erase, Expr.map] at *; simp [*])
  · exact .spanFrom fun _ _ => .pure (by simp only [Expr.erase, Expr.map] at *; simp [*])

theorem follows_whileLoop (parts : PartsFollow tail (room - 1) p p') :
    Follows tail 1 room Expr.erase (whileLoop p) (whileLoop p') := by
  unfold whileLoop
  refine .current_known fun t t' _ _ => ?_
  refine (follows_condition opens parts).bind fun c c' condition => .expectPeek opens ?_
  refine parts.block.bind fun b b' body => .spanFrom fun _ _ => .pure ?_
  simp only [Expr.erase, Expr.map] at condition ⊢
  rw [condition, body]

/-- The name and the value of a binding without places. -/
def eraseBinding (b : Identifier Span × Expr Span) : Identifier Unit × Expr Unit :=
  (b.1.map fun _ => (), b.2.erase)

theorem follows_binding (parts : PartsFollow tail room p p') :
    Follows tail 1 room eraseBinding (binding p) (binding p') := by
  unfold binding
  refine .nameAfter opens fun i j name => .expectPeek opens (.bump ?_)
  refine ((parts.mono (by omega)).expression _).bind fun v v' value => .pure ?_
  simp only [eraseBinding, name, value]

theorem follows_letStatement (parts : PartsFollow tail room p p') (start start' : Span) :
    Follows tail 1 room Stmt.erase
      (do let (name, value) ← binding p
          return .letBinding (← spanFrom start) name value)
      (do let (name, value) ← binding p'
          return .letBinding (← spanFrom start') name value) := by
  refine (follows_binding opens parts).bind fun b b' erased => .spanFrom fun _ _ => .pure ?_
  simp only [eraseBinding, Prod.mk.injEq, Expr.erase] at erased
  simp only [Stmt.erase, Stmt.map, erased]

omit opens in
theorem follows_expressionStatement (parts : PartsFollow tail room p p') (start start' : Span) :
    Follows tail 0 room Stmt.erase
      (do let e ← p.expression .lowest
          return .expression (← spanFrom start) e)
      (do let e ← p'.expression .lowest
          return .expression (← spanFrom start') e) := by
  refine (parts.expression _).bind fun e e' erased => .spanFrom fun _ _ => .pure ?_
  simp only [Stmt.erase, Stmt.map]
  exact congrArg (Stmt.expression ()) erased

theorem follows_firstClause (parts : PartsFollow tail room p p') :
    Follows tail 0 room (Stmt.mapOption fun _ => ()) (firstClause p) (firstClause p') := by
  unfold firstClause
  refine .currentIs (.pure rfl) (.current (fun t t' same _ _ => ?_) fun t improper => ?_)
  · have last (s s' : Stmt Span) (erased : s'.erase = s.erase) :
        Follows tail 1 room (Stmt.mapOption fun _ => ())
          (expectPeek .semicolon >>= fun _ => pure (some s))
          (expectPeek .semicolon >>= fun _ => pure (some s')) :=
      .expectPeek opens (.pure (congrArg some erased))
    rw [same]
    split
    · exact (follows_letStatement opens parts t.span t'.span).bind last
    · exact ((follows_expressionStatement parts t.span t'.span).mono (Nat.zero_le _)
        (Nat.le_refl _)).bind last
  · have elsewhere : t.token ≠ .keyword .letWord := Token.ne_of_isProper improper rfl
    rw [if_neg elsewhere, if_neg elsewhere]
    exact (follows_expressionStatement parts t.span t.span).bind fun s s' erased =>
      .expectPeek opens (.pure (congrArg some erased))

theorem follows_clause (parts : PartsFollow tail (room - 1) p p') {close : Sign} :
    Follows tail 1 room (Expr.mapOption fun _ => ()) (clause p close) (clause p' close) := by
  unfold clause
  refine .bump (.currentIs (.pure rfl) ?_)
  refine (parts.expression _).bind fun e e' erased => .expectPeek opens (.pure ?_)
  exact congrArg some erased

theorem follows_forLoop (parts : PartsFollow tail (room - 1) p p') :
    Follows tail 1 room Expr.erase (forLoop p) (forLoop p') := by
  unfold forLoop
  refine .current_known fun t t' _ _ => ?_
  refine .peekIs opens (by decide) (fun _ => .bump ?_) (.expectPeek opens (.bump ?_))
  · refine parts.block.bind fun b b' body => .spanFrom fun _ _ => .pure ?_
    simp only [Expr.erase, Expr.map, body]
  · refine (follows_firstClause opens (parts.mono (by omega))).bind fun i i' first => ?_
    refine (follows_clause opens (parts.mono (by omega))).bind fun c c' condition => ?_
    refine (follows_clause opens (parts.mono (by omega))).bind fun u u' update => ?_
    refine .expectPeek opens ?_
    refine (parts.block.mono (Nat.le_refl _) (by omega)).bind fun b b' body => ?_
    refine .spanFrom fun _ _ => .pure ?_
    simp only [Expr.erase, Expr.map, first, condition, update, body]

theorem follows_grouping (parts : PartsFollow tail (room - 1) p p') :
    Follows tail 1 room Expr.erase (grouping p) (grouping p') := by
  unfold grouping
  refine .bump ((parts.expression _).bind fun e e' erased => ?_)
  exact .expectPeek opens (.pure erased)

omit opens in
theorem follows_prefixed (parts : 0 < room → PartsFollow tail (room - 1) p p') :
    Follows tail 0 room Expr.erase (prefixed p) (prefixed p') := by
  unfold prefixed
  refine .current (fun t t' same _ filled => ?_) fun t improper => ?_
  · rw [same]
    split
    · refine .bump (((parts filled).expression _).bind fun e e' erased => ?_)
      refine .spanFrom fun _ _ => .pure ?_
      exact congrArg (Expr.unary () _) erased
    · exact .failAt
  · have none : PrefixOperator.ofToken? t.token = none := by
      rcases Token.isProper_eq_false improper with ⟨source, here⟩ | here <;> rw [here] <;> rfl
    rw [none]
    exact .failAt

theorem follows_operand (parts : 0 < room → PartsFollow tail (room - 1) p p') (enough : room ≤ n)
    (more : n ≤ n') : Follows tail 0 room Expr.erase (operand p n) (operand p' n') := by
  unfold operand
  refine .current (fun t t' same _ filled => ?_) fun t improper => ?_
  · have parts := parts filled
    rw [same]
    split
    · exact .pure (by simp only [Expr.erase, Expr.map]; rfl)
    · split
      · exact .pure rfl
      · exact .failAt
    · split
      · exact .pure rfl
      · exact .failAt
    · exact .pure rfl
    · exact .pure rfl
    · exact .pure rfl
    · exact .pure rfl
    · exact .pure rfl
    · exact .pure rfl
    · exact follows_grouping opens parts
    · refine (follows_listUntil opens parts enough more (by decide)).bind fun es es' erased => ?_
      refine .spanFrom fun _ _ => .pure ?_
      simp only [Expr.erase, Expr.map, Expr.mapList_eq]
      exact congrArg (Expr.array ()) erased
    · refine (follows_pairs opens parts enough more).bind fun ps ps' erased => ?_
      refine .spanFrom fun _ _ => .pure ?_
      exact congrArg (Expr.hash ()) erased
    · exact follows_function opens parts enough more
    · exact follows_conditional opens parts
    · exact follows_whileLoop opens parts
    · exact follows_forLoop opens parts
    · refine .bump ((parts.expression _).bind fun e e' erased => .spanFrom fun _ _ => .pure ?_)
      exact congrArg (Expr.typeof ()) erased
    · exact (follows_prefixed fun _ => parts).mono (Nat.zero_le _) (Nat.le_refl _)
  · rcases Token.isProper_eq_false improper with ⟨source, here⟩ | here <;> rw [here] <;>
      exact follows_prefixed parts

theorem follows_slice (parts : PartsFollow tail (room - 1) p p') {low low' : Expr Span}
    (same : low'.erase = low.erase) :
    Follows tail 1 room Expr.erase (slice p low) (slice p' low') := by
  unfold slice
  refine .peekIs opens (by decide) (fun _ => ?_) (.bump ?_)
  · refine Follows.mono ?_ (Nat.le_succ 1) (Nat.le_refl _)
    refine .spanFrom fun _ _ => .pure ?_
    exact congrArg (Expr.slice () · none) same
  · refine (parts.expression _).bind fun e e' high => .spanFrom fun _ _ => .pure ?_
    simp only [Expr.erase, Expr.map, Expr.mapOption] at same high ⊢
    rw [same, high]

theorem follows_methodCall (parts : PartsFollow tail (room - 1) p p') (enough : room ≤ n)
    (more : n ≤ n') : Follows tail 1 room Expr.erase (methodCall p n) (methodCall p' n') := by
  unfold methodCall
  refine .nameAfter opens fun i j name => ?_
  refine .peekIs opens (by decide) (fun _ => .bump ?_) (.pure ?_)
  · refine (follows_listUntil opens (parts.mono (by omega)) (by omega) more (by decide)).bind
      fun es es' erased => .spanFrom fun _ _ => .pure ?_
    simp only [Expr.erase, Expr.map, Expr.mapList_eq, name]
    exact congrArg (Expr.call () _) erased
  · exact congrArg (Expr.identifier ()) name

theorem follows_key (parts : PartsFollow tail (room - 1) p p') :
    Follows tail 1 room Expr.erase (key p) (key p') := by
  unfold key
  refine .peekIs opens (by decide) (fun _ => .current_known fun t t' _ _ => .bump ?_) (.bump ?_)
  · exact follows_slice opens (parts.mono (by omega)) rfl
  · exact parts.expression _

omit opens in
theorem isAssignable_erase (e : Expr Span) : e.erase.isAssignable = e.isAssignable := by
  cases e with
  | conditional m c y no => cases no <;> rfl
  | _ => rfl

theorem follows_continuation (parts : PartsFollow tail (room - 1) p p') (enough : room ≤ n)
    (more : n ≤ n') (c : Continuation) {left left' : Expr Span} (same : left'.erase = left.erase) :
    Follows tail 1 room Expr.erase (continuation p n c left) (continuation p' n' c left') := by
  unfold continuation
  cases c with
  | operate op =>
    refine .bump ((parts.expression _).bind fun e e' right => .spanFrom fun _ _ => .pure ?_)
    simp only [Expr.erase, Expr.map] at same right ⊢
    rw [same, right]
  | step op =>
    exact .spanFrom fun _ _ => .pure (congrArg (Expr.step () op) same)
  | assign op =>
    refine .current_known fun t t' _ _ => .bump ((parts.expression _).bind fun e e' value => ?_)
    have target : left'.isAssignable = left.isAssignable := by
      rw [← isAssignable_erase left', same, isAssignable_erase]
    rw [target]
    split
    · refine .spanFrom fun _ _ => .pure ?_
      simp only [Expr.erase, Expr.map] at same value ⊢
      rw [same, value]
    · exact .failAt
  | call =>
    refine (follows_listUntil opens parts enough more (by decide)).bind fun es es' erased => ?_
    refine .spanFrom fun _ _ => .pure ?_
    simp only [Expr.erase, Expr.map, Expr.mapList_eq] at same ⊢
    rw [same]
    exact congrArg (Expr.call () _) erased
  | method =>
    refine (follows_methodCall opens parts enough more).bind fun e e' called => ?_
    refine .spanFrom fun _ _ => .pure ?_
    simp only [Expr.erase, Expr.map] at same called ⊢
    rw [same, called]
  | index =>
    refine (follows_key opens parts).bind fun k k' erased => .expectPeek opens ?_
    refine .spanFrom fun _ _ => .pure ?_
    simp only [Expr.erase, Expr.map] at same erased ⊢
    rw [same, erased]
  | slice => exact follows_slice opens parts same

theorem follows_climb (parts : PartsFollow tail (room - 1) p p') (enough : room ≤ n)
    (filled : 0 < n) (more : n ≤ n') {size size' : Nat} (inside : room ≤ size)
    (larger : size ≤ size') (level : Precedence) {left left' : Expr Span}
    (same : left'.erase = left.erase) :
    Follows tail 1 room Expr.erase (climb p size level n left) (climb p' size' level n' left') := by
  induction n generalizing room n' left left' with
  | zero => cases filled
  | succ n ih =>
    cases n' with
    | zero => cases more
    | succ n' =>
      rw [climb, climb]
      have stop : Follows tail 1 room Expr.erase (pure left) (pure left') := .pure same
      refine .peek opens (fun t t' token _ filled => ?_) fun t t' improper token => ?_
      · rw [token]
        split
        · split
          · refine .bump ?_
            refine (follows_continuation opens (parts.mono (by omega)) (by omega) larger _
              same).bind fun e e' grown => ?_
            exact ih (parts.mono (by omega)) (by omega) (by omega) (by omega) (by omega) grown
          · exact stop.mono (Nat.le_succ 1) (Nat.le_refl _)
        · exact stop.mono (Nat.le_succ 1) (Nat.le_refl _)
      · have none : Continuation.ofToken? t.token = none := by
          rcases Token.isProper_eq_false improper with ⟨source, here⟩ | here <;> rw [here] <;> rfl
        have none' : Continuation.ofToken? t'.token = .none := by
          rcases token with same | semicolon
          · rw [same, none]
          · rw [semicolon]
            rfl
        rw [none, none']
        exact stop

/-- A return is read in the same way, unless it is the last token and others follow. -/
theorem goes_returned (parts : PartsFollow tail room p p') {s : State}
    (length : s.tokens.length ≤ room) (front : Known 1 s.tokens)
    (inside : tail = [] ∨ 1 < s.tokens.length) :
    Goes tail (Expr.mapOption fun _ => ()) (returned p') s (returned p s) := by
  obtain ⟨u, us, here, _, _⟩ := front.exists_cons
  have value : Follows tail 1 room (Expr.mapOption fun _ => ())
      (bump >>= fun _ => p.expression .lowest >>= fun e => pure (some e))
      (bump >>= fun _ => p'.expression .lowest >>= fun e => pure (some e)) := by
    refine .bump (((parts.mono (Nat.sub_le room 1)).expression _).bind fun e e' erased => .pure ?_)
    exact congrArg some erased
  unfold returned
  have next (s' : State) (before : Before tail s s') : s'.peek.token = s.peek.token := by
    rcases before.peek opens here with same | ⟨followed, rfl, _⟩
    · exact same
    · rw [here] at inside
      exact absurd (inside.resolve_left followed) (Nat.lt_irrefl 1)
  refine Goes.peek next fun t' same => ?_
  rw [same]
  by_cases further : Known 2 s.tokens
  · refine (?_ : Follows tail 2 room _ _ _) s length further
    split
    · exact .bump (.pure rfl)
    · exact (Follows.pure rfl).mono (Nat.le_succ 1) (Nat.le_refl _)
    · exact (Follows.pure rfl).mono (Nat.le_succ 1) (Nat.le_refl _)
    · exact value.mono (Nat.le_succ 1) (Nat.le_refl _)
  · refine (?_ : Follows tail 1 room _ _ _) s length front
    split
    · rename_i word
      exact absurd ((known_two_iff front).mpr (word ▸ rfl)) further
    · exact .pure rfl
    · exact .pure rfl
    · exact value

theorem goes_statement (parts : PartsFollow tail room p p') {s : State}
    (length : s.tokens.length ≤ room)
    (inside : tail = [] ∨ s.current.token ≠ .keyword .returnWord ∨ 1 < s.tokens.length) :
    Goes tail Stmt.erase (statement p') s (statement p s) := by
  unfold statement
  by_cases front : Known 1 s.tokens
  · refine Goes.current front fun t' same => ?_
    rw [same]
    by_cases word : s.current.token = .keyword .returnWord
    · have inside : tail = [] ∨ 1 < s.tokens.length := inside.imp_right fun inside =>
        inside.resolve_left fun other => other word
      rw [word]
      refine (goes_returned opens parts length front inside).bind
        fun a b t erased suffix reached => ?_
      refine Follows.spanFrom (fun _ _ => .pure ?_) t (Nat.le_trans suffix.length_le length) reached
      exact congrArg (Stmt.returning ()) erased
    · refine (?_ : Follows tail 1 room _ _ _) s length front
      split
      · exact follows_letStatement opens parts _ _
      · refine .bump (((parts.mono (Nat.sub_le room 1)).expression _).bind fun e e' erased => ?_)
        exact .spanFrom fun _ _ => .pure (congrArg (Stmt.deletion ()) erased)
      · exact absurd ‹_› word
      · exact (follows_expressionStatement parts _ _).mono (Nat.zero_le 1) (Nat.le_refl _)
  · rw [bind_done (current_at s)]
    rcases Token.isProper_eq_false (improper_of_unknown front) with ⟨source, here⟩ | here <;>
      rw [here] <;>
      exact (follows_expressionStatement parts _ default s length trivial).of_unknown front

end Constructs

section Statements

variable {tail : List Token} {room n : Nat} {p p' : Parts} {ends : Token → Bool} {s t : State}
  {read : List (Stmt Span)}

theorem statements_stop (stop : ends s.current.token) :
    statements p ends (n + 1) read s = .done read.reverse s := by
  rw [statements, bind_done (current_at s), if_pos stop]
  rfl

theorem statements_step (further : ends s.current.token = false) {a : Stmt Span}
    (run : statement p s = .done a t) :
    statements p ends (n + 1) read s =
      statements p ends n (a :: read) { t with tokens := t.tokens.tail } := by
  have captured : (statement p).capture s = .done (.ok a) t := by rw [Attempt.capture, run]
  rw [statements, bind_done (current_at s), if_neg (by rw [further]; decide), bind_done captured]
  rfl

theorem statements_failed (further : ends s.current.token = false) {e : SyntaxError}
    (run : statement p s = .failed e t) :
    statements p ends (n + 1) read s =
      statements p ends n read ⟨t.tokens.tail, t.finish, t.errors.push e⟩ := by
  have captured : (statement p).capture s = .done (.error e) t := by rw [Attempt.capture, run]
  rw [statements, bind_done (current_at s), if_neg (by rw [further]; decide), bind_done captured]
  rfl

/-- A return that is the last token has no value. -/
theorem statement_return_last {u : SpannedToken} (here : s.tokens = [u])
    (word : u.token = .keyword .returnWord) :
    statement p s = .done (.returning (u.span.extend u.span) none) s := by
  obtain ⟨tokens, finish, errors⟩ := s
  cases here
  rw [statement, bind_done current_run, word]
  rfl

/-- A return before a semicolon has no value and takes the semicolon up. -/
theorem statement_return_semicolon {u v : SpannedToken} {rest : List SpannedToken}
    (here : s.tokens = u :: v :: rest) (word : u.token = .keyword .returnWord)
    (next : v.token = .sign .semicolon) :
    statement p s =
      .done (.returning (u.span.extend v.span) none) { s with tokens := v :: rest } := by
  obtain ⟨tokens, finish, errors⟩ := s
  cases here
  have none : returned p ⟨u :: v :: rest, finish, errors⟩ =
      .done none ⟨v :: rest, finish, errors⟩ := by
    rw [returned, bind_done peek_run, next]
    rfl
  rw [statement, bind_done current_run, word]
  dsimp only
  rw [bind_done none]
  rfl

/-- Statements were read from `s` up to `t` without an error, and the other reader comes to the same
place, with fuel to spare. Where a bare return ended the tokens, the other reader has taken a
semicolon up as well. -/
structure CleanRun (tail : List Token) (p' : Parts) (ends : Token → Bool) (s : State)
    (new : List (Stmt Span)) (t : State) : Prop where
  begun : Known 1 t.tokens → Known 1 s.tokens
  errors : s.errors = #[]
  proper : t.Proper → s.Proper
  same : ∀ (s' : State) (fuel spare : Nat) (read : List (Stmt Span)), Before tail s s' →
    s.tokens.length + spare ≤ fuel → ∃ (new' : List (Stmt Span)) (left : Nat) (t' : State),
      statements p' ends fuel read s' = statements p' ends left (new'.reverse ++ read) t' ∧
      spare ≤ left ∧ new'.map Stmt.erase = new.map Stmt.erase ∧ t'.errors = s'.errors ∧
      (Before tail t t' ∨ t.tokens = [] ∧ t'.tokens.map (·.token) = tail.tail)

namespace CleanRun

variable {new : List (Stmt Span)} {u : State} {a : Stmt Span}

theorem nil (errors : s.errors = #[]) : CleanRun tail p' ends s [] s where
  begun := id
  errors := errors
  proper := id
  same := by
    intro s' fuel spare read before enough
    exact ⟨[], fuel, s', rfl, by omega, rfl, rfl, .inl before⟩

/-- One statement more in front. -/
theorem cons (first : Clean tail Stmt.erase (statement p') s a u) (suffix : u.tokens <:+ s.tokens)
    (reached : Known 1 u.tokens) (further : ends s.current.token = false)
    (rest : CleanRun tail p' ends { u with tokens := u.tokens.tail } new t) :
    CleanRun tail p' ends s (a :: new) t where
  begun := fun _ => first.begun
  errors := first.errors
  proper := by
    intro left
    obtain ⟨v, vs, here, proper, _⟩ := reached.exists_cons
    apply first.proper
    intro w member
    have behind := rest.proper left w
    rw [here] at member behind
    rcases List.mem_cons.mp member with rfl | member
    · exact proper
    · exact behind member
  same := by
    intro s' fuel spare read before enough
    obtain ⟨x, xs, here, _, _⟩ := first.begun.exists_cons
    obtain ⟨v, vs, there, _, _⟩ := reached.exists_cons
    obtain ⟨b, u', ran, erased, between, errors⟩ := first.same s' before
    have shorter : u.tokens.tail.length + 1 ≤ s.tokens.length := by
      have le := suffix.length_le
      rw [there] at le ⊢
      exact le
    cases fuel with
    | zero => omega
    | succ fuel =>
      obtain ⟨new', left, t', run, room, same, errors', after⟩ :=
        rest.same _ fuel spare (b :: read) (between.bump there) (by dsimp only; omega)
      refine ⟨b :: new', left, t', ?_, room, ?_, errors'.trans errors, after⟩
      · rw [statements_step (by rw [before.current here, further]) ran, run]
        simp
      · rw [List.map_cons, List.map_cons, erased, same]

/-- A return that ends the tokens takes up the semicolon that the other reader finds. -/
theorem return_semicolon {x : SpannedToken} (here : s.tokens = [x])
    (word : x.token = .keyword .returnWord) (further : ends s.current.token = false)
    (errors : s.errors = #[]) {more : List Token} (opened : tail = .sign .semicolon :: more)
    (mark : Span) :
    CleanRun tail p' ends s [.returning mark none] { s with tokens := [] } where
  begun := nofun
  errors := errors
  proper := by
    intro _ w member
    rw [here] at member
    cases List.mem_singleton.mp member
    rw [word]
    rfl
  same := by
    intro s' fuel spare read before enough
    obtain ⟨x', xs', there, same, rest⟩ := before.exists_cons here
    rw [List.map_nil, List.nil_append, opened] at rest
    obtain ⟨y, ys, rfl, next, behind⟩ := List.map_eq_cons_iff.mp rest
    have ran := statement_return_semicolon (p := p') there (same.trans word) next
    cases fuel with
    | zero =>
      rw [here, List.length_singleton] at enough
      omega
    | succ fuel =>
      rw [here, List.length_singleton] at enough
      refine ⟨[_], fuel, _, statements_step (by rw [before.current here, further]) ran, by omega,
        rfl, rfl, .inr ⟨rfl, ?_⟩⟩
      rw [opened]
      exact behind

end CleanRun

/-- All statements from `s` on are read, up to a token that ends them. -/
def ReadsAll (tail : List Token) (p p' : Parts) (ends : Token → Bool) (n : Nat) (s : State) :
    Prop :=
  ∀ read, ∃ new t, statements p ends n read s = .done (read.reverse ++ new) t ∧
    t.tokens <:+ s.tokens ∧ ends t.current.token ∧ (t.errors = #[] → CleanRun tail p' ends s new t)

namespace ReadsAll

variable {u : State} {a : Stmt Span} {e : SyntaxError}

theorem of_stop (stop : ends s.current.token) : ReadsAll tail p p' ends (n + 1) s := by
  intro read
  refine ⟨[], s, ?_, List.suffix_refl _, stop, CleanRun.nil⟩
  rw [statements_stop stop, List.append_nil]

theorem of_done (further : ends s.current.token = false) (run : statement p s = .done a u)
    (goes : Goes tail Stmt.erase (statement p') s (statement p s))
    (rest : ReadsAll tail p p' ends n { u with tokens := u.tokens.tail }) :
    ReadsAll tail p p' ends (n + 1) s := by
  intro read
  rw [run] at goes
  obtain ⟨suffix, reached, clean⟩ := goes
  obtain ⟨new, t, ran, behind, stop, cleanRest⟩ := rest (a :: read)
  refine ⟨a :: new, t, ?_, (behind.trans (List.tail_suffix _)).trans suffix, stop, fun none => ?_⟩
  · rw [statements_step further run, ran, List.reverse_cons, List.append_assoc,
      List.singleton_append]
  · have later := cleanRest none
    exact .cons (clean later.errors) suffix reached further later

/-- A statement that fails leaves an error behind. -/
theorem of_failed (further : ends s.current.token = false) (run : statement p s = .failed e u)
    (suffix : u.tokens <:+ s.tokens)
    (rest : ReadsAll tail p p' ends n ⟨u.tokens.tail, u.finish, u.errors.push e⟩) :
    ReadsAll tail p p' ends (n + 1) s := by
  intro read
  obtain ⟨new, t, ran, behind, stop, cleanRest⟩ := rest read
  refine ⟨new, t, ?_, (behind.trans (List.tail_suffix _)).trans suffix, stop, fun none => ?_⟩
  · rw [statements_failed further run, ran]
  · exact absurd (cleanRest none).errors Array.push_ne_empty

theorem of_last_return {x : SpannedToken} (here : s.tokens = [x])
    (word : x.token = .keyword .returnWord) (further : ends s.current.token = false)
    {more : List Token} (opened : tail = .sign .semicolon :: more) (stops : ends .endOfFile) :
    ReadsAll tail p p' ends (n + 2) s := by
  intro read
  have ran := statement_return_last (p := p) here word
  refine ⟨[.returning (x.span.extend x.span) none], { s with tokens := [] }, ?_, List.nil_suffix,
    stops, fun none => .return_semicolon here word further none opened _⟩
  rw [statements_step further ran, here, List.tail_cons, statements_stop stops, List.reverse_cons]

end ReadsAll

/-- Statements are read up to a token that ends them. -/
theorem readsAll (opens : Opens tail)
    (parts : 0 < room → PartsFollow tail room p p') (stops : ends .endOfFile)
    (length : s.tokens.length ≤ room) (enough : s.tokens.length < n) :
    ReadsAll tail p p' ends n s := by
  induction n generalizing s with
  | zero => cases enough
  | succ n ih =>
    by_cases stop : ends s.current.token
    · exact .of_stop stop
    have further : ends s.current.token = false := Bool.eq_false_iff.mpr stop
    cases here : s.tokens with
    | nil =>
      have ended : s.current.token = .endOfFile := by simp only [State.current, here]; rfl
      exact absurd (ended ▸ stops) stop
    | cons x xs =>
      have looked : s.current = x := by simp only [State.current, here, List.headD_cons]
      have count : s.tokens.length = xs.length + 1 := by rw [here, List.length_cons]
      by_cases last : tail ≠ [] ∧ x.token = .keyword .returnWord ∧ xs = []
      · obtain ⟨followed, word, rfl⟩ := last
        obtain ⟨w, more, rfl⟩ := List.exists_cons_of_ne_nil followed
        obtain rfl := opens w rfl
        cases n with
        | zero => rw [here] at enough; exact absurd enough (Nat.lt_irrefl 1)
        | succ n => exact .of_last_return here word further rfl stops
      · have inside : tail = [] ∨ s.current.token ≠ .keyword .returnWord ∨ 1 < s.tokens.length := by
          rw [looked, count]
          cases xs with
          | nil =>
            by_cases followed : tail = []
            · exact .inl followed
            · exact .inr (.inl fun word => last ⟨followed, word, rfl⟩)
          | cons y ys => exact .inr (.inr (by simp))
        have goes := goes_statement opens (parts (by omega)) length inside
        have shorter {u : State} (suffix : u.tokens <:+ s.tokens) :
            u.tokens.tail.length < s.tokens.length := by
          have le := suffix.length_le
          rw [List.length_tail]
          omega
        cases run : statement p s with
        | exhausted =>
          rw [run] at goes
          exact goes.elim
        | failed e u =>
          have suffix : u.tokens <:+ s.tokens := by rwa [run] at goes
          have less := shorter suffix
          exact .of_failed further run suffix (ih (by dsimp only; omega) (by dsimp only; omega))
        | done a u =>
          have suffix : u.tokens <:+ s.tokens := by rw [run] at goes; exact goes.1
          have less := shorter suffix
          exact .of_done further run goes (ih (by dsimp only; omega) (by dsimp only; omega))

/-- Statements that a closing brace ends are read in the same way in front of other tokens. -/
theorem CleanRun.in_block {new : List (Stmt Span)} (run : CleanRun tail p' endsBlock s new t)
    (close : t.current.token = .sign .rightBrace) (here : Known 1 t.tokens) {n' : Nat}
    (enough : s.tokens.length < n') :
    Clean tail (List.map Stmt.erase) (statements p' endsBlock n' []) s new t := by
  refine ⟨run.begun here, run.errors, run.proper, fun s' before => ?_⟩
  obtain ⟨u, us, front, _, _⟩ := here.exists_cons
  obtain ⟨new', left, t', same, spare, erased, errors, after | ⟨ended, _⟩⟩ :=
    run.same s' n' 1 [] before enough
  · obtain ⟨left, rfl⟩ := Nat.exists_eq_add_of_le' spare
    have stop : endsBlock t'.current.token := by
      rw [after.current front, close]
      rfl
    refine ⟨new', t', ?_, erased, after, errors⟩
    rw [same, statements_stop stop, List.append_nil, List.reverse_reverse]
  · rw [ended] at front
    cases front

theorem follows_braced (opens : Opens tail)
    (parts : 0 < room - 1 → PartsFollow tail (room - 1) p p') (enough : room ≤ n) {n' : Nat}
    (more : n ≤ n') :
    Follows tail 1 room (Block.map fun _ => ()) (braced p n) (braced p' n') := by
  refine .of_pos fun filled => ?_
  unfold braced
  refine .current_known fun t t' _ _ => .bump ?_
  intro s length _
  have rest (ss ss' : List (Stmt Span)) (erased : ss'.map Stmt.erase = ss.map Stmt.erase) :
      Follows tail 1 (room - 1) (Block.map fun _ => ())
        (do expectCurrent .rightBrace
            return .mk (← spanFrom t.span) ss)
        (do expectCurrent .rightBrace
            return .mk (← spanFrom t'.span) ss') := by
    refine .expectCurrent (.spanFrom fun _ _ => .pure ?_)
    simp only [Block.map, Stmt.mapList_eq]
    exact congrArg (Block.mk ()) erased
  have all : ReadsAll tail p p' endsBlock n s := readsAll opens parts rfl length (by omega)
  obtain ⟨new, u, ran, suffix, _, clean⟩ := all []
  rw [List.reverse_nil, List.nil_append] at ran
  by_cases close : u.current.token = .sign .rightBrace
  · have here : Known 1 u.tokens := (known_one_iff u).mpr (close ▸ rfl)
    have fits : s.tokens.length < n' := by omega
    refine .after ran suffix (fun _ none => (clean none).in_block close here fits) ?_
    intro ss' erased
    exact rest new ss' erased u (Nat.le_trans suffix.length_le length) here
  · rw [bind_done ran, expectCurrent_bind, bind_done (current_at u), if_neg close]
    exact suffix

/-- No operand starts with what is no word of the language. -/
theorem operand_failed (unknown : ¬Known 1 s.tokens) : ∃ e, operand p n s = .failed e s := by
  have improper := improper_of_unknown unknown
  have whole : operand p n s = prefixed p s := by
    rw [operand, bind_done (current_at s)]
    rcases Token.isProper_eq_false improper with ⟨source, here⟩ | here <;> rw [here]
  rw [whole, prefixed, bind_done (current_at s)]
  rcases Token.isProper_eq_false improper with ⟨source, here⟩ | here <;> rw [here] <;>
    exact ⟨_, rfl⟩

/-- An expression, except that a semicolon in its place stands for none. -/
theorem follows_expression (opens : Opens tail)
    (parts : 0 < room → PartsFollow tail (room - 1) p p') (enough : room ≤ n) {n' : Nat}
    (more : n ≤ n') (level : Precedence) :
    Follows tail 0 room Expr.erase
      (do let first ← current
          if first.token = .sign .semicolon then return .missing first.span
          else climb p n level n (← operand p n))
      (do let first ← current
          if first.token = .sign .semicolon then return .missing first.span
          else climb p' n' level n' (← operand p' n')) := by
  have grown (filled : 0 < room) : Follows tail 0 room Expr.erase
      (operand p n >>= climb p n level n) (operand p' n' >>= climb p' n' level n') :=
    (follows_operand opens parts enough more).bind fun e e' erased =>
      follows_climb opens (parts filled) enough (by omega) more enough more level erased
  intro s length _
  by_cases front : Known 1 s.tokens
  · have filled := front.le_length
    refine Goes.current front fun t' same => ?_
    rw [same]
    refine (?_ : Follows tail 1 room _ _ _) s length front
    split
    · exact .pure rfl
    · exact (grown (by omega)).mono (Nat.zero_le 1) (Nat.le_refl _)
  · have other : s.current.token ≠ .sign .semicolon := fun here =>
      front ((known_one_iff s).mpr (here ▸ rfl))
    obtain ⟨e, failed⟩ := operand_failed (p := p) (n := n) front
    rw [bind_done (current_at s), if_neg other, Attempt.bind_run, failed]
    exact List.suffix_refl _

/-- The parsers of expressions and blocks, with more fuel than there are tokens. -/
theorem follows_parts (opens : Opens tail) {n' : Nat}
    (enough : room < n) (more : n ≤ n') : PartsFollow tail room (partsAt n) (partsAt n') := by
  induction n generalizing room n' with
  | zero => cases enough
  | succ n ih =>
    cases n' with
    | zero => cases more
    | succ n' =>
      have below (filled : 0 < room) : PartsFollow tail (room - 1) (partsAt n) (partsAt n') :=
        ih (by omega) (by omega)
      refine ⟨fun level => ?_, ?_⟩
      · show Follows tail 0 room Expr.erase (expression (n + 1) level) (expression (n' + 1) level)
        rw [expression, expression, Attempt.deepen_eq, Attempt.deepen_eq]
        exact follows_expression opens below (by omega) (by omega) level
      · show Follows tail 1 room _ (block (n + 1)) (block (n' + 1))
        rw [block, block, Attempt.deepen_eq, Attempt.deepen_eq]
        exact follows_braced opens (fun _ => below (by omega)) (by omega) (by omega)

end Statements

end Scripting.Parser
