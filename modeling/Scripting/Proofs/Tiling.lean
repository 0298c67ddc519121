import Scripting.Proofs.ParsedSources

/-!
# Statements divide their tokens

Where no error was found nothing is left over: the spans of the statements of a source divide its
tokens among them, and so do those of the statements of a block with the tokens between its braces.
-/

namespace Scripting

open Parsed

/-- The spans of the statements divide the tokens: the first one runs over those in front, and the
others in the same way over the rest. -/
inductive Tiles : List (Stmt Span) → List SpannedToken → Prop where
  | nil : Tiles [] []
  | cons {s : Stmt Span} {ss : List (Stmt Span)} {run rest : List SpannedToken} :
      s.mark.RunsOver run → Tiles ss rest → Tiles (s :: ss) (run ++ rest)

namespace Parsed

variable {clean : Prop} {ts : List SpannedToken}

/-- The span of a statement reaches from its first token to its last one. -/
theorem Form.mark_stmt {s : Stmt Span} {opened : List Sign} {items : List Item}
    {first last : SpannedToken} (form : Form clean (.stmt s) opened items first last) :
    s.mark = first.span.extend last.span := by
  cases form <;> rfl

theorem Fills.tiles {ss : List (Stmt Span)} (fills : Fills clean (ss.map .stmt) ts)
    (ordered : Ordered ts) : Tiles ss ts := by
  induction ss generalizing ts with
  | nil =>
    cases fills
    exact .nil
  | cons s ss ih =>
    cases fills with
    | node form inner head final rest =>
      have front := ordered.sublist (List.sublist_append_left _ _)
      have back := ordered.sublist (List.sublist_append_right _ _)
      refine .cons ?_ (ih rest back)
      rw [form.mark_stmt]
      exact front.runsOver head final

/-- Where tokens among the statements are not allowed, the statements divide them all. -/
theorem Strung.tiles {kind : SpannedToken → Prop} {ss : List (Stmt Span)} {items : List Item}
    (strung : Strung kind (ss.map .stmt) items) (never : ∀ t, ¬kind t)
    (fills : Fills clean items ts) (ordered : Ordered ts) : Tiles ss ts := by
  rw [strung.eq_map never, List.map_map] at fills
  exact fills.tiles ordered

/-- The statements of a block divide the tokens between its braces. -/
theorem Occupies.tiles {b : Block Span} (occupied : Occupies clean (.block b) ts) (holds : clean)
    (ordered : Ordered ts) : ∃ opening inner closing, ts = opening :: (inner ++ [closing]) ∧
      opening.token = .sign .leftBrace ∧ closing.token = .sign .rightBrace ∧
      b.mark.RunsOver ts ∧ Tiles b.stmts inner := by
  obtain ⟨opened, items, first, last, form, fills, head, final⟩ := occupied
  cases form with
  | block brace strung closing =>
    obtain ⟨us, rfl, opened⟩ := fills.of_token_cons
    obtain ⟨inner, vs, rfl, between, ending⟩ := opened.split
    obtain ⟨ws, rfl, nothing⟩ := ending.of_token_cons
    cases nothing
    have part : Ordered inner := ordered.sublist
      ((List.sublist_append_left _ _).trans (List.sublist_cons_self _ _))
    exact ⟨first, inner, last, rfl, brace, closing, ordered.runsOver head final,
      strung.tiles (fun _ dirty => dirty holds) between part⟩

end Parsed

/-- A source in which no error was found is accounted for token by token. The spans of its
statements divide its tokens, and the span of every block in it runs over tokens between two braces
that the spans of the block's statements divide. -/
theorem statements_tile_tokens (source : String) (clean : (parse source).2 = []) :
    Tiles (parse source).1.stmts (tokensOf source) ∧
      ∀ b : Block Span, (parse source).1.Holds (.block b) →
        ∃ (before : List SpannedToken) (opening : SpannedToken) (inner : List SpannedToken)
          (closing : SpannedToken) (after : List SpannedToken),
          tokensOf source = before ++ opening :: (inner ++ [closing]) ++ after ∧
          opening.token = .sign .leftBrace ∧ closing.token = .sign .rightBrace ∧
          b.mark = ⟨opening.span.start, closing.span.stop⟩ ∧ Tiles b.stmts inner := by
  have ordered := ordered_tokensOf source
  constructor
  · obtain ⟨items, filled, strung⟩ := parse_fills source
    exact strung.tiles (fun _ dirty => dirty clean) filled ordered
  · intro b held
    obtain ⟨ts, ⟨before, after, whole⟩, occupied⟩ := occupies_of_holds held
    have part : Ordered ts := ordered.sublist (whole ▸ List.infix_append before ts after).sublist
    obtain ⟨opening, inner, closing, rfl, brace, close, ⟨first, last, head, final, mark⟩, tiles⟩ :=
      occupied.tiles clean part
    refine ⟨before, opening, inner, closing, after, whole.symm, brace, close, ?_, tiles⟩
    cases head
    rw [← List.cons_append, List.getLast?_concat] at final
    cases final
    exact mark

/-- A grouping, an empty statement and a return that takes the semicolon after it up divide the
tokens of a loop's body. -/
theorem statements_tile_tokens_of_loop :
    let source := "while (x) { (y); return; } z"
    (parse source).2 = [] ∧ Tiles (parse source).1.stmts (tokensOf source) ∧
      ∃ (b : Block Span) (before inner after : List SpannedToken) (opening closing : SpannedToken),
        (parse source).1.Holds (.block b) ∧ b.stmts.length = 3 ∧
        tokensOf source = before ++ opening :: (inner ++ [closing]) ++ after ∧
        b.mark = ⟨opening.span.start, closing.span.stop⟩ ∧ Tiles b.stmts inner := by
  intro source
  obtain ⟨mark₁, mark₂, c, b, s, read, three⟩ : ∃ mark₁ mark₂ c b s,
      parse source = (⟨[.expression mark₁ (.whileLoop mark₂ c b), s]⟩, []) ∧
      b.stmts.length = 3 := ⟨_, _, _, _, _, by cbv, by cbv⟩
  have clean : (parse source).2 = [] := by rw [read]
  have held : (parse source).1.Holds (.block b) := by
    have loop : (Parsed.Node.stmt (.expression mark₁ (.whileLoop mark₂ c b))).Below
        (.expr (.whileLoop mark₂ c b)) := .single List.mem_cons_self
    rw [read]
    exact ⟨_, List.mem_cons_self, loop.tail (List.mem_cons_of_mem _ List.mem_cons_self)⟩
  obtain ⟨tiles, blocks⟩ := statements_tile_tokens source clean
  obtain ⟨before, opening, inner, closing, after, whole, _, _, mark, inside⟩ := blocks b held
  exact ⟨clean, tiles, b, before, inner, after, opening, closing, held, three, whole, mark, inside⟩

end Scripting
