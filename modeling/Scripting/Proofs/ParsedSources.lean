import Scripting.Proofs.Joining
import Scripting.Proofs.ReadTrees

/-!
# What is read from a source

Parsing a source reads a row of statements that takes up all its tokens. So the statements fill the
tokens, with nothing between them where no error was found, and every node of the program takes up
some of them.
-/

namespace Scripting

open Parsed

namespace Parser

/-- With a little more fuel than there are tokens, statements are read up to the end. -/
theorem program_row (tokens : List SpannedToken) (finish : Position) :
    ∃ stmts t, program (tokens.length + 2) ⟨tokens, finish, #[]⟩ = .done stmts t ∧
      ReadRow ⟨tokens, finish, #[]⟩ stmts t ∧ t.current.token = .endOfFile := by
  have closes : Opens [] := nofun
  have parts : PartsFollow [] tokens.length (partsAt (tokens.length + 2))
      (partsAt (tokens.length + 2)) := follows_parts closes (by omega) (Nat.le_refl _)
  -- Fuel was shown to suffice for two readings side by side; here both are of the same tokens.
  obtain ⟨_, _, ended, _⟩ := readsAll (s := ⟨tokens, finish, #[]⟩) (n := tokens.length + 2) closes
    (fun _ => parts) (show endsProgram .endOfFile from rfl) (Nat.le_refl _) (by simp) []
  rcases statements_readRow (takes_parts (tokens.length + 2)) endsProgram rfl [] with
    none | ⟨new, t, ran, row, stop⟩
  · rw [none] at ended
    cases ended
  · exact ⟨new, t, ran, row, by simpa [endsProgram] using stop⟩

end Parser

/-- A source is read as a row of statements that leaves no token. -/
theorem parse_row (source : String) :
    ∃ t, Parser.program ((tokensOf source).length + 2) ⟨tokensOf source, finishOf source, #[]⟩ =
        .done (parse source).1.stmts t ∧ (parse source).2 = t.errors.toList ∧
      Parser.ReadRow ⟨tokensOf source, finishOf source, #[]⟩ (parse source).1.stmts t ∧
      t.tokens = [] := by
  obtain ⟨stmts, t, run, row, ended⟩ := Parser.program_row (tokensOf source) (finishOf source)
  have whole : parse source = (⟨stmts⟩, t.errors.toList) := by
    rw [parse_eq, parseTokens, run]
  rw [whole]
  refine ⟨t, run, rfl, row, ?_⟩
  cases here : t.tokens with
  | nil => rfl
  | cons x xs =>
    have last : x.token = .endOfFile := by simpa [Parser.State.current, here] using ended
    have inside : x ∈ tokensOf source := row.suffix.mem (by rw [here]; exact List.mem_cons_self)
    exact absurd last (token_ne_endOfFile x inside)

/-- The statements of a source fill its tokens. Others stand among them only if there are errors. -/
theorem parse_fills (source : String) : ∃ items,
    Fills ((parse source).2 = []) items (tokensOf source) ∧
      Strung (fun _ => (parse source).2 ≠ []) ((parse source).1.stmts.map .stmt) items := by
  obtain ⟨t, _, errors, row, ended⟩ := parse_row source
  obtain ⟨items, ⟨_, ts, whole, filled⟩, strung⟩ := row.passed
  have clean : (parse source).2 = [] ↔ t.errors.size = (#[] : Array SyntaxError).size := by
    rw [errors]
    simp
  rw [ended, List.append_nil] at whole
  subst whole
  exact ⟨items, filled.weaken clean.mp, strung.mono fun _ dirty none => dirty (clean.mp none)⟩

/-- Every node of the program takes up some of the tokens. -/
theorem occupies_of_holds {source : String} {n : Parsed.Node} (held : (parse source).1.Holds n) :
    ∃ ts, ts <:+: tokensOf source ∧ Occupies ((parse source).2 = []) n ts := by
  obtain ⟨items, filled, strung⟩ := parse_fills source
  obtain ⟨s, member, below⟩ := held
  have top : Parsed.Node.stmt s ∈ nodes items := strung.nodes_eq ▸ List.mem_map_of_mem member
  obtain ⟨us, inside, occupied⟩ := filled.occupies top
  obtain ⟨ts, deeper, found⟩ := occupied.below below
  exact ⟨ts, deeper.trans inside, found⟩

/-- The tokens of a source follow one another without overlap. -/
theorem ordered_tokensOf (source : String) : Ordered (tokensOf source) :=
  Cursor.ordered_tokens _

end Scripting
