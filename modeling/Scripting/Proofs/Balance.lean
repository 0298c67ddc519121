import Scripting.Proofs.ParsedSources

/-!
# Brackets in pairs

A source in which no error was found has only words of the language, and its parentheses, brackets
and braces are nested. Every form closes what it opens, but for a slice from the start, which leaves
the bracket in front of it to the index around it.
-/

namespace Scripting

/-- What a closing sign leaves of the signs that are open, of which the last one comes first. It has
to match that one. -/
def closeLast (opening : Sign) : List Sign → Option (List Sign)
  | [] => none
  | last :: stack => if last = opening then some stack else none

@[simp] theorem closeLast_cons (opening : Sign) (stack : List Sign) :
    closeLast opening (opening :: stack) = some stack :=
  if_pos rfl

namespace Token

/-- The signs that are open after a token, of which the last one comes first. -/
def nest (stack : List Sign) : Token → Option (List Sign)
  | .sign .leftParen => some (.leftParen :: stack)
  | .sign .leftBracket => some (.leftBracket :: stack)
  | .sign .leftBrace => some (.leftBrace :: stack)
  | .sign .rightParen => closeLast .leftParen stack
  | .sign .rightBracket => closeLast .leftBracket stack
  | .sign .rightBrace => closeLast .leftBrace stack
  | _ => some stack

/-- The token neither opens nor closes anything. -/
def IsNeutral (t : Token) : Prop := ∀ stack, nest stack t = some stack

theorem isNeutral_of_prefix {t : Token} {op : PrefixOperator}
    (found : PrefixOperator.ofToken? t = some op) : t.IsNeutral := by
  unfold PrefixOperator.ofToken? at found
  split at found
  all_goals cases found
  all_goals exact fun _ => rfl

/-- Of the tokens that continue an expression, only those of a call and of an index open
anything. -/
theorem isNeutral_of_continuation {t : Token} {c : Continuation}
    (found : Continuation.ofToken? t = some c) (plain : c ≠ .call ∧ c ≠ .index) : t.IsNeutral := by
  unfold Continuation.ofToken? at found
  split at found
  all_goals cases found
  all_goals simp_all [IsNeutral, nest]

end Token

/-- Every closing sign matches the last one that is open, and none is left open. -/
def Balanced (ts : List Token) : Prop := ts.foldlM Token.nest [] = some []

instance (ts : List Token) : Decidable (Balanced ts) :=
  inferInstanceAs (Decidable (_ = some []))

namespace Parsed

variable {clean : Prop} {kind : SpannedToken → Prop} {ns : List Node} {n : Node}
  {opened : List Sign} {items : List Item} {first last : SpannedToken} {ts : List SpannedToken}

theorem isNeutral_of_atom {t : SpannedToken} {e : Expr Span} (found : atom? t = some e) :
    t.token.IsNeutral := by
  unfold atom? at found
  split at found
  case h_10 => cases found
  all_goals
    rename_i here
    rw [here]
    exact fun _ => rfl

/-- The signs that are open after an item. -/
def Item.nest (stack : List Sign) : Item → Option (List Sign)
  | .token t => t.token.nest stack
  | .node _ opened => some (opened ++ stack)

@[simp] theorem nest_map {α : Type} (f : α → Node) (xs : List α) (stack : List Sign) :
    (xs.map fun x => Item.node (f x) []).foldlM Item.nest stack = some stack := by
  induction xs with
  | nil => rfl
  | cons _ _ ih => exact ih

theorem Strung.nest (strung : Strung kind ns items) (neutral : ∀ t, kind t → t.token.IsNeutral)
    (stack : List Sign) : items.foldlM Item.nest stack = some stack := by
  induction strung with
  | nil => rfl
  | node _ ih => exact ih
  | token allowed _ ih =>
    rw [List.foldlM_cons, Item.nest, neutral _ allowed stack]
    exact ih

theorem isNeutral_of_isComma {t : SpannedToken} (comma : isComma t) : t.token.IsNeutral := by
  rw [isComma] at comma
  rw [comma]
  exact fun _ => rfl

theorem isNeutral_of_isPairMark {t : SpannedToken} (mark : isPairMark t) :
    t.token.IsNeutral := by
  rcases mark with comma | colon
  · exact isNeutral_of_isComma comma
  · rw [colon]
    exact fun _ => rfl

/-- The items of a node leave open what is said of it, whatever is open before. -/
theorem Form.nest (form : Form clean n opened items first last) (holds : clean)
    (stack : List Sign) : items.foldlM Item.nest stack = some (opened ++ stack) := by
  cases form with
  | atom found => simp [Item.nest, isNeutral_of_atom found stack]
  | unary found => simp [Item.nest, Token.isNeutral_of_prefix found stack]
  | binary found | step found | assign found =>
    simp [Item.nest, Token.isNeutral_of_continuation found ⟨nofun, nofun⟩ stack]
  | array _ strung | call _ strung | parameters _ _ strung =>
    simp [Item.nest, Token.nest, strung.nest @isNeutral_of_isComma, *]
  | hash _ strung => simp [Item.nest, Token.nest, strung.nest @isNeutral_of_isPairMark, *]
  | block _ strung =>
    -- Tokens among the statements, which might be any, are left only by errors.
    have never : ∀ t : SpannedToken, ¬clean → t.token.IsNeutral := fun _ dirty => absurd holds dirty
    simp [Item.nest, Token.nest, strung.nest never, *]
  | _ => simp [Item.nest, Token.nest, *]

/-- So what a row of tokens opens and closes is told by the items that fill it. -/
theorem Fills.nest (fills : Fills clean items ts) (holds : clean) (stack : List Sign) :
    (ts.map (·.token)).foldlM Token.nest stack = items.foldlM Item.nest stack := by
  induction fills generalizing stack with
  | nil => rfl
  | token _ ih =>
    rw [List.map_cons, List.foldlM_cons, List.foldlM_cons, Item.nest]
    exact congrArg _ (funext ih)
  | node form _ _ _ _ inner ih =>
    rw [List.map_append, List.foldlM_append, inner, form.nest holds]
    exact ih _
  | @grouped opening closing e _ us _ paren _ close _ inner ih =>
    have opens : opening.token.nest stack = some (.leftParen :: stack) := by rw [paren]; rfl
    have closes : closing.token.nest (.leftParen :: stack) = some stack := by
      rw [close]
      exact closeLast_cons .leftParen stack
    have between : (us.map (·.token)).foldlM Token.nest (.leftParen :: stack) =
        some (.leftParen :: stack) := inner _
    simp only [List.map_cons, List.map_append, List.foldlM_cons, List.foldlM_append, opens, closes,
      between, Option.bind_eq_bind, Option.bind_some, ih, Item.nest, List.nil_append]

end Parsed

/-- A source in which no error was found has no illegal token, and its parentheses, brackets and
braces are nested. -/
theorem error_free_source_is_balanced (source : String) (clean : (parse source).2 = []) :
    (∀ t ∈ tokensOf source, ∀ text, t.token ≠ .illegal text) ∧
      Balanced ((tokensOf source).map (·.token)) := by
  constructor
  · intro t member text illegal
    have proper := isProper_of_parse clean t.token
      (map_token_tokensOf source ▸ List.mem_map_of_mem member)
    rw [illegal] at proper
    cases proper
  · obtain ⟨items, filled, strung⟩ := parse_fills source
    rw [Balanced, filled.nest clean]
    exact strung.nest (fun _ dirty => absurd clean dirty) []

/-- A slice from the start, in a call in a block. -/
theorem error_free_source_is_balanced_of_slice :
    let source := "if (a) { f([x[:2], {}]) }"
    (parse source).2 = [] ∧ (tokensOf source).length = 19 ∧
      (∀ t ∈ tokensOf source, ∀ text, t.token ≠ .illegal text) ∧
      Balanced ((tokensOf source).map (·.token)) := by
  intro source
  have clean : (parse source).2 = [] := by cbv
  exact ⟨clean, by decide +kernel, error_free_source_is_balanced source clean⟩

end Scripting
