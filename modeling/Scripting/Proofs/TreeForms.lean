import Mathlib.Logic.Relation
import Scripting.Decimal.Reader
import Scripting.Expr
import Scripting.Proofs.Places

/-!
# How trees stand in their tokens

Every node of a tree that was read is put together from items, which are tokens of its own and the
nodes inside it. `Form` lists the ways, one for each construct, and is not recursive; items that
stand one after the other fill a row of tokens, `Fills`, and that is where all recursion is. So what
holds of every tree is shown once for each form and then carried along a row.

The tokens of a block that belong to no statement are those of statements that failed. They are
allowed where `clean` does not hold.
-/

namespace Scripting

/-- The expression may stand behind a dot: it is a name or a call of one. -/
def Expr.isMember {α : Type} : Expr α → Bool
  | .identifier _ _ | .call _ (.identifier _ _) _ => true
  | _ => false

/-- The statement may be the first clause of a loop: it binds a name or is an expression. -/
def Stmt.isClause {α : Type} : Stmt α → Bool
  | .letBinding _ _ _ | .expression _ _ => true
  | .deletion _ _ | .returning _ _ => false

namespace Parsed

/-- A node of a tree. A function is a node inside the expression that it is. -/
inductive Node where
  | stmt (s : Stmt Span)
  | expr (e : Expr Span)
  | block (b : Block Span)
  | name (i : Identifier Span)
  | function (parameters : List (Identifier Span)) (body : Block Span) (extent : Span)

namespace Node

/-- The span of a node. -/
def mark : Node → Span
  | stmt s => s.mark
  | expr e => e.mark
  | block b => b.mark
  | name i => i.mark
  | function _ _ extent => extent

/-- The nodes right below a node, in the order in which they are written. -/
def children : Node → List Node
  | stmt (.letBinding _ i v) => [name i, expr v]
  | stmt (.deletion _ e) => [expr e]
  | stmt (.returning _ v) => v.toList.map expr
  | stmt (.expression _ e) => [expr e]
  | block (.mk _ ss) => ss.map stmt
  | name _ => []
  | function ps b _ => ps.map name ++ [block b]
  | expr (.missing _) | expr (.literal _ _) | expr (.breakLoop _) | expr (.continueLoop _) => []
  | expr (.identifier _ i) => [name i]
  | expr (.array _ es) => es.map expr
  | expr (.hash _ ps) => ps.flatMap fun p => [expr p.1, expr p.2]
  | expr (.function _ ps b x) => [function ps b x]
  | expr (.unary _ _ e) | expr (.step _ _ e) | expr (.typeof _ e) => [expr e]
  | expr (.binary _ _ l r) | expr (.assign _ _ l r) => [expr l, expr r]
  | expr (.conditional _ c y n) => expr c :: block y :: n.toList.map block
  | expr (.whileLoop _ c b) => [expr c, block b]
  | expr (.forLoop _ i c u b) =>
    i.toList.map stmt ++ c.toList.map expr ++ u.toList.map expr ++ [block b]
  | expr (.call _ c as) => expr c :: as.map expr
  | expr (.method _ o c) => [expr o, expr c]
  | expr (.index _ c k) => [expr c, expr k]
  | expr (.slice _ l h) => expr l :: h.toList.map expr

/-- The second node is the first one or stands somewhere below it. -/
def Below : Node → Node → Prop := Relation.ReflTransGen fun n m => m ∈ n.children

end Node

/-- What rows of tokens are divided into: single tokens, and nodes together with the signs that
their tokens open and do not close. -/
inductive Item where
  | token (t : SpannedToken)
  | node (n : Node) (opened : List Sign)

namespace Item

/-- An expression that closes what it opens. -/
abbrev expr (e : Expr Span) : Item := node (.expr e) []

/-- A statement that closes what it opens. -/
abbrev stmt (s : Stmt Span) : Item := node (.stmt s) []

/-- A block that closes what it opens. -/
abbrev block (b : Block Span) : Item := node (.block b) []

/-- A name, which opens nothing. -/
abbrev name (i : Identifier Span) : Item := node (.name i) []

/-- The node of an item that is one. -/
def node? : Item → Option Node
  | token _ => none
  | node n _ => some n

end Item

/-- The nodes among the items. -/
def nodes (items : List Item) : List Node := items.filterMap Item.node?

section Nodes

variable {n : Node} {opened : List Sign} {items rest : List Item}

@[simp] theorem nodes_nil : nodes [] = [] := rfl

@[simp] theorem nodes_token (t : SpannedToken) : nodes (.token t :: items) = nodes items := rfl

@[simp] theorem nodes_node : nodes (.node n opened :: items) = n :: nodes items := rfl

@[simp] theorem nodes_append : nodes (items ++ rest) = nodes items ++ nodes rest :=
  List.filterMap_append

@[simp] theorem nodes_map {α : Type} (f : α → Node) (xs : List α) :
    nodes (xs.map fun x => .node (f x) []) = xs.map f := by
  induction xs with
  | nil => rfl
  | cons x xs ih => rw [List.map_cons, nodes_node, ih, List.map_cons]

end Nodes

/-- The items are the nodes, closed ones, with tokens of one kind anywhere among them. -/
inductive Strung (kind : SpannedToken → Prop) : List Node → List Item → Prop where
  | nil : Strung kind [] []
  | node {n : Node} {ns : List Node} {items : List Item} : Strung kind ns items →
      Strung kind (n :: ns) (.node n [] :: items)
  | token {t : SpannedToken} {ns : List Node} {items : List Item} : kind t →
      Strung kind ns items → Strung kind ns (.token t :: items)

namespace Strung

variable {kind kind' : SpannedToken → Prop} {ns ms : List Node} {items rest : List Item}

theorem append (front : Strung kind ns items) (back : Strung kind ms rest) :
    Strung kind (ns ++ ms) (items ++ rest) := by
  induction front with
  | nil => exact back
  | node _ ih => exact .node ih
  | token allowed _ ih => exact .token allowed ih

theorem mono (strung : Strung kind ns items) (weaker : ∀ t, kind t → kind' t) :
    Strung kind' ns items := by
  induction strung with
  | nil => exact .nil
  | node _ ih => exact .node ih
  | token allowed _ ih => exact .token (weaker _ allowed) ih

theorem of_tokens {ts : List SpannedToken} (allowed : ∀ t ∈ ts, kind t) :
    Strung kind [] (ts.map .token) := by
  induction ts with
  | nil => exact .nil
  | cons t ts ih =>
    exact .token (allowed t List.mem_cons_self) (ih fun u member =>
      allowed u (List.mem_cons_of_mem _ member))

theorem nodes_eq (strung : Strung kind ns items) : nodes items = ns := by
  induction strung with
  | nil => rfl
  | node _ ih => rw [nodes_node, ih]
  | token _ _ ih => exact ih

/-- Where no token is allowed there are only the nodes. -/
theorem eq_map (strung : Strung kind ns items) (never : ∀ t, ¬kind t) :
    items = ns.map (.node · []) := by
  induction strung with
  | nil => rfl
  | node _ ih => rw [ih, List.map_cons]
  | token allowed => exact absurd allowed (never _)

end Strung

/-- The expression that a token is all by itself. -/
def atom? (t : SpannedToken) : Option (Expr Span) :=
  match t.token with
  | .sign .semicolon => some (.missing t.span)
  | .integer digits => (Decimal.readInteger digits).map fun n => .literal t.span (.integer n)
  | .float digits => (Decimal.readFloat digits).map fun x => .literal t.span (.float x)
  | .text s => some (.literal t.span (.text s))
  | .keyword .trueWord => some (.literal t.span (.boolean true))
  | .keyword .falseWord => some (.literal t.span (.boolean false))
  | .keyword .nullWord => some (.literal t.span .null)
  | .keyword .breakWord => some (.breakLoop t.span)
  | .keyword .continueWord => some (.continueLoop t.span)
  | _ => none

/-- The token is a comma. -/
def isComma (t : SpannedToken) : Prop := t.token = .sign .comma

/-- The token is a comma or a colon. -/
def isPairMark (t : SpannedToken) : Prop := t.token = .sign .comma ∨ t.token = .sign .colon

/-- The ways in which a node is put together. The signs are those that it leaves open, and the two
tokens are the first and the last one of all that it takes up. -/
inductive Form (clean : Prop) :
    Node → List Sign → List Item → SpannedToken → SpannedToken → Prop where
  | name {first : SpannedToken} {name : String} : first.token = .identifier name →
      Form clean (.name ⟨name, first.span⟩) [] [.token first] first first
  | atom {first : SpannedToken} {e : Expr Span} : atom? first = some e →
      Form clean (.expr e) [] [.token first] first first
  | identifier {first : SpannedToken} {name : String} : first.token = .identifier name →
      Form clean (.expr (.identifier first.span ⟨name, first.span⟩)) []
        [.name ⟨name, first.span⟩] first first
  | array {first last : SpannedToken} {es : List (Expr Span)} {items : List Item} :
      first.token = .sign .leftBracket → Strung isComma (es.map .expr) items →
      last.token = .sign .rightBracket →
      Form clean (.expr (.array (first.span.extend last.span) es)) []
        (.token first :: (items ++ [.token last])) first last
  | hash {first last : SpannedToken} {ps : List (Expr Span × Expr Span)} {items : List Item} :
      first.token = .sign .leftBrace →
      Strung isPairMark (ps.flatMap fun p => [.expr p.1, .expr p.2]) items →
      last.token = .sign .rightBrace →
      Form clean (.expr (.hash (first.span.extend last.span) ps)) []
        (.token first :: (items ++ [.token last])) first last
  | function {first last : SpannedToken} {ps : List (Identifier Span)} {b : Block Span} :
      Form clean (.expr (.function (first.span.extend last.span) ps b
          (first.span.extend last.span))) []
        [.node (.function ps b (first.span.extend last.span)) []] first last
  | parameters {first opening closing last : SpannedToken} {ps : List (Identifier Span)}
      {b : Block Span} {items : List Item} : first.token = .keyword .functionWord →
      opening.token = .sign .leftParen → Strung isComma (ps.map .name) items →
      closing.token = .sign .rightParen →
      Form clean (.function ps b (first.span.extend last.span)) []
        (.token first :: .token opening :: (items ++ [.token closing, .block b])) first last
  | unary {first last : SpannedToken} {op : PrefixOperator} {e : Expr Span} :
      PrefixOperator.ofToken? first.token = some op →
      Form clean (.expr (.unary (first.span.extend last.span) op e)) []
        [.token first, .expr e] first last
  | typeof {first last : SpannedToken} {e : Expr Span} : first.token = .keyword .typeofWord →
      Form clean (.expr (.typeof (first.span.extend last.span) e)) []
        [.token first, .expr e] first last
  | binary {first sign last : SpannedToken} {op : InfixOperator} {l r : Expr Span} :
      Continuation.ofToken? sign.token = some (.operate op) →
      Form clean (.expr (.binary (l.mark.extend last.span) op l r)) []
        [.expr l, .token sign, .expr r] first last
  | step {first last : SpannedToken} {op : PostfixOperator} {e : Expr Span} :
      Continuation.ofToken? last.token = some (.step op) →
      Form clean (.expr (.step (e.mark.extend last.span) op e)) []
        [.expr e, .token last] first last
  | assign {first sign last : SpannedToken} {op : AssignOperator} {l r : Expr Span} :
      Continuation.ofToken? sign.token = some (.assign op) → l.isAssignable →
      Form clean (.expr (.assign (l.mark.extend last.span) op l r)) []
        [.expr l, .token sign, .expr r] first last
  | conditional {first last : SpannedToken} {c : Expr Span} {yes : Block Span} :
      first.token = .keyword .ifWord →
      Form clean (.expr (.conditional (first.span.extend last.span) c yes none)) []
        [.token first, .expr c, .block yes] first last
  | alternative {first word last : SpannedToken} {c : Expr Span} {yes no : Block Span} :
      first.token = .keyword .ifWord → word.token = .keyword .elseWord →
      Form clean (.expr (.conditional (first.span.extend last.span) c yes (some no))) []
        [.token first, .expr c, .block yes, .token word, .block no] first last
  | whileLoop {first last : SpannedToken} {c : Expr Span} {b : Block Span} :
      first.token = .keyword .whileWord →
      Form clean (.expr (.whileLoop (first.span.extend last.span) c b)) []
        [.token first, .expr c, .block b] first last
  | endless {first last : SpannedToken} {b : Block Span} : first.token = .keyword .forWord →
      Form clean (.expr (.forLoop (first.span.extend last.span) none none none b)) []
        [.token first, .block b] first last
  | forLoop {first opening semicolon₁ semicolon₂ closing last : SpannedToken}
      {i : Option (Stmt Span)} {c u : Option (Expr Span)} {b : Block Span} :
      first.token = .keyword .forWord → opening.token = .sign .leftParen →
      semicolon₁.token = .sign .semicolon → semicolon₂.token = .sign .semicolon →
      closing.token = .sign .rightParen → (∀ s ∈ i, s.isClause) →
      Form clean (.expr (.forLoop (first.span.extend last.span) i c u b)) []
        (.token first :: .token opening :: (i.toList.map .stmt ++ .token semicolon₁ ::
          (c.toList.map .expr ++ .token semicolon₂ ::
            (u.toList.map .expr ++ [.token closing, .block b])))) first last
  | call {first opening last : SpannedToken} {c : Expr Span} {es : List (Expr Span)}
      {items : List Item} : opening.token = .sign .leftParen →
      Strung isComma (es.map .expr) items → last.token = .sign .rightParen →
      Form clean (.expr (.call (c.mark.extend last.span) c es)) []
        (.expr c :: .token opening :: (items ++ [.token last])) first last
  | method {first dot last : SpannedToken} {o c : Expr Span} : dot.token = .sign .dot →
      c.isMember →
      Form clean (.expr (.method (o.mark.extend last.span) o c)) []
        [.expr o, .token dot, .expr c] first last
  | index {first opening last : SpannedToken} {c k : Expr Span} :
      opening.token = .sign .leftBracket → last.token = .sign .rightBracket →
      Form clean (.expr (.index (c.mark.extend last.span) c k)) []
        [.expr c, .token opening, .expr k, .token last] first last
  /-- The key is a slice without a lower bound, which takes the opening bracket up. -/
  | indexFromStart {first last : SpannedToken} {c k : Expr Span} :
      last.token = .sign .rightBracket →
      Form clean (.expr (.index (c.mark.extend last.span) c k)) []
        [.expr c, .node (.expr k) [.leftBracket], .token last] first last
  | fromStart {first : SpannedToken} : first.token = .sign .leftBracket →
      Form clean (.expr (.literal first.span (.integer 0))) [.leftBracket]
        [.token first] first first
  | slice {first colon last : SpannedToken} {opened : List Sign} {l : Expr Span}
      {h : Option (Expr Span)} : colon.token = .sign .colon →
      Form clean (.expr (.slice (l.mark.extend last.span) l h)) opened
        (.node (.expr l) opened :: .token colon :: h.toList.map .expr) first last
  | letBinding {first sign last : SpannedToken} {i : Identifier Span} {v : Expr Span} :
      first.token = .keyword .letWord → sign.token = .sign .equals →
      Form clean (.stmt (.letBinding (first.span.extend last.span) i v)) []
        [.token first, .name i, .token sign, .expr v] first last
  | deletion {first last : SpannedToken} {e : Expr Span} : first.token = .keyword .deleteWord →
      Form clean (.stmt (.deletion (first.span.extend last.span) e)) []
        [.token first, .expr e] first last
  | returning {first last : SpannedToken} {v : Option (Expr Span)} :
      first.token = .keyword .returnWord →
      Form clean (.stmt (.returning (first.span.extend last.span) v)) []
        (.token first :: v.toList.map .expr) first last
  /-- A return without a value takes up the semicolon that follows it. -/
  | returningNothing {first last : SpannedToken} : first.token = .keyword .returnWord →
      last.token = .sign .semicolon →
      Form clean (.stmt (.returning (first.span.extend last.span) none)) []
        [.token first, .token last] first last
  | expression {first last : SpannedToken} {e : Expr Span} :
      Form clean (.stmt (.expression (first.span.extend last.span) e)) []
        [.expr e] first last
  | block {first last : SpannedToken} {ss : List (Stmt Span)} {items : List Item} :
      first.token = .sign .leftBrace → Strung (fun _ => ¬clean) (ss.map .stmt) items →
      last.token = .sign .rightBrace →
      Form clean (.block (.mk (first.span.extend last.span) ss)) []
        (.token first :: (items ++ [.token last])) first last

/-- Items that stand one after the other fill a row of tokens. An expression may stand in
parentheses, which belong to no node. -/
inductive Fills (clean : Prop) : List Item → List SpannedToken → Prop where
  | nil : Fills clean [] []
  | token {t : SpannedToken} {items : List Item} {ts : List SpannedToken} :
      Fills clean items ts → Fills clean (.token t :: items) (t :: ts)
  | node {n : Node} {opened : List Sign} {inner items : List Item}
      {first last : SpannedToken} {us ts : List SpannedToken} :
      Form clean n opened inner first last → Fills clean inner us →
      us.head? = some first → us.getLast? = some last →
      Fills clean items ts → Fills clean (.node n opened :: items) (us ++ ts)
  | grouped {opening closing : SpannedToken} {e : Expr Span} {items : List Item}
      {us ts : List SpannedToken} : opening.token = .sign .leftParen →
      Fills clean [.expr e] us → closing.token = .sign .rightParen →
      Fills clean items ts → Fills clean (.expr e :: items) (opening :: (us ++ closing :: ts))

section Forms

variable {clean clean' : Prop} {n : Node} {opened : List Sign} {items : List Item}
  {first last : SpannedToken}

/-- A form in which fewer tokens are allowed is one in which more are. -/
theorem Form.weaken (form : Form clean n opened items first last) (weaker : clean' → clean) :
    Form clean' n opened items first last := by
  cases form with
  | block brace strung closing =>
    exact .block brace (strung.mono fun _ dirty holds => dirty (weaker holds)) closing
  | _ => constructor <;> assumption

theorem children_of_atom {t : SpannedToken} {e : Expr Span} (found : atom? t = some e) :
    (Node.expr e).children = [] ∧ e.mark = t.span := by
  unfold atom? at found
  split at found
  case h_2 => obtain ⟨n, _, rfl⟩ := Option.map_eq_some_iff.mp found; exact ⟨rfl, rfl⟩
  case h_3 => obtain ⟨x, _, rfl⟩ := Option.map_eq_some_iff.mp found; exact ⟨rfl, rfl⟩
  all_goals cases found
  all_goals exact ⟨rfl, rfl⟩

/-- The nodes that a node is put together from are those right below it. -/
theorem Form.nodes_eq (form : Form clean n opened items first last) : nodes items = n.children := by
  cases form with
  | atom found => rw [(children_of_atom found).1]; rfl
  | array _ strung | hash _ strung | parameters _ _ strung | call _ strung | block _ strung =>
    simp [strung.nodes_eq, Node.children]
  | _ => simp [Node.children]

/-- A node's span reaches up to the last token, from the first one or from the span of the first
node in it. -/
theorem Form.mark_eq (form : Form clean n opened items first last) :
    ∃ start : Span, n.mark = start.extend last.span ∧
      (start = first.span ∨ ∃ m o rest, items = .node m o :: rest ∧ start = m.mark) := by
  cases form with
  | atom found =>
    refine ⟨first.span, ?_, .inl rfl⟩
    rw [Span.extend_self]
    exact (children_of_atom found).2
  | name | identifier | fromStart =>
    refine ⟨first.span, ?_, .inl rfl⟩
    rw [Span.extend_self]
    rfl
  | binary | step | assign | call | method | index | indexFromStart | slice =>
    exact ⟨_, rfl, .inr ⟨_, _, _, rfl, rfl⟩⟩
  | _ => exact ⟨_, rfl, .inl rfl⟩

end Forms

namespace Fills

variable {clean clean' : Prop} {n : Node} {items rest : List Item}
  {ts us : List SpannedToken} {t : SpannedToken}

theorem weaken (fills : Fills clean items ts) (weaker : clean' → clean) :
    Fills clean' items ts := by
  induction fills with
  | nil => exact .nil
  | token _ ih => exact .token ih
  | node form _ head final _ inner ih => exact .node (form.weaken weaker) inner head final ih
  | grouped opening _ closing _ inner ih => exact .grouped opening inner closing ih

theorem append (front : Fills clean items ts) (back : Fills clean rest us) :
    Fills clean (items ++ rest) (ts ++ us) := by
  induction front with
  | nil => exact back
  | token _ ih => exact .token ih
  | node form inner head final _ _ ih =>
    rw [List.append_assoc]
    exact .node form inner head final ih
  | grouped opening inner closing _ _ ih =>
    simpa only [List.cons_append, List.append_assoc] using Fills.grouped opening inner closing ih

theorem of_tokens (ts : List SpannedToken) : Fills clean (ts.map .token) ts := by
  induction ts with
  | nil => exact .nil
  | cons t ts ih => exact .token ih

theorem of_token_cons (fills : Fills clean (.token t :: items) ts) :
    ∃ us, ts = t :: us ∧ Fills clean items us := by
  cases fills with
  | token rest => exact ⟨_, rfl, rest⟩

/-- Items in two parts fill the tokens in two parts. -/
theorem split (fills : Fills clean (items ++ rest) ts) :
    ∃ us vs, ts = us ++ vs ∧ Fills clean items us ∧ Fills clean rest vs := by
  -- The induction is on the items in front: how they are filled is only looked at one by one.
  induction items generalizing ts with
  | nil => exact ⟨[], ts, rfl, .nil, fills⟩
  | cons item items ih =>
    cases fills with
    | token back =>
      obtain ⟨us, vs, rfl, front, back⟩ := ih back
      exact ⟨_, vs, rfl, .token front, back⟩
    | @node _ _ _ _ _ _ ws _ form inner head final back =>
      obtain ⟨us, vs, rfl, front, back⟩ := ih back
      exact ⟨ws ++ us, vs, (List.append_assoc _ _ _).symm, .node form inner head final front, back⟩
    | @grouped opening closing _ _ ws _ paren inner close back =>
      obtain ⟨us, vs, rfl, front, back⟩ := ih back
      refine ⟨opening :: (ws ++ closing :: us), vs, ?_, .grouped paren inner close front, back⟩
      simp

/-- What a form passes on from the nodes in it to the node, each with its tokens, holds of every
node in a row with some of the tokens there. -/
theorem each (property : Node → List SpannedToken → Prop)
    (step : ∀ {n opened items first last us}, Form clean n opened items first last →
      Fills clean items us → us.head? = some first → us.getLast? = some last →
      (∀ m ∈ nodes items, ∃ vs, vs <:+: us ∧ property m vs) → property n us)
    (fills : Fills clean items ts) (member : n ∈ nodes items) :
    ∃ us, us <:+: ts ∧ property n us := by
  induction fills generalizing n with
  | nil => cases member
  | @token t _ _ _ ih =>
    obtain ⟨us, inside, found⟩ := ih member
    exact ⟨us, inside.trans (List.suffix_cons t _).isInfix, found⟩
  | @node _ _ _ _ _ _ us ts form inner head final _ ihInner ih =>
    rcases List.mem_cons.mp member with rfl | member
    · exact ⟨us, (List.prefix_append us ts).isInfix, step form inner head final @ihInner⟩
    · obtain ⟨vs, inside, found⟩ := ih member
      exact ⟨vs, inside.trans (List.suffix_append us ts).isInfix, found⟩
  | @grouped opening closing _ _ us ts _ _ _ _ ihInner ih =>
    rcases List.mem_cons.mp member with rfl | member
    · obtain ⟨vs, inside, found⟩ := ihInner List.mem_cons_self
      exact ⟨vs, inside.trans ⟨[opening], closing :: ts, rfl⟩, found⟩
    · obtain ⟨vs, inside, found⟩ := ih member
      exact ⟨vs, inside.trans ⟨opening :: (us ++ [closing]), [], by simp⟩, found⟩

end Fills

/-- The tokens are all that a node takes up, put together in one of the forms. -/
def Occupies (clean : Prop) (n : Node) (ts : List SpannedToken) : Prop :=
  ∃ opened items first last, Form clean n opened items first last ∧ Fills clean items ts ∧
    ts.head? = some first ∧ ts.getLast? = some last

section Occupies

variable {clean : Prop} {n m : Node} {items : List Item} {ts : List SpannedToken}

/-- Every node in a row has its tokens there. -/
theorem Fills.occupies (fills : Fills clean items ts) (member : n ∈ nodes items) :
    ∃ us, us <:+: ts ∧ Occupies clean n us := by
  refine fills.each (Occupies clean) ?_ member
  intro n opened items first last us form inner head final _
  exact ⟨opened, items, first, last, form, inner, head, final⟩

theorem Occupies.child (occupied : Occupies clean n ts) (member : m ∈ n.children) :
    ∃ us, us <:+: ts ∧ Occupies clean m us := by
  obtain ⟨_, _, _, _, form, fills, _, _⟩ := occupied
  exact fills.occupies (form.nodes_eq ▸ member)

/-- So has every node below one that has. -/
theorem Occupies.below (occupied : Occupies clean n ts) (below : n.Below m) :
    ∃ us, us <:+: ts ∧ Occupies clean m us := by
  induction below with
  | refl => exact ⟨ts, List.infix_refl ts, occupied⟩
  | tail _ member ih =>
    obtain ⟨us, inside, found⟩ := ih
    obtain ⟨vs, deeper, occupied⟩ := found.child member
    exact ⟨vs, deeper.trans inside, occupied⟩

end Occupies

end Parsed

/-- The node is one of the program's. -/
def Program.Holds (p : Program Span) (n : Parsed.Node) : Prop :=
  ∃ s ∈ p.stmts, (Parsed.Node.stmt s).Below n

end Scripting
