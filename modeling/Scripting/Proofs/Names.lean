import Scripting.Expr

/-!
# Names that code binds and names that it mentions

A new binding goes to the frame in which code is evaluated. Functions and loops have frames of their
own, so `Expr.binds` looks for new bindings outside of them. `Expr.mentions` are the names that are
looked up while the code is evaluated, or later while a function of it is called. `Usage.Covers`
says that code keeps to what is allowed of both.
-/

namespace Scripting

variable {α : Type}

mutual

/-- The names that an expression binds in the frame in which it is evaluated. -/
def Expr.binds : Expr α → List String
  | .missing _ | .identifier _ _ | .literal _ _ | .function _ _ _ _ | .whileLoop _ _ _
  | .forLoop _ _ _ _ _ | .breakLoop _ | .continueLoop _ => []
  | .array _ es => Expr.bindsList es
  | .hash _ ps => Expr.bindsPairs ps
  | .unary _ _ e | .step _ _ e | .typeof _ e => e.binds
  | .binary _ _ e f | .assign _ _ e f | .index _ e f => e.binds ++ f.binds
  | .conditional _ c yes no => c.binds ++ (yes.binds ++ Block.bindsOption no)
  | .call _ c es => c.binds ++ Expr.bindsList es
  | .method _ o (.call _ _ es) => o.binds ++ Expr.bindsList es
  | .method _ o _ => o.binds
  | .slice _ low high => low.binds ++ Expr.bindsOption high

/-- The names that the expressions bind. -/
def Expr.bindsList : List (Expr α) → List String
  | [] => []
  | e :: es => e.binds ++ Expr.bindsList es

/-- The names that the pairs of a hash bind. -/
def Expr.bindsPairs : List (Expr α × Expr α) → List String
  | [] => []
  | (k, e) :: ps => k.binds ++ (e.binds ++ Expr.bindsPairs ps)

/-- The names that the expression binds, if there is one. -/
def Expr.bindsOption : Option (Expr α) → List String
  | none => []
  | some e => e.binds

/-- The names that a statement binds in the frame in which it is evaluated. -/
def Stmt.binds : Stmt α → List String
  | .letBinding _ i e => i.name :: e.binds
  | .deletion _ e | .expression _ e => e.binds
  | .returning _ e => Expr.bindsOption e

/-- The names that the statements bind. -/
def Stmt.bindsList : List (Stmt α) → List String
  | [] => []
  | s :: ss => s.binds ++ Stmt.bindsList ss

/-- The names that a block binds in the frame in which it is evaluated. -/
def Block.binds : Block α → List String
  | .mk _ ss => Stmt.bindsList ss

/-- The names that the block binds, if there is one. -/
def Block.bindsOption : Option (Block α) → List String
  | none => []
  | some b => b.binds

end

mutual

/-- The names that an expression looks up, in the bodies of functions and loops as well. A bare name
as key of a hash and the name of a method stand for themselves. -/
def Expr.mentions : Expr α → List String
  | .missing _ | .literal _ _ | .breakLoop _ | .continueLoop _ => []
  | .identifier _ i => [i.name]
  | .array _ es => Expr.mentionsList es
  | .hash _ ps => Expr.mentionsPairs ps
  | .function _ _ b _ => b.mentions
  | .unary _ _ e | .step _ _ e | .typeof _ e => e.mentions
  | .binary _ _ e f | .assign _ _ e f | .index _ e f => e.mentions ++ f.mentions
  | .conditional _ c yes no => c.mentions ++ (yes.mentions ++ Block.mentionsOption no)
  | .whileLoop _ c b => c.mentions ++ b.mentions
  | .forLoop _ s c u b => Stmt.mentionsOption s ++ (Expr.mentionsOption c ++
      (Expr.mentionsOption u ++ b.mentions))
  | .call _ c es => c.mentions ++ Expr.mentionsList es
  | .method _ o (.call _ _ es) => o.mentions ++ Expr.mentionsList es
  | .method _ o _ => o.mentions
  | .slice _ low high => low.mentions ++ Expr.mentionsOption high

/-- The names that the expressions look up. -/
def Expr.mentionsList : List (Expr α) → List String
  | [] => []
  | e :: es => e.mentions ++ Expr.mentionsList es

/-- The names that the pairs of a hash look up. -/
def Expr.mentionsPairs : List (Expr α × Expr α) → List String
  | [] => []
  | (.identifier _ _, e) :: ps => e.mentions ++ Expr.mentionsPairs ps
  | (k, e) :: ps => k.mentions ++ (e.mentions ++ Expr.mentionsPairs ps)

/-- The names that the expression looks up, if there is one. -/
def Expr.mentionsOption : Option (Expr α) → List String
  | none => []
  | some e => e.mentions

/-- The names that a statement looks up, in the bodies of functions and loops as well. -/
def Stmt.mentions : Stmt α → List String
  | .letBinding _ _ e | .deletion _ e | .expression _ e => e.mentions
  | .returning _ e => Expr.mentionsOption e

/-- The names that the statements look up. -/
def Stmt.mentionsList : List (Stmt α) → List String
  | [] => []
  | s :: ss => s.mentions ++ Stmt.mentionsList ss

/-- The names that the statement looks up, if there is one. -/
def Stmt.mentionsOption : Option (Stmt α) → List String
  | none => []
  | some s => s.mentions

/-- The names that a block looks up, in the bodies of functions and loops as well. -/
def Block.mentions : Block α → List String
  | .mk _ ss => Stmt.mentionsList ss

/-- The names that the block looks up, if there is one. -/
def Block.mentionsOption : Option (Block α) → List String
  | none => []
  | some b => b.mentions

end

/-- Which names code may bind in the frame in which it is evaluated, and which it may mention. -/
structure Usage where
  binds : String → Prop
  mentions : String → Prop

namespace Usage

variable (u : Usage) {bs ms bs' ms' : List String}

/-- Code that binds and mentions these names may do so. -/
def Covers (bs ms : List String) : Prop := (∀ n ∈ bs, u.binds n) ∧ ∀ n ∈ ms, u.mentions n

/-- In a new frame every name may be bound. -/
def inside : Usage := ⟨fun _ => True, u.mentions⟩

variable {u}

theorem covers_append :
    u.Covers (bs ++ bs') (ms ++ ms') ↔ u.Covers bs ms ∧ u.Covers bs' ms' := by
  simp only [Covers, List.mem_append, or_imp, forall_and]
  constructor
  · rintro ⟨⟨b, b'⟩, m, m'⟩
    exact ⟨⟨b, m⟩, b', m'⟩
  · rintro ⟨⟨b, m⟩, b', m'⟩
    exact ⟨⟨b, b'⟩, m, m'⟩

theorem covers_inside : u.inside.Covers bs ms ↔ ∀ n ∈ ms, u.mentions n := by
  simp [Covers, inside]

theorem Covers.inside (covers : u.Covers bs ms) : u.inside.Covers bs' ms :=
  covers_inside.mpr covers.2

end Usage

end Scripting
