import Scripting.Proofs.TreeForms

/-!
# What code assigns to

`Expr.targets` are the left sides of all assignments in an expression, those in the bodies of
functions and loops among them. Each of them stands in an assignment somewhere below the expression:
it is the expression itself, or stands in a node right below, which is smaller.
-/

namespace Scripting

variable {α : Type}

mutual

/-- What is assigned to in an expression, in the bodies of functions and loops as well. -/
def Expr.targets : Expr α → List (Expr α)
  | .missing _ | .identifier _ _ | .literal _ _ | .breakLoop _ | .continueLoop _ => []
  | .array _ es => Expr.targetsList es
  | .hash _ ps => Expr.targetsPairs ps
  | .function _ _ b _ => b.targets
  | .unary _ _ e | .step _ _ e | .typeof _ e => e.targets
  | .binary _ _ e f | .method _ e f | .index _ e f => e.targets ++ f.targets
  | .assign _ _ e f => e :: (e.targets ++ f.targets)
  | .conditional _ c yes no => c.targets ++ (yes.targets ++ Block.targetsOption no)
  | .whileLoop _ c b => c.targets ++ b.targets
  | .forLoop _ s c u b => Stmt.targetsOption s ++ (Expr.targetsOption c ++
      (Expr.targetsOption u ++ b.targets))
  | .call _ c es => c.targets ++ Expr.targetsList es
  | .slice _ low high => low.targets ++ Expr.targetsOption high

/-- What is assigned to in the expressions. -/
def Expr.targetsList : List (Expr α) → List (Expr α)
  | [] => []
  | e :: es => e.targets ++ Expr.targetsList es

/-- What is assigned to in the pairs of a hash. -/
def Expr.targetsPairs : List (Expr α × Expr α) → List (Expr α)
  | [] => []
  | (k, e) :: ps => k.targets ++ (e.targets ++ Expr.targetsPairs ps)

/-- What is assigned to in the expression, if there is one. -/
def Expr.targetsOption : Option (Expr α) → List (Expr α)
  | none => []
  | some e => e.targets

/-- What is assigned to in a statement. -/
def Stmt.targets : Stmt α → List (Expr α)
  | .letBinding _ _ e | .deletion _ e | .expression _ e => e.targets
  | .returning _ e => Expr.targetsOption e

/-- What is assigned to in the statements. -/
def Stmt.targetsList : List (Stmt α) → List (Expr α)
  | [] => []
  | s :: ss => s.targets ++ Stmt.targetsList ss

/-- What is assigned to in the statement, if there is one. -/
def Stmt.targetsOption : Option (Stmt α) → List (Expr α)
  | none => []
  | some s => s.targets

/-- What is assigned to in a block. -/
def Block.targets : Block α → List (Expr α)
  | .mk _ ss => Stmt.targetsList ss

/-- What is assigned to in the block, if there is one. -/
def Block.targetsOption : Option (Block α) → List (Expr α)
  | none => []
  | some b => b.targets

end

section Rows

variable {t : Expr α}

theorem Expr.mem_targetsList {es : List (Expr α)} :
    t ∈ Expr.targetsList es ↔ ∃ e ∈ es, t ∈ e.targets := by
  induction es with
  | nil => simp [Expr.targetsList]
  | cons e es ih => simp [Expr.targetsList, ih]

theorem Expr.mem_targetsPairs_map {β : Type} {f : β → α} {ps : List (Expr β × Expr β)} :
    t ∈ Expr.targetsPairs (Expr.mapPairs f ps) ↔
      ∃ p ∈ ps, t ∈ (p.1.map f).targets ∨ t ∈ (p.2.map f).targets := by
  induction ps with
  | nil => simp [Expr.mapPairs, Expr.targetsPairs]
  | cons p ps ih =>
    obtain ⟨k, e⟩ := p
    simp only [Expr.mapPairs, Expr.targetsPairs, List.mem_append, ih, List.mem_cons,
      exists_eq_or_imp, or_assoc]

theorem Stmt.mem_targetsList {ss : List (Stmt α)} :
    t ∈ Stmt.targetsList ss ↔ ∃ s ∈ ss, t ∈ s.targets := by
  induction ss with
  | nil => simp [Stmt.targetsList]
  | cons s ss ih => simp [Stmt.targetsList, ih]

end Rows

namespace Parsed.Node

/-- What is assigned to in a node, without places. -/
def targets : Node → List (Expr Unit)
  | stmt s => s.erase.targets
  | expr e => e.erase.targets
  | block b | function _ b _ => (b.map fun _ => ()).targets
  | name _ => []

attribute [local simp] targets children Expr.erase Expr.map Expr.targets Expr.mapOption
  Expr.targetsOption Expr.mem_targetsList Block.map Block.targets Block.targetsOption Stmt.erase
  Stmt.map Stmt.targets Stmt.mapOption Stmt.targetsOption Stmt.mem_targetsList

/-- What is assigned to in an expression is assigned to by itself or in a node right below it. -/
theorem expr_targets_cases {e : Expr Span} {t : Expr Unit} (member : t ∈ (expr e).targets) :
    (∃ m op target value, e = .assign m op target value ∧ target.erase = t) ∨
      ∃ c ∈ (expr e).children, t ∈ c.targets := by
  cases e with
  | missing | identifier | literal | breakLoop | continueLoop => simp at member
  | assign m op target value =>
    rcases List.mem_cons.mp member with rfl | inside
    · exact .inl ⟨m, op, target, value, rfl, rfl⟩
    · exact .inr (by simpa using inside)
  | hash m ps =>
    obtain ⟨p, held, inside⟩ := Expr.mem_targetsPairs_map.mp member
    rcases inside with key | value
    · exact .inr ⟨.expr p.1, List.mem_flatMap.mpr ⟨p, held, by simp⟩, key⟩
    · exact .inr ⟨.expr p.2, List.mem_flatMap.mpr ⟨p, held, by simp⟩, value⟩
  | conditional m c y no => cases no <;> exact .inr (by simpa using member)
  | forLoop m i c u b =>
    cases i <;> cases c <;> cases u <;> exact .inr (by simpa using member)
  | slice m l h => cases h <;> exact .inr (by simpa using member)
  | _ => exact .inr (by simpa using member)

theorem targets_cases {n : Node} {t : Expr Unit} (member : t ∈ n.targets) :
    (∃ m op target value, n = .expr (.assign m op target value) ∧ target.erase = t) ∨
      ∃ c ∈ n.children, t ∈ c.targets := by
  cases n with
  | name i => cases member
  | function ps b x => exact .inr ⟨.block b, by simp, member⟩
  | block b =>
    cases b
    exact .inr (by simpa using member)
  | stmt s =>
    cases s with
    | returning m v =>
      cases v with
      | none => simp at member
      | some e => exact .inr (by simpa using member)
    | _ => exact .inr (by simpa using member)
  | expr e => simpa only [expr.injEq] using expr_targets_cases member

/-! ### Down to the assignment -/

theorem sizeOf_le_of_mem_map {β : Type} [SizeOf β] {f : β → Node} {xs : List β} {c : Node}
    (size : ∀ x, sizeOf (f x) = 1 + sizeOf x) (child : c ∈ xs.map f) : sizeOf c ≤ sizeOf xs := by
  obtain ⟨x, held, rfl⟩ := List.mem_map.mp child
  have smaller := List.sizeOf_lt_of_mem held
  rw [size]
  omega

theorem sizeOf_expr_child {e : Expr Span} {c : Node} (child : c ∈ (expr e).children) :
    sizeOf c < sizeOf (expr e) := by
  cases e with
  | array m es =>
    have smaller := sizeOf_le_of_mem_map (fun _ => by simp) child
    simp only [expr.sizeOf_spec, Expr.array.sizeOf_spec]
    omega
  | hash m ps =>
    obtain ⟨⟨k, v⟩, held, here⟩ := List.mem_flatMap.mp child
    have smaller := List.sizeOf_lt_of_mem held
    simp only [List.mem_cons, List.not_mem_nil, or_false] at here
    rcases here with rfl | rfl <;> simp at smaller ⊢ <;> omega
  | call m e es =>
    simp only [expr.sizeOf_spec, Expr.call.sizeOf_spec]
    rcases List.mem_cons.mp child with rfl | child
    · simp only [expr.sizeOf_spec]
      omega
    · have smaller := sizeOf_le_of_mem_map (fun _ => by simp) child
      omega
  | conditional m c y no =>
    cases no <;> simp at child ⊢ <;> grind [expr.sizeOf_spec, block.sizeOf_spec]
  | forLoop m i c u b =>
    cases i <;> cases c <;> cases u <;> simp at child ⊢ <;>
      grind [stmt.sizeOf_spec, expr.sizeOf_spec, block.sizeOf_spec]
  | slice m l h => cases h <;> simp at child ⊢ <;> grind [expr.sizeOf_spec]
  | _ =>
    simp at child ⊢ <;>
      grind [name.sizeOf_spec, expr.sizeOf_spec, block.sizeOf_spec, function.sizeOf_spec]

/-- The nodes right below a node are smaller. -/
theorem sizeOf_child {n c : Node} (child : c ∈ n.children) : sizeOf c < sizeOf n := by
  cases n with
  | name i => cases child
  | expr e => exact sizeOf_expr_child child
  | function ps b x =>
    simp only [function.sizeOf_spec]
    rcases List.mem_append.mp child with child | child
    · have smaller := sizeOf_le_of_mem_map (fun _ => by simp) child
      omega
    · have positive : 0 < sizeOf ps := by
        cases ps with
        | nil => exact Nat.one_pos
        | cons i ps =>
          simp only [List.cons.sizeOf_spec]
          omega
      rw [List.mem_singleton.mp child, block.sizeOf_spec]
      omega
  | block b =>
    obtain ⟨m, ss⟩ := b
    have smaller := sizeOf_le_of_mem_map (fun _ => by simp) child
    simp only [block.sizeOf_spec, Block.mk.sizeOf_spec]
    omega
  | stmt s =>
    cases s with
    | returning m v =>
      cases v with
      | none => cases child
      | some e =>
        simp at child ⊢
        grind [expr.sizeOf_spec]
    | _ =>
      simp at child ⊢
      grind [name.sizeOf_spec, expr.sizeOf_spec]

/-- What is assigned to in a node is assigned to in some assignment below it. -/
theorem exists_assign_of_mem_targets {n : Node} {t : Expr Unit} (member : t ∈ n.targets) :
    ∃ m op target value, n.Below (.expr (.assign m op target value)) ∧ target.erase = t := by
  rcases targets_cases member with ⟨m, op, target, value, rfl, same⟩ | ⟨c, child, inside⟩
  · exact ⟨m, op, target, value, .refl, same⟩
  · obtain ⟨m, op, target, value, below, same⟩ := exists_assign_of_mem_targets inside
    exact ⟨m, op, target, value, .head child below, same⟩
termination_by sizeOf n
decreasing_by exact sizeOf_child child

end Parsed.Node

end Scripting
