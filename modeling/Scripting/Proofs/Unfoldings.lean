import Mathlib.Logic.ExistsUnique
import Scripting.Value.Printer

/-!
# What the text of a value shows

Following elements, names and values from a collection to what it holds unfolds a value to a tree,
which goes on forever if a collection holds itself. The text of a value is that of the tree, cut off
at a level. Collections above it show what they hold, and those on it are leaves that show their
kind. What stands where in this tree is said by paths, without the rendering, in
`Tree.UnfoldsWithin`. One tree satisfies this, `Heap.cutTree`, and its text is that of the value.
-/

namespace Scripting

namespace Unfolding

/-- One step from a collection to what it holds: to an element of an array, or to the name or the
value of an entry of a hash. -/
inductive Step where
  | element (i : Nat)
  | name (i : Nat)
  | value (i : Nat)
deriving DecidableEq

/-- A finite tree of texts, arrays and hashes. -/
inductive Tree where
  | leaf (text : String)
  | array (elements : List Tree)
  | hash (pairs : List (Tree × Tree))

/-- What a node is, apart from what stands below it. -/
inductive Shape where
  | leaf (text : String)
  | array (size : Nat)
  | hash (size : Nat)

/-- The text of a node that is a leaf, or is made one. -/
def Shape.cutText : Shape → String
  | leaf text => text
  | array _ => "ARRAY..."
  | hash _ => "HASH..."

namespace Tree

mutual

/-- The text of a tree. -/
def render : Tree → String
  | .leaf text => text
  | .array ts => "[" ++ ", ".intercalate (renderList ts) ++ "]"
  | .hash ps => "\x7b" ++ ", ".intercalate (renderPairs ps) ++ "\x7d"

/-- The texts of trees. -/
def renderList : List Tree → List String
  | [] => []
  | t :: ts => t.render :: renderList ts

/-- The texts of pairs of trees. -/
def renderPairs : List (Tree × Tree) → List String
  | [] => []
  | (t, u) :: ps => (t.render ++ ":" ++ u.render) :: renderPairs ps

end

theorem renderList_eq (ts : List Tree) : renderList ts = ts.map render := by
  induction ts with
  | nil => rfl
  | cons t ts ih => rw [renderList, ih, List.map_cons]

theorem renderPairs_eq (ps : List (Tree × Tree)) :
    renderPairs ps = ps.map fun p => p.1.render ++ ":" ++ p.2.render := by
  induction ps with
  | nil => rfl
  | cons p ps ih => rw [renderPairs, ih, List.map_cons]

/-- What the root of a tree is. -/
def shape : Tree → Shape
  | leaf text => .leaf text
  | array ts => .array ts.length
  | hash ps => .hash ps.length

/-- The tree one step below a tree. -/
def child? : Tree → Step → Option Tree
  | array ts, .element i => ts[i]?
  | hash ps, .name i => ps[i]?.map (·.1)
  | hash ps, .value i => ps[i]?.map (·.2)
  | _, _ => none

/-- The tree at the end of a path. -/
def at? (t : Tree) : List Step → Option Tree
  | [] => some t
  | step :: path => (t.child? step).bind (·.at? path)

/-- What stands at the end of a path. -/
def shapeAt? (t : Tree) (path : List Step) : Option Shape := (t.at? path).map shape

variable {t u : Tree} {step : Step}

theorem shapeAt?_cons (path : List Step) :
    t.shapeAt? (step :: path) = (t.child? step).bind (·.shapeAt? path) :=
  Option.map_bind

theorem eq_of_children (shapes : t.shape = u.shape)
    (children : ∀ step, t.child? step = u.child? step) : t = u := by
  cases t with
  | leaf text =>
    cases u with
    | leaf => injection shapes with texts; rw [texts]
    | array => cases shapes
    | hash => cases shapes
  | array ts =>
    cases u with
    | leaf => cases shapes
    | array us => exact congrArg array (List.ext_getElem? fun i => children (.element i))
    | hash => cases shapes
  | hash ps =>
    cases u with
    | leaf => cases shapes
    | array => cases shapes
    | hash qs =>
      refine congrArg hash (List.ext_getElem? fun i => ?_)
      have names : ps[i]?.map (·.1) = qs[i]?.map (·.1) := children (.name i)
      have values : ps[i]?.map (·.2) = qs[i]?.map (·.2) := children (.value i)
      cases left : ps[i]? <;> cases right : qs[i]? <;> simp_all [Prod.ext_iff]

theorem sizeOf_child?_lt (found : t.child? step = some u) : sizeOf u < sizeOf t := by
  cases t with
  | leaf => cases found
  | array ts =>
    cases step with
    | element i =>
      have smaller := List.sizeOf_lt_of_mem (List.mem_of_getElem? found)
      rw [array.sizeOf_spec]
      omega
    | name => cases found
    | value => cases found
  | hash ps =>
    have entry {p : Tree × Tree} {i : Nat} (atIndex : ps[i]? = some p) :
        sizeOf p.1 < sizeOf (hash ps) ∧ sizeOf p.2 < sizeOf (hash ps) := by
      have smaller := List.sizeOf_lt_of_mem (List.mem_of_getElem? atIndex)
      rw [Prod.mk.sizeOf_spec] at smaller
      rw [hash.sizeOf_spec]
      omega
    cases step with
    | element => cases found
    | name i =>
      obtain ⟨p, atIndex, rfl⟩ := Option.map_eq_some_iff.mp found
      exact (entry atIndex).1
    | value i =>
      obtain ⟨p, atIndex, rfl⟩ := Option.map_eq_some_iff.mp found
      exact (entry atIndex).2

/-- A tree is what stands at the ends of its paths. -/
theorem eq_of_shapes {t u : Tree} (shapes : ∀ path, t.shapeAt? path = u.shapeAt? path) : t = u := by
  refine eq_of_children (Option.some.inj (shapes [])) fun step => ?_
  have below (path : List Step) :
      (t.child? step).bind (·.shapeAt? path) = (u.child? step).bind (·.shapeAt? path) := by
    rw [← shapeAt?_cons, ← shapeAt?_cons, shapes]
  cases left : t.child? step with
  | none =>
    cases right : u.child? step with
    | none => rfl
    | some y =>
      have := below []
      rw [left, right] at this
      cases this
  | some x =>
    cases right : u.child? step with
    | none =>
      have := below []
      rw [left, right] at this
      cases this
    | some y =>
      rw [left, right] at below
      have smaller : sizeOf x < sizeOf t := sizeOf_child?_lt left
      exact congrArg some (eq_of_shapes below)
termination_by sizeOf t

end Tree

end Unfolding

open Unfolding

namespace Heap

/-- What a value shows by itself: its text, or how many things it holds. -/
def shape (h : Heap) : Value → Shape
  | .integer n => .leaf (integerText n)
  | .float x => .leaf (Decimal.floatText x)
  | .boolean b => .leaf (booleanText b)
  | .null => .leaf "null"
  | .text s => .leaf s
  | .array a => .array (h.arrays.elements a).length
  | .hash id => .hash (h.table id).pairs.length
  | .function id => .leaf (h.closure id).render
  | .builtin _ => .leaf "[builtin]"
  | .error message => .leaf ("Error: " ++ message)

/-- What a collection holds one step below it. -/
def child? (h : Heap) : Value → Step → Option Value
  | .array a, .element i => (h.arrays.elements a)[i]?
  | .hash id, .name i => (h.table id).pairs[i]?.map (·.1)
  | .hash id, .value i => (h.table id).pairs[i]?.map (·.2)
  | _, _ => none

/-- The value at the end of a path. A path may come through one collection again and again. -/
def follow (h : Heap) (v : Value) : List Step → Option Value
  | [] => some v
  | step :: path => (h.child? v step).bind (h.follow · path)

/-- What stands at the end of a path of the unfolding that is cut off at a level. -/
def shapeWithin (h : Heap) (level : Nat) (v : Value) (path : List Step) : Option Shape :=
  (h.follow v path).bind fun w =>
    if path.length < level then some (h.shape w)
    else if path.length = level then some (.leaf (h.shape w).cutText)
    else none

/-- The unfolding of a value, cut off at a level. -/
def cutTree (h : Heap) : Nat → Value → Tree
  | level + 1, .array a => .array ((h.arrays.elements a).map (h.cutTree level))
  | level + 1, .hash id =>
    .hash ((h.table id).pairs.map fun p => (h.cutTree level p.1, h.cutTree level p.2))
  | _, v => .leaf (h.shape v).cutText

end Heap

namespace Unfolding.Tree

/-- The tree is all of the unfolding of a value. -/
def Unfolds (t : Tree) (h : Heap) (v : Value) : Prop :=
  ∀ path, t.shapeAt? path = (h.follow v path).map h.shape

/-- The tree is the unfolding of a value, cut off at a level. Above the level stands what can be
followed to from the value. On it stand leaves, which for a collection show its kind only, and
nothing stands below them. -/
def UnfoldsWithin (t : Tree) (h : Heap) (level : Nat) (v : Value) : Prop :=
  ∀ path, t.shapeAt? path = h.shapeWithin level v path

end Unfolding.Tree

namespace Heap

/-- What collections hold is the same in two heaps for one value. -/
def SameContents (h k : Heap) : Value → Prop
  | .array a => k.arrays.elements a = h.arrays.elements a
  | .hash id => (k.table id).pairs = (h.table id).pairs
  | _ => True

/-- No value that is followed to by as many steps as the level says is an array or a hash. -/
def NoCollectionAt (h : Heap) (level : Nat) (v : Value) : Prop :=
  ∀ path w, path.length = level → h.follow v path = some w →
    (∀ a, w ≠ .array a) ∧ ∀ id, w ≠ .hash id

variable {h k : Heap} {level : Nat} {v : Value} {path : List Step} {t u : Tree}

/-! ### The unfolding that is cut off -/

@[simp] theorem shapeWithin_zero_nil :
    h.shapeWithin 0 v [] = some (.leaf (h.shape v).cutText) := rfl

@[simp] theorem shapeWithin_succ_nil : h.shapeWithin (level + 1) v [] = some (h.shape v) := rfl

@[simp] theorem shapeWithin_zero_cons (step : Step) : h.shapeWithin 0 v (step :: path) = none := by
  simp [shapeWithin]

theorem shapeWithin_succ_cons (step : Step) : h.shapeWithin (level + 1) v (step :: path) =
    (h.child? v step).bind (h.shapeWithin level · path) := by
  simp only [shapeWithin, follow, Option.bind_assoc, List.length_cons, Nat.add_lt_add_iff_right,
    Nat.add_right_cancel_iff]

theorem shape_cutTree_succ (h : Heap) (level : Nat) (v : Value) :
    (h.cutTree (level + 1) v).shape = h.shape v := by
  cases v with
  | array a => exact congrArg Shape.array (List.length_map _)
  | hash id => exact congrArg Shape.hash (List.length_map _)
  | _ => rfl

theorem child?_cutTree_succ (h : Heap) (level : Nat) (v : Value) (step : Step) :
    (h.cutTree (level + 1) v).child? step = (h.child? v step).map (h.cutTree level) := by
  cases v with
  | array a => cases step <;> simp [cutTree, Tree.child?, child?]
  | hash id => cases step <;> simp [cutTree, Tree.child?, child?, Function.comp_def]
  | _ => rfl

theorem unfoldsWithin_cutTree (h : Heap) (level : Nat) (v : Value) :
    (h.cutTree level v).UnfoldsWithin h level v := by
  intro path
  induction path generalizing level v with
  | nil =>
    cases level with
    | zero => rfl
    | succ level => exact congrArg some (shape_cutTree_succ h level v)
  | cons step path ih =>
    rw [Tree.shapeAt?_cons]
    cases level with
    | zero => rw [shapeWithin_zero_cons]; rfl
    | succ level =>
      rw [child?_cutTree_succ, shapeWithin_succ_cons, Option.bind_map]
      exact congrArg _ (funext fun w => ih level w)

/-- The text of a value is that of the cut off unfolding. -/
theorem render_cutTree (h : Heap) (level : Nat) (v : Value) :
    (h.cutTree level v).render = h.renderWithin level v := by
  induction level generalizing v with
  | zero => cases v <;> rfl
  | succ level ih =>
    cases v with
    | array a =>
      rw [cutTree, Tree.render, Tree.renderList_eq, List.map_map, renderWithin]
      simp only [Function.comp_def, ih]
    | hash id =>
      rw [cutTree, Tree.render, Tree.renderPairs_eq, List.map_map, renderWithin]
      simp only [Function.comp_def, ih]
    | _ => rfl

theorem existsUnique_unfoldsWithin (h : Heap) (level : Nat) (v : Value) :
    ∃! t : Tree, t.UnfoldsWithin h level v := by
  refine ⟨h.cutTree level v, unfoldsWithin_cutTree h level v, fun t unfolds => ?_⟩
  exact Tree.eq_of_shapes fun path =>
    (unfolds path).trans (unfoldsWithin_cutTree h level v path).symm

theorem renderWithin_of_unfoldsWithin (unfolds : t.UnfoldsWithin h level v) :
    h.renderWithin level v = t.render := by
  have same : t = h.cutTree level v :=
    (existsUnique_unfoldsWithin h level v).unique unfolds (unfoldsWithin_cutTree h level v)
  rw [same, render_cutTree]

/-! ### Unfoldings that end above the level -/

theorem follow_append (h : Heap) (v : Value) (p q : List Step) :
    h.follow v (p ++ q) = (h.follow v p).bind (h.follow · q) := by
  induction p generalizing v with
  | nil => rfl
  | cons step p ih => simp only [List.cons_append, follow, ih, Option.bind_assoc]

/-- What is followed to by more steps than the level says is below a collection on the level. -/
theorem NoCollectionAt.length_le (noneThere : h.NoCollectionAt level v) {w : Value}
    (found : h.follow v path = some w) : path.length ≤ level := by
  refine Nat.le_of_not_lt fun longer => ?_
  rw [← List.take_append_drop level path, follow_append] at found
  obtain ⟨x, reached, rest⟩ := Option.bind_eq_some_iff.mp found
  have below : 0 < (path.drop level).length := by rw [List.length_drop]; omega
  obtain ⟨step, q, split⟩ := List.exists_cons_of_length_pos below
  obtain ⟨notArray, notHash⟩ :=
    noneThere _ x (by rw [List.length_take]; omega) reached
  rw [split, follow] at rest
  cases x with
  | array a => exact notArray a rfl
  | hash id => exact notHash id rfl
  | _ => cases rest

theorem NoCollectionAt.shapeWithin_eq (noneThere : h.NoCollectionAt level v)
    (path : List Step) : h.shapeWithin level v path = (h.follow v path).map h.shape := by
  rw [shapeWithin]
  cases found : h.follow v path with
  | none => rfl
  | some w =>
    rw [Option.bind_some, Option.map_some]
    obtain above | onLevel := Nat.lt_or_eq_of_le (noneThere.length_le found)
    · rw [if_pos above]
    · obtain ⟨notArray, notHash⟩ := noneThere path w onLevel found
      rw [if_neg (by omega), if_pos onLevel]
      cases w with
      | array a => exact absurd rfl (notArray a)
      | hash id => exact absurd rfl (notHash id)
      | _ => rfl

theorem NoCollectionAt.unfoldsWithin_iff (noneThere : h.NoCollectionAt level v) :
    t.UnfoldsWithin h level v ↔ t.Unfolds h v :=
  forall_congr' fun path => by rw [noneThere.shapeWithin_eq]

/-! ### What the text does not depend on -/

theorem child?_congr (same : h.SameContents k v) (step : Step) :
    k.child? v step = h.child? v step := by
  cases v with
  | array a =>
    have elements : k.arrays.elements a = h.arrays.elements a := same
    cases step <;> simp only [child?, elements]
  | hash id =>
    have pairs : (k.table id).pairs = (h.table id).pairs := same
    cases step <;> simp only [child?, pairs]
  | _ => rfl

section

variable (functions : ∀ id, (k.closure id).render = (h.closure id).render)
include functions

theorem shape_congr (same : h.SameContents k v) : k.shape v = h.shape v := by
  cases v with
  | array a => exact congrArg (Shape.array ·.length) same
  | hash id => exact congrArg (Shape.hash ·.length) same
  | function id => exact congrArg Shape.leaf (functions id)
  | _ => rfl

theorem cutText_shape_congr (v : Value) : (k.shape v).cutText = (h.shape v).cutText := by
  cases v with
  | function id => exact functions id
  | _ => rfl

/-- Only what collections above the level hold has to be the same. -/
theorem shapeWithin_congr
    (same : ∀ path w, path.length < level → h.follow v path = some w → h.SameContents k w)
    (path : List Step) : k.shapeWithin level v path = h.shapeWithin level v path := by
  induction path generalizing level v with
  | nil =>
    cases level with
    | zero => rw [shapeWithin_zero_nil, shapeWithin_zero_nil, cutText_shape_congr functions]
    | succ level =>
      have top : h.SameContents k v := same [] v (Nat.succ_pos level) rfl
      rw [shapeWithin_succ_nil, shapeWithin_succ_nil, shape_congr functions top]
  | cons step path ih =>
    cases level with
    | zero => rw [shapeWithin_zero_cons, shapeWithin_zero_cons]
    | succ level =>
      have top : h.SameContents k v := same [] v (Nat.succ_pos level) rfl
      rw [shapeWithin_succ_cons, shapeWithin_succ_cons, child?_congr top]
      cases held : h.child? v step with
      | none => rfl
      | some x =>
        refine ih fun q w shorter found => same (step :: q) w (Nat.succ_lt_succ shorter) ?_
        rw [follow, held]
        exact found

theorem renderWithin_congr
    (same : ∀ path w, path.length < level → h.follow v path = some w → h.SameContents k w) :
    k.renderWithin level v = h.renderWithin level v := by
  have unfolds : (h.cutTree level v).UnfoldsWithin k level v := fun path =>
    (unfoldsWithin_cutTree h level v path).trans (shapeWithin_congr functions same path).symm
  rw [renderWithin_of_unfoldsWithin unfolds, render_cutTree]

end

/-- The text of a value at a depth is exact down to a level, also when collections hold
themselves. One tree is the unfolding of the value, cut off at the level that is left, and the text
is that of this tree. What the collections on the level and below it hold has no influence on the
text. If there are none on the level, then one tree is all of the unfolding, and the text is that of
this tree. -/
theorem text_is_cut_off_unfolding (h : Heap) (v : Value) (depth : Nat) :
    (∃! t : Tree, t.UnfoldsWithin h (10 - depth) v) ∧
      (∀ t : Tree, t.UnfoldsWithin h (10 - depth) v → h.renderAt depth v = t.render) ∧
      (∀ k : Heap, (∀ id, (k.closure id).render = (h.closure id).render) →
        (∀ path w, path.length < 10 - depth → h.follow v path = some w → h.SameContents k w) →
        k.renderAt depth v = h.renderAt depth v) ∧
      (h.NoCollectionAt (10 - depth) v →
        (∃! t : Tree, t.Unfolds h v) ∧
          ∀ t : Tree, t.Unfolds h v → h.renderAt depth v = t.render) := by
  have text (t : Tree) (unfolds : t.UnfoldsWithin h (10 - depth) v) :
      h.renderAt depth v = t.render := renderWithin_of_unfoldsWithin unfolds
  have one := existsUnique_unfoldsWithin h (10 - depth) v
  refine ⟨one, text, fun k functions same => renderWithin_congr functions same, fun noneThere => ?_⟩
  simp only [noneThere.unfoldsWithin_iff] at one text
  exact ⟨one, text⟩

/-- An array that is its only element has a text. -/
example : let (a, h) := Heap.empty.newArray #[.null]
    (h.perform (.element 0 0 a)).render a = "[[[[[[[[[[ARRAY...]]]]]]]]]]" := by
  decide

end Heap

end Scripting
