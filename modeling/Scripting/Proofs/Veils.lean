import Scripting.Proofs.Names
import Scripting.Proofs.Scopes

/-!
# Looking through a frame

A `Veil` is a set of frames that bind only certain names. Code that mentions none of these names
cannot tell whether it is evaluated inside such a frame or right in the frame around it. Two heaps
are `Alike` if they differ in that alone: where one of them has a veil, as the frame of a function
or around another frame, the other one may have the frame around the veil, so long as only code that
does not mention the names can get there. Names are then looked up alike, and every change of one
heap can be made to the other.
-/

namespace Scripting

namespace Bindings

variable {bs : Bindings} {name n : String}

theorem find?_put (v : Value) :
    (bs.put name v).find? n = if name = n then some v else bs.find? n := by
  induction bs with
  | nil =>
    by_cases same : name = n
    · simp [put, find?, same]
    · simp [put, find?, same]
  | cons b bs ih =>
    obtain ⟨l, w⟩ := b
    rw [put]
    by_cases here : l = name
    · rw [if_pos here, find?, find?, here]
      split <;> rfl
    · rw [if_neg here, find?, find?, ih]
      by_cases same : name = n
      · rw [if_pos same, if_neg fun equal => here (equal.trans same.symm), if_pos same]
      · rw [if_neg same, if_neg same]

theorem isSome_find?_of_drop (found : ((bs.drop name).find? n).isSome) : (bs.find? n).isSome := by
  induction bs with
  | nil => exact found
  | cons b bs ih =>
    obtain ⟨l, w⟩ := b
    rw [drop] at found
    rw [find?]
    by_cases same : l = n
    · rw [if_pos same]
      rfl
    · rw [if_neg same]
      by_cases here : l = name
      · rwa [if_pos here] at found
      · rw [if_neg here, find?, if_neg same] at found
        exact ih found

end Bindings

namespace ScopeTree

variable {s t s' t' : ScopeTree} {f : FrameId} {name : String}

/-! ### Looking up a name -/

theorem ownerWithin_eq_owner (aged : t.Aged) {n : Nat} (enough : f < n) :
    t.ownerWithin name n f = t.owner f name := by
  induction f using Nat.strong_induction_on generalizing n with
  | _ f ih =>
    cases n with
    | zero => exact absurd enough (Nat.not_lt_zero f)
    | succ n =>
      rw [owner, ownerWithin, ownerWithin]
      cases t.getCurrent f name with
      | some v => rfl
      | none =>
        cases above : t.parent? f with
        | none => rfl
        | some p =>
          have older := aged f p above
          exact (ih p older (Nat.lt_of_lt_of_le older (Nat.le_of_lt_succ enough))).trans
            (ih p older older).symm

/-- A name belongs to a frame that binds it, and otherwise to whom it belongs in the frame around
it. -/
theorem owner_of_some {v : Value} (bound : t.getCurrent f name = some v) :
    t.owner f name = some f := by
  rw [owner, ownerWithin, bound]

theorem owner_of_none (aged : t.Aged) (unbound : t.getCurrent f name = none) :
    t.owner f name = (t.parent? f).bind (t.owner · name) := by
  rw [owner, ownerWithin, unbound]
  cases above : t.parent? f with
  | none => rfl
  | some p => exact ownerWithin_eq_owner aged (aged f p above)

/-- The owner of a name binds it. -/
theorem isSome_of_owner {o : FrameId} (found : t.owner f name = some o) :
    (t.getCurrent o name).isSome := by
  unfold owner at found
  generalize f + 1 = n at found
  induction n generalizing f with
  | zero => cases found
  | succ n ih =>
    rw [ownerWithin] at found
    split at found
    · rename_i v bound
      cases found
      rw [bound]
      rfl
    · split at found
      · exact ih found
      · cases found

/-! ### Frames that are made and changed -/

theorem lt_size_of_parent {p : FrameId} (above : t.parent? f = some p) : f < t.frames.size := by
  obtain ⟨frame, here, -⟩ := Option.bind_eq_some_iff.mp above
  exact (Array.getElem?_eq_some_iff.mp here).1

theorem getCurrent_push (frame : Frame) (there : f < t.frames.size) :
    (ScopeTree.mk (t.frames.push frame)).getCurrent f name = t.getCurrent f name := by
  unfold getCurrent
  rw [Array.getElem?_push, if_neg (Nat.ne_of_lt there)]

theorem bindings_modify (o : FrameId) (change : Bindings → Bindings) (f : FrameId) :
    (t.modify o change).frames[f]?.map Frame.bindings =
      (t.frames[f]?.map Frame.bindings).map (if o = f then change else id) := by
  unfold modify
  rw [Array.getElem?_modify]
  split <;> cases t.frames[f]? <;> rfl

theorem getCurrent_eq_bind : t.getCurrent f name =
    (t.frames[f]?.map Frame.bindings).bind (·.find? name) := by
  unfold getCurrent
  cases t.frames[f]? <;> rfl

/-- The way up from a frame is the same in both trees. -/
inductive SameWay (s t : ScopeTree) : FrameId → Prop where
  | root {f : FrameId} : s.parent? f = none → t.parent? f = none → SameWay s t f
  | inside {f p : FrameId} : s.parent? f = some p → t.parent? f = some p → SameWay s t p →
      SameWay s t f

theorem SameWay.refl (aged : t.Aged) (f : FrameId) : t.SameWay t f := by
  induction f using Nat.strong_induction_on with
  | _ f ih =>
    cases above : t.parent? f with
    | none => exact .root above above
    | some p => exact .inside above above (ih p (aged f p above))

theorem SameWay.mono (way : s.SameWay t f) (aged : s.Aged) (sizes : t.frames.size = s.frames.size)
    (first : s.Extends s') (second : t.Extends t') (there : f < s.frames.size) :
    s'.SameWay t' f := by
  induction way with
  | root none none' =>
    refine .root ?_ ?_
    · rw [first.parents _ there, none]
    · rw [second.parents _ (sizes ▸ there), none']
  | inside above above' _ ih =>
    refine .inside ?_ ?_ (ih (Nat.lt_trans (aged _ _ above) there))
    · rw [first.parents _ there, above]
    · rw [second.parents _ (sizes ▸ there), above']

end ScopeTree

/-- Frames that code may look through, and the only names that they bind. -/
structure Veil where
  frames : FrameId → Prop
  names : String → Prop

namespace Veil

variable (V : Veil)

/-- The frames are the same, or the first one is a veil right inside the second one. -/
def Meets (s : ScopeTree) (f g : FrameId) : Prop := f = g ∨ V.frames f ∧ s.parent? f = some g

/-- Where code that binds and mentions certain names may be evaluated: in the first frame of one
tree as well as in the second frame of the other. -/
structure Stands (u : Usage) (s t : ScopeTree) (f g : FrameId) : Prop where
  there : f < s.frames.size
  meets : V.Meets s f g
  /-- A veil gets no other names. -/
  thin : V.frames f → ∀ n, u.binds n → V.names n
  /-- In different frames no name is bound. -/
  apart : f ≠ g → ∀ n, ¬ u.binds n
  /-- The way up is the same, or the names of the veil are not mentioned. -/
  sees : f = g ∧ s.SameWay t f ∨ ∀ n, u.mentions n → ¬ V.names n

/-- What a call of a function with this body does in the frame of the function. -/
def called (b : Block Unit) : Usage := ⟨fun _ => False, (· ∈ b.mentions)⟩

/-- The functions differ at most in their frames. -/
structure SameFunction (s t : ScopeTree) (c d : Closure) : Prop where
  parameters : d.parameters = c.parameters
  body : d.body = c.body
  stands : V.Stands (called c.body) s t c.scope d.scope

/-- The heaps differ at most in frames that look through a veil. -/
structure Alike (h k : Heap) : Prop where
  arrays : k.arrays = h.arrays
  tables : k.tables = h.tables
  bindings : ∀ f : FrameId,
    k.scopes.frames[f]?.map Frame.bindings = h.scopes.frames[f]?.map Frame.bindings
  parents : ∀ f, Option.Rel (V.Meets h.scopes) (h.scopes.parent? f) (k.scopes.parent? f)
  aged : h.scopes.Aged
  functions : k.functions.size = h.functions.size
  closures : ∀ id, V.SameFunction h.scopes k.scopes (h.closure id) (k.closure id)
  thin : ∀ f, V.frames f → f < h.scopes.frames.size ∧
    ∀ name, (h.scopes.getCurrent f name).isSome → V.names name

/-- One more frame is a veil. -/
def adding (o : FrameId) : Veil := { V with frames := fun f => V.frames f ∨ f = o }

variable {V} {u : Usage} {s t s' t' : ScopeTree} {f g : FrameId} {h k : Heap}

theorem Meets.mono (meets : V.Meets s f g) (extended : s.Extends s') (there : f < s.frames.size) :
    V.Meets s' f g := by
  rcases meets with rfl | ⟨veil, above⟩
  · exact .inl rfl
  · exact .inr ⟨veil, (extended.parents f there).trans above⟩

theorem Stands.mono (stands : V.Stands u s t f g) (aged : s.Aged)
    (sizes : t.frames.size = s.frames.size) (first : s.Extends s') (second : t.Extends t') :
    V.Stands u s' t' f g where
  there := Nat.lt_of_lt_of_le stands.there first.grown
  meets := stands.meets.mono first stands.there
  thin := stands.thin
  apart := stands.apart
  sees := by
    refine stands.sees.imp_left ?_
    rintro ⟨same, way⟩
    exact ⟨same, way.mono aged sizes first second stands.there⟩

theorem SameFunction.mono {c d : Closure} (same : V.SameFunction s t c d) (aged : s.Aged)
    (sizes : t.frames.size = s.frames.size) (first : s.Extends s') (second : t.Extends t') :
    V.SameFunction s' t' c d :=
  ⟨same.parameters, same.body, same.stands.mono aged sizes first second⟩

theorem Meets.adding (meets : V.Meets s f g) (o : FrameId) : (V.adding o).Meets s f g :=
  meets.imp_right fun ⟨veil, above⟩ => ⟨.inl veil, above⟩

theorem Stands.adding {o : FrameId} (stands : V.Stands u s t f g) (other : f ≠ o) :
    (V.adding o).Stands u s t f g where
  there := stands.there
  meets := stands.meets.adding o
  thin := by
    rintro (veil | same)
    · exact stands.thin veil
    · exact absurd same other
  apart := stands.apart
  sees := stands.sees

/-- Code may be evaluated where it stands in one tree. -/
theorem Stands.refl (aged : t.Aged) (there : f < t.frames.size)
    (thin : V.frames f → ∀ n, u.binds n → V.names n) : V.Stands u t t f f where
  there := there
  meets := .inl rfl
  thin := thin
  apart := fun other => absurd rfl other
  sees := .inl ⟨rfl, .refl aged f⟩

/-- A heap is like itself, if veils bind only what they may. -/
theorem Alike.refl (grounded : h.Grounded) (thin : ∀ f, V.frames f → f < h.scopes.frames.size ∧
      ∀ name, (h.scopes.getCurrent f name).isSome → V.names name) : V.Alike h h where
  arrays := rfl
  tables := rfl
  bindings := fun _ => rfl
  parents := by
    intro f
    cases h.scopes.parent? f with
    | none => exact .none
    | some p => exact .some (.inl rfl)
  aged := grounded.aged
  functions := rfl
  closures := fun id =>
    ⟨rfl, rfl, .refl grounded.aged (grounded.captured id) fun _ _ => False.elim⟩
  thin := thin

namespace Alike

variable (alike : V.Alike h k)
include alike

theorem size : k.scopes.frames.size = h.scopes.frames.size := by
  have outside : ∀ i : Nat, k.scopes.frames[i]? = none ↔ h.scopes.frames[i]? = none := by
    intro i
    have same := alike.bindings i
    cases left : h.scopes.frames[i]? <;> cases right : k.scopes.frames[i]? <;>
      simp [left, right] at same ⊢
  simp only [Array.getElem?_eq_none_iff] at outside
  have first := (outside h.scopes.frames.size).mpr (Nat.le_refl _)
  have second := (outside k.scopes.frames.size).mp (Nat.le_refl _)
  omega

theorem getCurrent (f : FrameId) (name : String) :
    k.scopes.getCurrent f name = h.scopes.getCurrent f name := by
  rw [ScopeTree.getCurrent_eq_bind, ScopeTree.getCurrent_eq_bind, alike.bindings]

theorem aged' : k.scopes.Aged := by
  intro f q above
  have parents := alike.parents f
  rw [above] at parents
  generalize before : h.scopes.parent? f = p at parents
  cases parents with
  | some meets =>
    have older := alike.aged f _ before
    rcases meets with rfl | ⟨-, further⟩
    · exact older
    · exact Nat.lt_trans (alike.aged _ _ further) older

/-! ### Looking up names -/

/-- A name has the same owner in a frame, if it has so in the frames around it. -/
theorem owner_of_parents {name : String}
    (around : (k.scopes.parent? f).bind (k.scopes.owner · name) =
      (h.scopes.parent? f).bind (h.scopes.owner · name)) :
    k.scopes.owner f name = h.scopes.owner f name := by
  cases bound : h.scopes.getCurrent f name with
  | some v =>
    rw [ScopeTree.owner_of_some bound,
      ScopeTree.owner_of_some ((alike.getCurrent f name).trans bound)]
  | none =>
    rw [ScopeTree.owner_of_none alike.aged bound,
      ScopeTree.owner_of_none alike.aged' ((alike.getCurrent f name).trans bound), around]

theorem owner_of_sameWay (way : h.scopes.SameWay k.scopes f) (name : String) :
    k.scopes.owner f name = h.scopes.owner f name := by
  induction way with
  | root none none' =>
    apply alike.owner_of_parents
    rw [none, none']
    rfl
  | inside above above' _ ih =>
    apply alike.owner_of_parents
    rw [above, above']
    exact ih

/-- A name that veils do not bind is found through them. -/
theorem owner_of_meets {name : String} (other : ¬ V.names name) (meets : V.Meets h.scopes f g) :
    k.scopes.owner g name = h.scopes.owner f name := by
  induction f using Nat.strong_induction_on generalizing g with
  | _ f ih =>
    rcases meets with rfl | ⟨veil, above⟩
    · -- The frames around this one meet again, one of them perhaps through another veil.
      apply alike.owner_of_parents
      have parents := alike.parents f
      generalize before : h.scopes.parent? f = p at parents
      generalize k.scopes.parent? f = q at parents
      cases parents with
      | none => rfl
      | some meets => exact ih _ (alike.aged f _ before) meets
    · have unbound : h.scopes.getCurrent f name = none := by
        by_contra bound
        exact other ((alike.thin f veil).2 name (Option.isSome_iff_ne_none.mpr bound))
      rw [ScopeTree.owner_of_none alike.aged unbound, above]
      exact ih g (alike.aged f g above) (.inl rfl)

theorem owner (stands : V.Stands u h.scopes k.scopes f g) {name : String}
    (mentioned : u.mentions name) : k.scopes.owner g name = h.scopes.owner f name := by
  rcases stands.sees with ⟨rfl, way⟩ | others
  · exact alike.owner_of_sameWay way name
  · exact alike.owner_of_meets (others name mentioned) stands.meets

theorem get (stands : V.Stands u h.scopes k.scopes f g) {name : String}
    (mentioned : u.mentions name) : k.scopes.get g name = h.scopes.get f name := by
  unfold ScopeTree.get
  rw [alike.owner stands mentioned]
  cases h.scopes.owner f name with
  | none => rfl
  | some o => exact alike.getCurrent o name

/-! ### Changes of the heap -/

/-- Arrays and hashes are the same again, frames and functions are as before. -/
theorem of_collections {h' k' : Heap} (frames : h'.scopes = h.scopes)
    (functions : h'.functions = h.functions) (frames' : k'.scopes = k.scopes)
    (functions' : k'.functions = k.functions) (arrays : k'.arrays = h'.arrays)
    (tables : k'.tables = h'.tables) : V.Alike h' k' where
  arrays := arrays
  tables := tables
  bindings := by
    rw [frames, frames']
    exact alike.bindings
  parents := by
    rw [frames, frames']
    exact alike.parents
  aged := by
    rw [frames]
    exact alike.aged
  functions := by
    rw [functions, functions']
    exact alike.functions
  closures := by
    intro id
    have same := alike.closures id
    unfold Heap.closure at same ⊢
    rwa [functions, functions', frames, frames']
  thin := by
    rw [frames]
    exact alike.thin

theorem modify (o : FrameId) (change : Bindings → Bindings)
    (thin : V.frames o → ∀ bs : Bindings, (∀ n, (bs.find? n).isSome → V.names n) →
      ∀ n, ((change bs).find? n).isSome → V.names n) :
    V.Alike { h with scopes := h.scopes.modify o change }
      { k with scopes := k.scopes.modify o change } where
  arrays := alike.arrays
  tables := alike.tables
  bindings := by
    intro f
    rw [ScopeTree.bindings_modify, ScopeTree.bindings_modify, alike.bindings]
  parents := by
    intro f
    have meets : V.Meets (h.scopes.modify o change) = V.Meets h.scopes := by
      funext f g
      rw [Meets, Meets, ScopeTree.parent?_modify]
    rw [ScopeTree.parent?_modify, ScopeTree.parent?_modify, meets]
    exact alike.parents f
  aged := alike.aged.modify o change
  functions := alike.functions
  closures := fun id => (alike.closures id).mono alike.aged alike.size
    (ScopeTree.extends_modify o change) (ScopeTree.extends_modify o change)
  thin := by
    intro f veil
    obtain ⟨there, names⟩ := alike.thin f veil
    refine ⟨by rwa [ScopeTree.size_modify], ?_⟩
    intro name found
    rw [ScopeTree.getCurrent_eq_bind, ScopeTree.bindings_modify] at found
    simp only [ScopeTree.getCurrent_eq_bind] at names
    cases held : h.scopes.frames[f]?.map Frame.bindings with
    | none =>
      rw [held] at found
      cases found
    | some bs =>
      rw [held] at found names
      by_cases same : o = f
      · subst same
        rw [if_pos rfl] at found
        exact thin veil bs names name found
      · rw [if_neg same] at found
        exact names name found

/-- A new frame, in frames in which code stands. -/
theorem push (stands : V.Stands u h.scopes k.scopes f g) (bs : Bindings) :
    V.Alike { h with scopes := ⟨h.scopes.frames.push ⟨bs, some f⟩⟩ }
      { k with scopes := ⟨k.scopes.frames.push ⟨bs, some g⟩⟩ } where
  arrays := alike.arrays
  tables := alike.tables
  bindings := by
    intro i
    have same := alike.bindings i
    rw [Array.getElem?_push, Array.getElem?_push, alike.size]
    split
    · rfl
    · exact same
  parents := by
    intro i
    have extended : h.scopes.Extends ⟨h.scopes.frames.push ⟨bs, some f⟩⟩ := ScopeTree.extends_push _
    rw [ScopeTree.parent?_push, ScopeTree.parent?_push, alike.size]
    split
    · exact .some (stands.meets.mono extended stands.there)
    · have parents := alike.parents i
      generalize before : h.scopes.parent? i = p at parents
      generalize k.scopes.parent? i = q at parents
      cases parents with
      | none => exact .none
      | some meets =>
        refine .some (meets.mono extended ?_)
        exact Nat.lt_trans (alike.aged i _ before) (ScopeTree.lt_size_of_parent before)
  aged := by
    refine alike.aged.push ?_
    rintro p ⟨⟩
    exact stands.there
  functions := alike.functions
  closures := fun id => (alike.closures id).mono alike.aged alike.size
    (ScopeTree.extends_push _) (ScopeTree.extends_push _)
  thin := by
    intro i veil
    obtain ⟨there, names⟩ := alike.thin i veil
    refine ⟨?_, ?_⟩
    · rw [Array.size_push]
      exact Nat.lt_succ_of_lt there
    · intro name found
      rw [ScopeTree.getCurrent_push _ there] at found
      exact names name found

/-- In the new frames every name may be bound, since they are no veils. -/
theorem stands_push (stands : V.Stands u h.scopes k.scopes f g) (bs : Bindings) :
    V.Stands u.inside ⟨h.scopes.frames.push ⟨bs, some f⟩⟩ ⟨k.scopes.frames.push ⟨bs, some g⟩⟩
      h.scopes.frames.size k.scopes.frames.size where
  there := by
    rw [Array.size_push]
    exact Nat.lt_succ_self _
  meets := .inl alike.size.symm
  thin := fun veil => absurd (alike.thin _ veil).1 (Nat.lt_irrefl _)
  apart := fun other => absurd alike.size.symm other
  sees := by
    refine stands.sees.imp_left ?_
    rintro ⟨rfl, way⟩
    refine ⟨alike.size.symm, .inside (p := f) ?_ ?_ ?_⟩
    · rw [ScopeTree.parent?_push, if_pos rfl]
    · rw [ScopeTree.parent?_push, if_pos alike.size.symm]
    · exact way.mono alike.aged alike.size (ScopeTree.extends_push _) (ScopeTree.extends_push _)
        stands.there

theorem newFunction {c d : Closure} (same : V.SameFunction h.scopes k.scopes c d) :
    V.Alike (h.newFunction c).2 (k.newFunction d).2 where
  arrays := alike.arrays
  tables := alike.tables
  bindings := alike.bindings
  parents := alike.parents
  aged := alike.aged
  functions := by
    change (k.functions.push d).size = (h.functions.push c).size
    rw [Array.size_push, Array.size_push, alike.functions]
  closures := by
    intro id
    have old := alike.closures id
    unfold Heap.closure at old
    change V.SameFunction h.scopes k.scopes ((h.functions.push c).getD id default)
      ((k.functions.push d).getD id default)
    simp only [Array.getD_eq_getD_getElem?, Array.getElem?_push, alike.functions] at old ⊢
    split
    · exact same
    · exact old
  thin := alike.thin

/-- A frame that binds nothing becomes a veil, so long as no function was made in it. -/
theorem adding {o : FrameId} (there : o < h.scopes.frames.size)
    (empty : ∀ name, h.scopes.getCurrent o name = none)
    (unused : ∀ id, (h.closure id).scope ≠ o) : (V.adding o).Alike h k where
  arrays := alike.arrays
  tables := alike.tables
  bindings := alike.bindings
  parents := by
    intro f
    have parents := alike.parents f
    generalize h.scopes.parent? f = p at parents
    generalize k.scopes.parent? f = q at parents
    cases parents with
    | none => exact .none
    | some meets => exact .some (meets.adding o)
  aged := alike.aged
  functions := alike.functions
  closures := fun id =>
    ⟨(alike.closures id).parameters, (alike.closures id).body,
      (alike.closures id).stands.adding (unused id)⟩
  thin := by
    rintro f (veil | rfl)
    · exact alike.thin f veil
    · refine ⟨there, fun name bound => ?_⟩
      rw [empty name] at bound
      cases bound

end Alike

end Veil

end Scripting
