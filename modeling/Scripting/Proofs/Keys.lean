import Scripting.Proofs.Table

/-!
# Which values have one key

A hash knows its entries by their keys alone, so two values with one key are one to it. Integers,
truth values and texts of different kinds never share a key, nor do two integers or two truth
values. Two texts share one exactly if they have the same digest, and there are such texts.
-/

namespace Scripting

namespace Value

/-- The value is an integer, a truth value or a text. -/
def IsDiscrete (v : Value) : Prop := v.kind = .integer ∨ v.kind = .boolean ∨ v.kind = .string

instance (v : Value) : Decidable v.IsDiscrete := inferInstanceAs (Decidable (_ ∨ _))

/-- Two different texts with one digest. -/
def Collide : Value → Value → Prop
  | text s, text t => s ≠ t ∧ digest (Text.bytes s) = digest (Text.bytes t)
  | _, _ => False

/-- An integer, a truth value or a text by itself. -/
theorem IsDiscrete.cases {v : Value} (discrete : v.IsDiscrete) :
    (∃ n, v = integer n) ∨ (∃ b, v = boolean b) ∨ ∃ s, v = text s := by
  cases v with
  | integer n => exact .inl ⟨n, rfl⟩
  | boolean b => exact .inr (.inl ⟨b, rfl⟩)
  | text s => exact .inr (.inr ⟨s, rfl⟩)
  | float | null | array | hash | function | builtin | error => simp [IsDiscrete, kind] at discrete

theorem IsDiscrete.exists_key {v : Value} (discrete : v.IsDiscrete) : ∃ k, v.key = .ok k := by
  rcases discrete.cases with ⟨n, rfl⟩ | ⟨b, rfl⟩ | ⟨s, rfl⟩
  · exact ⟨_, rfl⟩
  · exact ⟨_, rfl⟩
  · exact ⟨_, rfl⟩

theorem key_integer_inj {n l : Int64} : (integer n).key = (integer l).key ↔ n = l := by
  constructor
  · intro same
    have digests : n.toUInt64 = l.toUInt64 := congrArg Key.digest (Except.ok.inj same)
    exact congrArg Int64.ofUInt64 digests
  · rintro rfl
    rfl

theorem key_boolean_inj {b c : Bool} : (boolean b).key = (boolean c).key ↔ b = c := by
  cases b <;> cases c <;> decide

theorem key_text_eq_iff {s t : String} :
    (text s).key = (text t).key ↔ s = t ∨ (text s).Collide (text t) := by
  constructor
  · intro same
    have digests : digest (Text.bytes s) = digest (Text.bytes t) :=
      congrArg Key.digest (Except.ok.inj same)
    by_cases equal : s = t
    · exact .inl equal
    · exact .inr ⟨equal, digests⟩
  · rintro (rfl | ⟨-, digests⟩)
    · rfl
    · simp only [key, digests]

/-- Values have one key if they are equal, or texts that collide. -/
theorem key_eq_iff {a b : Value} (first : a.IsDiscrete) (second : b.IsDiscrete) :
    a.key = b.key ↔ a = b ∨ a.Collide b := by
  -- Values of two kinds have keys of two kinds.
  rcases first.cases with ⟨n, rfl⟩ | ⟨b, rfl⟩ | ⟨s, rfl⟩
  · rcases second.cases with ⟨l, rfl⟩ | ⟨c, rfl⟩ | ⟨t, rfl⟩
    · simp [key_integer_inj, Collide]
    · simp [key, Collide]
    · simp [key, Collide]
  · rcases second.cases with ⟨l, rfl⟩ | ⟨c, rfl⟩ | ⟨t, rfl⟩
    · simp [key, Collide]
    · simp [key_boolean_inj, Collide]
    · simp [key, Collide]
  · rcases second.cases with ⟨l, rfl⟩ | ⟨c, rfl⟩ | ⟨t, rfl⟩
    · simp [key, Collide]
    · simp [key, Collide]
    · rw [key_text_eq_iff, text.injEq]

end Value

namespace Table

variable {t : Table} {a b : Value} {k l : Key}

/-- Entries of other keys are left alone. -/
theorem get_step_of_key_ne (indexed : t.Indexed) (left : a.key = .ok k) (right : b.key = .ok l)
    (different : l ≠ k) (v : Value) :
    (t.step (.insert a v)).2.get b = t.get b ∧ (t.step (.remove a)).2.get b = t.get b := by
  unfold get
  rw [step_insert left, step_remove left, right]
  refine ⟨?_, ?_⟩
  · exact congrArg Except.ok (indexed.find?_put_of_ne different a v)
  · exact congrArg Except.ok (indexed.find?_erase_of_ne different)

/-- With the key of another value, what is stored is found there. -/
theorem get_insert_of_key_eq (left : a.key = .ok k) (right : b.key = .ok k) (v : Value) :
    (empty.step (.insert a v)).2.get b = .ok (some v) ∧ empty.get b = .ok none := by
  unfold get
  rw [step_insert left, right]
  refine ⟨?_, ?_⟩
  · exact congrArg Except.ok (Indexed.empty.find?_put_self k a v)
  · exact congrArg Except.ok (Indexed.empty.find?_of_absent (by simp [empty]))

/-- Integers, truth values and texts have one key exactly if they are the same value or two texts
that collide. Storing and taking out under one of two different values leaves what every hash has
under the other, exactly if they do not collide. -/
theorem keys_tell_values_apart {a b : Value} (first : a.IsDiscrete) (second : b.IsDiscrete) :
    (a.key = b.key ↔ a = b ∨ a.Collide b) ∧
    (a ≠ b → ((∀ (t : Table) (v : Value), t.Indexed →
      (t.step (.insert a v)).2.get b = t.get b ∧ (t.step (.remove a)).2.get b = t.get b) ↔
        ¬ a.Collide b)) := by
  have keys := Value.key_eq_iff first second
  obtain ⟨k, left⟩ := first.exists_key
  obtain ⟨l, right⟩ := second.exists_key
  refine ⟨keys, fun different => ⟨?_, ?_⟩⟩
  · intro untouched collide
    have same : l = k := by
      have equal := keys.mpr (.inr collide)
      rw [left, right] at equal
      exact (Except.ok.inj equal).symm
    rw [same] at right
    obtain ⟨stored, absent⟩ := get_insert_of_key_eq left right .null
    rw [(untouched empty .null .empty).1, absent] at stored
    cases stored
  · intro apart t v indexed
    apply get_step_of_key_ne indexed left right
    rintro rfl
    rcases keys.mp (left.trans right.symm) with equal | collide
    · exact different equal
    · exact apart collide

/-- Two texts that do not collide. -/
theorem keys_tell_values_apart_two_texts :
    let a : Value := .text "Hello World"
    let b : Value := .text "My name is johnny"
    a.IsDiscrete ∧ b.IsDiscrete ∧ a.key ≠ b.key ∧
      ∀ (t : Table) (v : Value), t.Indexed →
        (t.step (.insert a v)).2.get b = t.get b ∧ (t.step (.remove a)).2.get b = t.get b := by
  intro a b
  have first : a.IsDiscrete := by decide
  have second : b.IsDiscrete := by decide
  have apart : ¬ a.Collide b := by
    rintro ⟨-, digests⟩
    exact absurd digests (by decide +kernel)
  have different : a ≠ b := by
    intro same
    exact absurd (Value.text.inj same) (by decide)
  obtain ⟨keys, untouched⟩ := keys_tell_values_apart first second
  refine ⟨first, second, ?_, (untouched different).mpr apart⟩
  rw [Ne, keys]
  rintro (equal | collide)
  · exact different equal
  · exact apart collide

/-- Two texts with one digest. What is stored under the second one is found under the first one. -/
theorem two_texts_share_an_entry :
    let a : Value := .text "8yn0iYCKYHlIj4-BwPqk"
    let b : Value := .text "GReLUrM4wMqfg9yzV3KQ"
    a.IsDiscrete ∧ b.IsDiscrete ∧ a ≠ b ∧ a.key = b.key ∧
      (run [.insert a (.integer 1)]).get a = .ok (some (.integer 1)) ∧
      (run [.insert a (.integer 1), .insert b (.integer 2)]).get a = .ok (some (.integer 2)) ∧
      (run [.insert a (.integer 1), .remove b]).get a = .ok none := by
  intro a b
  have different : a ≠ b := by
    intro same
    exact absurd (Value.text.inj same) (by decide)
  have key : ∀ v, v = a ∨ v = b → v.key = .ok ⟨.string, 0x4eac0c95540867e4⟩ := by
    have digests : digest (Text.bytes "8yn0iYCKYHlIj4-BwPqk") = 0x4eac0c95540867e4 ∧
        digest (Text.bytes "GReLUrM4wMqfg9yzV3KQ") = 0x4eac0c95540867e4 := by
      decide +kernel
    rintro v (rfl | rfl)
    · simp only [a, Value.key, digests.1]
    · simp only [b, Value.key, digests.2]
  have left := key a (.inl rfl)
  have right := key b (.inr rfl)
  have stored := indexed_run [.insert a (.integer 1)]
  refine ⟨by decide, by decide, different, left.trans right.symm, ?_, ?_, ?_⟩
  · simp only [run, List.foldl_cons, List.foldl_nil, get, left, step_insert left]
    exact congrArg Except.ok (Indexed.empty.find?_put_self _ _ _)
  · simp only [get, left, run, List.foldl_cons, List.foldl_nil, step_insert right]
    exact congrArg Except.ok (stored.find?_put_self _ _ _)
  · simp only [get, left, run, List.foldl_cons, List.foldl_nil, step_remove right]
    exact congrArg Except.ok (stored.find?_erase_self _)

end Table

end Scripting
