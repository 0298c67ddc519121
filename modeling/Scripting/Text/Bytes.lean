/-!
# Texts measured in bytes

Lengths, offsets and cuts of a text are counted in the bytes of its UTF-8 encoding. A cut is only
possible between two characters: `dropBytes` refuses an offset that falls inside one.
-/

namespace Scripting.Text

/-- The number of bytes of a text in UTF-8. -/
def byteLength : List Char → Nat
  | [] => 0
  | c :: cs => c.utf8Size + byteLength cs

/-- The text after its first `n` bytes, if they end between two characters. -/
def dropBytes : Nat → List Char → Option (List Char)
  | 0, cs => some cs
  | _ + 1, [] => none
  | n + 1, c :: cs => if c.utf8Size ≤ n + 1 then dropBytes (n + 1 - c.utf8Size) cs else none

@[simp] theorem byteLength_append (s t : List Char) :
    byteLength (s ++ t) = byteLength s + byteLength t := by
  induction s with
  | nil => simp [byteLength]
  | cons c s ih => simp [byteLength, ih, Nat.add_assoc]

/-- An offset at the end of a first part leaves the second part. -/
theorem dropBytes_byteLength_append (s t : List Char) :
    dropBytes (byteLength s) (s ++ t) = some t := by
  induction s with
  | nil => cases t <;> rfl
  | cons c s ih =>
    have hc : 0 < c.utf8Size := Char.utf8Size_pos c
    obtain ⟨n, hn⟩ : ∃ n, byteLength (c :: s) = n + 1 :=
      ⟨c.utf8Size + byteLength s - 1, by simp only [byteLength]; omega⟩
    have hs : n + 1 - c.utf8Size = byteLength s := by simp only [byteLength] at hn; omega
    have hle : c.utf8Size ≤ n + 1 := by simp only [byteLength] at hn; omega
    rw [hn, List.cons_append, dropBytes, if_pos hle, hs, ih]

end Scripting.Text
