/-!
# Cutting texts between bytes

A text can be cut at any byte, also inside a character. `decodeLossy` reads the bytes that are left
as a text again: every longest stretch of bytes that begins a character and does not complete it,
and every byte that begins none, becomes one replacement character.
-/

namespace Scripting.Text

/-- Stands for bytes that are no character. -/
def replacement : Char := Char.ofNat 0xFFFD

/-- What the first byte of a longer character announces: how many bytes follow, and the range of
the first of them. The range keeps out long forms, surrogates and numbers that are too large. -/
structure Lead where
  following : Nat
  low : UInt8
  high : UInt8

/-- The announcement of a first byte, if it begins a character of more than one byte. -/
def lead? (b : UInt8) : Option Lead :=
  if b < 0xC2 then none
  else if b ≤ 0xDF then some ⟨1, 0x80, 0xBF⟩
  else if b = 0xE0 then some ⟨2, 0xA0, 0xBF⟩
  else if b = 0xED then some ⟨2, 0x80, 0x9F⟩
  else if b ≤ 0xEF then some ⟨2, 0x80, 0xBF⟩
  else if b = 0xF0 then some ⟨3, 0x90, 0xBF⟩
  else if b ≤ 0xF3 then some ⟨3, 0x80, 0xBF⟩
  else if b = 0xF4 then some ⟨3, 0x80, 0x8F⟩
  else none

/-- A byte that goes on with a character. -/
def continues (b : UInt8) : Bool := 0x80 ≤ b && b ≤ 0xBF

/-- The part of a number that a following byte holds. -/
def payload (b : UInt8) : Nat := b.toNat % 0x40

/-- The character at the front of some bytes, and the number of bytes that it stands for. -/
def decodeFirst (b0 : UInt8) (rest : List UInt8) : Char × Nat :=
  match lead? b0 with
  | none => (if b0 < 0x80 then Char.ofNat b0.toNat else replacement, 1)
  | some lead =>
    match rest with
    | [] => (replacement, 1)
    | b1 :: t1 =>
      if !(lead.low ≤ b1 && b1 ≤ lead.high) then (replacement, 1)
      else if lead.following = 1 then (Char.ofNat (b0.toNat % 0x20 * 0x40 + payload b1), 2)
      else
        match t1 with
        | [] => (replacement, 2)
        | b2 :: t2 =>
          if !continues b2 then (replacement, 2)
          else if lead.following = 2 then
            (Char.ofNat ((b0.toNat % 0x10 * 0x40 + payload b1) * 0x40 + payload b2), 3)
          else
            match t2 with
            | [] => (replacement, 3)
            | b3 :: _ =>
              if !continues b3 then (replacement, 3)
              else
                (Char.ofNat (((b0.toNat % 0x08 * 0x40 + payload b1) * 0x40 + payload b2) * 0x40
                  + payload b3), 4)

/-- Reads bytes as characters; the first `skip` of them belong to a character already read. -/
def decodeFrom : Nat → List UInt8 → List Char
  | _, [] => []
  | skip + 1, _ :: bs => decodeFrom skip bs
  | 0, b :: bs => (decodeFirst b bs).1 :: decodeFrom ((decodeFirst b bs).2 - 1) bs

/-- Reads bytes as characters. -/
def decodeLossy (bs : List UInt8) : List Char := decodeFrom 0 bs

/-- The byte of a text at an offset. -/
def byteAt? (s : String) (i : Nat) : Option UInt8 :=
  if h : (⟨i⟩ : String.Pos.Raw) < s.rawEndPos then some (s.getUTF8Byte ⟨i⟩ h) else none

/-- The bytes of a text. -/
def bytes (s : String) : List UInt8 := s.toByteArray.data.toList

/-- The text between two byte offsets. -/
def cut (s : String) (low high : Nat) : String :=
  String.ofList (decodeLossy (s.toByteArray.extract low high).data.toList)

end Scripting.Text
