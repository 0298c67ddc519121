import Scripting.Proofs.Bounds

/-!
# Slices of texts

Texts are indexed and sliced by the bytes of their UTF-8 encoding. Reading back the bytes of whole
characters gives these characters, `decodeLossy_encode`. So a cut between characters is a substring,
and a text in ASCII can be read byte by byte. The main statement is `slices_respect_characters`.
-/

namespace Scripting

namespace Text

/-! ## Reading back what was encoded -/

/-- The announcement of a first byte, by its number. -/
theorem lead?_eq (b : UInt8) : lead? b =
    if b.toNat < 0xC2 then none
    else if b.toNat ≤ 0xDF then some ⟨1, 0x80, 0xBF⟩
    else if b.toNat = 0xE0 then some ⟨2, 0xA0, 0xBF⟩
    else if b.toNat = 0xED then some ⟨2, 0x80, 0x9F⟩
    else if b.toNat ≤ 0xEF then some ⟨2, 0x80, 0xBF⟩
    else if b.toNat = 0xF0 then some ⟨3, 0x90, 0xBF⟩
    else if b.toNat ≤ 0xF3 then some ⟨3, 0x80, 0xBF⟩
    else if b.toNat = 0xF4 then some ⟨3, 0x80, 0x8F⟩
    else none := by
  simp only [lead?, UInt8.lt_iff_toNat_lt, UInt8.le_iff_toNat_le, ← UInt8.toNat_inj]
  rfl

/-- A number below 256 is the number of its byte. -/
theorem toNat_byte {n : Nat} (small : n < 256) : (UInt8.ofNat n).toNat = n :=
  UInt8.toNat_ofNat_of_lt' small

/-- Six bits of a number, in a byte that goes on with a character. -/
theorem continues_byte (n : Nat) : continues (.ofNat (n % 64 + 128)) := by
  simp only [continues, Bool.and_eq_true, decide_eq_true_eq, UInt8.le_iff_toNat_le]
  rw [toNat_byte (by omega)]
  exact ⟨Nat.le_add_left _ _, by simp; omega⟩

theorem payload_byte (n : Nat) : payload (.ofNat (n % 64 + 128)) = n % 64 := by
  rw [payload, toNat_byte (by omega)]
  omega

section Lengths

variable {b b1 b2 b3 : UInt8} {lead : Lead}

theorem decodeFirst_one (small : b.toNat ≤ 0x7F) (rest : List UInt8) :
    decodeFirst b rest = (Char.ofNat b.toNat, 1) := by
  have none : lead? b = none := by rw [lead?_eq, if_pos (by omega)]
  have ascii : b < 0x80 := UInt8.lt_iff_toNat_lt.mpr (Nat.lt_succ_of_le small)
  simp only [decodeFirst, none, if_pos ascii]

/-- The second byte lies in the range that the first one announces. -/
def Lead.Admits (lead : Lead) (n : Nat) : Prop := lead.low.toNat ≤ n ∧ n ≤ lead.high.toNat

theorem Lead.Admits.test (admits : lead.Admits b1.toNat) :
    (!(decide (lead.low ≤ b1) && decide (b1 ≤ lead.high))) = false := by
  have low := UInt8.le_iff_toNat_le.mpr admits.1
  have high := UInt8.le_iff_toNat_le.mpr admits.2
  simp [low, high]

theorem decodeFirst_two (announced : lead? b = some lead) (one : lead.following = 1)
    (second : lead.Admits b1.toNat) (rest : List UInt8) :
    decodeFirst b (b1 :: rest) = (Char.ofNat (b.toNat % 0x20 * 0x40 + payload b1), 2) := by
  simp [decodeFirst, announced, second.test, one]

theorem decodeFirst_three (announced : lead? b = some lead) (two : lead.following = 2)
    (second : lead.Admits b1.toNat) (third : continues b2) (rest : List UInt8) :
    decodeFirst b (b1 :: b2 :: rest) =
      (Char.ofNat ((b.toNat % 0x10 * 0x40 + payload b1) * 0x40 + payload b2), 3) := by
  simp [decodeFirst, announced, second.test, two, third]

theorem decodeFirst_four (announced : lead? b = some lead) (three : lead.following = 3)
    (second : lead.Admits b1.toNat) (third : continues b2) (fourth : continues b3)
    (rest : List UInt8) :
    decodeFirst b (b1 :: b2 :: b3 :: rest) =
      (Char.ofNat (((b.toNat % 0x08 * 0x40 + payload b1) * 0x40 + payload b2) * 0x40
        + payload b3), 4) := by
  simp [decodeFirst, announced, second.test, three, third, fourth]

end Lengths

section Leads

variable {v : Nat}

theorem lead?_of_two (low : 0x80 ≤ v) (high : v ≤ 0x7FF) :
    ∃ lead, lead? (.ofNat (v / 64 % 32 + 192)) = some lead ∧ lead.following = 1 ∧
      lead.Admits (v % 64 + 128) := by
  rw [lead?_eq, toNat_byte (by omega), if_neg (by omega), if_pos (by omega)]
  exact ⟨_, rfl, rfl, Nat.le_add_left _ _, by simp; omega⟩

/-- The announced range keeps out numbers that need fewer bytes, and surrogates. -/
theorem lead?_of_three (low : 0x800 ≤ v) (high : v ≤ 0xFFFF) (valid : v.isValidChar) :
    ∃ lead, lead? (.ofNat (v / 4096 % 16 + 224)) = some lead ∧ lead.following = 2 ∧
      lead.Admits (v / 64 % 64 + 128) := by
  rw [lead?_eq, toNat_byte (by omega), if_neg (by omega), if_neg (by omega)]
  split_ifs
  · exact ⟨_, rfl, rfl, by simp; omega, by simp; omega⟩
  · exact ⟨_, rfl, rfl, by simp, by simp; omega⟩
  · exact ⟨_, rfl, rfl, by simp, by simp; omega⟩
  all_goals omega

/-- The announced range keeps out numbers that need fewer bytes, and those that are too large. -/
theorem lead?_of_four (low : 0xFFFF < v) (valid : v.isValidChar) :
    ∃ lead, lead? (.ofNat (v / 262144 % 8 + 240)) = some lead ∧ lead.following = 3 ∧
      lead.Admits (v / 4096 % 64 + 128) := by
  rw [lead?_eq, toNat_byte (by omega), if_neg (by omega), if_neg (by omega), if_neg (by omega),
    if_neg (by omega), if_neg (by omega)]
  split_ifs
  · exact ⟨_, rfl, rfl, by simp; omega, by simp; omega⟩
  · exact ⟨_, rfl, rfl, by simp, by simp; omega⟩
  · exact ⟨_, rfl, rfl, by simp, by simp; omega⟩
  all_goals omega

end Leads

/-- The bytes of a character are read as this character, whatever follows. -/
theorem decodeFirst_encode (c : Char) :
    ∃ b bs, String.utf8EncodeChar c = b :: bs ∧
      ∀ rest, decodeFirst b (bs ++ rest) = (c, bs.length + 1) := by
  have valid : c.val.toNat.isValidChar := c.valid
  have same : Char.ofNat c.val.toNat = c := Char.ofNat_toNat c
  dsimp only [String.utf8EncodeChar]
  generalize c.val.toNat = v at valid same ⊢
  split_ifs with one two three
  · refine ⟨_, _, rfl, fun rest => ?_⟩
    rw [decodeFirst_one (by rw [toNat_byte (by omega)]; exact one), toNat_byte (by omega), same]
    rfl
  · obtain ⟨lead, announced, size, admits⟩ := lead?_of_two (by omega) two
    refine ⟨_, _, rfl, fun rest => ?_⟩
    rw [List.singleton_append, decodeFirst_two announced size (by rwa [toNat_byte (by omega)]),
      toNat_byte (by omega), payload_byte]
    have number : (v / 64 % 32 + 192) % 0x20 * 0x40 + v % 64 = v := by omega
    rw [number, same]
    rfl
  · obtain ⟨lead, announced, size, admits⟩ := lead?_of_three (by omega) three valid
    refine ⟨_, _, rfl, fun rest => ?_⟩
    rw [List.cons_append, List.singleton_append, decodeFirst_three announced size
      (by rwa [toNat_byte (by omega)]) (continues_byte v), toNat_byte (by omega), payload_byte,
      payload_byte]
    have number : ((v / 4096 % 16 + 224) % 0x10 * 0x40 + v / 64 % 64) * 0x40 + v % 64 = v := by
      omega
    rw [number, same]
    rfl
  · obtain ⟨lead, announced, size, admits⟩ := lead?_of_four (by omega) valid
    refine ⟨_, _, rfl, fun rest => ?_⟩
    rw [List.cons_append, List.cons_append, List.singleton_append, decodeFirst_four announced size
      (by rwa [toNat_byte (by omega)]) (continues_byte _) (continues_byte v), toNat_byte (by omega),
      payload_byte, payload_byte, payload_byte]
    have number : (((v / 262144 % 8 + 240) % 0x08 * 0x40 + v / 4096 % 64) * 0x40 + v / 64 % 64)
        * 0x40 + v % 64 = v := by omega
    rw [number, same]
    rfl

/-- Bytes of a character already read are passed over. -/
theorem decodeFrom_skip (skip : Nat) (bs : List UInt8) :
    decodeFrom skip bs = decodeFrom 0 (bs.drop skip) := by
  induction skip generalizing bs with
  | zero => rfl
  | succ skip ih =>
    cases bs with
    | nil => rfl
    | cons b bs => rw [decodeFrom, ih, List.drop_succ_cons]

theorem decodeLossy_encode (cs : List Char) :
    decodeLossy (cs.flatMap String.utf8EncodeChar) = cs := by
  unfold decodeLossy
  induction cs with
  | nil => rfl
  | cons c cs ih =>
    obtain ⟨b, bs, encoded, decoded⟩ := decodeFirst_encode c
    rw [List.flatMap_cons, encoded, List.cons_append, decodeFrom, decoded, decodeFrom_skip,
      Nat.add_sub_cancel, List.drop_left, ih]

/-! ## Cuts between characters -/

theorem bytes_eq (s : String) : bytes s = s.toList.flatMap String.utf8EncodeChar := by
  have whole : bytes (String.ofList s.toList) = s.toList.flatMap String.utf8EncodeChar := by
    rw [bytes, String.toByteArray_ofList, List.utf8Encode, List.data_toByteArray]
  rwa [String.ofList_toList] at whole

theorem bytes_append (s t : String) : bytes (s ++ t) = bytes s ++ bytes t := by
  rw [bytes_eq, bytes_eq, bytes_eq, String.toList_append, List.flatMap_append]

theorem decodeLossy_bytes (s : String) : decodeLossy (bytes s) = s.toList := by
  rw [bytes_eq, decodeLossy_encode]

/-- The offset lies between two characters of the text, or at one of its ends. -/
def IsBoundary (s : String) (n : Nat) : Prop :=
  ∃ before after : String, s = before ++ after ∧ before.utf8ByteSize = n

/-- The part of a text between two offsets that lie between characters. -/
structure Between (s : String) (low high : Nat) (part : String) : Prop where
  whole : ∃ before after : String, s = before ++ part ++ after ∧ before.utf8ByteSize = low
  size : low + part.utf8ByteSize = high

variable {s part : String} {low high : Nat}

/-- There is such a part for any two offsets in order. -/
theorem exists_between (first : IsBoundary s low) (second : IsBoundary s high)
    (ordered : low ≤ high) : ∃ part, Between s low high part := by
  obtain ⟨before, after, whole, rfl⟩ := first
  obtain ⟨longer, rest, same, rfl⟩ := second
  have lists : before.toList ++ after.toList = longer.toList ++ rest.toList := by
    rw [← String.toList_append, ← String.toList_append, ← whole, same]
  rcases List.append_eq_append_iff.mp lists with ⟨cs, grown, _⟩ | ⟨cs, shrunk, _⟩
  · have more : longer = before ++ String.ofList cs := by
      rw [← String.toList_inj, String.toList_append, String.toList_ofList, grown]
    exact ⟨String.ofList cs, ⟨before, rest, by rw [same, more], rfl⟩,
      by rw [more, String.utf8ByteSize_append]⟩
  · have more : before = longer ++ String.ofList cs := by
      rw [← String.toList_inj, String.toList_append, String.toList_ofList, shrunk]
    have none : (String.ofList cs).utf8ByteSize = 0 := by
      rw [more, String.utf8ByteSize_append] at ordered
      omega
    exact ⟨"", ⟨before, after, by rw [whole, String.append_empty], rfl⟩,
      by rw [more, String.utf8ByteSize_append, none]; rfl⟩

theorem Between.le (between : Between s low high part) : low ≤ high ∧ high ≤ s.utf8ByteSize := by
  obtain ⟨⟨before, after, rfl, rfl⟩, rfl⟩ := between
  rw [String.utf8ByteSize_append, String.utf8ByteSize_append]
  omega

theorem cut_of_between (between : Between s low high part) : cut s low high = part := by
  obtain ⟨⟨before, after, rfl, rfl⟩, rfl⟩ := between
  rw [cut_eq, bytes_append, bytes_append, List.append_assoc, ← length_bytes before, List.drop_left,
    Nat.add_sub_cancel_left, ← length_bytes part, List.take_left, decodeLossy_bytes,
    String.ofList_toList]

/-- Within a character a cut does not give a part of the text. -/
example : cut "é" 1 2 = "\uFFFD" := by decide

/-! ## Texts in ASCII -/

/-- Every character takes one byte. -/
def IsAscii (cs : List Char) : Prop := ∀ c ∈ cs, c.toNat < 0x80

theorem encode_ascii {c : Char} (ascii : c.toNat < 0x80) :
    String.utf8EncodeChar c = [UInt8.ofNat c.toNat] :=
  if_pos (Nat.le_of_lt_succ ascii)

theorem bytes_ascii {cs : List Char} (ascii : IsAscii cs) :
    bytes (String.ofList cs) = cs.map fun c => UInt8.ofNat c.toNat := by
  rw [bytes_eq, String.toList_ofList]
  induction cs with
  | nil => rfl
  | cons c cs ih =>
    rw [List.flatMap_cons, encode_ascii (ascii c List.mem_cons_self),
      ih fun d member => ascii d (List.mem_cons_of_mem _ member)]
    rfl

theorem size_ascii {cs : List Char} (ascii : IsAscii cs) :
    (String.ofList cs).utf8ByteSize = cs.length := by
  rw [← length_bytes, bytes_ascii ascii, List.length_map]

/-- The byte at an offset is the number of the character there. -/
theorem byteAt?_ascii {cs : List Char} (ascii : IsAscii cs) {n : Nat} {c : Char}
    (here : cs[n]? = some c) : byteAt? (String.ofList cs) n = some (.ofNat c.toNat) := by
  rw [byteAt?_eq, bytes_ascii ascii, List.getElem?_map, here]
  rfl

/-- One character stands between an offset and the next one. -/
theorem between_ascii {cs : List Char} (ascii : IsAscii cs) {n : Nat} {c : Char}
    (here : cs[n]? = some c) : Between (String.ofList cs) n (n + 1) (String.singleton c) := by
  obtain ⟨inside, found⟩ := List.getElem?_eq_some_iff.mp here
  have member : c ∈ cs := List.mem_of_getElem? here
  have single : String.singleton c = String.ofList [c] := String.singleton_eq_ofList
  refine ⟨⟨String.ofList (cs.take n), String.ofList (cs.drop (n + 1)), ?_, ?_⟩, ?_⟩
  · rw [single, ← String.ofList_append, ← String.ofList_append, List.append_assoc,
      List.singleton_append, ← found, List.getElem_cons_drop, List.take_append_drop]
  · rw [size_ascii fun d earlier => ascii d (List.mem_of_mem_take earlier), List.length_take]
    omega
  · rw [single, size_ascii fun d alone => ascii d (List.mem_singleton.mp alone ▸ member)]
    rfl

end Text

/-- A number in range names the place that it counts from the front. -/
theorem Value.names_of_toInt {i : Int64} {p size : Nat} (same : i.toInt = p) (inside : p < size) :
    (Value.integer i).Names size p :=
  ⟨by omega, by omega, by rw [if_neg (by omega), same]⟩

namespace Heap

open Text

variable {h : Heap} {s part : String} {low high n : Nat} {i j : Int64}

/-- A slice whose ends lie between characters is what stands between them. -/
theorem slice_text (h : Heap) {first : Value} {last : Option Value}
    (spans : SliceSpans s.utf8ByteSize first last low high) (between : Between s low high part) :
    h.slice (.text s) first last = .ok (.text part, h) := by
  rw [slice, Heap.cut, spans.sliceBounds]
  change Except.ok (Value.text (Text.cut s low high), h) = _
  rw [cut_of_between between]

theorem slice_of_between (start : i.toInt = low) (stop : j.toInt = high)
    (inside : low < s.utf8ByteSize) (between : Between s low high part) :
    h.slice (.text s) (.integer i) (some (.integer j)) = .ok (.text part, h) := by
  obtain ⟨ordered, bounded⟩ := between.le
  exact slice_text h ⟨Value.names_of_toInt start inside,
    Value.names_of_toInt stop (Nat.lt_succ_of_le bounded), ordered⟩ between

/-- A slice without an end goes up to the end of the text. -/
theorem slice_of_between_end (start : i.toInt = low) (inside : low < s.utf8ByteSize)
    (between : Between s low s.utf8ByteSize part) :
    h.slice (.text s) (.integer i) none = .ok (.text part, h) :=
  slice_text h ⟨Value.names_of_toInt start inside, rfl, between.le.1⟩ between

theorem read_of_byte (start : i.toInt = n) (inside : n < s.utf8ByteSize) {b : UInt8}
    (here : byteAt? s n = some b) :
    h.read (.text s) (.integer i) = .ok (.text (String.singleton (Char.ofNat b.toNat))) := by
  have found : place s.utf8ByteSize (.integer i) false = .ok n :=
    place_eq_ok_iff.mpr (Value.names_of_toInt start inside)
  rw [read, placeWithin, found]
  simp only [bind, Except.bind, Option.bind, here]
  rfl

/-- A byte of a text in ASCII reads as the character there. -/
theorem read_ascii {cs : List Char} (ascii : IsAscii cs) (start : i.toInt = n) {c : Char}
    (there : cs[n]? = some c) :
    h.read (.text (String.ofList cs)) (.integer i) = .ok (.text (String.singleton c)) := by
  obtain ⟨inside, _⟩ := List.getElem?_eq_some_iff.mp there
  have small := ascii c (List.mem_of_getElem? there)
  rw [read_of_byte start (by rwa [size_ascii ascii]) (byteAt?_ascii ascii there),
    toNat_byte (by omega), Char.ofNat_toNat]

/-- Slices of texts respect characters. Between two offsets that lie between characters a slice is
the part of the text that stands there, so the slices before and after such an offset add up to the
text. A text in ASCII is indexed by its characters, and an element is a slice of length one. -/
theorem slices_respect_characters (h : Heap) (s : String) :
    (∀ (i j : Int64) (low high : Nat), i.toInt = low → j.toInt = high → low < s.utf8ByteSize →
      low ≤ high → high ≤ s.utf8ByteSize → IsBoundary s low → IsBoundary s high →
      ∃ part, Between s low high part ∧
        h.slice (.text s) (.integer i) (some (.integer j)) = .ok (.text part, h)) ∧
    (∀ (k : Int64) (n : Nat), k.toInt = n → 0 < n → n < s.utf8ByteSize → IsBoundary s n →
      ∃ front back, h.slice (.text s) (.integer 0) (some (.integer k)) = .ok (.text front, h) ∧
        h.slice (.text s) (.integer k) none = .ok (.text back, h) ∧
        applyInfix h .add (.text front) (.text back) = .ok (.text s)) ∧
    (IsAscii s.toList → ∀ (i j : Int64) (n : Nat), i.toInt = n → j.toInt = n + 1 →
      n < s.utf8ByteSize →
      ∃ c, s.toList[n]? = some c ∧
        h.read (.text s) (.integer i) = .ok (.text (String.singleton c)) ∧
        h.slice (.text s) (.integer i) (some (.integer j)) =
          .ok (.text (String.singleton c), h)) := by
  refine ⟨?_, ?_, ?_⟩
  · intro i j low high start stop inside ordered _ first second
    obtain ⟨part, between⟩ := exists_between first second ordered
    exact ⟨part, between, slice_of_between start stop inside between⟩
  · rintro k n start _ inside ⟨front, back, rfl, rfl⟩
    have before : Between (front ++ back) 0 front.utf8ByteSize front :=
      ⟨⟨"", back, by rw [String.empty_append], rfl⟩, Nat.zero_add _⟩
    have behind : Between (front ++ back) front.utf8ByteSize (front ++ back).utf8ByteSize back :=
      ⟨⟨front, "", by rw [String.append_empty], rfl⟩, (String.utf8ByteSize_append ..).symm⟩
    exact ⟨front, back, slice_of_between rfl start (Nat.zero_lt_of_lt inside) before,
      slice_of_between_end start inside behind, rfl⟩
  · intro ascii i j n start stop inside
    have whole : String.ofList s.toList = s := String.ofList_toList
    have size := size_ascii ascii
    rw [whole] at size
    have there : s.toList[n]? = some (s.toList[n]) := List.getElem?_eq_getElem (by omega)
    have between := between_ascii ascii there
    have read := read_ascii (h := h) ascii start there
    rw [whole] at between read
    exact ⟨_, there, read, slice_of_between start stop inside between⟩

end Heap

end Scripting
