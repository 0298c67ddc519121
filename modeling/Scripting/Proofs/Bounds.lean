import Scripting.Proofs.Strictness

/-!
# The bounds of indices and slices

Which whole numbers name a place among so many of them, said without the code that looks for it: an
element is counted from either end, and the end of a slice has one place more to choose from.
`place` and `sliceBounds` find exactly these places, and their errors say which check failed first.
The main statement is `index_and_slice_bounds_exact`, for the elements of arrays and the bytes of
texts alike.
-/

namespace Scripting

/-! ## Places -/

/-- The value is a whole number that names a place among `size` of them: counted from the front, or
from the end if it is negative. -/
def Value.Names (size p : Nat) : Value → Prop
  | .integer i => -(size : Int) ≤ i.toInt ∧ i.toInt ≤ size - 1 ∧
      (p : Int) = if i.toInt < 0 then i.toInt + size else i.toInt
  | _ => False

instance (size p : Nat) : (v : Value) → Decidable (v.Names size p)
  | .integer i => inferInstanceAs (Decidable (-(size : Int) ≤ i.toInt ∧ i.toInt ≤ size - 1 ∧
      (p : Int) = if i.toInt < 0 then i.toInt + size else i.toInt))
  | .null | .boolean _ | .float _ | .text _ | .array _ | .hash _ | .function _ | .builtin _ |
    .error _ => isFalse id

/-- Why a value names no place among `size` of them. -/
inductive Value.Refused (size : Nat) : Value → RuntimeError → Prop where
  | notInteger {v : Value} : v.kind ≠ .integer → Refused size v .indexNotInteger
  | behind {i : Int64} : (size : Int) - 1 < i.toInt →
      Refused size (.integer i) (.indexOutOfRange i.toInt 0 (size - 1))
  | before {i : Int64} : i.toInt < -size →
      Refused size (.integer i) (.indexOutOfRange i.toInt (-1) (-size))

/-- How many places there are: one more where a slice may end. -/
def places (length : Nat) : Bool → Nat
  | true => length + 1
  | false => length

variable {length size p : Nat} {index low : Value} {high : Option Value} {asEnd : Bool}

/-- All that can become of an index. -/
theorem place_cases (length : Nat) (index : Value) (asEnd : Bool) :
    (∃ p, place length index asEnd = .ok p ∧ index.Names (places length asEnd) p) ∨
    ∃ e, place length index asEnd = .error e ∧ index.Refused (places length asEnd) e := by
  cases index with
  | integer i =>
    have limit : (length : Int) + (if asEnd then 1 else 0) = places length asEnd := by
      cases asEnd <;> simp [places]
    simp only [place, limit, Value.Names]
    generalize places length asEnd = size
    by_cases negative : i.toInt < 0
    · simp only [if_pos negative]
      rw [if_neg (by omega)]
      by_cases before : i.toInt + size < 0
      · rw [if_pos before]
        exact .inr ⟨_, rfl, .before (by omega)⟩
      · rw [if_neg before]
        exact .inl ⟨_, rfl, by omega, by omega, by omega⟩
    · simp only [if_neg negative]
      by_cases behind : (size : Int) ≤ i.toInt
      · rw [if_pos behind]
        exact .inr ⟨_, rfl, .behind (by omega)⟩
      · rw [if_neg behind]
        exact .inl ⟨_, rfl, by omega, by omega, by omega⟩
  | _ => exact .inr ⟨_, rfl, .notInteger fun same => by cases same⟩

theorem Value.Names.unique {v : Value} {p q : Nat} (first : v.Names size p)
    (second : v.Names size q) : p = q := by
  cases v with
  | integer i =>
    obtain ⟨_, _, one⟩ := first
    obtain ⟨_, _, other⟩ := second
    omega
  | _ => exact first.elim

theorem Value.Names.not_refused {v : Value} {e : RuntimeError} (named : v.Names size p) :
    ¬v.Refused size e := by
  intro refused
  cases refused with
  | notInteger other =>
    cases v with
    | integer i => exact other rfl
    | _ => exact named
  | behind late =>
    obtain ⟨_, high, _⟩ := named
    omega
  | before early =>
    obtain ⟨low, _, _⟩ := named
    omega

theorem place_eq_ok_iff :
    place length index asEnd = .ok p ↔ index.Names (places length asEnd) p := by
  rcases place_cases length index asEnd with ⟨q, found, named⟩ | ⟨e, failed, refused⟩
  · rw [found]
    constructor
    · rintro ⟨⟩
      exact named
    · intro other
      rw [named.unique other]
  · rw [failed]
    exact iff_of_false (by simp) fun named => named.not_refused refused

theorem Value.Refused.unique {v : Value} {e r : RuntimeError} (first : v.Refused size e)
    (second : v.Refused size r) : e = r := by
  cases first with
  | notInteger other =>
    cases second with
    | notInteger => rfl
    | behind | before => exact absurd rfl other
  | behind late =>
    cases second with
    | notInteger other => exact absurd rfl other
    | behind => rfl
    | before => omega
  | before early =>
    cases second with
    | notInteger other => exact absurd rfl other
    | behind => omega
    | before => rfl

theorem place_eq_error_iff {e : RuntimeError} :
    place length index asEnd = .error e ↔ index.Refused (places length asEnd) e := by
  rcases place_cases length index asEnd with ⟨q, found, named⟩ | ⟨r, failed, refused⟩
  · rw [found]
    exact iff_of_false (by simp) named.not_refused
  · rw [failed]
    constructor
    · rintro ⟨⟩
      exact refused
    · intro other
      rw [refused.unique other]

/-! ## Slices -/

/-- A slice of `length` elements ends at a place: after the last one if it is left open. -/
def EndsAt (length : Nat) (high : Option Value) (e : Nat) : Prop :=
  match high with
  | some v => v.Names (length + 1) e
  | none => e = length

instance (length e : Nat) : (high : Option Value) → Decidable (EndsAt length high e)
  | some v => inferInstanceAs (Decidable (v.Names (length + 1) e))
  | none => inferInstanceAs (Decidable (e = length))

/-- A slice of `length` elements runs from one place to another. -/
structure SliceSpans (length : Nat) (low : Value) (high : Option Value) (first last : Nat) :
    Prop where
  start : low.Names length first
  stop : EndsAt length high last
  ordered : first ≤ last

/-- Why there is no slice of `length` elements: the first of its checks that fails. -/
inductive SliceRefused (length : Nat) (low : Value) (high : Option Value) :
    RuntimeError → Prop where
  | start {e : RuntimeError} : low.Refused length e → SliceRefused length low high e
  | stop {first : Nat} {v : Value} {e : RuntimeError} : low.Names length first → high = some v →
      v.Refused (length + 1) e → SliceRefused length low high e
  | crossed {first last : Nat} : low.Names length first → EndsAt length high last → last < first →
      SliceRefused length low high (.sliceBounds first last)

theorem sliceBounds_of_start {e : RuntimeError} (refused : low.Refused length e) :
    sliceBounds length low high = .error e := by
  have failed : place length low false = .error e := place_eq_error_iff.mpr refused
  rw [sliceBounds, failed]
  rfl

theorem sliceBounds_of_stop {first : Nat} {v : Value} {e : RuntimeError}
    (named : low.Names length first) (refused : v.Refused (length + 1) e) :
    sliceBounds length low (some v) = .error e := by
  have started : place length low false = .ok first := place_eq_ok_iff.mpr named
  have failed : place length v true = .error e := place_eq_error_iff.mpr refused
  rw [sliceBounds, started]
  dsimp only
  rw [failed]
  rfl

theorem sliceBounds_of_ends {first last : Nat} (named : low.Names length first)
    (ends : EndsAt length high last) :
    sliceBounds length low high =
      if last < first then .error (.sliceBounds first last) else .ok (first, last) := by
  have started : place length low false = .ok first := place_eq_ok_iff.mpr named
  rw [sliceBounds, started]
  cases high with
  | none =>
    cases ends
    change (if length < first then _ else _) = _
    split <;> rfl
  | some v =>
    have stopped : place length v true = .ok last := place_eq_ok_iff.mpr ends
    dsimp only
    rw [stopped]
    change (if last < first then _ else _) = _
    split <;> rfl

theorem endsAt_cases (length : Nat) (high : Option Value) :
    (∃ last, EndsAt length high last) ∨ ∃ v e, high = some v ∧ v.Refused (length + 1) e := by
  cases high with
  | none => exact .inl ⟨length, rfl⟩
  | some v =>
    rcases place_cases length v true with ⟨last, _, named⟩ | ⟨e, _, refused⟩
    · exact .inl ⟨last, named⟩
    · exact .inr ⟨v, e, rfl, refused⟩

/-- All that can become of a slice. -/
theorem sliceBounds_cases (length : Nat) (low : Value) (high : Option Value) :
    (∃ first last, SliceSpans length low high first last ∧
      sliceBounds length low high = .ok (first, last)) ∨
    ∃ e, SliceRefused length low high e ∧ sliceBounds length low high = .error e := by
  rcases place_cases length low false with ⟨first, _, named⟩ | ⟨e, _, refused⟩
  · rcases endsAt_cases length high with ⟨last, ends⟩ | ⟨v, e, rfl, refused⟩
    · by_cases crossed : last < first
      · exact .inr ⟨_, .crossed named ends crossed,
          (sliceBounds_of_ends named ends).trans (if_pos crossed)⟩
      · exact .inl ⟨first, last, ⟨named, ends, Nat.le_of_not_lt crossed⟩,
          (sliceBounds_of_ends named ends).trans (if_neg crossed)⟩
    · exact .inr ⟨e, .stop named rfl refused, sliceBounds_of_stop named refused⟩
  · exact .inr ⟨e, .start refused, sliceBounds_of_start refused⟩

theorem sliceBounds_of_refused {e : RuntimeError} (refused : SliceRefused length low high e) :
    sliceBounds length low high = .error e := by
  cases refused with
  | start refused => exact sliceBounds_of_start refused
  | stop named here refused =>
    subst here
    exact sliceBounds_of_stop named refused
  | crossed named ends crossed => exact (sliceBounds_of_ends named ends).trans (if_pos crossed)

theorem SliceSpans.sliceBounds {first last : Nat} (spans : SliceSpans length low high first last) :
    sliceBounds length low high = .ok (first, last) :=
  (sliceBounds_of_ends spans.start spans.stop).trans (if_neg (Nat.not_lt.mpr spans.ordered))

theorem sliceBounds_eq_ok_iff {first last : Nat} :
    sliceBounds length low high = .ok (first, last) ↔ SliceSpans length low high first last := by
  refine ⟨fun found => ?_, SliceSpans.sliceBounds⟩
  rcases sliceBounds_cases length low high with ⟨_, _, spans, same⟩ | ⟨_, _, failed⟩
  · rw [same] at found
    cases found
    exact spans
  · rw [failed] at found
    cases found

theorem sliceBounds_eq_error_iff {e : RuntimeError} :
    sliceBounds length low high = .error e ↔ SliceRefused length low high e := by
  refine ⟨fun failed => ?_, sliceBounds_of_refused⟩
  rcases sliceBounds_cases length low high with ⟨_, _, _, found⟩ | ⟨r, refused, same⟩
  · rw [found] at failed
    cases failed
  · rw [same] at failed
    cases failed
    exact refused

/-! ## Sixty-four bits -/

/-- The number in 64 bits, if it has room there. -/
def word? (i : Int) : Option Int64 := if Strict.InRange i then some (.ofInt i) else none

/-- An index that counts from the end, counted from the front in 64 bits. -/
def fromFront? (i limit : Int64) : Option Int64 :=
  if i < 0 then word? (i.toInt + limit.toInt) else some i

/-- The place that an index names, worked out in 64 bits. There is none if a number on the way has
no room. -/
def wordPlace? (length : Nat) (index : Value) (asEnd : Bool) : Option (Except RuntimeError Nat) :=
  match index with
  | .integer i => do
    let count ← word? length
    let limit ← word? (count.toInt + if asEnd then 1 else 0)
    let p ← fromFront? i limit
    if limit ≤ p then do
      let last ← word? (limit.toInt - 1)
      return .error (.indexOutOfRange i.toInt 0 last.toInt)
    else if p < 0 then do
      let first ← word? (-limit.toInt)
      return .error (.indexOutOfRange i.toInt (-1) first.toInt)
    else return .ok p.toInt.toNat
  | _ => some (.error .indexNotInteger)

theorem word?_eq {i : Int} (low : -2 ^ 63 ≤ i) (high : i < 2 ^ 63) :
    ∃ w, word? i = some w ∧ w.toInt = i :=
  ⟨.ofInt i, if_pos ⟨low, high⟩, Int64.toInt_ofInt_of_le low high⟩

theorem fromFront?_eq (i limit : Int64) (positive : 0 ≤ limit.toInt) :
    ∃ p, fromFront? i limit = some p ∧
      p.toInt = if i.toInt < 0 then i.toInt + limit.toInt else i.toInt := by
  have lowest := i.le_toInt
  have highest := limit.toInt_lt
  unfold fromFront?
  by_cases negative : i.toInt < 0
  · obtain ⟨p, found, sum⟩ := word?_eq (i := i.toInt + limit.toInt) (by omega) (by omega)
    exact ⟨p, by rw [if_pos (Int64.lt_iff_toInt_lt.mpr negative), found],
      by rw [if_pos negative, sum]⟩
  · exact ⟨i, if_neg fun below => negative (Int64.lt_iff_toInt_lt.mp below),
      (if_neg negative).symm⟩

/-- Nothing overflows as long as one more than the length has room. -/
theorem wordPlace?_eq (small : length < 2 ^ 63 - 1) (index : Value) (asEnd : Bool) :
    wordPlace? length index asEnd = some (place length index asEnd) := by
  cases index with
  | integer i =>
    have span : 0 ≤ (length : Int) + (if asEnd then 1 else 0) ∧
        (length : Int) + (if asEnd then 1 else 0) < 2 ^ 63 := by
      split <;> omega
    obtain ⟨count, counted, size⟩ := word?_eq (i := length) (by omega) (by omega)
    unfold wordPlace? place
    simp only [counted, Option.bind_eq_bind, Option.bind_some, size]
    generalize (length : Int) + (if asEnd then 1 else 0) = bound at span
    obtain ⟨limit, limited, same⟩ := word?_eq (i := bound) (by omega) (by omega)
    obtain ⟨last, ended, latest⟩ := word?_eq (i := bound - 1) (by omega) (by omega)
    obtain ⟨first, begun, earliest⟩ := word?_eq (i := -bound) (by omega) (by omega)
    obtain ⟨p, found, placed⟩ := fromFront?_eq i limit (by omega)
    rw [same] at placed
    simp only [limited, found, Option.bind_some, same, ended, latest, begun, earliest, ← placed,
      Int64.le_iff_toInt_le, Int64.lt_iff_toInt_lt, Int64.toInt_zero]
    split
    · rfl
    · split <;> rfl
  | _ => rfl

/-! ## Elements and bytes -/

namespace Text

theorem length_bytes (s : String) : (bytes s).length = s.utf8ByteSize := rfl

theorem byteAt?_eq (s : String) (p : Nat) : byteAt? s p = (bytes s)[p]? := by
  by_cases inside : p < s.utf8ByteSize
  · have before : (⟨p⟩ : String.Pos.Raw) < s.rawEndPos := inside
    have there : p < (bytes s).length := inside
    rw [byteAt?, dif_pos before, List.getElem?_eq_getElem there]
    rfl
  · have beyond : ¬(⟨p⟩ : String.Pos.Raw) < s.rawEndPos := inside
    have past : (bytes s).length ≤ p := Nat.le_of_not_lt inside
    rw [byteAt?, dif_neg beyond, List.getElem?_eq_none past]

theorem cut_eq (s : String) (first last : Nat) :
    cut s first last =
      String.ofList (decodeLossy (((bytes s).drop first).take (last - first))) := by
  unfold cut bytes
  rw [ByteArray.data_extract, Array.toList_extract]

end Text

namespace Heap

/-- What an index counts: the elements of an array, or the bytes of a text, each read as the
character of that number. -/
def items? (h : Heap) : Value → Option (List Value)
  | .array a => some (h.arrays.elements a)
  | .text s => some ((Text.bytes s).map fun b => .text (String.singleton (Char.ofNat b.toNat)))
  | _ => none

variable {h : Heap} {container : Value} {items : List Value}

/-- A value is what a container holds between two places: a new array of these elements, or the text
that these bytes spell. -/
inductive Part (h : Heap) (first last : Nat) : Value → Value → Heap → Prop where
  | array {a b : ArrayId} {h' : Heap} :
      h'.arrays.elements b = ((h.arrays.elements a).drop first).take (last - first) →
      h'.arrays.length b = last - first → Part h first last (.array a) (.array b) h'
  | text {s : String} : Part h first last (.text s)
      (.text (String.ofList (Text.decodeLossy (((Text.bytes s).drop first).take (last - first))))) h

theorem elements_newView {a : ArrayId} {first last : Nat} (bounded : last ≤ h.arrays.length a) :
    (h.newView a first last).2.arrays.elements h.arrays.views.size =
      ((h.arrays.elements a).drop first).take (last - first) := by
  change (h.arrays.slice a first last).2.elements h.arrays.views.size = _
  have window := h.arrays.view_slice a first last h.arrays.views.size
  rw [if_pos rfl] at window
  unfold ArrayStore.elements
  rw [ArrayStore.slots_eq, window, ArrayStore.slots_storageAt_slice, ← ArrayStore.slots_eq]
  rw [ArrayStore.length] at bounded
  rw [List.drop_take, List.drop_drop, List.take_take, Nat.min_eq_left (by omega)]

section Items

variable (intact : h.Intact) (leads : h.Leads container) (row : h.items? container = some items)
include intact leads row

theorem read_of_items (index : Value) :
    h.read container index =
      (placeWithin items.length index).map fun p => (p.bind (items[·]?)).getD .null := by
  cases container with
  | array a =>
    cases row
    rw [intact.arrays.length_elements leads.array_mem, read]
    cases placeWithin (h.arrays.length a) index with
    | error e => rfl
    | ok p =>
      cases p with
      | none => rfl
      | some p =>
        have same := h.arrays.getElem?_elements a p
        change Except.ok ((h.arrays.get? a p).getD .null) = _
        rw [← same]
        rfl
  | text s =>
    cases row
    rw [List.length_map, Text.length_bytes, read]
    cases placeWithin s.utf8ByteSize index with
    | error e => rfl
    | ok p =>
      cases p with
      | none => rfl
      | some p =>
        simp only [bind, Except.bind, Option.bind, Except.map, List.getElem?_map, Text.byteAt?_eq]
        cases (Text.bytes s)[p]? <;> rfl
  | _ => cases row

/-- A whole number in range reads what is at its place. -/
theorem read_of_inside {i : Int64} (low : -(items.length : Int) ≤ i.toInt)
    (high : i.toInt ≤ items.length - 1) :
    ∃ (p : Nat) (item : Value),
      (p : Int) = (if i.toInt < 0 then i.toInt + items.length else i.toInt) ∧
      items[p]? = some item ∧ h.read container (.integer i) = .ok item := by
  rcases place_cases items.length (.integer i) false with ⟨p, found, _, _, sum⟩ | ⟨e, _, refused⟩
  · have inside : p < items.length := Discipline.place_lt found
    have there := List.getElem?_eq_getElem inside
    refine ⟨p, items[p], sum, there, ?_⟩
    rw [read_of_items intact leads row, placeWithin, found]
    change Except.ok ((items[p]?).getD .null) = _
    rw [there]
    rfl
  · cases refused with
    | notInteger other => exact absurd rfl other
    | behind late =>
      dsimp only [places] at late
      omega
    | before early =>
      dsimp only [places] at early
      omega

/-- A whole number that names no place reads null. -/
theorem read_of_outside {i : Int64}
    (outside : ¬(-(items.length : Int) ≤ i.toInt ∧ i.toInt ≤ items.length - 1)) :
    h.read container (.integer i) = .ok .null := by
  rw [read_of_items intact leads row, placeWithin]
  rcases place_cases items.length (.integer i) false with
    ⟨p, _, low, high, _⟩ | ⟨e, failed, refused⟩
  · exact absurd ⟨low, high⟩ outside
  · rw [failed]
    cases refused with
    | notInteger other => exact absurd rfl other
    | behind | before => rfl

theorem slice_of_items (low : Value) (high : Option Value) :
    (∃ first last v h', sliceBounds items.length low high = .ok (first, last) ∧
      h.slice container low high = .ok (v, h') ∧ h.Part first last container v h') ∨
    ∃ e, sliceBounds items.length low high = .error e ∧ h.slice container low high = .error e := by
  cases container with
  | array a =>
    cases row
    rw [intact.arrays.length_elements leads.array_mem, slice_array]
    cases found : sliceBounds (h.arrays.length a) low high with
    | error e => exact .inr ⟨e, rfl, rfl⟩
    | ok ends =>
      have bounded := (sliceBounds_ordered found).2
      refine .inl ⟨ends.1, ends.2, _, _, rfl, rfl, .array (elements_newView bounded) ?_⟩
      change ((h.arrays.slice a ends.1 ends.2).2.view h.arrays.views.size).length = _
      rw [ArrayStore.view_slice, if_pos rfl]
  | text s =>
    cases row
    rw [List.length_map, Text.length_bytes, slice, cut]
    cases sliceBounds s.utf8ByteSize low high with
    | error e => exact .inr ⟨e, rfl, rfl⟩
    | ok ends =>
      refine .inl ⟨ends.1, ends.2, _, _, rfl, rfl, ?_⟩
      rw [Text.cut_eq]
      exact .text
  | _ => cases row

theorem spans_of_slice {low : Value} {high : Option Value} {r : Value × Heap}
    (made : h.slice container low high = .ok r) :
    ∃ first last, SliceSpans items.length low high first last := by
  rcases slice_of_items intact leads row low high with
    ⟨first, last, _, _, found, _⟩ | ⟨e, _, failed⟩
  · exact ⟨first, last, sliceBounds_eq_ok_iff.mp found⟩
  · rw [failed] at made
    cases made

theorem slice_of_spans {low : Value} {high : Option Value} {first last : Nat}
    (spans : SliceSpans items.length low high first last) :
    ∃ v h', h.slice container low high = .ok (v, h') ∧ h.Part first last container v h' := by
  have ends := spans.sliceBounds
  rcases slice_of_items intact leads row low high with ⟨_, _, v, h', found, made⟩ | ⟨e, found, _⟩
  · rw [ends] at found
    cases found
    exact ⟨v, h', made⟩
  · rw [ends] at found
    cases found

theorem slice_eq_error_iff {low : Value} {high : Option Value} {e : RuntimeError} :
    h.slice container low high = .error e ↔ SliceRefused items.length low high e := by
  rw [← sliceBounds_eq_error_iff]
  rcases slice_of_items intact leads row low high with
    ⟨_, _, _, _, found, made, _⟩ | ⟨_, found, made⟩
  · rw [found, made]
    exact iff_of_false (by simp) (by simp)
  · rw [found, made]
    exact ⟨fun same => by cases same; rfl, fun same => by cases same; rfl⟩

end Items

theorem leads_of_has {v : Value} (there : ∀ n, v.node? = some n → h.Has n) : h.Leads v :=
  fun n named => ⟨there n named, not_false⟩

/-- The bounds of indices and slices are exact. In a heap as sessions have it, a whole number reads
the element or byte that it names from either end, and null if it names none. A slice is there
exactly if its two ends are places in order, and then holds what lies between them; otherwise the
first of its checks that fails says why not. None of this overflows 64 bits. -/
theorem index_and_slice_bounds_exact :
    (∀ m, Machine.Session m → m.heap.Intact) ∧
    (∀ (h : Heap) (container : Value) (items : List Value), h.Intact → h.Leads container →
      h.items? container = some items →
      (∀ i : Int64,
        (-(items.length : Int) ≤ i.toInt ∧ i.toInt ≤ items.length - 1 →
          ∃ (p : Nat) (item : Value),
            (p : Int) = (if i.toInt < 0 then i.toInt + items.length else i.toInt) ∧
            items[p]? = some item ∧ h.read container (.integer i) = .ok item) ∧
        (¬(-(items.length : Int) ≤ i.toInt ∧ i.toInt ≤ items.length - 1) →
          h.read container (.integer i) = .ok .null)) ∧
      ∀ (low : Value) (high : Option Value),
        (∀ r, h.slice container low high = .ok r →
          ∃ first last, SliceSpans items.length low high first last) ∧
        (∀ first last, SliceSpans items.length low high first last →
          ∃ v h', h.slice container low high = .ok (v, h') ∧ h.Part first last container v h') ∧
        ∀ e, h.slice container low high = .error e ↔ SliceRefused items.length low high e) ∧
    ∀ length : Nat, length < 2 ^ 63 - 1 → ∀ (index : Value) (asEnd : Bool),
      wordPlace? length index asEnd = some (place length index asEnd) := by
  refine ⟨fun m session => session.intact.sound, ?_, fun length small => wordPlace?_eq small⟩
  intro h container items intact leads row
  refine ⟨fun i => ⟨fun inside => ?_, read_of_outside intact leads row⟩, fun low high => ?_⟩
  · exact read_of_inside intact leads row inside.1 inside.2
  · exact ⟨fun r => spans_of_slice intact leads row,
      fun first last => slice_of_spans intact leads row,
      fun e => slice_eq_error_iff intact leads row⟩

open Evaluation in
/-- A slice that does not start where its storage does is indexed and sliced from its own ends. -/
theorem index_and_slice_bounds_exact_of_view :
    let five : Expr Unit := .array () [.literal () (.integer 10), .literal () (.integer 20),
      .literal () (.integer 30), .literal () (.integer 40), .literal () (.integer 50)]
    let program : Piece := .program ⟨[.expression () (.index () five
      (.slice () (.literal () (.integer 1)) (some (.literal () (.integer (-2))))))]⟩
    ∃ m, (Machine.new fun _ => "").complete (program.evaluation 9) = some (.value (.array 1), m) ∧
      m.heap.Leads (.array 1) ∧
      m.heap.items? (.array 1) = some [.integer 20, .integer 30, .integer 40] ∧
      (∃ (p : Nat) (item : Value), (p : Int) = 0 ∧
        [Value.integer 20, .integer 30, .integer 40][p]? = some item ∧
        m.heap.read (.array 1) (.integer (-3)) = .ok item) ∧
      m.heap.read (.array 1) (.integer 3) = .ok .null ∧
      (∃ v h', m.heap.slice (.array 1) (.integer (-2)) (some (.integer (-2))) = .ok (v, h') ∧
        m.heap.Part 1 2 (.array 1) v h') ∧
      m.heap.slice (.array 1) (.integer 2) (some (.integer 1)) = .error (.sliceBounds 2 1) ∧
      wordPlace? (2 ^ 63 - 2) (.integer (-2 ^ 63)) true =
        some (place (2 ^ 63 - 2) (.integer (-2 ^ 63)) true) := by
  intro five program
  have ran : ∃ m, (Machine.new fun _ => "").complete (program.evaluation 9) =
      some (.value (.array 1), m) ∧ m.heap.arrays.views.size = 2 ∧
      m.heap.items? (.array 1) = some [.integer 20, .integer 30, .integer 40] := ⟨_, rfl, rfl, rfl⟩
  obtain ⟨m, made, views, row⟩ := ran
  have session : Machine.Session m := .evaluate program 9 (.start _) rfl made
  have leads : m.heap.Leads (.array 1) := by
    apply leads_of_has
    rintro _ ⟨⟩
    simp [Has, cell?, views]
  obtain ⟨intact, exact, words⟩ := index_and_slice_bounds_exact
  obtain ⟨reads, slices⟩ := exact m.heap (.array 1) _ (intact m session) leads row
  refine ⟨m, made, leads, row, (reads (-3)).1 (by decide), (reads 3).2 (by decide), ?_, ?_, ?_⟩
  · exact (slices _ _).2.1 1 2 ⟨by decide, by decide, by decide⟩
  · exact ((slices _ _).2.2 _).mpr (.crossed (by decide) (by decide) (by decide))
  · exact words _ (by decide) _ _

end Heap

end Scripting
