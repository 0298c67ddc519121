import Mathlib.Algebra.Order.Ring.Int
import Scripting.Proofs.Intact

/-!
# Operations inside their domains

Many operations that evaluation is made of are partial: an element is taken at an index that has to
be there, a number is divided by one that must not be zero, a sum has to stay within 64 bits. `Strict`
writes evaluation with each of them guarded by an alarm. The guards never matter: in every session
evaluation with any alarm is evaluation without.
-/

namespace Scripting

open Evaluation Machine

namespace Strict

variable (alarm : Eval Unit)

/-! ### Arithmetic -/

/-- The number has 64 bits. -/
def InRange (i : Int) : Prop := -2 ^ 63 ≤ i ∧ i < 2 ^ 63

instance (i : Int) : Decidable (InRange i) :=
  inferInstanceAs (Decidable (-2 ^ 63 ≤ i ∧ i < 2 ^ 63))

/-- Raises the alarm if a number is too large though the collection is not. -/
def insistInRange (length : Nat) (i : Int) : Eval Unit :=
  insist alarm (length < 2 ^ 63 - 1 → InRange i)

/-- The place that an index names. All that is worked out on the way has to be in range. -/
def place (length : Nat) (index : Value) (asEnd : Bool) : Eval (Except RuntimeError Nat) :=
  match index with
  | .integer n => do
    let i := n.toInt
    let limit : Int := length + if asEnd then 1 else 0
    insistInRange alarm length limit
    let p := if i < 0 then i + limit else i
    insistInRange alarm length p
    if limit ≤ p then do
      insistInRange alarm length (limit - 1)
      return .error (.indexOutOfRange i 0 (limit - 1))
    else if p < 0 then do
      insistInRange alarm length (-limit)
      return .error (.indexOutOfRange i (-1) (-limit))
    else return .ok p.toNat
  | _ => return .error .indexNotInteger

/-- The two ends of a slice. -/
def bounds (length : Nat) (low : Value) (high : Option Value) : Eval (Nat × Nat) := do
  let first ← ofExcept (← place alarm length low false)
  let last ← match high with
    | some v => ofExcept (← place alarm length v true)
    | none => pure length
  if last < first then raise (.sliceBounds first last) else return (first, last)

/-- An operator between two numbers. Of two integers, the second one must not be zero in a
division. -/
def numeric (op : InfixOperator) (l r : Value) : Eval Value :=
  let unsupported : Eval Value := raise (.unsupportedInfix op.symbol l.kind r.kind)
  match l.toFloat?, r.toFloat? with
  | some x, some y =>
    match compareFloats x y op with
    | some b => return .boolean b
    | none =>
      if op.divides && r.isZero then raise .divideByZero
      else
        match l, r with
        | .integer a, .integer b => do
          insist alarm (op.divides → b ≠ 0)
          match integerArithmetic a b op with
          | some n => return .integer n
          | none => unsupported
        | _, _ =>
          match floatArithmetic x y op with
          | some z => return .float z
          | none => unsupported
  | _, _ => unsupported

/-- An operator between two values. -/
def binary (op : InfixOperator) (l r : Value) : Eval Value :=
  match op with
  | .and | .or => consult (applyInfix · op l r)
  | _ => if l.isNumber && r.isNumber then numeric alarm op l r else consult (applyInfix · op l r)

/-- The value that an assignment stores. -/
def compound (op : AssignOperator) (old new : Value) : Eval Value :=
  match op.arithmetic? with
  | some arithmetic =>
    if old.isNumber && new.isNumber then numeric alarm arithmetic old new
    else consult (applyAssign · op old new)
  | none => consult (applyAssign · op old new)

/-! ### Elements -/

/-- The element of an array at a place where there has to be one. -/
def element (a : ArrayId) (p : Nat) : Eval Value := do
  let found ← consult fun h => .ok (h.arrays.get? a p)
  insist alarm found.isSome
  return found.getD .null

/-- Replaces the element of an array at a place where there has to be one, and gives the old one. -/
def replace (a : ArrayId) (p : Nat) (x : Value) : Eval Value := do
  let old ← onHeap fun h => h.onArrays (·.set a p x)
  insist alarm old.isSome
  return old.getD .null

/-- The table of a hash. The place of a key in it has to be that of an entry. -/
def tableFor (id : HashId) (k : Key) : Eval Table := do
  let t ← consult fun h => .ok (h.table id)
  insist alarm (t.index[k]?.all (· < t.entries.size))
  return t

/-- The element of a hash. -/
def entry (id : HashId) (name : Value) : Eval Value := do
  let k ← ofExcept name.key
  let t ← tableFor alarm id k
  return (t.find? k).getD .null

/-- The element under an index or key. -/
def read (container index : Value) : Eval Value :=
  match container with
  | .array a => do
    let length ← consult fun h => .ok (h.arrays.length a)
    match ← place alarm length index false with
    | .ok p => element alarm a p
    | .error (.indexOutOfRange _ _ _) => return .null
    | .error e => raise e
  | .text s => do
    match ← place alarm s.utf8ByteSize index false with
    | .ok p => do
      insist alarm (Text.byteAt? s p).isSome
      return .text (String.singleton (Char.ofNat ((Text.byteAt? s p).getD 0).toNat))
    | .error (.indexOutOfRange _ _ _) => return .null
    | .error e => raise e
  | .hash id => entry alarm id index
  | other => raise (.notIndexable other.kind)

/-- The elements between two indices. -/
def slice (container low : Value) (high : Option Value) : Eval Value :=
  match container with
  | .array a => do
    let length ← consult fun h => .ok (h.arrays.length a)
    let (first, last) ← bounds alarm length low high
    onHeap (·.newView a first last)
  | .text s => do
    let (first, last) ← bounds alarm s.utf8ByteSize low high
    insist alarm (first ≤ last ∧ last ≤ s.utf8ByteSize)
    return .text (Text.cut s first last)
  | other => raise (.notIndexable other.kind)

/-- Stores to the element under an index or key. -/
def store (container index : Value) (op : AssignOperator) (value : Value) : Eval Value :=
  match container with
  | .array a => do
    let length ← consult fun h => .ok (h.arrays.length a)
    let p ← ofExcept (← place alarm length index false)
    let old ← element alarm a p
    let new ← compound alarm op old value
    let _ ← replace alarm a p new
    return new
  | .hash id => do
    let new ← match op with
      | .assign => pure value
      | _ => do
        let old ← entry alarm id index
        compound alarm op old value
    let k ← ofExcept index.key
    let _ ← tableFor alarm id k
    onHeap fun h => (new, h.modifyTable id fun t => (t.put k index new).2)
  | .text _ => raise .immutableText
  | other => raise (.notIndexable other.kind)

/-- Deletes the element under an index or key. -/
def remove (container index : Value) : Eval Value :=
  match container with
  | .array a => do
    let length ← consult fun h => .ok (h.arrays.length a)
    let p ← ofExcept (← place alarm length index false)
    replace alarm a p .null
  | .hash id => do
    let k ← ofExcept index.key
    let t ← tableFor alarm id k
    onHeap fun h => ((t.find? k).getD .null, h.modifyTable id fun t => (t.erase k).2)
  | other => raise (.notIndexable other.kind)

/-- Enters a value into a new table. -/
def put (t : Table) (k : Key) (name value : Value) : Eval Table := do
  insist alarm (t.index[k]?.all (· < t.entries.size))
  return (t.put k name value).2

/-! ### Calls -/

/-- Appends values to an array. Each of them goes to a slot of the storage, or right behind the last
one. -/
def pushAll (a : ArrayId) : List Value → Eval Unit
  | [] => pure ()
  | v :: vs => do
    let room ← consult fun h =>
      .ok ((h.arrays.view a).start + h.arrays.length a ≤ (h.arrays.slots a).size : Bool)
    insist alarm room
    let _ ← onHeap fun h => h.onArrays (·.push a v)
    pushAll a vs

/-- Calls a method. -/
def method (object : Value) (name : String) (args : List Value) : Eval Value :=
  match object, name with
  | .array a, "push" => do
    pushAll alarm a args
    consult fun h => .ok (.integer (Int64.ofNat (h.arrays.length a)))
  | object, name => act (Heap.callMethod object name args)

/-- The first argument, which has to be there. -/
def argument (args : List Value) : Eval Value := do
  insist alarm (0 < args.length)
  return args.headD .null

/-- What a builtin function does, whatever the number of its arguments. -/
def perform (b : Builtin) (args : List Value) : Eval Value :=
  match b with
  | .len => do lengthOf (← argument alarm args)
  | .number => do ofExcept (toNumber (← argument alarm args))
  | .string => do
    let v ← argument alarm args
    consult fun h => .ok (.text (h.render v))
  | .int => do
    let v ← argument alarm args
    consult fun h => toInteger h v
  | .now => do return .text (← readClock)
  | .print => printLine args

/-- Calls a builtin function. -/
def builtin (b : Builtin) (args : List Value) : Eval Value :=
  match b.arity? with
  | some n => if n = args.length then perform alarm b args else raise (.argumentCount n args.length)
  | none => perform alarm b args

/-! ### The guards do not matter -/

variable {alarm : Eval Unit} {α β : Type} {m : Machine}

/-- A guard that holds is passed. -/
theorem insist_bind {condition : Prop} [Decidable condition] (holds : condition)
    (next : Unit → Eval α) : (insist alarm condition >>= next) = next () := by
  rw [insist_of holds]
  rfl

theorem pure_bind (a : α) (next : α → Eval β) : ((pure a : Eval α) >>= next) = next a := rfl

theorem bind_of_done {p : Eval α} {next : α → Eval β} {a : α} {n : Machine}
    (ran : p m = .done a n) : (p >>= next) m = next a n := by
  rw [Attempt.bind_run, ran]

theorem bind_of_failed {p : Eval α} {next : α → Eval β} {stop : Stop} {n : Machine}
    (ran : p m = .failed stop n) : (p >>= next) m = .failed stop n := by
  rw [Attempt.bind_run, ran]

theorem consult_of_ok {look : Heap → Except RuntimeError α} {a : α}
    (looked : look m.heap = .ok a) : consult look m = .done a m := by
  unfold Machine.consult
  rw [looked]

theorem consult_of_error {look : Heap → Except RuntimeError α} {e : RuntimeError}
    (looked : look m.heap = .error e) : consult look m = .failed (.error e) m := by
  unfold Machine.consult
  rw [looked]

theorem commit_of_ok {work : Heap → Except RuntimeError (Value × Change)} {v : Value} {c : Change}
    (worked : work m.heap = .ok (v, c)) :
    commit work m = .done v { m with heap := m.heap.perform c } := by
  unfold Machine.commit
  rw [worked]

theorem commit_of_error {work : Heap → Except RuntimeError (Value × Change)} {e : RuntimeError}
    (worked : work m.heap = .error e) : commit work m = .failed (.error e) m := by
  unfold Machine.commit
  rw [worked]

theorem insistInRange_bind {length : Nat} {i : Int} (holds : length < 2 ^ 63 - 1 → InRange i)
    (next : Unit → Eval α) : (insistInRange alarm length i >>= next) = next () :=
  insist_bind holds next

theorem place_eq (length : Nat) (index : Value) (asEnd : Bool) :
    place alarm length index asEnd = pure (Scripting.place length index asEnd) := by
  cases index with
  | integer n =>
    have low := n.le_toInt
    have high := n.toInt_lt
    unfold place Scripting.place
    dsimp only
    generalize n.toInt = i at low high
    have reach : 0 ≤ (length : Int) + (if asEnd then 1 else 0) ∧
        (length < 2 ^ 63 - 1 → (length : Int) + (if asEnd then 1 else 0) < 2 ^ 63) := by
      split <;> omega
    generalize (length : Int) + (if asEnd then 1 else 0) = limit at reach
    have ends : length < 2 ^ 63 - 1 → InRange limit ∧ InRange (limit - 1) ∧ InRange (-limit) := by
      unfold InRange
      omega
    have moved : length < 2 ^ 63 - 1 → InRange (if i < 0 then i + limit else i) := by
      unfold InRange
      split <;> omega
    rw [insistInRange_bind fun small => (ends small).1, insistInRange_bind moved]
    generalize (if i < 0 then i + limit else i) = p
    split
    · rw [insistInRange_bind fun small => (ends small).2.1]
    · split
      · rw [insistInRange_bind fun small => (ends small).2.2]
      · rfl
  | _ => rfl

theorem bounds_eq (length : Nat) (low : Value) (high : Option Value) :
    bounds alarm length low high = ofExcept (sliceBounds length low high) := by
  have ordered : ∀ first last : Nat,
      (if last < first then raise (.sliceBounds first last) else pure (first, last)) =
        ofExcept (if last < first then do
            throw (RuntimeError.sliceBounds first last)
            pure (first, last)
          else pure (first, last)) := by
    intro first last
    split <;> rfl
  unfold bounds sliceBounds
  rw [place_eq, pure_bind]
  cases Scripting.place length low false with
  | error e => rfl
  | ok first =>
    cases high with
    | none => exact ordered first length
    | some v =>
      dsimp only
      rw [place_eq]
      cases Scripting.place length v true with
      | error e => rfl
      | ok last => exact ordered first last

/-- What is divided by has been found not to be zero. -/
theorem ne_zero_of_guard {op : InfixOperator} {b : Int64}
    (passed : ¬(op.divides && (Value.integer b).isZero)) : op.divides → b ≠ 0 := by
  rintro divides rfl
  exact passed (by rw [divides]; rfl)

theorem numeric_eq (op : InfixOperator) (l r : Value) :
    numeric alarm op l r = ofExcept (applyNumeric op l r) := by
  unfold numeric applyNumeric
  dsimp only
  cases l.toFloat? with
  | none => rfl
  | some x =>
    cases r.toFloat? with
    | none => rfl
    | some y =>
      dsimp only
      cases compareFloats x y op with
      | some b => rfl
      | none =>
        dsimp only
        by_cases guard : op.divides && r.isZero
        · rw [if_pos guard, if_pos guard]
          rfl
        · rw [if_neg guard, if_neg guard]
          cases l with
          | integer a =>
            cases r with
            | integer b =>
              dsimp only
              rw [insist_bind (ne_zero_of_guard guard)]
              cases integerArithmetic a b op <;> rfl
            | _ => cases floatArithmetic x y op <;> rfl
          | _ => cases floatArithmetic x y op <;> rfl

/-- What is worked out without a look at the heap. -/
theorem ofExcept_eq_consult (r : Except RuntimeError α) :
    (Machine.ofExcept r : Eval α) = consult fun _ => r := by
  cases r <;> rfl

theorem binary_eq (op : InfixOperator) (l r : Value) :
    binary alarm op l r = consult (applyInfix · op l r) := by
  cases op with
  | and | or => rfl
  | _ =>
    unfold binary
    dsimp only
    by_cases numbers : l.isNumber && r.isNumber
    · rw [if_pos numbers, numeric_eq, ofExcept_eq_consult]
      unfold applyInfix
      dsimp only
      simp only [if_pos numbers]
    · rw [if_neg numbers]

theorem compound_eq (op : AssignOperator) (old new : Value) :
    compound alarm op old new = consult (applyAssign · op old new) := by
  unfold compound
  cases arithmetic : op.arithmetic? with
  | none => rfl
  | some operator =>
    dsimp only
    by_cases numbers : old.isNumber && new.isNumber
    · rw [if_pos numbers, numeric_eq, ofExcept_eq_consult]
      unfold applyAssign
      simp only [arithmetic, if_pos numbers]
    · rw [if_neg numbers]

theorem element_run (intact : m.heap.Intact) {a : ArrayId} (leads : m.heap.Leads (.array a))
    {p : Nat} (inside : p < m.heap.arrays.length a) :
    element alarm a p m = .done ((m.heap.arrays.get? a p).getD .null) m := by
  have there := intact.arrays.get?_isSome leads.array_mem inside
  change (insist alarm (m.heap.arrays.get? a p).isSome >>= _) m = _
  rw [insist_bind there]
  rfl

theorem replace_run (intact : m.heap.Intact) {a : ArrayId} (leads : m.heap.Leads (.array a))
    {p : Nat} (inside : p < m.heap.arrays.length a) (x : Value) :
    replace alarm a p x m = .done ((m.heap.arrays.get? a p).getD .null)
      { m with heap := m.heap.perform (.element a p x) } := by
  have there := intact.arrays.get?_isSome leads.array_mem inside
  have old : (m.heap.arrays.set a p x).1 = m.heap.arrays.get? a p := by
    rw [ArrayStore.set_eq]
  rw [← old] at there ⊢
  change (insist alarm (m.heap.arrays.set a p x).1.isSome >>= _)
    { m with heap := m.heap.perform (.element a p x) } = _
  rw [insist_bind there]
  rfl

theorem indexed_all {t : Table} (indexed : t.Indexed) (k : Key) :
    t.index[k]?.all (· < t.entries.size) := by
  cases found : t.index[k]? with
  | none => rfl
  | some i => exact decide_eq_true (indexed.lt_size found)

theorem tableFor_run (intact : m.heap.Intact) (id : HashId) (k : Key) :
    tableFor alarm id k m = .done (m.heap.table id) m := by
  change (insist alarm _ >>= fun _ => pure (m.heap.table id) : Eval Table) m = _
  rw [insist_bind (indexed_all (intact.tables id) k)]
  rfl

theorem entry_run (intact : m.heap.Intact) (id : HashId) (name : Value) :
    entry alarm id name m = consult (·.read (.hash id) name) m := by
  unfold entry Machine.consult Heap.read Table.get
  cases name.key with
  | error e => rfl
  | ok k =>
    change (tableFor alarm id k >>= fun t => pure ((t.find? k).getD .null) : Eval Value) m = _
    rw [Attempt.bind_run, tableFor_run intact]
    rfl

theorem byteAt?_isSome {s : String} {p : Nat} (inside : p < s.utf8ByteSize) :
    (Text.byteAt? s p).isSome := by
  have before : (⟨p⟩ : String.Pos.Raw) < s.rawEndPos := inside
  unfold Text.byteAt?
  rw [dif_pos before]
  rfl

theorem read_run (intact : m.heap.Intact) {container : Value} (leads : m.heap.Leads container)
    (index : Value) : read alarm container index m = consult (·.read container index) m := by
  cases container with
  | array a =>
    change (place alarm (m.heap.arrays.length a) index false >>= _ : Eval Value) m = _
    unfold Machine.consult Heap.read placeWithin
    dsimp only
    rw [place_eq, pure_bind]
    cases found : Scripting.place (m.heap.arrays.length a) index false with
    | ok p => exact element_run intact leads (Discipline.place_lt found)
    | error e => cases e <;> rfl
  | text s =>
    change (place alarm s.utf8ByteSize index false >>= _ : Eval Value) m = _
    unfold Machine.consult Heap.read placeWithin
    dsimp only
    rw [place_eq, pure_bind]
    cases found : Scripting.place s.utf8ByteSize index false with
    | ok p =>
      have there := byteAt?_isSome (Discipline.place_lt found)
      dsimp only
      rw [insist_bind there]
      obtain ⟨b, byte⟩ := Option.isSome_iff_exists.mp there
      simp [byte, bind, Except.bind, pure, Except.pure, Attempt.pure]
    | error e => cases e <;> rfl
  | hash id => exact entry_run intact id index
  | _ => rfl

theorem slice_run (container low : Value) (high : Option Value) :
    slice alarm container low high m = sliceOf container low high m := by
  unfold sliceOf
  rw [Attempt.bind_run]
  unfold Machine.consult Heap.cut
  cases container with
  | array a =>
    change (bounds alarm (m.heap.arrays.length a) low high >>= _ : Eval Value) m = _
    rw [bounds_eq]
    dsimp only
    cases sliceBounds (m.heap.arrays.length a) low high <;> rfl
  | text s =>
    change (bounds alarm s.utf8ByteSize low high >>= _ : Eval Value) m = _
    rw [bounds_eq]
    dsimp only
    cases found : sliceBounds s.utf8ByteSize low high with
    | error e => rfl
    | ok ends =>
      change (insist alarm (ends.1 ≤ ends.2 ∧ ends.2 ≤ s.utf8ByteSize) >>= _ : Eval Value) m = _
      rw [insist_bind (sliceBounds_ordered found)]
      rfl
  | _ => rfl

theorem put_eq {t : Table} (indexed : t.Indexed) (k : Key) (name value : Value) :
    put alarm t k name value = pure (t.put k name value).2 :=
  insist_bind (indexed_all indexed k) _

theorem storeElement_run (intact : m.heap.Intact) {a : ArrayId} (leads : m.heap.Leads (.array a))
    (index : Value) (op : AssignOperator) (value : Value) :
    store alarm (.array a) index op value m =
      commit (·.assignment (.array a) index op value) m := by
  have located : store alarm (.array a) index op value m = (do
      let p ← ofExcept (Scripting.place (m.heap.arrays.length a) index false)
      let old ← element alarm a p
      let new ← compound alarm op old value
      let _ ← replace alarm a p new
      return new : Eval Value) m := by
    change (place alarm (m.heap.arrays.length a) index false >>= _ : Eval Value) m = _
    rw [place_eq, pure_bind]
  rw [located]
  cases found : Scripting.place (m.heap.arrays.length a) index false with
  | error e =>
    rw [commit_of_error (e := e) (by simp [Heap.assignment, found, bind, Except.bind])]
    rfl
  | ok p =>
    have inside := Discipline.place_lt found
    change (element alarm a p >>= _ : Eval Value) m = _
    rw [bind_of_done (element_run intact leads inside), compound_eq]
    cases worked : applyAssign m.heap op ((m.heap.arrays.get? a p).getD .null) value with
    | error e =>
      rw [bind_of_failed (consult_of_error worked),
        commit_of_error (e := e) (by simp [Heap.assignment, found, worked, bind, Except.bind])]
    | ok new =>
      rw [bind_of_done (consult_of_ok worked), bind_of_done (replace_run intact leads inside new),
        commit_of_ok (v := new) (c := .element a p new)
          (by simp [Heap.assignment, found, worked, bind, Except.bind, pure, Except.pure])]
      rfl

/-- The entry is made once the value to store is known. -/
theorem storeEntry_run (intact : m.heap.Intact) (id : HashId) (index new : Value) :
    (do
      let k ← ofExcept index.key
      let _ ← tableFor alarm id k
      onHeap fun h => (new, h.modifyTable id fun t => (t.put k index new).2) : Eval Value) m =
    commit (fun _ => index.key.map fun k => (new, .entry id k index new)) m := by
  cases hashed : index.key with
  | error e => rfl
  | ok k =>
    change (tableFor alarm id k >>= _ : Eval Value) m = _
    rw [bind_of_done (tableFor_run intact id k)]
    rfl

/-- A compound assignment to an element of a hash reads it first. -/
theorem assignment_hash {op : AssignOperator} (compound : op ≠ .assign) (h : Heap) (id : HashId)
    (index value : Value) :
    h.assignment (.hash id) index op value = (do
      let old ← h.read (.hash id) index
      let new ← applyAssign h op old value
      index.key.map fun k => (new, .entry id k index new)) := by
  unfold Heap.assignment Heap.read
  cases op with
  | assign => exact absurd rfl compound
  | _ =>
    dsimp only
    cases (h.table id).get index with
    | error e => rfl
    | ok old =>
      dsimp only [bind, Except.bind, pure, Except.pure]
      cases applyAssign h _ (old.getD .null) value with
      | error e => rfl
      | ok new => cases index.key <;> rfl

theorem storeCompound_run (intact : m.heap.Intact) (id : HashId) {op : AssignOperator}
    (other : op ≠ .assign) (index value : Value) :
    store alarm (.hash id) index op value m =
      commit (·.assignment (.hash id) index op value) m := by
  have worked : store alarm (.hash id) index op value = (do
      let old ← entry alarm id index
      let new ← compound alarm op old value
      let k ← ofExcept index.key
      let _ ← tableFor alarm id k
      onHeap fun h => (new, h.modifyTable id fun t => (t.put k index new).2)) := by
    cases op with
    | assign => exact absurd rfl other
    | _ => rfl
  rw [worked, funext fun h => assignment_hash other h id index value]
  cases looked : m.heap.read (.hash id) index with
  | error e =>
    rw [bind_of_failed ((entry_run intact id index).trans (consult_of_error looked)),
      commit_of_error (e := e) (by simp [looked, bind, Except.bind])]
  | ok old =>
    rw [bind_of_done ((entry_run intact id index).trans (consult_of_ok looked)), compound_eq]
    cases applied : applyAssign m.heap op old value with
    | error e =>
      rw [bind_of_failed (consult_of_error applied),
        commit_of_error (e := e) (by simp [looked, applied, bind, Except.bind])]
    | ok new =>
      rw [bind_of_done (consult_of_ok applied), storeEntry_run intact]
      unfold Machine.commit
      simp [looked, applied, bind, Except.bind]

theorem store_run (intact : m.heap.Intact) {container : Value} (leads : m.heap.Leads container)
    (index : Value) (op : AssignOperator) (value : Value) :
    store alarm container index op value m =
      commit (·.assignment container index op value) m := by
  cases container with
  | array a => exact storeElement_run intact leads index op value
  | hash id =>
    by_cases plain : op = .assign
    · subst plain
      refine (storeEntry_run intact id index value).trans ?_
      unfold Machine.commit Heap.assignment
      cases index.key <;> rfl
    · exact storeCompound_run intact id plain index value
  | _ => rfl

theorem remove_run (intact : m.heap.Intact) {container : Value} (leads : m.heap.Leads container)
    (index : Value) :
    remove alarm container index m = commit (·.deletion container index) m := by
  cases container with
  | array a =>
    have located : remove alarm (.array a) index m = (do
        let p ← ofExcept (Scripting.place (m.heap.arrays.length a) index false)
        replace alarm a p .null : Eval Value) m := by
      change (place alarm (m.heap.arrays.length a) index false >>= _ : Eval Value) m = _
      rw [place_eq, pure_bind]
    rw [located]
    unfold Machine.commit Heap.deletion
    dsimp only
    cases found : Scripting.place (m.heap.arrays.length a) index false with
    | error e => rfl
    | ok p => exact replace_run intact leads (Discipline.place_lt found) .null
  | hash id =>
    unfold Machine.commit Heap.deletion
    dsimp only
    change (ofExcept index.key >>= _ : Eval Value) m = _
    cases index.key with
    | error e => rfl
    | ok k =>
      change (tableFor alarm id k >>= _ : Eval Value) m = _
      rw [bind_of_done (tableFor_run intact id k)]
      rfl
  | _ => rfl

theorem pushAll_run (intact : m.heap.Intact) {a : ArrayId} (leads : m.heap.Leads (.array a))
    {args : List Value} (given : ∀ v ∈ args, m.heap.Leads v) {h : Heap}
    (pushed : Heap.pushAll a args m.heap = .done () h) :
    pushAll alarm a args m = .done () { m with heap := h } := by
  induction args generalizing m with
  | nil =>
    cases pushed
    rfl
  | cons v vs ih =>
    have room : decide ((m.heap.arrays.view a).start + m.heap.arrays.length a ≤
        (m.heap.arrays.slots a).size) = true :=
      decide_eq_true (intact.arrays.fits a leads.array_mem)
    have step := Heap.keepingIntact.push intact leads (given v List.mem_cons_self)
    change (insist alarm (decide ((m.heap.arrays.view a).start + m.heap.arrays.length a ≤
        (m.heap.arrays.slots a).size)) >>= _ : Eval Unit) m = _
    rw [insist_bind room]
    exact ih (m := { m with heap := (m.heap.onArrays (·.push a v)).2 }) step.1
      (Heap.keepingIntact.allowed_mono step.2 leads)
      (fun w member => Heap.keepingIntact.allowed_mono step.2
        (given w (List.mem_cons_of_mem v member))) pushed

theorem method_run (intact : m.heap.Intact) {object : Value} (leads : m.heap.Leads object)
    (name : String) {args : List Value} (given : ∀ v ∈ args, m.heap.Leads v) :
    method alarm object name args m = act (Heap.callMethod object name args) m := by
  fun_cases method alarm object name args with
  | case1 a =>
    obtain ⟨h, pushed⟩ := Heap.pushAll_done m.heap a args
    rw [bind_of_done (pushAll_run intact leads given pushed)]
    have whole : Heap.callMethod (.array a) "push" args m.heap =
        .done (.integer (Int64.ofNat (h.arrays.length a))) h := by
      change (Heap.pushAll a args >>= _ : Heap.Action Value) m.heap = _
      rw [Attempt.bind_run, pushed]
      rfl
    unfold Machine.act
    dsimp only
    rw [whole]
    rfl
  | case2 => rfl

theorem builtin_eq (b : Builtin) (args : List Value) :
    builtin alarm b args = Evaluation.callBuiltin b args := by
  cases b with
  | print => rfl
  | now => cases args <;> rfl
  | _ =>
    cases args with
    | nil => rfl
    | cons v rest => cases rest <;> rfl

end Strict

namespace Primitives

/-- Evaluation with an alarm at every partial operation. -/
def strict (alarm : Eval Unit) : Primitives :=
  { standard with
    put := Strict.put alarm
    binary := Strict.binary alarm
    compound := Strict.compound alarm
    read := Strict.read alarm
    slice := Strict.slice alarm
    store := Strict.store alarm
    remove := Strict.remove alarm
    method := Strict.method alarm
    builtin := Strict.builtin alarm }

/-- On a heap that is intact no operation leaves its domain. -/
theorem fits_strict (alarm : Eval Unit) :
    (Coupling.identity Heap.keepingIntact).Fits (strict alarm) := by
  have fits := Coupling.fits_identity (D := Heap.keepingIntact)
  refine { fits with put := ?_, binary := ?_, compound := ?_, read := ?_, slice := ?_, store := ?_,
                     remove := ?_, method := ?_, builtin := ?_ }
  · intro h f t k name v ready table named value
    apply (fits.put ready table named value).of_eq
    intro m _ _
    exact congrFun (Strict.put_eq table.indexed k name v) m
  · intro h f op x y ready left right
    apply (fits.binary ready left right).of_eq
    intro m _ _
    exact congrFun (Strict.binary_eq op x y) m
  · intro h f op old v ready before operand
    apply (fits.compound ready before operand).of_eq
    intro m _ _
    exact congrFun (Strict.compound_eq op old v) m
  · intro h f c k ready container key
    apply (fits.read ready container key).of_eq
    rintro m rfl _
    exact Strict.read_run ready.sound container k
  · intro h f c low high ready container
    apply (fits.slice ready container).of_eq
    intro m _ _
    exact Strict.slice_run c low high
  · intro h f c k op v ready container key operand
    apply (fits.store ready container key operand).of_eq
    rintro m rfl _
    exact Strict.store_run ready.sound container k op v
  · intro h f c k ready container
    apply (fits.remove ready container).of_eq
    rintro m rfl _
    exact Strict.remove_run ready.sound container k
  · intro h f object name args ready leads given
    apply (fits.method ready leads given).of_eq
    rintro m rfl _
    exact Strict.method_run ready.sound leads name given
  · intro h f b args ready given
    apply (fits.builtin ready given).of_eq
    intro m _ _
    exact congrFun (Strict.builtin_eq b args) m

end Primitives

namespace Machine

/-- In every session, whatever code is evaluated next, evaluation with an alarm at every partial
operation is evaluation without, whatever the alarm does: no operation ever leaves its domain. -/
theorem no_partial_operation_outside_domain {m : Machine} (session : Session m) (piece : Piece)
    (code : piece.isCode) (fuel : Nat) (alarm : Eval Unit) :
    (Primitives.strict alarm).evaluation fuel piece m = piece.evaluation fuel m :=
  piece.evaluation_eq (Primitives.fits_strict alarm) fuel session.intact
    (Piece.allowed_of_isCode code _ _)

/-- A program makes an array of one element, and the next one reads that element from the end. -/
theorem no_partial_operation_outside_domain_at_last_element :
    let first : Piece := .program ⟨[.letBinding () ⟨"a", ()⟩ (.array () [.literal () .null])]⟩
    let second : Piece := .expression (.index () (.identifier () ⟨"a", ()⟩)
      (.literal () (.integer (-1))))
    ∃ m₁ m₂, (new fun _ => "").complete (first.evaluation 9) = some (.value (.array 0), m₁) ∧
      second.evaluation 9 m₁ = .done .null m₂ ∧
      ∀ alarm, (Primitives.strict alarm).evaluation 9 second m₁ = .done .null m₂ := by
  intro first second
  have ran : ∃ m₁ m₂, (new fun _ => "").complete (first.evaluation 9) =
      some (.value (.array 0), m₁) ∧ second.evaluation 9 m₁ = .done .null m₂ := ⟨_, _, rfl, rfl⟩
  obtain ⟨m₁, m₂, made, read⟩ := ran
  have session : Session m₁ := .evaluate first 9 (.start _) rfl made
  refine ⟨m₁, m₂, made, read, fun alarm => ?_⟩
  rw [no_partial_operation_outside_domain session second rfl 9 alarm, read]

end Machine

end Scripting
