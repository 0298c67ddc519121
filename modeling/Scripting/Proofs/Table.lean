import Mathlib.Data.Finset.Card
import Scripting.Table

/-!
# Tables are maps that remember the order of arrival

A table keeps its entries in order and, beside them, an index from keys to places. `Table.Indexed`
says that the two agree: the index holds exactly the key of each entry, with the place of that
entry. Every operation keeps them in agreement, so a table behaves like its list of entries alone,
searched by key.
-/

namespace Scripting

namespace Table

/-- The index holds the place of each entry under its key, and nothing else. -/
def Indexed (t : Table) : Prop :=
  ∀ (k : Key) (i : Nat), t.index[k]? = some i ↔ ∃ e, t.entries[i]? = some e ∧ e.key = k

/-- No two places hold entries with one key. -/
def DistinctKeys (entries : Array Entry) : Prop :=
  ∀ (i j : Nat) (d e : Entry), entries[i]? = some d → entries[j]? = some e → d.key = e.key → i = j

variable {t : Table} {k : Key}

namespace Indexed

theorem distinct (indexed : t.Indexed) : DistinctKeys t.entries := by
  intro i j d e first second same
  have atFirst := (indexed e.key i).mpr ⟨d, first, same⟩
  have atSecond := (indexed e.key j).mpr ⟨e, second, rfl⟩
  rw [atFirst] at atSecond
  exact Option.some.inj atSecond

theorem keys_nodup (indexed : t.Indexed) : (t.entries.toList.map Entry.key).Nodup := by
  rw [List.nodup_iff_getElem?_ne_getElem?]
  intro i j before inside
  rw [List.length_map, Array.length_toList] at inside
  simp only [List.getElem?_map, Array.getElem?_toList]
  rw [Array.getElem?_eq_getElem inside, Array.getElem?_eq_getElem (Nat.lt_trans before inside)]
  intro same
  have equal := indexed.distinct _ _ _ _ (Array.getElem?_eq_getElem (Nat.lt_trans before inside))
    (Array.getElem?_eq_getElem inside) (Option.some.inj same)
  omega

/-- A place that the index names is one of the entries. -/
theorem lt_size (indexed : t.Indexed) {i : Nat} (found : t.index[k]? = some i) :
    i < t.entries.size := by
  obtain ⟨e, here, _⟩ := (indexed k i).mp found
  exact (Array.getElem?_eq_some_iff.mp here).1

/-- A key is missing from the index if and only if no entry has it. -/
theorem missing_iff (indexed : t.Indexed) :
    t.index[k]? = none ↔ ∀ e ∈ t.entries.toList, e.key ≠ k := by
  constructor
  · intro missing e member same
    obtain ⟨i, here⟩ := List.mem_iff_getElem?.mp member
    rw [Array.getElem?_toList] at here
    have found := (indexed k i).mpr ⟨e, here, same⟩
    rw [missing] at found
    cases found
  · intro absent
    cases found : t.index[k]? with
    | none => rfl
    | some i =>
      obtain ⟨e, here, same⟩ := (indexed k i).mp found
      rw [← Array.getElem?_toList] at here
      exact absurd same (absent e (List.mem_of_getElem? here))

/-- A key that an entry has is in the index, with the number of entries before it. -/
theorem index_of_split (indexed : t.Indexed) {before after : List Entry} {e : Entry}
    (split : t.entries.toList = before ++ e :: after) :
    t.index[e.key]? = some before.length ∧ t.entries[before.length]? = some e := by
  have here : t.entries[before.length]? = some e := by
    rw [← Array.getElem?_toList, split]
    simp
  exact ⟨(indexed e.key before.length).mpr ⟨e, here, rfl⟩, here⟩

/-! ## Looking up -/

theorem find?_of_split (indexed : t.Indexed) {before after : List Entry} {e : Entry}
    (split : t.entries.toList = before ++ e :: after) : t.find? e.key = some e.value := by
  obtain ⟨found, here⟩ := indexed.index_of_split split
  simp [find?, found, here]

theorem find?_of_absent (indexed : t.Indexed) (absent : ∀ e ∈ t.entries.toList, e.key ≠ k) :
    t.find? k = none := by
  simp [find?, indexed.missing_iff.mpr absent]

/-- A key is in use by an entry or by none. -/
theorem split_or_absent (entries : List Entry) (k : Key) :
    (∃ before e after, entries = before ++ e :: after ∧ e.key = k) ∨
      ∀ e ∈ entries, e.key ≠ k := by
  by_cases used : ∃ e ∈ entries, e.key = k
  · obtain ⟨e, member, same⟩ := used
    obtain ⟨before, after, split⟩ := List.append_of_mem member
    exact .inl ⟨before, e, after, split, same⟩
  · exact .inr fun e member same => used ⟨e, member, same⟩

theorem find?_eq_some_iff (indexed : t.Indexed) {v : Value} :
    t.find? k = some v ↔ ∃ e ∈ t.entries.toList, e.key = k ∧ e.value = v := by
  rcases split_or_absent t.entries.toList k with ⟨before, e, after, split, rfl⟩ | absent
  · rw [indexed.find?_of_split split]
    have member : e ∈ t.entries.toList := by rw [split]; simp
    constructor
    · intro same
      exact ⟨e, member, rfl, Option.some.inj same⟩
    · rintro ⟨d, other, same, rfl⟩
      obtain ⟨i, atI⟩ := List.mem_iff_getElem?.mp member
      obtain ⟨j, atJ⟩ := List.mem_iff_getElem?.mp other
      have equal := indexed.distinct j i d e (by rwa [← Array.getElem?_toList])
        (by rwa [← Array.getElem?_toList]) same
      rw [equal, atI] at atJ
      cases atJ
      rfl
  · rw [indexed.find?_of_absent absent]
    constructor
    · intro impossible
      cases impossible
    · rintro ⟨e, member, same, _⟩
      exact absurd same (absent e member)

/-! ## Storing -/

theorem put_of_split (indexed : t.Indexed) {before after : List Entry} {e : Entry}
    (split : t.entries.toList = before ++ e :: after) (name value : Value) :
    (t.put e.key name value).1 = some e.value ∧
      (t.put e.key name value).2.entries.toList = before ++ ⟨e.key, name, value⟩ :: after := by
  obtain ⟨found, here⟩ := indexed.index_of_split split
  simp [put, found, here, split]

theorem put_of_absent (indexed : t.Indexed) (absent : ∀ e ∈ t.entries.toList, e.key ≠ k)
    (name value : Value) :
    (t.put k name value).1 = none ∧
      (t.put k name value).2.entries.toList = t.entries.toList ++ [⟨k, name, value⟩] := by
  simp [put, indexed.missing_iff.mpr absent]

protected theorem put (indexed : t.Indexed) (k : Key) (name value : Value) :
    (t.put k name value).2.Indexed := by
  intro l j
  cases found : t.index[k]? with
  | some i =>
    have inside := indexed.lt_size found
    obtain ⟨old, here, same⟩ := (indexed k i).mp found
    simp only [put, found, Array.getElem?_setIfInBounds]
    rw [indexed l j]
    by_cases place : i = j
    · subst place
      rw [if_pos rfl, if_pos inside, here]
      constructor
      · rintro ⟨e, equal, rfl⟩
        cases equal
        exact ⟨_, rfl, same.symm⟩
      · rintro ⟨e, equal, rfl⟩
        cases equal
        exact ⟨old, rfl, same⟩
    · rw [if_neg place]
  | none =>
    have absent := indexed.missing_iff.mp found
    simp only [put, found, Std.HashMap.getElem?_insert, Array.getElem?_push]
    by_cases same : k = l
    · subst same
      simp only [beq_self_eq_true, if_true, Option.some.injEq]
      constructor
      · rintro rfl
        exact ⟨_, if_pos rfl, rfl⟩
      · rintro ⟨e, here, key⟩
        by_cases last : j = t.entries.size
        · exact last.symm
        · rw [if_neg last, ← Array.getElem?_toList] at here
          exact absurd key (absent e (List.mem_of_getElem? here))
    · have different : (k == l) = false := by simpa using same
      rw [different, if_neg Bool.false_ne_true, indexed l j]
      by_cases last : j = t.entries.size
      · subst last
        rw [if_pos rfl, Array.getElem?_eq_none (Nat.le_refl _)]
        constructor
        · rintro ⟨e, impossible, _⟩
          cases impossible
        · rintro ⟨e, here, key⟩
          cases here
          exact absurd key same
      · rw [if_neg last]

/-! ## Taking out -/

theorem insertAll_of_absent (places : List (Entry × Nat)) (index : Std.HashMap Key Nat)
    (absent : ∀ p ∈ places, p.1.key ≠ k) :
    (places.foldl (fun m p => m.insert p.1.key p.2) index)[k]? = index[k]? := by
  induction places generalizing index with
  | nil => rfl
  | cons p places ih =>
    have different : (p.1.key == k) = false := by simpa using absent p (by simp)
    rw [List.foldl_cons, ih _ (fun q member => absent q (List.mem_cons_of_mem _ member)),
      Std.HashMap.getElem?_insert, different, if_neg Bool.false_ne_true]

theorem insertAll_of_used (places : List (Entry × Nat)) (index : Std.HashMap Key Nat) {i : Nat}
    (used : ∃ p ∈ places, p.1.key = k) (unique : ∀ p ∈ places, p.1.key = k → p.2 = i) :
    (places.foldl (fun m p => m.insert p.1.key p.2) index)[k]? = some i := by
  induction places generalizing index with
  | nil =>
    obtain ⟨p, impossible, _⟩ := used
    cases impossible
  | cons q places ih =>
    rw [List.foldl_cons]
    by_cases again : ∃ p ∈ places, p.1.key = k
    · exact ih _ again fun p member => unique p (List.mem_cons_of_mem _ member)
    · obtain ⟨p, member, same⟩ := used
      have last : p = q := by
        rcases List.mem_cons.mp member with equal | later
        · exact equal
        · exact absurd ⟨p, later, same⟩ again
      subst last same
      rw [insertAll_of_absent _ _ (fun r later equal => again ⟨r, later, equal⟩),
        Std.HashMap.getElem?_insert_self, unique p member rfl]

theorem mem_drop_zipIdx (entries : List Entry) (low j : Nat) (e : Entry) :
    (e, j) ∈ entries.zipIdx.drop low ↔ low ≤ j ∧ entries[j]? = some e := by
  rw [List.mem_iff_getElem?]
  simp only [List.getElem?_drop, List.getElem?_zipIdx, Nat.zero_add, Option.map_eq_some_iff,
    Prod.mk.injEq]
  constructor
  · rintro ⟨n, d, here, rfl, rfl⟩
    exact ⟨Nat.le_add_right _ _, here⟩
  · rintro ⟨after, here⟩
    exact ⟨j - low, e, by rwa [Nat.add_sub_cancel' after], rfl, Nat.add_sub_cancel' after⟩

/-- The index after the places from `low` on were entered anew. -/
theorem getElem?_reindex {entries : Array Entry} {low : Nat} {index : Std.HashMap Key Nat}
    (distinct : DistinctKeys entries) (i : Nat) :
    (reindex entries low index)[k]? = some i ↔
      (∃ e, low ≤ i ∧ entries[i]? = some e ∧ e.key = k) ∨
        (∀ j e, low ≤ j → entries[j]? = some e → e.key ≠ k) ∧ index[k]? = some i := by
  unfold reindex
  by_cases used : ∃ j e, low ≤ j ∧ entries[j]? = some e ∧ e.key = k
  · obtain ⟨j, e, after, here, rfl⟩ := used
    have listed : (e, j) ∈ entries.toList.zipIdx.drop low :=
      (mem_drop_zipIdx _ _ _ _).mpr ⟨after, by rwa [Array.getElem?_toList]⟩
    have single : ∀ p ∈ entries.toList.zipIdx.drop low, p.1.key = e.key → p.2 = j := by
      rintro ⟨d, n⟩ member same
      obtain ⟨_, there⟩ := (mem_drop_zipIdx _ _ _ _).mp member
      rw [Array.getElem?_toList] at there
      exact distinct n j d e there here same
    rw [insertAll_of_used _ _ ⟨(e, j), listed, rfl⟩ single, Option.some.injEq]
    constructor
    · rintro rfl
      exact .inl ⟨e, after, here, rfl⟩
    · intro placed
      rcases placed with ⟨d, _, there, same⟩ | ⟨absent, _⟩
      · exact distinct j i e d here there same.symm
      · exact absurd rfl (absent j e after here)
  · have absent : ∀ j e, low ≤ j → entries[j]? = some e → e.key ≠ k :=
      fun j e after here same => used ⟨j, e, after, here, same⟩
    rw [insertAll_of_absent]
    · constructor
      · exact fun found => .inr ⟨absent, found⟩
      · intro placed
        rcases placed with ⟨e, after, here, same⟩ | ⟨_, found⟩
        · exact absurd same (absent i e after here)
        · exact found
    · rintro ⟨e, j⟩ member
      obtain ⟨after, here⟩ := (mem_drop_zipIdx _ _ _ _).mp member
      rw [Array.getElem?_toList] at here
      exact absent j e after here

theorem erase_of_split (indexed : t.Indexed) {before after : List Entry} {e : Entry}
    (split : t.entries.toList = before ++ e :: after) :
    (t.erase e.key).1 = some e.value ∧
      (t.erase e.key).2.entries.toList = before ++ after := by
  obtain ⟨found, here⟩ := indexed.index_of_split split
  have inside := indexed.lt_size found
  have value : t.entries[before.length]?.map (·.value) = some e.value := by rw [here]; rfl
  simp only [erase, found, value, Array.eraseIdxIfInBounds_eq, dif_pos inside,
    Array.toList_eraseIdx, split, true_and]
  rw [List.eraseIdx_append_of_length_le (Nat.le_refl _), Nat.sub_self]
  rfl

theorem erase_of_absent (indexed : t.Indexed) (absent : ∀ e ∈ t.entries.toList, e.key ≠ k) :
    t.erase k = (none, t) := by
  simp [erase, indexed.missing_iff.mpr absent]

protected theorem erase (indexed : t.Indexed) (k : Key) : (t.erase k).2.Indexed := by
  cases found : t.index[k]? with
  | none =>
    simp only [Table.erase, found]
    exact indexed
  | some n =>
    have inside := indexed.lt_size found
    obtain ⟨old, gone, same⟩ := (indexed k n).mp found
    -- The entries after the one taken out move down by one place.
    have moved : ∀ j : Nat, (t.entries.eraseIdxIfInBounds n)[j]? =
        t.entries[if j < n then j else j + 1]? := by
      intro j
      rw [Array.eraseIdxIfInBounds_eq, dif_pos inside, Array.getElem?_eraseIdx]
      split <;> rfl
    have distinct : DistinctKeys (t.entries.eraseIdxIfInBounds n) := by
      intro i j d e first second equal
      rw [moved] at first second
      have places := indexed.distinct _ _ _ _ first second equal
      split at places <;> split at places <;> omega
    intro l i
    simp only [Table.erase, found]
    rw [getElem?_reindex distinct, Std.HashMap.getElem?_erase]
    constructor
    · intro placed
      rcases placed with ⟨e, _, here, key⟩ | ⟨absent, kept⟩
      · exact ⟨e, here, key⟩
      · by_cases removed : k = l
        · rw [if_pos (by simpa using removed)] at kept
          cases kept
        · rw [if_neg (by simpa using removed)] at kept
          obtain ⟨e, here, key⟩ := (indexed l i).mp kept
          -- It stood before the gap: what stood after it was entered anew.
          have early : i < n := by
            by_contra late
            have past : i ≠ n := by
              rintro rfl
              rw [gone] at here
              cases here
              exact removed (same.symm.trans key)
            refine absent (i - 1) e (by omega) ?_ key
            rw [moved, if_neg (by omega), Nat.sub_add_cancel (by omega), here]
          exact ⟨e, by rw [moved, if_pos early, here], key⟩
    · rintro ⟨e, here, key⟩
      by_cases early : i < n
      · refine .inr ⟨?_, ?_⟩
        · intro j d after there equal
          have places := distinct j i d e there here (equal.trans key.symm)
          omega
        · rw [moved, if_pos early] at here
          have kept : k ≠ l := by
            rintro rfl
            have places := indexed.distinct _ _ _ _ here gone (key.trans same.symm)
            omega
          rw [if_neg (by simpa using kept)]
          exact (indexed l i).mpr ⟨e, here, key⟩
      · exact .inl ⟨e, by omega, here, key⟩

protected theorem empty : Table.empty.Indexed := by
  intro k i
  simp [Table.empty]

/-! ## The entries that are left -/

theorem key_ne_of_split (indexed : t.Indexed) {before after : List Entry} {e : Entry}
    (split : t.entries.toList = before ++ e :: after) :
    ∀ d ∈ before ++ after, d.key ≠ e.key := by
  have nodup := indexed.keys_nodup
  rw [split, List.map_append, List.map_cons, List.nodup_middle, List.nodup_cons,
    ← List.map_append] at nodup
  intro d member same
  exact nodup.1 (List.mem_map.mpr ⟨d, member, same⟩)

theorem mem_put (indexed : t.Indexed) (k : Key) (name value : Value) (d : Entry) :
    d ∈ (t.put k name value).2.entries.toList ↔
      d = ⟨k, name, value⟩ ∨ d ∈ t.entries.toList ∧ d.key ≠ k := by
  rcases split_or_absent t.entries.toList k with ⟨before, e, after, split, rfl⟩ | absent
  · have others := indexed.key_ne_of_split split
    rw [(indexed.put_of_split split name value).2, split]
    simp only [List.mem_append, List.mem_cons] at others ⊢
    constructor
    · intro member
      rcases member with earlier | rfl | later
      · exact .inr ⟨.inl earlier, others d (.inl earlier)⟩
      · exact .inl rfl
      · exact .inr ⟨.inr (.inr later), others d (.inr later)⟩
    · intro member
      rcases member with rfl | ⟨earlier | rfl | later, different⟩
      · exact .inr (.inl rfl)
      · exact .inl earlier
      · exact absurd rfl different
      · exact .inr (.inr later)
  · rw [(indexed.put_of_absent absent name value).2, List.mem_append, List.mem_singleton]
    constructor
    · intro member
      rcases member with old | rfl
      · exact .inr ⟨old, absent d old⟩
      · exact .inl rfl
    · intro member
      rcases member with rfl | ⟨old, _⟩
      · exact .inr rfl
      · exact .inl old

theorem mem_erase (indexed : t.Indexed) (k : Key) (d : Entry) :
    d ∈ (t.erase k).2.entries.toList ↔ d ∈ t.entries.toList ∧ d.key ≠ k := by
  rcases split_or_absent t.entries.toList k with ⟨before, e, after, split, rfl⟩ | absent
  · have others := indexed.key_ne_of_split split
    rw [(indexed.erase_of_split split).2, split]
    constructor
    · intro member
      refine ⟨?_, others d member⟩
      simp only [List.mem_append, List.mem_cons] at member ⊢
      exact member.imp_right .inr
    · rintro ⟨member, different⟩
      simp only [List.mem_append, List.mem_cons] at member ⊢
      rcases member with earlier | rfl | later
      · exact .inl earlier
      · exact absurd rfl different
      · exact .inr later
  · rw [indexed.erase_of_absent absent]
    exact ⟨fun member => ⟨member, absent d member⟩, And.left⟩

theorem find?_put_self (indexed : t.Indexed) (k : Key) (name value : Value) :
    (t.put k name value).2.find? k = some value :=
  (indexed.put k name value).find?_eq_some_iff.mpr
    ⟨⟨k, name, value⟩, (indexed.mem_put k name value _).mpr (.inl rfl), rfl, rfl⟩

theorem find?_put_of_ne (indexed : t.Indexed) {k l : Key} (different : l ≠ k)
    (name value : Value) : (t.put k name value).2.find? l = t.find? l := by
  apply Option.ext
  intro v
  rw [(indexed.put k name value).find?_eq_some_iff, indexed.find?_eq_some_iff]
  constructor
  · rintro ⟨e, member, rfl, rfl⟩
    rcases (indexed.mem_put k name value e).mp member with rfl | ⟨old, _⟩
    · exact absurd rfl different
    · exact ⟨e, old, rfl, rfl⟩
  · rintro ⟨e, member, rfl, rfl⟩
    exact ⟨e, (indexed.mem_put k name value e).mpr (.inr ⟨member, different⟩), rfl, rfl⟩

theorem find?_erase_self (indexed : t.Indexed) (k : Key) : (t.erase k).2.find? k = none :=
  (indexed.erase k).find?_of_absent fun e member => ((indexed.mem_erase k e).mp member).2

theorem find?_erase_of_ne (indexed : t.Indexed) {k l : Key} (different : l ≠ k) :
    (t.erase k).2.find? l = t.find? l := by
  apply Option.ext
  intro v
  rw [(indexed.erase k).find?_eq_some_iff, indexed.find?_eq_some_iff]
  constructor
  · rintro ⟨e, member, rfl, rfl⟩
    exact ⟨e, ((indexed.mem_erase k e).mp member).1, rfl, rfl⟩
  · rintro ⟨e, member, rfl, rfl⟩
    exact ⟨e, (indexed.mem_erase k e).mpr ⟨member, different⟩, rfl, rfl⟩

end Indexed

end Table

/-! ## Sequences of operations -/

/-- An operation on a table, with the values as they come from a program. -/
inductive TableOp where
  | get (name : Value)
  | insert (name value : Value)
  | remove (name : Value)

namespace TableOp

/-- The key whose entry an operation replaces, makes or takes out. -/
def writes? : TableOp → Option Key
  | get _ => none
  | insert name _ | remove name => name.key.toOption

theorem key_of_toOption {name : Value} {k : Key} (found : name.key.toOption = some k) :
    name.key = .ok k := by
  cases key : name.key with
  | ok l =>
    rw [key] at found
    exact congrArg Except.ok (Option.some.inj found)
  | error e =>
    rw [key] at found
    cases found

/-- Operations that stored a value under a key and did not touch that key since. -/
def Leave (ops : List TableOp) (k : Key) (v : Value) : Prop :=
  ∃ before name after, ops = before ++ insert name v :: after ∧ name.key = .ok k ∧
    ∀ op ∈ after, op.writes? ≠ some k

theorem not_leave_nil (k : Key) (v : Value) : ¬ Leave [] k v := by
  rintro ⟨before, name, after, split, _⟩
  simp at split

/-- The last operation stored the value, or it left alone what those before it left. -/
theorem leave_append_singleton {ops : List TableOp} {op : TableOp} {k : Key} {v : Value} :
    Leave (ops ++ [op]) k v ↔
      (∃ name, op = insert name v ∧ name.key = .ok k) ∨ Leave ops k v ∧ op.writes? ≠ some k := by
  constructor
  · rintro ⟨before, name, after, split, hashable, untouched⟩
    rcases List.eq_nil_or_concat after with rfl | ⟨rest, last, rfl⟩
    · obtain ⟨_, same⟩ := List.append_inj' split rfl
      cases same
      exact .inl ⟨name, rfl, hashable⟩
    · rw [List.concat_eq_append] at split untouched
      rw [← List.cons_append, ← List.append_assoc] at split
      obtain ⟨earlier, same⟩ := List.append_inj' split rfl
      cases same
      exact .inr ⟨⟨before, name, rest, earlier, hashable,
        fun o member => untouched o (List.mem_append_left _ member)⟩, untouched op (by simp)⟩
  · intro leave
    rcases leave with ⟨name, rfl, hashable⟩ | ⟨earlier, other⟩
    · exact ⟨ops, name, [], rfl, hashable, by simp⟩
    · obtain ⟨before, name, after, rfl, hashable, untouched⟩ := earlier
      refine ⟨before, name, after ++ [op], by simp, hashable, ?_⟩
      intro o member
      rcases List.mem_append.mp member with earlier | last
      · exact untouched o earlier
      · rw [List.mem_singleton.mp last]
        exact other

end TableOp

namespace Table

/-- The answer to an operation and the table afterwards. A refused operation leaves the table as it
is. -/
def settle (t : Table) :
    Except RuntimeError (Option Value × Table) → Except RuntimeError (Option Value) × Table
  | .ok (old, t') => (.ok old, t')
  | .error e => (.error e, t)

/-- Carries out one operation. -/
def step (t : Table) : TableOp → Except RuntimeError (Option Value) × Table
  | .get name => (t.get name, t)
  | .insert name value => t.settle (t.insert name value)
  | .remove name => t.settle (t.remove name)

/-- The table after operations on an empty one. -/
def run (ops : List TableOp) : Table := ops.foldl (fun t op => (t.step op).2) empty

@[simp] theorem run_append_singleton (ops : List TableOp) (op : TableOp) :
    run (ops ++ [op]) = ((run ops).step op).2 := by
  simp [run]

variable {t : Table}

theorem step_get {name : Value} {k : Key} (hashable : name.key = .ok k) :
    t.step (.get name) = (.ok (t.find? k), t) := by
  simp [step, get, hashable, Except.map]

theorem step_insert {name : Value} {k : Key} (hashable : name.key = .ok k) (value : Value) :
    t.step (.insert name value) = (.ok (t.put k name value).1, (t.put k name value).2) := by
  simp [step, insert, hashable, Except.map, settle]

theorem step_remove {name : Value} {k : Key} (hashable : name.key = .ok k) :
    t.step (.remove name) = (.ok (t.erase k).1, (t.erase k).2) := by
  simp [step, remove, hashable, Except.map, settle]

/-- A value without a key is refused by every operation, with its kind named. -/
theorem step_unhashable {name : Value} {e : RuntimeError} (refused : name.key = .error e) :
    e = .notHashable name.kind ∧ t.step (.get name) = (.error e, t) ∧
      (∀ value, t.step (.insert name value) = (.error e, t)) ∧
      t.step (.remove name) = (.error e, t) := by
  refine ⟨?_, ?_, ?_, ?_⟩
  · cases name <;> cases refused <;> rfl
  · simp [step, get, refused, Except.map]
  · intro value
    simp [step, insert, refused, Except.map, settle]
  · simp [step, remove, refused, Except.map, settle]

/-- One operation keeps entries and index in agreement. -/
theorem indexed_step (indexed : t.Indexed) (op : TableOp) : (t.step op).2.Indexed := by
  cases op with
  | get name => exact indexed
  | insert name value =>
    cases key : name.key with
    | ok k =>
      rw [step_insert key]
      exact indexed.put k name value
    | error e =>
      rw [(step_unhashable key).2.2.1 value]
      exact indexed
  | remove name =>
    cases key : name.key with
    | ok k =>
      rw [step_remove key]
      exact indexed.erase k
    | error e =>
      rw [(step_unhashable key).2.2.2]
      exact indexed

/-- Every sequence of operations leaves entries and index in agreement. -/
theorem indexed_run (ops : List TableOp) : (run ops).Indexed := by
  induction ops using List.reverseRecOn with
  | nil => exact .empty
  | append_singleton ops op ih =>
    rw [run_append_singleton]
    exact indexed_step ih op

/-- An operation on one key leaves what is under another. -/
theorem find?_step_of_ne (indexed : t.Indexed) {op : TableOp} {k : Key}
    (other : op.writes? ≠ some k) : (t.step op).2.find? k = t.find? k := by
  cases op with
  | get name => rfl
  | insert name value =>
    cases key : name.key with
    | ok l =>
      have different : k ≠ l := fun same => other (by simp [TableOp.writes?, key, same,
        Except.toOption])
      rw [step_insert key, indexed.find?_put_of_ne different]
    | error e => rw [(step_unhashable key).2.2.1 value]
  | remove name =>
    cases key : name.key with
    | ok l =>
      have different : k ≠ l := fun same => other (by simp [TableOp.writes?, key, same,
        Except.toOption])
      rw [step_remove key, indexed.find?_erase_of_ne different]
    | error e => rw [(step_unhashable key).2.2.2]

/-- What a table has under a key is what was last stored there and not taken out since. -/
theorem find?_run_eq_some_iff (ops : List TableOp) {k : Key} {v : Value} :
    (run ops).find? k = some v ↔ TableOp.Leave ops k v := by
  induction ops using List.reverseRecOn with
  | nil =>
    refine iff_of_false ?_ (TableOp.not_leave_nil k v)
    simp [run, empty, find?]
  | append_singleton ops op ih =>
    have indexed := indexed_run ops
    rw [run_append_singleton, TableOp.leave_append_singleton]
    by_cases touched : op.writes? = some k
    · simp only [touched, ne_eq, not_true_eq_false, and_false, or_false]
      cases op with
      | get name => cases touched
      | insert name value =>
        have hashable : name.key = .ok k := TableOp.key_of_toOption touched
        rw [step_insert hashable, indexed.find?_put_self]
        constructor
        · intro same
          cases same
          exact ⟨name, rfl, hashable⟩
        · rintro ⟨other, same, _⟩
          cases same
          rfl
      | remove name =>
        have hashable : name.key = .ok k := TableOp.key_of_toOption touched
        rw [step_remove hashable, indexed.find?_erase_self]
        refine iff_of_false ?_ ?_
        · intro impossible
          cases impossible
        · rintro ⟨other, impossible, _⟩
          cases impossible
    · rw [find?_step_of_ne indexed touched, ih]
      constructor
      · exact fun left => .inr ⟨left, touched⟩
      · intro leave
        rcases leave with ⟨name, rfl, hashable⟩ | ⟨left, _⟩
        · exact absurd (by rw [TableOp.writes?, hashable]; rfl) touched
        · exact left

/-- A table behaves as the list of its entries, searched by key. -/
structure MapLaws (t : Table) : Prop where
  get_present : ∀ name before e after, t.entries.toList = before ++ e :: after →
    name.key = .ok e.key → t.step (.get name) = (.ok (some e.value), t)
  get_absent : ∀ name k, name.key = .ok k → (∀ e ∈ t.entries.toList, e.key ≠ k) →
    t.step (.get name) = (.ok none, t)
  /-- A key that is present keeps its place and gets a new name and value. -/
  insert_present : ∀ name value before e after, t.entries.toList = before ++ e :: after →
    name.key = .ok e.key →
    (t.step (.insert name value)).1 = .ok (some e.value) ∧
    (t.step (.insert name value)).2.entries.toList = before ++ ⟨e.key, name, value⟩ :: after
  /-- A key that is absent comes last. -/
  insert_absent : ∀ name value k, name.key = .ok k → (∀ e ∈ t.entries.toList, e.key ≠ k) →
    (t.step (.insert name value)).1 = .ok none ∧
    (t.step (.insert name value)).2.entries.toList = t.entries.toList ++ [⟨k, name, value⟩]
  /-- Taking out an entry leaves all others in their order. -/
  remove_present : ∀ name before e after, t.entries.toList = before ++ e :: after →
    name.key = .ok e.key →
    (t.step (.remove name)).1 = .ok (some e.value) ∧
    (t.step (.remove name)).2.entries.toList = before ++ after
  remove_absent : ∀ name k, name.key = .ok k → (∀ e ∈ t.entries.toList, e.key ≠ k) →
    t.step (.remove name) = (.ok none, t)
  /-- A value that has no key is refused, and nothing changes. -/
  unhashable : ∀ name e, name.key = .error e → e = .notHashable name.kind ∧
    t.step (.get name) = (.error e, t) ∧ (∀ value, t.step (.insert name value) = (.error e, t)) ∧
    t.step (.remove name) = (.error e, t)

theorem Indexed.mapLaws (indexed : t.Indexed) : t.MapLaws where
  get_present name before e after split hashable := by
    rw [step_get hashable, indexed.find?_of_split split]
  get_absent name k hashable absent := by
    rw [step_get hashable, indexed.find?_of_absent absent]
  insert_present name value before e after split hashable := by
    obtain ⟨old, entries⟩ := indexed.put_of_split split name value
    rw [step_insert hashable, old]
    exact ⟨rfl, entries⟩
  insert_absent name value k hashable absent := by
    obtain ⟨old, entries⟩ := indexed.put_of_absent absent name value
    rw [step_insert hashable, old]
    exact ⟨rfl, entries⟩
  remove_present name before e after split hashable := by
    obtain ⟨old, entries⟩ := indexed.erase_of_split split
    rw [step_remove hashable, old]
    exact ⟨rfl, entries⟩
  remove_absent name k hashable absent := by
    rw [step_remove hashable, indexed.erase_of_absent absent]
  unhashable name e refused := step_unhashable refused

/-- The keys that are in use are as many as the entries. -/
theorem Indexed.size_eq_card (indexed : t.Indexed) :
    ∃ keys : Finset Key, (∀ k, k ∈ keys ↔ ∃ v, t.find? k = some v) ∧ t.size = keys.card := by
  refine ⟨(t.entries.toList.map Entry.key).toFinset, ?_, ?_⟩
  · intro k
    simp only [List.mem_toFinset, List.mem_map, indexed.find?_eq_some_iff]
    constructor
    · rintro ⟨e, member, same⟩
      exact ⟨e.value, e, member, same, rfl⟩
    · rintro ⟨v, e, member, same, _⟩
      exact ⟨e, member, same⟩
  · rw [List.toFinset_card_of_nodup indexed.keys_nodup, List.length_map]
    rfl

/-- After any sequence of operations, refused ones among them, a table is an ordered map: entries
have distinct keys and the index holds their places, every further operation works on the list of
entries, reading gives what was last stored and not taken out since, and the size is the number of
keys in use. -/
theorem ordered_map_after_run (ops : List TableOp) :
    ((run ops).entries.toList.map Entry.key).Nodup ∧
    (∀ (k : Key) (i : Nat), (run ops).index[k]? = some i ↔
      ∃ e, (run ops).entries[i]? = some e ∧ e.key = k) ∧
    (run ops).MapLaws ∧
    (∀ name k, name.key = .ok k → ∀ v,
      (run ops).get name = .ok (some v) ↔ TableOp.Leave ops k v) ∧
    ∃ keys : Finset Key, (∀ k, k ∈ keys ↔ ∃ v, TableOp.Leave ops k v) ∧
      (run ops).size = keys.card := by
  have indexed := indexed_run ops
  refine ⟨indexed.keys_nodup, indexed, indexed.mapLaws, ?_, ?_⟩
  · intro name k hashable v
    rw [← find?_run_eq_some_iff, get, hashable]
    simp [Except.map]
  · obtain ⟨keys, used, size⟩ := indexed.size_eq_card
    refine ⟨keys, ?_, size⟩
    intro k
    simp only [used, find?_run_eq_some_iff]

end Table

end Scripting
