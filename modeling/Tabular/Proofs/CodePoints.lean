import Tabular.Proofs.Ordering

/-! The order of code points. Strings compare by the bytes of their UTF-8 encodings, and this is the
lexicographic order of their code points. The code points of one length of encoding are ordered by
their digits to the base 64, and the first byte of a shorter encoding is smaller than that of a
longer one. So comparisons of strings, and sort keys whose values are strings, follow the code
points. -/

namespace Tabular

namespace Text

/-- The bytes that encode a code point, as numbers: `n` bytes hold its last digits to the base 64,
and a first byte with a mark holds what is before them. -/
def encoded (mark : Nat) : Nat → Nat → List Nat
  | 0, v => [mark + v]
  | n + 1, v => encoded mark n (v / 64) ++ [128 + v % 64]

/-- The number of bytes that follow the first one in the encoding of a code point. -/
def following (v : Nat) : Nat :=
  if v ≤ 0x7f then 0 else if v ≤ 0x7ff then 1 else if v ≤ 0xffff then 2 else 3

/-- The mark of a first byte that `n` bytes follow. -/
def mark : Nat → Nat
  | 0 => 0
  | 1 => 0xc0
  | 2 => 0xe0
  | _ => 0xf0

/-- The UTF-8 encoding of a code point. -/
def octets (v : Nat) : List Nat := encoded (mark (following v)) (following v) v

theorem toNat_utf8EncodeChar (c : Char) :
    (String.utf8EncodeChar c).map UInt8.toNat = octets c.toNat := by
  have hmax : c.toNat ≤ 0x10ffff := by
    have hvalid : c.toNat.isValidChar := c.valid
    unfold Nat.isValidChar at hvalid
    omega
  unfold String.utf8EncodeChar octets following
  simp only [Char.toNat_val]
  -- one case for each length; in the last one the bound on code points keeps the byte in range
  split_ifs
  · simp [encoded, mark]
    omega
  · simp [encoded, mark]
    omega
  · simp [encoded, mark]
    omega
  · simp [encoded, mark]
    omega

theorem exists_octets_eq_cons (v : Nat) : ∃ a as, octets v = a :: as := by
  refine List.exists_cons_of_ne_nil ?_
  unfold octets
  cases following v <;> simp [encoded]

theorem compare_div_mod (v w : Nat) :
    (compare (v / 64) (w / 64)).then (compare (128 + v % 64) (128 + w % 64)) = compare v w := by
  obtain hlt | heq | hgt := Nat.lt_trichotomy (v / 64) (w / 64)
  · rw [Nat.compare_eq_lt.mpr hlt, Nat.compare_eq_lt.mpr (show v < w by omega)]
    rfl
  · have hlt : 128 + v % 64 < 128 + w % 64 ↔ v < w := by omega
    have hgt : 128 + w % 64 < 128 + v % 64 ↔ w < v := by omega
    simp only [heq, Nat.compare_eq_ite_lt, hlt, hgt, Nat.lt_irrefl, if_false, Ordering.then]
  · rw [Nat.compare_eq_gt.mpr hgt, Nat.compare_eq_gt.mpr (show w < v by omega)]
    rfl

/-- Encodings of one length are in the order of what they encode. -/
theorem compare_encoded_append (mark n v w : Nat) (xs ys : List Nat) :
    compare (encoded mark n v ++ xs) (encoded mark n w ++ ys) =
      (compare v w).then (compare xs ys) := by
  -- the last byte goes to what follows, and what is before it encodes the quotients by 64
  induction n generalizing v w xs ys with
  | zero =>
    have hadd : compare (mark + v) (mark + w) = compare v w := by
      simp only [Nat.compare_eq_ite_lt, Nat.add_lt_add_iff_left]
    rw [encoded, encoded, List.singleton_append, List.singleton_append, List.compare_cons_cons,
      hadd]
  | succ n ih =>
    rw [encoded, encoded, List.append_assoc, List.append_assoc, ih, List.singleton_append,
      List.singleton_append, List.compare_cons_cons, ← Ordering.then_assoc, compare_div_mod]

/-- Of two code points with encodings of different lengths the smaller one has the smaller first
byte. -/
theorem first_lt {v w : Nat} (h : v < w) (hne : following v ≠ following w) :
    ∃ a as b bs, octets v = a :: as ∧ octets w = b :: bs ∧ a < b := by
  unfold octets following at *
  -- one case for each pair of lengths: it does not occur, or the marks decide
  split_ifs at *
  all_goals first
    | omega
    | exact ⟨_, _, _, _, rfl, rfl, by simp only [mark]; omega⟩

theorem compare_octets_append (v w : Nat) (xs ys : List Nat) :
    compare (octets v ++ xs) (octets w ++ ys) = (compare v w).then (compare xs ys) := by
  by_cases heq : following v = following w
  · unfold octets
    rw [heq]
    exact compare_encoded_append _ _ v w xs ys
  · obtain hlt | rfl | hgt := Nat.lt_trichotomy v w
    · obtain ⟨a, as, b, bs, ha, hb, hab⟩ := first_lt hlt heq
      rw [ha, hb, List.cons_append, List.cons_append, List.compare_cons_cons,
        Nat.compare_eq_lt.mpr hab, Nat.compare_eq_lt.mpr hlt]
      rfl
    · exact absurd rfl heq
    · obtain ⟨b, bs, a, as, hb, ha, hba⟩ := first_lt hgt (Ne.symm heq)
      rw [ha, hb, List.cons_append, List.cons_append, List.compare_cons_cons,
        Nat.compare_eq_gt.mpr hba, Nat.compare_eq_gt.mpr hgt]
      rfl

theorem compare_flatMap_octets (vs ws : List Nat) :
    compare (vs.flatMap octets) (ws.flatMap octets) = compare vs ws := by
  induction vs generalizing ws with
  | nil =>
    cases ws with
    | nil => rfl
    | cons w ws =>
      obtain ⟨b, bs, hb⟩ := exists_octets_eq_cons w
      rw [List.flatMap_cons, hb]
      rfl
  | cons v vs ih =>
    cases ws with
    | nil =>
      obtain ⟨a, as, ha⟩ := exists_octets_eq_cons v
      rw [List.flatMap_cons, ha]
      rfl
    | cons w ws =>
      rw [List.flatMap_cons, List.flatMap_cons, compare_octets_append, ih, List.compare_cons_cons]

theorem compare_map_toNat (xs ys : List UInt8) :
    compare (xs.map UInt8.toNat) (ys.map UInt8.toNat) = compare xs ys := by
  have hbyte (x y : UInt8) : compare x.toNat y.toNat = compare x y := by
    simp only [compare, compareOfLessAndEq, UInt8.lt_iff_toNat_lt, ← UInt8.toNat_inj]
  induction xs generalizing ys with
  | nil => cases ys <;> rfl
  | cons x xs ih =>
    cases ys with
    | nil => rfl
    | cons y ys =>
      rw [List.map_cons, List.map_cons, List.compare_cons_cons, List.compare_cons_cons, hbyte, ih]

/-- The code points of a string's characters. -/
def codePoints (s : String) : List Nat := s.toList.map Char.toNat

/-- At the first place where the strings differ, the first one has the smaller code point, or it
ends there. -/
def Precedes (s t : String) : Prop := List.Lex (· < ·) (codePoints s) (codePoints t)

instance (s t : String) : Decidable (Precedes s t) :=
  inferInstanceAs (Decidable (List.Lex _ _ _))

theorem map_toNat_bytes (s : String) :
    (bytes s).map UInt8.toNat = (codePoints s).flatMap octets := by
  have hbytes : bytes s = s.toList.flatMap String.utf8EncodeChar := by
    rw [bytes, ← String.utf8Encode_toList, List.utf8Encode, List.data_toByteArray,
      List.toList_toArray]
  rw [hbytes, codePoints, List.map_flatMap, List.flatMap_map]
  simp only [toNat_utf8EncodeChar]

theorem compareBytes_eq (s t : String) :
    compareBytes s t = compare (codePoints s) (codePoints t) := by
  rw [compareBytes, ← compare_map_toNat, map_toNat_bytes, map_toNat_bytes, compare_flatMap_octets]

theorem compare_eq_lt_iff {vs ws : List Nat} :
    compare vs ws = .lt ↔ List.Lex (· < ·) vs ws := by
  induction vs generalizing ws with
  | nil =>
    cases ws with
    | nil => simp
    | cons w ws => exact iff_of_true rfl .nil
  | cons v vs ih =>
    cases ws with
    | nil => simp
    | cons w ws =>
      rw [List.compare_cons_cons, Ordering.then_eq_lt, Nat.compare_eq_lt, Nat.compare_eq_eq, ih,
        List.cons_lex_cons_iff]

theorem compareBytes_eq_lt_iff {s t : String} : compareBytes s t = .lt ↔ Precedes s t := by
  rw [compareBytes_eq, compare_eq_lt_iff, Precedes]

theorem compareBytes_eq_gt_iff {s t : String} : compareBytes s t = .gt ↔ Precedes t s := by
  rw [← compareBytes_eq_lt_iff, compareBytes, compareBytes, Std.OrientedCmp.gt_iff_lt]

end Text

open Text

theorem Comparison.holds_compareBytes (s t : String) :
    Comparison.lt.holds (compareBytes s t) = decide (Precedes s t) ∧
    Comparison.le.holds (compareBytes s t) = decide (¬Precedes t s) ∧
    Comparison.gt.holds (compareBytes s t) = decide (Precedes t s) ∧
    Comparison.ge.holds (compareBytes s t) = decide (¬Precedes s t) := by
  have hlt := compareBytes_eq_lt_iff (s := s) (t := t)
  have hgt := compareBytes_eq_gt_iff (s := s) (t := t)
  simp only [← hlt, ← hgt]
  cases compareBytes s t <;> decide

theorem Value.order_strings (s t : String) :
    (Value.string s).order (.string t) = compareBytes s t :=
  (Option.some.inj (Value.compare?_eq_order (a := .string s) (b := .string t) rfl)).symm

theorem BinaryOp.apply_comparison_strings (c : Comparison) (s t : String) :
    BinaryOp.apply (.comparison c) (.string s) (.string t) =
      .ok (.bool (c.holds (compareBytes s t))) := by
  rw [apply_comparison c (a := .string s) (b := .string t) rfl, Value.order_strings]

namespace SortKey

variable {k : SortKey} {r r' : Row} {s t : String}

/-- The strings of a sort key on two rows are in the order of the key. -/
def InOrder (k : SortKey) (r r' : Row) : Prop :=
  ∃ s t, k.expr.eval r = .ok (.string s) ∧ k.expr.eval r' = .ok (.string t) ∧
    if k.descending then ¬Precedes s t else ¬Precedes t s

theorem value_of_eval {v : Value} (h : k.expr.eval r = .ok v) : k.value r = v := by
  simp [value, h, Except.toOption]

/-- A sort key does not put a row after one whose string comes later, or earlier when the key is
descending. -/
theorem isLE_compareRows_iff (hs : k.expr.eval r = .ok (.string s))
    (ht : k.expr.eval r' = .ok (.string t)) :
    (k.compareRows r r').isLE = true ↔ if k.descending then ¬Precedes s t else ¬Precedes t s := by
  rw [compareRows, value_of_eval hs, value_of_eval ht, Value.order_strings, Value.order_strings]
  split
  · rw [← compareBytes_eq_gt_iff, Ordering.isLE_iff_ne_gt]
  · rw [← compareBytes_eq_gt_iff, Ordering.isLE_iff_ne_gt]

end SortKey

/-- Rows on which a sort key has strings come in the order of the strings' code points. -/
theorem Row.sorted_strings {k : SortKey} {rows : List Row}
    (h : ∀ r ∈ rows, ∃ s, k.expr.eval r = .ok (.string s)) :
    ∃ sorted, Row.sorted [k] rows = .ok sorted ∧ sorted.Perm rows ∧
      sorted.Pairwise k.InOrder := by
  have hkeyed : ∀ r ∈ rows, r.Keyed [k] := by
    intro r hr
    obtain ⟨s, hs⟩ := h r hr
    simpa [Row.Keyed] using ⟨_, hs⟩
  have hkinds : ∀ r ∈ rows, ∀ r' ∈ rows, ∀ key ∈ [k], (key.value r).kind = (key.value r').kind := by
    intro r hr r' hr' key hkey
    obtain rfl := List.mem_singleton.mp hkey
    obtain ⟨s, hs⟩ := h r hr
    obtain ⟨t, ht⟩ := h r' hr'
    rw [SortKey.value_of_eval hs, SortKey.value_of_eval ht]
    rfl
  refine ⟨_, Row.sorted_eq_of_kinds hkeyed hkinds, List.mergeSort_perm .., ?_⟩
  refine (pairwise_mergeSort rows).imp_of_mem fun {r r'} hr hr' hle => ?_
  obtain ⟨s, hs⟩ := h r (List.mem_mergeSort.mp hr)
  obtain ⟨t, ht⟩ := h r' (List.mem_mergeSort.mp hr')
  refine ⟨s, t, hs, ht, (SortKey.isLE_compareRows_iff hs ht).mp ?_⟩
  simpa [Row.compareBy, compareLex] using hle

/-- Strings compare as the sequences of their code points do in lexicographic order. The comparison
operators and the sort keys compare them in the same way, and rows that are sorted by strings come
in that order. -/
theorem Text.strings_follow_codePoints :
    (∀ s t : String,
      (Value.string s).compare (.string t) = .ok (compare (codePoints s) (codePoints t)) ∧
      (compare (codePoints s) (codePoints t) = .lt ↔ Precedes s t) ∧
      BinaryOp.apply (.comparison .lt) (.string s) (.string t) = .ok (.bool (Precedes s t)) ∧
      BinaryOp.apply (.comparison .le) (.string s) (.string t) = .ok (.bool (¬Precedes t s)) ∧
      BinaryOp.apply (.comparison .gt) (.string s) (.string t) = .ok (.bool (Precedes t s)) ∧
      BinaryOp.apply (.comparison .ge) (.string s) (.string t) = .ok (.bool (¬Precedes s t)) ∧
      ∀ k : SortKey, k.compare (.string s) (.string t) =
        if k.descending then compare (codePoints t) (codePoints s)
        else compare (codePoints s) (codePoints t)) ∧
    ∀ (k : SortKey) (rows : List Row),
      (∀ r ∈ rows, ∃ s, k.expr.eval r = .ok (.string s)) →
        ∃ sorted, Row.sorted [k] rows = .ok sorted ∧ sorted.Perm rows ∧
          sorted.Pairwise k.InOrder := by
  refine ⟨fun s t => ?_, fun k rows h => Row.sorted_strings h⟩
  obtain ⟨hlt, hle, hgt, hge⟩ := Comparison.holds_compareBytes s t
  refine ⟨?_, compare_eq_lt_iff, ?_, ?_, ?_, ?_, fun k => ?_⟩
  · rw [← compareBytes_eq]
    rfl
  · rw [BinaryOp.apply_comparison_strings, hlt]
  · rw [BinaryOp.apply_comparison_strings, hle]
  · rw [BinaryOp.apply_comparison_strings, hgt]
  · rw [BinaryOp.apply_comparison_strings, hge]
  · rw [← compareBytes_eq, ← compareBytes_eq]
    show (if k.descending then (compareBytes s t).swap else compareBytes s t) = _
    rw [compareBytes, compareBytes, ← Std.OrientedCmp.eq_swap]

/-- The last code point of two bytes comes before the first one of three bytes, and an emoji, whose
UTF-16 units are smaller, comes after the private use area. -/
example : Precedes "\u07ff" "\u0800" ∧ Precedes "\ue000" "😀" ∧ ¬Precedes "ab" "a" := by
  decide

end Tabular
