/-
Integers under the specifiers `F` and `N`. The precision is a count of places after the point, and
an integer has zeros in them; `N` puts a comma before every group of three digits of the whole part.

Both letters write real numbers, so an integer becomes one first. What they write of an integer is
that of the nearest integer for which the 53 bits of such a number are enough, without a further
loss (`integers_withPlaces`): the integer itself if it takes no more bits, and never the integer
itself if it does.
-/
import OpTree.Proofs.IntegerTexts
import OpTree.Proofs.SignificantBits

namespace OpTree

-- Powers of numbers are the recursive ones, whatever other instances are in scope.
attribute [local instance (high)] instPowNat

/-! ## Texts with places -/

/-- A point and zeros after it, if there are places for them. -/
def zeroPlaces (p : Nat) : List Char := if p = 0 then [] else '.' :: List.replicate p '0'

theorem takeWhile_zeroPlaces (p : Nat) : (zeroPlaces p).takeWhile (· != '.') = [] := by
  unfold zeroPlaces
  split <;> rfl

theorem dropWhile_zeroPlaces (p : Nat) : (zeroPlaces p).dropWhile (· != '.') = zeroPlaces p := by
  unfold zeroPlaces
  split <;> rfl

theorem tail_zeroPlaces (p : Nat) : (zeroPlaces p).tail = List.replicate p '0' := by
  cases p <;> rfl

/-- A comma stands before every group of three digits that comes after others, counted from the
right, and nowhere else. -/
inductive Grouped : List Char → List Char → Prop
  | short {digits : List Char} : digits ≠ [] → digits.length ≤ 3 → Grouped digits digits
  | group {digits text : List Char} (a b c : Char) :
    Grouped digits text → Grouped (digits ++ [a, b, c]) (text ++ [',', a, b, c])

/-- The text of an integer with zeros in `p` places: its sign, the numeral of its absolute value,
in groups or not, and the places. -/
def WithPlaces (grouped : Bool) (p : Nat) (n : Int) (text : List Char) : Prop :=
  ∃ digits whole, Numeral decimalDigits 0 n.natAbs digits ∧
    (if grouped then Grouped digits whole else whole = digits) ∧
      text = withSign n (whole ++ zeroPlaces p)

/-- The number that a decimal text denotes; commas do not count. -/
def readPlaces? (text : List Char) : Option ℚ :=
  let digits := text.filter (· != ',')
  let whole := digits.takeWhile (· != '.')
  let places := (digits.dropWhile (· != '.')).tail
  (readInteger? (whole ++ places)).map fun n : Int => (n : ℚ) / 10 ^ places.length

theorem Grouped.filter {digits text : List Char} (h : Grouped digits text)
    (plain : ∀ c ∈ digits, c ≠ ',') : text.filter (· != ',') = digits := by
  induction h with
  | short => simpa [List.filter_eq_self] using plain
  | group a b c _ ih =>
    simp only [List.mem_append, or_imp, forall_and] at plain
    simp [ih plain.1, plain.2]

theorem Numeral.read?_zeros {digits : List Char} {n : Nat} (p : Nat)
    (reads : Numeral.read? decimalDigits digits = some n) :
    Numeral.read? decimalDigits (digits ++ List.replicate p '0') = some (n * 10 ^ p) := by
  obtain ⟨nonempty, -⟩ := Numeral.read?_decimal_eq_some.1 reads
  rw [Numeral.read?, if_neg (by simpa using nonempty)] at reads
  rw [Numeral.read?, if_neg (by simp [nonempty]), Numeral.readOn?_append, reads, Option.bind_some,
    Numeral.readOn?_replicate rfl, length_decimalDigits]

theorem readInteger?_zeros {digits : List Char} {n : Int} (p : Nat)
    (reads : Numeral.read? decimalDigits digits = some n.natAbs) :
    readInteger? (withSign n digits ++ List.replicate p '0') = some (n * 10 ^ p) := by
  have pos : (0 : Int) < 10 ^ p := Int.pow_pos (by decide)
  have sign : withSign n digits ++ List.replicate p '0' =
      withSign (n * 10 ^ p) (digits ++ List.replicate p '0') := by
    simp only [withSign, mul_neg_iff, pos, pos.not_gt, and_false, and_true, false_or]
    split <;> rfl
  rw [sign]
  refine readInteger?_withSign _ ?_
  rw [Numeral.read?_zeros p reads, Int.natAbs_mul, Int.natAbs_pow]
  rfl

theorem WithPlaces.reads {grouped : Bool} {p : Nat} {n : Int} {text : List Char}
    (h : WithPlaces grouped p n text) : readPlaces? text = some (n : ℚ) := by
  obtain ⟨digits, whole, numeral, groups, rfl⟩ := h
  obtain ⟨-, all, -⟩ := Numeral.read?_decimal_eq_some.1 numeral.reads
  have plain {c : Char} (hc : c.isDigit = false) : ∀ d ∈ digits, d ≠ c := by
    rintro d hd rfl
    rw [all d hd] at hc
    cases hc
  have shown : whole.filter (· != ',') = digits := by
    cases grouped with
    | true => exact Grouped.filter groups (plain rfl)
    | false =>
      rw [show whole = digits from groups]
      simpa [List.filter_eq_self] using plain rfl
  have commas : (withSign n (whole ++ zeroPlaces p)).filter (· != ',') =
      withSign n digits ++ zeroPlaces p := by
    unfold withSign zeroPlaces
    split <;> split <;> simp [shown]
  have point : ∀ d ∈ withSign n digits, (d != '.') = true := by
    unfold withSign
    split <;> simpa using plain rfl
  simp only [readPlaces?, commas, List.takeWhile_append_of_pos point,
    List.dropWhile_append_of_pos point, takeWhile_zeroPlaces, dropWhile_zeroPlaces,
    tail_zeroPlaces, List.append_nil, List.length_replicate, readInteger?_zeros p numeral.reads,
    Option.map_some]
  rw [Int.cast_mul, Int.cast_pow, Int.cast_ofNat, mul_div_cancel_right₀]
  exact pow_ne_zero p (by norm_num)

/-! ## What is written -/

namespace IntKind

theorem width_le (k : IntKind) : k.width ≤ 64 := by cases k <;> decide

theorem natAbs_toInt_lt (k : IntKind) (v : BitVec k.width) :
    (k.toInt v).natAbs < 2 ^ k.width := by
  have mem := k.toInt_mem v
  cases k <;> simp only [minimum, maximum, signed, width] at mem ⊢ <;> omega

end IntKind

namespace Value

theorem groupThousands_cons (c : Char) {cs : List Char} (nonempty : cs ≠ []) :
    groupThousands (c :: cs) =
      c :: if cs.length % 3 = 0 then ',' :: groupThousands cs else groupThousands cs := by
  rw [groupThousands]
  simp only [nonempty, ne_eq, not_false_eq_true, and_true]
  split <;> rfl

theorem groupThousands_append {digits : List Char} (nonempty : digits ≠ []) (a b c : Char) :
    groupThousands (digits ++ [a, b, c]) = groupThousands digits ++ [',', a, b, c] := by
  induction digits with
  | nil => exact absurd rfl nonempty
  | cons d digits ih =>
    by_cases last : digits = []
    · subst last
      simp [groupThousands]
    · have length : (digits ++ [a, b, c]).length % 3 = digits.length % 3 := by simp
      rw [List.cons_append, groupThousands_cons d (by simp [last]), groupThousands_cons d last,
        ih last, length]
      split <;> rfl

/-- The groups are of three digits, but for the first, which has one to three. -/
theorem grouped_groupThousands {digits : List Char} (nonempty : digits ≠ []) :
    Grouped digits (groupThousands digits) := by
  induction length : digits.length using Nat.strong_induction_on generalizing digits with
  | _ n ih =>
    by_cases le : digits.length ≤ 3
    · have same : groupThousands digits = digits := by
        match digits, le with
        | [], _ | [_], _ | [_, _], _ | [_, _, _], _ => rfl
      rw [same]
      exact .short nonempty le
    · have front : digits.take (digits.length - 3) ≠ [] := by
        simp [nonempty]
        omega
      obtain ⟨a, b, c, last⟩ : ∃ a b c, digits.drop (digits.length - 3) = [a, b, c] := by
        rw [← List.length_eq_three, List.length_drop]
        omega
      have split := List.take_append_drop (digits.length - 3) digits
      rw [last] at split
      rw [← split, groupThousands_append front]
      refine .group a b c (ih _ ?_ front rfl)
      rw [List.length_take]
      omega

end Value

namespace Decimal

theorem toDigits_mul_pow {n : Nat} (pos : 0 < n) (p : Nat) :
    Nat.toDigits 10 (n * 10 ^ p) = Nat.toDigits 10 n ++ List.replicate p '0' := by
  induction p with
  | zero => simp
  | succ p ih =>
    have next : n * 10 ^ (p + 1) = 10 * (n * 10 ^ p) + 0 := by
      rw [Nat.pow_succ]
      ring
    rw [next, ← Nat.toDigits_append_toDigits (by decide) (Nat.mul_pos pos (Nat.pow_pos (by decide)))
      (by decide), ih, List.append_assoc, List.replicate_succ']
    rfl

/-- Digits of which the last `p` are zeros are the whole part and zeros in the places. -/
theorem withPoint_mul_pow (n p : Nat) :
    (withPoint (toString (n * 10 ^ p)) p).toList = Nat.toDigits 10 n ++ zeroPlaces p := by
  have padded : (String.ofList (List.replicate (p + 1 - (toString (n * 10 ^ p)).length) '0') ++
      toString (n * 10 ^ p)) = String.ofList (Nat.toDigits 10 n ++ List.replicate p '0') := by
    apply String.toList_inj.1
    rw [Nat.toString_eq_ofList_toDigits, String.length_ofList]
    obtain rfl | pos := Nat.eq_zero_or_pos n
    · simp [← List.replicate_succ', ← List.replicate_succ]
    · have nonempty : 0 < (Nat.toDigits 10 n).length := Nat.length_toDigits_pos
      have long : p + 1 - ((Nat.toDigits 10 n).length + p) = 0 := by omega
      simp [toDigits_mul_pow pos, long]
  simp only [withPoint, padded, zeroPlaces]
  split <;> simp [*]

theorem ofBinary_eq {m n : Nat} {e : Int} (same : m * 2 ^ e.toNat = n * 2 ^ (-e).toNat) :
    ofBinary m e = ⟨n * 10 ^ (-e).toNat, -((-e).toNat : Int)⟩ := by
  unfold ofBinary
  split
  · rename_i le
    have none : (-e).toNat = 0 := by omega
    rw [same, none]
    simp
  · rename_i lt
    have none : e.toNat = 0 := by omega
    rw [none, Nat.pow_zero, Nat.mul_one] at same
    rw [same, Nat.mul_assoc, ← Nat.mul_pow]
    congr 1
    omega

/-- An integer is not rounded, whatever the count of places. -/
theorem fixedText_integer (n k p : Nat) :
    ((⟨n * 10 ^ k, -(k : Int)⟩ : Decimal).fixedText p).toList =
      Nat.toDigits 10 n ++ zeroPlaces p := by
  rw [← withPoint_mul_pow, fixedText]
  dsimp only
  split
  · rename_i le
    have shift : k + (-(k : Int) + p).toNat = p := by omega
    rw [Nat.mul_assoc, ← Nat.pow_add, shift]
  · rename_i lt
    have shift : k = p + (-(-(k : Int) + p)).toNat := by omega
    have split : n * 10 ^ k = n * 10 ^ p * 10 ^ (-(-(k : Int) + p)).toNat := by
      rw [Nat.mul_assoc, ← Nat.pow_add, ← shift]
    rw [split, BinaryLayout.divRoundEven_mul _ (Nat.pow_pos (by decide))]

end Decimal

namespace BinaryReal

variable {r : BinaryReal} {n : Int}

theorem Denotes.fixedText (h : r.Denotes n) (p : Nat) :
    r.fixedText p = .ofList (withSign n (Nat.toDigits 10 n.natAbs ++ zeroPlaces p)) := by
  obtain ⟨m, e, rfl, same⟩ := h
  apply String.toList_inj.1
  rw [BinaryReal.fixedText, Decimal.ofBinary_eq same, String.toList_append,
    Decimal.fixedText_integer, String.toList_ofList, withSign]
  by_cases negative : n < 0
  · simp [signText, negative]
  · simp [signText, negative]

theorem Denotes.isNegative (h : r.Denotes n) : r.isNegative = decide (n < 0) := by
  obtain ⟨m, e, rfl, same⟩ := h
  by_cases negative : n < 0
  · have nonzero : m ≠ 0 := by
      rintro rfl
      rw [Nat.zero_mul, eq_comm, Nat.mul_eq_zero] at same
      have := Nat.two_pow_pos (-e).toNat
      omega
    simp [BinaryReal.isNegative, negative, nonzero]
  · simp [BinaryReal.isNegative, negative]

theorem Denotes.abs (h : r.Denotes n) : r.abs.Denotes n.natAbs := by
  obtain ⟨m, e, rfl, same⟩ := h
  exact ⟨m, e, by simp [BinaryReal.abs], by rwa [Int.natAbs_natCast]⟩

end BinaryReal

namespace Value

open BinaryReal (Denotes)

theorem groupedText_of_denotes {r : BinaryReal} {n : Int} (h : r.Denotes n) (p : Nat) :
    groupedText p r =
      .ofList (withSign n (groupThousands (Nat.toDigits 10 n.natAbs) ++ zeroPlaces p)) := by
  have point : ∀ d ∈ Nat.toDigits 10 n.natAbs, (d != '.') = true := by
    intro d hd
    have digit := Nat.isDigit_of_mem_toDigits (by decide) (by decide) hd
    rw [bne_iff_ne]
    rintro rfl
    cases digit
  have unsigned : ¬ (n.natAbs : Int) < 0 := by omega
  apply String.toList_inj.1
  rw [groupedText, h.abs.fixedText, h.isNegative]
  simp only [String.toList_ofList, withSign, if_neg unsigned, Int.natAbs_natCast,
    List.takeWhile_append_of_pos point, List.dropWhile_append_of_pos point, takeWhile_zeroPlaces,
    dropWhile_zeroPlaces, List.append_nil, String.toList_append]
  by_cases negative : n < 0
  · simp [negative]
  · simp [negative]

theorem lettered?_places {v : Value} {r : BinaryReal} {n : Int} (real : v.real? = some r)
    (h : r.Denotes n) (p : Nat) {letter : Char} (hl : letter ∈ ['F', 'f', 'N', 'n']) :
    ∃ text, v.lettered? letter (some p) = some (.ofList text) ∧
      WithPlaces (letter ∈ ['N', 'n']) p n text := by
  have numeral : Numeral decimalDigits 0 n.natAbs (Nat.toDigits 10 n.natAbs) := by
    simpa using Numeral.decimal 0 n.natAbs
  have fixed : v.real?.map (fun r => r.fixedText p) =
      some (.ofList (withSign n (Nat.toDigits 10 n.natAbs ++ zeroPlaces p))) := by
    rw [real, Option.map_some, h.fixedText]
  have grouped : v.real?.map (groupedText p) =
      some (.ofList (withSign n (groupThousands (Nat.toDigits 10 n.natAbs) ++ zeroPlaces p))) := by
    rw [real, Option.map_some, groupedText_of_denotes h]
  simp only [List.mem_cons, List.not_mem_nil, or_false] at hl
  obtain rfl | rfl | rfl | rfl := hl
  · exact ⟨_, fixed, _, _, numeral, rfl, rfl⟩
  · exact ⟨_, fixed, _, _, numeral, rfl, rfl⟩
  · exact ⟨_, grouped, _, _, numeral, grouped_groupThousands Nat.toDigits_ne_nil, rfl⟩
  · exact ⟨_, grouped, _, _, numeral, grouped_groupThousands Nat.toDigits_ne_nil, rfl⟩

variable (k : IntKind) {precision : List Char} {p : Nat} {letter : Char}

/-- The nearest integer for which 53 bits are enough is written, with its sign, the decimal numeral
of its absolute value and as many zeros as the precision says. So the text reads as the integer
itself for exactly those integers for which 53 bits are enough. -/
theorem integers_withPlaces (v : BitVec k.width)
    (reads : Numeral.read? decimalDigits precision = some p) (le : p ≤ 65535)
    (hl : letter ∈ ['F', 'f', 'N', 'n']) :
    ∃ text n, (int k v).format (some (.ofList (letter :: precision))) none = .ok (.ofList text) ∧
      NearestSignificant 53 (k.toInt v) n ∧
      WithPlaces (letter ∈ ['N', 'n']) p n text ∧ readPlaces? text = some (n : ℚ) ∧
      (n = k.toInt v ↔ Significant 53 (k.toInt v)) ∧
      (k.width ≤ 32 ∨ (k.toInt v).natAbs ≤ 2 ^ 53 → n = k.toInt v) := by
  have small : (k.toInt v).natAbs < 2 ^ 64 :=
    (k.natAbs_toInt_lt v).trans_le (Nat.pow_le_pow_right (by decide) k.width_le)
  obtain ⟨n, nearest, denotes⟩ := BinaryReal.round_ofInt small
  obtain ⟨text, written, places⟩ := lettered?_places (v := int k v) rfl denotes p hl
  refine ⟨text, n, ?_, nearest, places, places.reads, nearest.eq_iff, ?_⟩
  · rw [format_cons, precision?_digits reads le, Option.bind_some, written]
    rfl
  · intro few
    refine nearest.eq_iff.2 (.of_le ?_)
    obtain narrow | le := few
    · exact (k.natAbs_toInt_lt v).le.trans (Nat.pow_le_pow_right (by decide) (by omega))
    · exact le

theorem leastLong_withPlaces : Numeral.read? decimalDigits ['2'] = some 2 ∧ 2 ≤ 65535 ∧
    'N' ∈ ['F', 'f', 'N', 'n'] ∧
    ∃ text, (int .i64 (BitVec.intMin 64)).format (some "N2") none = .ok (.ofList text) ∧
      WithPlaces true 2 (-9223372036854775808) text ∧
      readPlaces? text = some (-9223372036854775808) := by
  have reads : Numeral.read? decimalDigits ['2'] = some 2 := rfl
  have grouping : 'N' ∈ ['F', 'f', 'N', 'n'] := by decide
  obtain ⟨text, n, written, -, places, back, exact_iff, -⟩ :=
    integers_withPlaces .i64 (BitVec.intMin 64) reads (by decide) grouping
  have enough : Significant 53 (-9223372036854775808) := ⟨1, 63, by decide, by decide⟩
  obtain rfl : n = -9223372036854775808 := exact_iff.2 enough
  exact ⟨reads, by decide, grouping, text, written, places, by simpa using back⟩

/-- An integer that takes one bit more is not written as itself. -/
theorem lastUnit_lost : IntKind.i64.toInt 9007199254740993 = 9007199254740993 ∧
    (int .i64 9007199254740993).format (some "F0") none = .ok "9007199254740992" ∧
    ¬ WithPlaces false 0 9007199254740993 "9007199254740992".toList := by
  refine ⟨by decide, rfl, ?_⟩
  rintro ⟨digits, whole, numeral, rfl, same⟩
  have same : "9007199254740992".toList = whole := by
    rwa [withSign, if_neg (by decide), zeroPlaces, if_pos rfl, List.append_nil] at same
  have reads := numeral.reads
  rw [← same] at reads
  exact absurd reads (by decide)

end Value

end OpTree
