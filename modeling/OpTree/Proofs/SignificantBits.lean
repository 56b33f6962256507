/-
Integers as floating-point numbers. A layout has room for a certain count of significant bits, and
an integer that takes more of them is rounded: to the nearest integer that the bits are enough for,
and of two equally near ones to the one that is an even multiple of their distance
(`NearestSignificant`). An integer of at most 64 bits is far from the ends of the range of
exponents, so nothing else happens to it (`BinaryReal.round_ofInt`).
-/
import OpTree.Proofs.BinaryPatterns

namespace OpTree

-- Powers of numbers are the recursive ones, whatever other instances are in scope.
attribute [local instance (high)] instPowNat

/-! ## Significant bits -/

/-- Some count of bits are enough for an integer, if it has zeros after them. -/
def Significant (bits : Nat) (n : Int) : Prop := ∃ m e : Nat, m < 2 ^ bits ∧ n.natAbs = m * 2 ^ e

/-- The integer nearest to `x` that some count of bits are enough for; of two, the one that is even
in the unit by which they differ. -/
structure NearestSignificant (bits : Nat) (x n : Int) : Prop where
  significant : Significant bits n
  nearest : ∀ n', Significant bits n' → (n - x).natAbs ≤ (n' - x).natAbs
  even : ∀ n', Significant bits n' → n' ≠ n → (n' - x).natAbs = (n - x).natAbs → 2 * (n' - n) ∣ n

variable {bits : Nat} {x n : Int}

theorem Significant.neg (h : Significant bits n) : Significant bits (-n) := by
  rwa [Significant, Int.natAbs_neg]

theorem Significant.of_le (h : n.natAbs ≤ 2 ^ (bits + 1)) : Significant (bits + 1) n := by
  obtain lt | eq := Nat.lt_or_eq_of_le h
  · exact ⟨n.natAbs, 0, lt, by rw [Nat.pow_zero, Nat.mul_one]⟩
  · exact ⟨1, bits + 1, Nat.one_lt_two_pow (Nat.succ_ne_zero bits), by rw [eq, Nat.one_mul]⟩

namespace NearestSignificant

theorem unique {n' : Int} (h : NearestSignificant bits x n) (h' : NearestSignificant bits x n') :
    n = n' := by
  by_contra ne
  have le := h.nearest n' h'.significant
  have ge := h'.nearest n h.significant
  -- Both would be even multiples of their distance, but such multiples are twice as far apart.
  obtain ⟨c, hc⟩ := h.even n' h'.significant (Ne.symm ne) (by omega)
  obtain ⟨c', hc'⟩ := h'.even n h.significant ne (by omega)
  have distance : (n' - n) * (1 + 2 * (c + c')) = 0 := by linear_combination hc' - hc
  obtain same | odd := mul_eq_zero.1 distance
  · omega
  · omega

theorem itself (h : Significant bits x) : NearestSignificant bits x x where
  significant := h
  nearest n' _ := by omega
  even n' _ ne same := by omega

theorem eq_iff (h : NearestSignificant bits x n) : n = x ↔ Significant bits x := by
  constructor
  · rintro rfl
    exact h.significant
  · intro enough
    exact h.unique (itself enough)

theorem neg (h : NearestSignificant bits x n) : NearestSignificant bits (-x) (-n) where
  significant := h.significant.neg
  nearest n' hn' := by
    have := h.nearest (-n') hn'.neg
    omega
  even n' hn' ne same := by
    have even := h.even (-n') hn'.neg (by omega) (by omega)
    have opposite : 2 * (n' - -n) = -(2 * (-n' - n)) := by ring
    rwa [opposite, Int.neg_dvd, Int.dvd_neg]

/-- Where the bits are enough for nothing between two multiples of a unit, the nearer one of them
is the nearest integer that they are enough for. -/
theorem of_gap {lower unit : Int} (low : lower ≤ x) (high : x ≤ lower + unit)
    (gap : ∀ n', Significant bits n' → n' ≤ lower ∨ lower + unit ≤ n')
    (significant : Significant bits n)
    (nearer : n = lower ∧ 2 * (x - lower) ≤ unit ∨ n = lower + unit ∧ unit ≤ 2 * (x - lower))
    (tie : 2 * (x - lower) = unit → 2 * unit ∣ n) : NearestSignificant bits x n where
  significant := significant
  nearest n' hn' := by
    have := gap n' hn'
    omega
  even n' hn' ne same := by
    have other := gap n' hn'
    have half : 2 * (x - lower) = unit := by omega
    obtain apart | apart : n' - n = unit ∨ n' - n = -unit := by omega
    · rw [apart]
      exact tie half
    · rw [apart, Int.mul_neg, Int.neg_dvd]
      exact tie half

end NearestSignificant

/-! ## Rounding -/

namespace BinaryLayout

/-- A quotient is rounded to the nearer of two neighbours, a half to the even one. -/
theorem divRoundEven_cases (num den : Nat) :
    divRoundEven num den = num / den ∧ 2 * (num % den) ≤ den ∧
        (2 * (num % den) = den → num / den % 2 = 0) ∨
      divRoundEven num den = num / den + 1 ∧ den ≤ 2 * (num % den) ∧
        (2 * (num % den) = den → num / den % 2 = 1) := by
  simp only [divRoundEven]
  split <;> omega

theorem divRoundEven_mul (n : Nat) {den : Nat} (pos : 0 < den) :
    divRoundEven (n * den) den = n := by
  simp [divRoundEven, Nat.mul_div_cancel n pos, pos.ne]

/-- Between two neighbours among the multiples of a unit there is nothing for which the bits are
enough, if they have just as many. -/
theorem significant_gap {f t q : Nat} (hq : 2 ^ f ≤ q) {n : Int} (h : Significant (f + 1) n) :
    n ≤ (q * 2 ^ t : Nat) ∨ ((q * 2 ^ t : Nat) : Int) + (2 ^ t : Nat) ≤ n := by
  obtain ⟨m, e, hm, hn⟩ := h
  have least : 2 ^ (f + t) ≤ q * 2 ^ t := by
    rw [Nat.pow_add]
    exact Nat.mul_le_mul_right _ hq
  by_cases small : n ≤ (2 ^ (f + t) : Nat)
  · exact .inl (small.trans (Int.ofNat_le.2 least))
  · -- With a finer unit, so few bits make no number as great as this one.
    have coarse : t ≤ e := by
      by_contra fine
      have bound : m * 2 ^ e ≤ 2 ^ (f + 1) * 2 ^ e := Nat.mul_le_mul_right _ hm.le
      have power : 2 ^ (f + 1) * 2 ^ e ≤ 2 ^ (f + t) := by
        rw [← Nat.pow_add]
        exact Nat.pow_le_pow_right (by decide) (by omega)
      omega
    have multiple : n.natAbs = m * 2 ^ (e - t) * 2 ^ t := by
      rw [hn, Nat.mul_assoc, ← Nat.pow_add, Nat.sub_add_cancel coarse]
    obtain lt | le := Nat.lt_or_ge q (m * 2 ^ (e - t))
    · have := Nat.mul_le_mul_right (2 ^ t) (Nat.succ_le_of_lt lt)
      rw [Nat.succ_mul] at this
      omega
    · have := Nat.mul_le_mul_right (2 ^ t) le
      omega

/-- Rounding to the unit of the last bit gives the nearest integer. -/
theorem nearest_divRoundEven {f t m : Nat} (low : 2 ^ (f + t) ≤ m) (high : m < 2 ^ (f + 1 + t)) :
    NearestSignificant (f + 1) m (divRoundEven m (2 ^ t) * 2 ^ t : Nat) := by
  have pos : 0 < 2 ^ t := Nat.two_pow_pos t
  have split := Nat.div_add_mod' m (2 ^ t)
  have rest := Nat.mod_lt m pos
  have hq : 2 ^ f ≤ m / 2 ^ t := by
    rwa [Nat.le_div_iff_mul_le pos, ← Nat.pow_add]
  have hq' : m / 2 ^ t < 2 ^ (f + 1) := by
    rwa [Nat.div_lt_iff_lt_mul pos, ← Nat.pow_add]
  have below : ((m / 2 ^ t * 2 ^ t : Nat) : Int) ≤ m := by omega
  have above : (m : Int) ≤ ((m / 2 ^ t * 2 ^ t : Nat) : Int) + (2 ^ t : Nat) := by omega
  have next : (m / 2 ^ t + 1) * 2 ^ t = m / 2 ^ t * 2 ^ t + 2 ^ t := Nat.succ_mul ..
  have whole {r : Nat} (le : r ≤ 2 ^ (f + 1)) : Significant (f + 1) (r * 2 ^ t : Nat) := by
    obtain lt | rfl := Nat.lt_or_eq_of_le le
    · exact ⟨r, t, lt, Int.natAbs_natCast _⟩
    · refine ⟨1, f + 1 + t, Nat.one_lt_two_pow (Nat.succ_ne_zero f), ?_⟩
      rw [Int.natAbs_natCast, Nat.one_mul]
      exact (Nat.pow_add 2 (f + 1) t).symm
  have twice {r : Nat} (even : r % 2 = 0) : 2 * ((2 ^ t : Nat) : Int) ∣ (r * 2 ^ t : Nat) := by
    obtain ⟨c, rfl⟩ := Nat.dvd_of_mod_eq_zero even
    exact Int.ofNat_dvd.2 (Nat.mul_dvd_mul_right (Nat.dvd_mul_right 2 c) _)
  obtain ⟨h, near, tie⟩ | ⟨h, near, tie⟩ := divRoundEven_cases m (2 ^ t)
  · rw [h]
    refine .of_gap below above (fun n => significant_gap hq) (whole hq'.le) (.inl ⟨rfl, ?_⟩) ?_
    · omega
    · intro half
      exact twice (tie (by omega))
  · rw [h]
    refine .of_gap below above (fun n => significant_gap hq) (whole hq') (.inr ⟨?_, ?_⟩) ?_
    · rw [next, Nat.cast_add]
    · omega
    · intro half
      have odd := tie (by omega)
      exact twice (by omega)

variable {l : BinaryLayout}

theorem fields_of_pattern (negative : Bool) {x r : Nat} (hx : x < 2 ^ l.exponentBits)
    (hr : r < 2 ^ l.fractionBits) :
    l.fraction (l.signBit negative + (x * 2 ^ l.fractionBits + r)) = r ∧
      l.exponent (l.signBit negative + (x * 2 ^ l.fractionBits + r)) = x ∧
      l.negative (l.signBit negative + (x * 2 ^ l.fractionBits + r)) = negative := by
  have together : l.signBit negative + (x * 2 ^ l.fractionBits + r) =
      2 ^ l.fractionBits * (2 ^ l.exponentBits * (if negative then 1 else 0) + x) + r := by
    cases negative with
    | true =>
      simp only [signBit, if_true, Nat.mul_one, Nat.pow_add, Nat.mul_add, Nat.mul_comm x]
      omega
    | false => simp [signBit, Nat.mul_comm]
  have quotient : (2 ^ l.fractionBits *
      (2 ^ l.exponentBits * (if negative then 1 else 0) + x) + r) / 2 ^ l.fractionBits =
        2 ^ l.exponentBits * (if negative then 1 else 0) + x := by
    rw [Nat.mul_add_div (Nat.two_pow_pos _), Nat.div_eq_of_lt hr, Nat.add_zero]
  rw [together]
  refine ⟨?_, ?_, ?_⟩
  · rw [fraction, Nat.mul_add_mod, Nat.mod_eq_of_lt hr]
  · rw [exponent, quotient, Nat.mul_add_mod, Nat.mod_eq_of_lt hx]
  · rw [BinaryLayout.negative, Nat.pow_add, ← Nat.div_div_eq_div_mul, quotient,
      Nat.mul_add_div (Nat.two_pow_pos _), Nat.div_eq_of_lt hx]
    cases negative <;> rfl

theorem decode_normal (negative : Bool) {x r : Nat} (hx : 0 < x) (hlt : x < 2 ^ l.exponentBits - 1)
    (hr : r < 2 ^ l.fractionBits) :
    l.decode (l.signBit negative + (x * 2 ^ l.fractionBits + r)) =
      .finite negative (2 ^ l.fractionBits + r) (l.leastExponent + (x - 1)) := by
  obtain ⟨fraction, exponent, sign⟩ :=
    fields_of_pattern (l := l) negative (Nat.lt_of_lt_of_le hlt (Nat.sub_le ..)) hr
  rw [decode_eq, fraction, exponent, sign, if_neg hlt.ne, if_neg hx.ne']

/-- What is rounded to a count of units is kept as such a count, or as half of it in units that are
twice as great. -/
theorem decode_rounded (negative : Bool) {unit : Int} {r : Nat} (least : l.leastExponent ≤ unit)
    (low : 2 ^ l.fractionBits ≤ r) (high : r ≤ 2 ^ (l.fractionBits + 1))
    (finite : (unit - l.leastExponent).toNat + 2 < 2 ^ l.exponentBits - 1) :
    ∃ m e, l.decode (l.signBit negative +
        ((unit - l.leastExponent).toNat * 2 ^ l.fractionBits + r)) = .finite negative m e ∧
      unit ≤ e ∧ m * 2 ^ (e - unit).toNat = r := by
  obtain ⟨k, hk⟩ : ∃ k : Nat, unit - l.leastExponent = k :=
    ⟨(unit - l.leastExponent).toNat, by omega⟩
  have double : 2 ^ (l.fractionBits + 1) = 2 ^ l.fractionBits + 2 ^ l.fractionBits := by
    rw [Nat.pow_succ, Nat.mul_two]
  rw [hk, Int.toNat_natCast] at finite ⊢
  obtain lt | rfl := Nat.lt_or_eq_of_le high
  · refine ⟨r, unit, ?_, Int.le_refl _, by simp⟩
    have fields : k * 2 ^ l.fractionBits + r =
        (k + 1) * 2 ^ l.fractionBits + (r - 2 ^ l.fractionBits) := by
      rw [Nat.succ_mul]
      omega
    rw [fields, decode_normal negative (Nat.succ_pos k) (by omega) (by omega)]
    congr 1 <;> omega
  · refine ⟨2 ^ l.fractionBits, unit + 1, ?_, by omega, ?_⟩
    · have fields : k * 2 ^ l.fractionBits + 2 ^ (l.fractionBits + 1) =
          (k + 2) * 2 ^ l.fractionBits + 0 := by
        rw [Nat.add_mul, Nat.two_mul]
        omega
      rw [fields, decode_normal negative (by omega) (by omega) (Nat.two_pow_pos _)]
      congr 1
      omega
    · have one : (unit + 1 - unit).toNat = 1 := by omega
      rw [one, Nat.pow_add]

/-! ## Integers -/

/-- How many units of its last place a number is rounded to, when `f` places come after the
leading one. -/
def roundedUnits (f m : Nat) : Nat :=
  if Nat.log2 m ≤ f then m * 2 ^ (f - Nat.log2 m) else divRoundEven m (2 ^ (Nat.log2 m - f))

/-- Rounding leaves the leading place where it is, or goes up to the next. -/
theorem roundedUnits_mem (f : Nat) {m : Nat} (pos : 0 < m) :
    2 ^ f ≤ roundedUnits f m ∧ roundedUnits f m ≤ 2 ^ (f + 1) := by
  have low : 2 ^ Nat.log2 m ≤ m := Nat.log2_self_le pos.ne'
  have high : m < 2 ^ (Nat.log2 m + 1) := Nat.lt_log2_self
  unfold roundedUnits
  split
  · rename_i le
    have low := Nat.mul_le_mul_right (2 ^ (f - Nat.log2 m)) low
    have high := Nat.mul_le_mul_right (2 ^ (f - Nat.log2 m)) high.le
    rw [← Nat.pow_add] at low high
    rw [Nat.add_sub_cancel' le] at low
    rw [Nat.add_right_comm, Nat.add_sub_cancel' le] at high
    exact ⟨low, high⟩
  · rename_i gt
    obtain ⟨t, ht⟩ : ∃ t, Nat.log2 m = f + t := ⟨Nat.log2 m - f, by omega⟩
    rw [ht] at low high
    rw [ht, Nat.add_sub_cancel_left]
    rw [Nat.add_right_comm, Nat.pow_add] at high
    rw [Nat.pow_add] at low
    have choice := divRoundEven_cases m (2 ^ t)
    have low := (Nat.le_div_iff_mul_le (Nat.two_pow_pos t)).2 low
    have high := (Nat.div_lt_iff_lt_mul (Nat.two_pow_pos t)).2 high
    omega

/-- The rounded number is the nearest one for which the bits are enough. -/
theorem roundedUnits_nearest (f : Nat) {m : Nat} (pos : 0 < m) :
    ∃ n : Nat, NearestSignificant (f + 1) m n ∧
      roundedUnits f m * 2 ^ (Nat.log2 m - f) = n * 2 ^ (f - Nat.log2 m) := by
  have high : m < 2 ^ (Nat.log2 m + 1) := Nat.lt_log2_self
  unfold roundedUnits
  split
  · rename_i le
    have enough : m ≤ 2 ^ (f + 1) :=
      high.le.trans (Nat.pow_le_pow_right (by decide) (by omega))
    refine ⟨m, .itself (.of_le enough), ?_⟩
    rw [Nat.sub_eq_zero_of_le le, Nat.pow_zero, Nat.mul_one]
  · rename_i gt
    obtain ⟨t, ht⟩ : ∃ t, Nat.log2 m = f + t := ⟨Nat.log2 m - f, by omega⟩
    have low : 2 ^ Nat.log2 m ≤ m := Nat.log2_self_le pos.ne'
    rw [ht] at low high
    rw [ht, Nat.add_sub_cancel_left, Nat.sub_eq_zero_of_le (Nat.le_add_right f t), Nat.pow_zero]
    rw [Nat.add_right_comm] at high
    exact ⟨_, nearest_divRoundEven low high, (Nat.mul_one _).symm⟩

/-- An integer is written with the exponent of its leading place. -/
theorem encode_integer (negative : Bool) {m : Nat} (pos : 0 < m)
    (least : l.leastExponent + l.fractionBits ≤ 0)
    (finite : ((Nat.log2 m : Int) - l.fractionBits - l.leastExponent).toNat + 2 <
      2 ^ l.exponentBits - 1) :
    l.encode (.finite negative m 0) = l.signBit negative +
      (((Nat.log2 m : Int) - l.fractionBits - l.leastExponent).toNat * 2 ^ l.fractionBits +
        roundedUnits l.fractionBits m) := by
  obtain ⟨m, rfl⟩ := Nat.exists_eq_succ_of_ne_zero pos.ne'
  have unit : max l.leastExponent ((0 : Int) + (Nat.log2 (m + 1) : Int) - l.fractionBits) =
      (Nat.log2 (m + 1) : Int) - l.fractionBits := by omega
  have rounded : (if (Nat.log2 (m + 1) : Int) - l.fractionBits ≤ 0 then
      (m + 1) * 2 ^ (0 - ((Nat.log2 (m + 1) : Int) - l.fractionBits)).toNat
      else divRoundEven (m + 1) (2 ^ ((Nat.log2 (m + 1) : Int) - l.fractionBits - 0).toNat)) =
        roundedUnits l.fractionBits (m + 1) := by
    unfold roundedUnits
    by_cases le : Nat.log2 (m + 1) ≤ l.fractionBits
    · rw [if_pos le, if_pos (by omega)]
      congr 2
      omega
    · rw [if_neg le, if_neg (by omega)]
      congr 2
      omega
  have bounded : roundedUnits l.fractionBits (m + 1) ≤ 2 ^ (l.fractionBits + 1) :=
    (roundedUnits_mem l.fractionBits pos).2
  simp only [encode, unit, rounded]
  rw [Nat.min_eq_left]
  have next : (((Nat.log2 (m + 1) : Int) - l.fractionBits - l.leastExponent).toNat + 2) *
      2 ^ l.fractionBits ≤ l.infinityBits := by
    rw [infinityBits]
    exact Nat.mul_le_mul_right _ finite.le
  rw [Nat.add_mul, Nat.two_mul] at next
  rw [Nat.pow_succ, Nat.mul_two] at bounded
  omega

end BinaryLayout

namespace BinaryReal

open BinaryLayout (binary64 roundedUnits roundedUnits_mem roundedUnits_nearest)

/-- The number is an integer, and has its sign. -/
def Denotes (r : BinaryReal) (n : Int) : Prop :=
  ∃ m e, r = .finite (decide (n < 0)) m e ∧ m * 2 ^ e.toNat = n.natAbs * 2 ^ (-e).toNat

/-- A number that comes to some count of units is the integer that this count comes to. -/
theorem eq_of_units {m n r : Nat} {unit e : Int} (le : unit ≤ e)
    (same : m * 2 ^ (e - unit).toNat = r) (units : r * 2 ^ unit.toNat = n * 2 ^ (-unit).toNat) :
    m * 2 ^ e.toNat = n * 2 ^ (-e).toNat := by
  refine Nat.eq_of_mul_eq_mul_right (Nat.two_pow_pos (-unit).toNat) ?_
  have exponents : e.toNat + (-unit).toNat = (e - unit).toNat + unit.toNat + (-e).toNat := by omega
  calc m * 2 ^ e.toNat * 2 ^ (-unit).toNat
      = m * 2 ^ (e - unit).toNat * 2 ^ unit.toNat * 2 ^ (-e).toNat := by
        rw [Nat.mul_assoc, ← Nat.pow_add, exponents, Nat.pow_add, Nat.pow_add]
        simp only [Nat.mul_assoc]
    _ = n * 2 ^ (-e).toNat * 2 ^ (-unit).toNat := by
        rw [same, units, Nat.mul_right_comm]

/-- An integer of at most 64 bits becomes the nearest one for which 53 bits are enough. -/
theorem round_ofInt {x : Int} (small : x.natAbs < 2 ^ 64) :
    ∃ n, NearestSignificant 53 x n ∧ (round .binary64 (.ofInt x)).Denotes n := by
  obtain rfl | nonzero := eq_or_ne x 0
  · refine ⟨0, .itself (.of_le (by decide)), 0, -1074, rfl, ?_⟩
    rw [Int.natAbs_zero, Nat.zero_mul, Nat.zero_mul]
  have pos : 0 < x.natAbs := Int.natAbs_pos.2 nonzero
  have log : Nat.log2 x.natAbs < 64 := (Nat.log2_lt pos.ne').2 small
  have least : binary64.leastExponent = -1074 := rfl
  have places : binary64.fractionBits = 52 := rfl
  have inRange : ((Nat.log2 x.natAbs : Int) - binary64.fractionBits -
      binary64.leastExponent).toNat + 2 < 2 ^ binary64.exponentBits - 1 := by
    have top : 2 ^ binary64.exponentBits - 1 = 2047 := rfl
    omega
  obtain ⟨low, high⟩ := roundedUnits_mem binary64.fractionBits pos
  obtain ⟨n, nearest, units⟩ := roundedUnits_nearest binary64.fractionBits pos
  have above : binary64.leastExponent ≤ (Nat.log2 x.natAbs : Int) - binary64.fractionBits := by
    omega
  obtain ⟨m, e, read, le, same⟩ :=
    BinaryLayout.decode_rounded (decide (x < 0)) above low high inRange
  rw [← BinaryLayout.encode_integer _ pos (by decide) inRange] at read
  have value : m * 2 ^ e.toNat = n * 2 ^ (-e).toNat := by
    refine eq_of_units le same ?_
    rw [Int.neg_sub, Int.toNat_sub, Int.toNat_sub]
    exact units
  have npos : 0 < n := by
    by_contra zero
    have rounded := Nat.mul_pos (Nat.lt_of_lt_of_le (Nat.two_pow_pos _) low)
      (Nat.two_pow_pos (Nat.log2 x.natAbs - binary64.fractionBits))
    rw [units, Nat.eq_zero_of_not_pos zero, Nat.zero_mul] at rounded
    exact absurd rounded (Nat.lt_irrefl 0)
  by_cases negative : x < 0
  · refine ⟨-n, ?_, m, e, ?_, ?_⟩
    · rw [show x = -(x.natAbs : Int) by omega]
      exact nearest.neg
    · rw [show decide (-(n : Int) < 0) = decide (x < 0) by simp [negative, npos]]
      exact read
    · rwa [Int.natAbs_neg, Int.natAbs_natCast]
  · refine ⟨n, ?_, m, e, ?_, ?_⟩
    · rwa [Int.natAbs_of_nonneg (Int.not_lt.1 negative)] at nearest
    · rw [show decide ((n : Int) < 0) = decide (x < 0) by simp [negative]]
      exact read
    · rwa [Int.natAbs_natCast]

end BinaryReal

end OpTree
