/-
Integer operators against exact arithmetic. `BinaryOp.onIntegers` says what an
operator answers on two integers of a kind without speaking of bits of a fixed
width: it computes on all integers and brings the result back into the kind
with `IntKind.wrap`. `BinaryOp.apply_onIntegers` is that the operators of the
evaluator, which work on bit vectors, do just this.

The bit vectors come in by two facts: wrapping what a vector denotes gives it
back (`wrap_toInt`), and two integers wrap to the same vector when they are
congruent modulo two to the width (`wrap_eq_wrap`). Each operator is then one
congruence.
-/
import OpTree.Value.Arithmetic
import Mathlib.Data.Int.Bitwise
import Mathlib.Data.Int.ModEq
import Mathlib.Tactic.Positivity

namespace OpTree

namespace IntKind

variable (k : IntKind)

/-! ### Wrapping -/

@[simp]
theorem wrap_toInt (v : BitVec k.width) : k.wrap (k.toInt v) = v := by
  unfold wrap toInt
  split
  · exact BitVec.ofInt_toInt
  · rw [BitVec.ofInt_natCast, BitVec.ofNat_toNat, BitVec.setWidth_eq]

theorem toInt_inj {v v' : BitVec k.width} : k.toInt v = k.toInt v' ↔ v = v' :=
  ⟨fun h => by rw [← k.wrap_toInt v, h, k.wrap_toInt], fun h => by rw [h]⟩

theorem wrap_eq_wrap {m n : Int} : k.wrap m = k.wrap n ↔ m ≡ n [ZMOD 2 ^ k.width] := by
  have pow : ((2 ^ k.width : Nat) : Int) = 2 ^ k.width := by push_cast; rfl
  unfold wrap Int.ModEq
  rw [← BitVec.toInt_inj, BitVec.toInt_ofInt, BitVec.toInt_ofInt, ← pow]
  constructor
  · intro h
    rw [← @Int.bmod_emod m, h, Int.bmod_emod]
  · intro h
    rw [← Int.emod_bmod m, h, Int.emod_bmod]

theorem toInt_wrap_modEq (n : Int) : k.toInt (k.wrap n) ≡ n [ZMOD 2 ^ k.width] :=
  k.wrap_eq_wrap.1 (k.wrap_toInt _)

theorem toInt_mem (v : BitVec k.width) : k.minimum ≤ k.toInt v ∧ k.toInt v ≤ k.maximum := by
  have := v.isLt
  have := @BitVec.toInt_lt _ v
  have := @BitVec.le_toInt _ v
  cases k <;> simp [minimum, maximum, toInt, signed, width] at * <;> omega

@[simp]
theorem toInt_zero : k.toInt 0 = 0 := by
  cases k <;> rfl

theorem toInt_eq_zero {v : BitVec k.width} : k.toInt v = 0 ↔ v = 0 := by
  rw [← k.toInt_inj, toInt_zero]

/-! ### Sums and products -/

theorem wrap_add (a b : BitVec k.width) : k.wrap (k.toInt a + k.toInt b) = a + b :=
  calc k.wrap (k.toInt a + k.toInt b)
      _ = k.wrap (k.toInt a) + k.wrap (k.toInt b) := BitVec.ofInt_add ..
      _ = a + b := by rw [wrap_toInt, wrap_toInt]

theorem wrap_sub (a b : BitVec k.width) : k.wrap (k.toInt a - k.toInt b) = a - b :=
  calc k.wrap (k.toInt a - k.toInt b)
      _ = k.wrap (k.toInt a) + -k.wrap (k.toInt b) := by
        rw [Int.sub_eq_add_neg]
        exact (BitVec.ofInt_add ..).trans (congrArg _ BitVec.ofInt_neg)
      _ = a - b := by rw [wrap_toInt, wrap_toInt, BitVec.sub_eq_add_neg]

theorem wrap_mul (a b : BitVec k.width) : k.wrap (k.toInt a * k.toInt b) = a * b :=
  calc k.wrap (k.toInt a * k.toInt b)
      _ = k.wrap (k.toInt a) * k.wrap (k.toInt b) := BitVec.ofInt_mul ..
      _ = a * b := by rw [wrap_toInt, wrap_toInt]

/-! ### Quotients and remainders -/

/-- A signed quotient is the one of the integers, unless that is out of range;
then it wraps. -/
theorem wrap_tdiv (a b : BitVec k.width) : k.wrap ((k.toInt a).tdiv (k.toInt b)) = k.div a b := by
  unfold wrap toInt div
  split
  · apply BitVec.eq_of_toInt_eq
    rw [BitVec.toInt_ofInt, BitVec.toInt_sdiv]
  · rw [← Int.ofNat_tdiv, ← BitVec.toNat_udiv, BitVec.ofInt_natCast, BitVec.ofNat_toNat,
      BitVec.setWidth_eq]

theorem toInt_rem (a b : BitVec k.width) :
    k.toInt (k.rem a b) = (k.toInt a).tmod (k.toInt b) := by
  unfold toInt rem
  split
  · exact BitVec.toInt_srem ..
  · rw [BitVec.toNat_umod, Int.ofNat_tmod]

theorem wrap_tmod (a b : BitVec k.width) : k.wrap ((k.toInt a).tmod (k.toInt b)) = k.rem a b := by
  rw [← toInt_rem, wrap_toInt]

/-- The dividend is put together again from quotient and remainder, also where
the quotient wrapped. -/
theorem div_mul_add_rem_modEq (a b : BitVec k.width) :
    k.toInt (k.div a b) * k.toInt b + k.toInt (k.rem a b) ≡ k.toInt a [ZMOD 2 ^ k.width] := by
  have hq : k.toInt (k.div a b) ≡ (k.toInt a).tdiv (k.toInt b) [ZMOD 2 ^ k.width] := by
    rw [← wrap_tdiv]
    exact k.toInt_wrap_modEq _
  have sum := (hq.mul_right (k.toInt b)).add_right (k.toInt (k.rem a b))
  rwa [toInt_rem, Int.tdiv_mul_add_tmod, ← toInt_rem] at sum

theorem sign_rem (a b : BitVec k.width) :
    k.toInt (k.rem a b) = 0 ∨ (k.toInt (k.rem a b)).sign = (k.toInt a).sign := by
  rw [toInt_rem, Int.sign_tmod]
  split
  case isTrue dvd => exact .inl (Int.tmod_eq_zero_of_dvd dvd)
  case isFalse => exact .inr rfl

/-! ### Bits -/

/-- The bits of a wrapped integer are the low ones of its two's complement. -/
theorem getLsbD_wrap (n : Int) (i : Nat) :
    (k.wrap n).getLsbD i = (decide (i < k.width) && n.testBit i) := by
  unfold wrap
  cases n with
  | ofNat n => simp [Int.testBit, BitVec.getLsbD_ofNat]
  | negSucc n =>
    rw [BitVec.ofInt_negSucc_eq_not_ofNat, BitVec.getLsbD_not, BitVec.getLsbD_ofNat]
    by_cases h : i < k.width <;> simp [h, Int.testBit]

theorem testBit_toInt (v : BitVec k.width) {i : Nat} (h : i < k.width) :
    (k.toInt v).testBit i = v.getLsbD i := by
  rw [← k.wrap_toInt v, getLsbD_wrap, wrap_toInt, decide_eq_true h, Bool.true_and]

theorem wrap_land (a b : BitVec k.width) : k.wrap ((k.toInt a).land (k.toInt b)) = a &&& b := by
  refine BitVec.eq_of_getLsbD_eq fun i h => ?_
  rw [getLsbD_wrap, Int.testBit_land, testBit_toInt k a h, testBit_toInt k b h, BitVec.getLsbD_and,
    decide_eq_true h, Bool.true_and]

theorem wrap_lor (a b : BitVec k.width) : k.wrap ((k.toInt a).lor (k.toInt b)) = a ||| b := by
  refine BitVec.eq_of_getLsbD_eq fun i h => ?_
  rw [getLsbD_wrap, Int.testBit_lor, testBit_toInt k a h, testBit_toInt k b h, BitVec.getLsbD_or,
    decide_eq_true h, Bool.true_and]

theorem wrap_lxor (a b : BitVec k.width) : k.wrap ((k.toInt a).xor (k.toInt b)) = a ^^^ b := by
  refine BitVec.eq_of_getLsbD_eq fun i h => ?_
  rw [getLsbD_wrap, Int.testBit_lxor, testBit_toInt k a h, testBit_toInt k b h, BitVec.getLsbD_xor,
    decide_eq_true h, Bool.true_and]

/-! ### Shifts -/

/-- Every width is a power of two, and at most the one that the widest count has
room for. -/
theorem width_eq_two_pow : ∃ m < 32, k.width = 2 ^ m := by
  cases k
  case i8 | u8 => exact ⟨3, by decide, rfl⟩
  case i16 | u16 => exact ⟨4, by decide, rfl⟩
  case i32 | u32 => exact ⟨5, by decide, rfl⟩
  case i64 | u64 => exact ⟨6, by decide, rfl⟩

/-- Cutting a count to 32 bits and masking it comes to taking it modulo the width,
whatever its sign and size. -/
theorem shiftMask_eq (b : BitVec k.width) : k.shiftMask b = (k.toInt b % k.width).toNat := by
  obtain ⟨m, hm, hw⟩ := k.width_eq_two_pow
  have fits : 2 ^ m - 1 < 2 ^ 32 := by
    have := Nat.pow_lt_pow_right (by decide : 1 < 2) hm
    omega
  unfold shiftMask shiftAmount
  rw [BitVec.toNat_and, BitVec.toNat_ofInt, BitVec.toNat_ofNat, hw, Nat.mod_eq_of_lt fits,
    Nat.and_two_pow_sub_one_eq_mod]
  have nonneg : 0 ≤ k.toInt b % ((2 ^ 32 : Nat) : Int) := Int.emod_nonneg _ (by decide)
  have cut : k.toInt b % ((2 ^ 32 : Nat) : Int) % ((2 ^ m : Nat) : Int) =
      k.toInt b % ((2 ^ m : Nat) : Int) :=
    Int.emod_emod_of_dvd _ (Int.natCast_dvd_natCast.2 (Nat.pow_dvd_pow 2 hm.le))
  rw [← cut, Int.toNat_emod nonneg (Int.natCast_nonneg _), Int.toNat_natCast]

theorem wrap_two_pow (n : Nat) : k.wrap (2 ^ n) = BitVec.twoPow k.width n := by
  apply BitVec.eq_of_toNat_eq
  rw [wrap, BitVec.toNat_twoPow, ← BitVec.toNat_ofNat, ← BitVec.ofInt_natCast, Nat.cast_pow]
  rfl

theorem wrap_mul_two_pow (a b : BitVec k.width) :
    k.wrap (k.toInt a * 2 ^ (k.toInt b % k.width).toNat) = k.shiftLeft a b :=
  calc k.wrap (k.toInt a * 2 ^ (k.toInt b % k.width).toNat)
      _ = k.wrap (k.toInt a) * k.wrap (2 ^ (k.toInt b % k.width).toNat) := BitVec.ofInt_mul ..
      _ = a * BitVec.twoPow k.width (k.shiftMask b) := by
        rw [wrap_toInt, wrap_two_pow, shiftMask_eq]
      _ = k.shiftLeft a b := (BitVec.shiftLeft_eq_mul_twoPow ..).symm

/-- Whether the top is filled with the sign or with zeros, a shift to the right
divides and rounds down. -/
theorem wrap_fdiv_two_pow (a b : BitVec k.width) :
    k.wrap ((k.toInt a).fdiv (2 ^ (k.toInt b % k.width).toNat)) = k.shiftRight a b := by
  rw [← shiftMask_eq, Int.fdiv_eq_ediv_of_nonneg _ (by positivity)]
  unfold shiftRight wrap toInt
  generalize k.shiftMask b = n
  have floor (m : Int) : m / 2 ^ n = m >>> n := by
    rw [Int.shiftRight_eq_div_pow, Nat.cast_pow]
    rfl
  split
  · rw [floor, ← BitVec.toInt_sshiftRight, BitVec.ofInt_toInt]
  · rw [floor, ← Int.natCast_shiftRight, ← BitVec.toNat_ushiftRight, BitVec.ofInt_natCast,
      BitVec.ofNat_toNat, BitVec.setWidth_eq]

/-! ### Comparisons -/

theorem less_eq (a b : BitVec k.width) : k.less a b = decide (k.toInt a < k.toInt b) := by
  unfold less toInt
  split
  · rw [BitVec.slt_eq_decide]
  · rw [BitVec.ult_eq_decide]; simp

theorem lessEq_eq (a b : BitVec k.width) : k.lessEq a b = decide (k.toInt a ≤ k.toInt b) := by
  unfold lessEq toInt
  split
  · rw [BitVec.sle_eq_decide]
  · rw [BitVec.ule_eq_decide]; simp

theorem beq_eq (a b : BitVec k.width) : (a == b) = decide (k.toInt a = k.toInt b) := by
  rw [decide_eq_decide.2 k.toInt_inj]
  rfl

end IntKind

namespace BinaryOp

open IntKind

/-- What an operator answers on integers of a kind: exact arithmetic on all
integers, with an integer result brought back into the kind. A quotient is cut
off towards zero and the remainder goes with it; bits are those of the two's
complement; a shift counts modulo the width, to the left it multiplies and to
the right it divides, rounding down. -/
def onIntegers (op : BinaryOp) (k : IntKind) (a b : Int) : Except EvalError Value :=
  match op with
  | add => .ok (.int k (k.wrap (a + b)))
  | sub => .ok (.int k (k.wrap (a - b)))
  | mul => .ok (.int k (k.wrap (a * b)))
  | div => if b = 0 then .error (.of .divideByZero) else .ok (.int k (k.wrap (a.tdiv b)))
  | rem => if b = 0 then .error (.of .divideByZero) else .ok (.int k (k.wrap (a.tmod b)))
  | eq => .ok (.bool (decide (a = b)))
  | notEq => .ok (.bool (decide (a ≠ b)))
  | lt => .ok (.bool (decide (a < b)))
  | ltEq => .ok (.bool (decide (a ≤ b)))
  | gt => .ok (.bool (decide (a > b)))
  | gtEq => .ok (.bool (decide (a ≥ b)))
  | bitAnd => .ok (.int k (k.wrap (a.land b)))
  | bitOr => .ok (.int k (k.wrap (a.lor b)))
  | bitXor => .ok (.int k (k.wrap (a.xor b)))
  | shl => .ok (.int k (k.wrap (a * 2 ^ (b % k.width).toNat)))
  | shr => .ok (.int k (k.wrap (a.fdiv (2 ^ (b % k.width).toNat))))
  | and | or => .error (.of (.invalidOperator op.symbol (Category.int k).name))

variable (k : IntKind) (op : BinaryOp) (a b : BitVec k.width)

theorem apply_int : op.apply (.int k a) (.int k b) = op.applyInt k a b := by
  simp [apply]

theorem applyInt_eq_onIntegers :
    op.applyInt k a b = op.onIntegers k (k.toInt a) (k.toInt b) := by
  cases op <;> simp only [applyInt, onIntegers]
  case add => rw [wrap_add]
  case sub => rw [wrap_sub]
  case mul => rw [wrap_mul]
  case div => rw [wrap_tdiv]; simp only [toInt_eq_zero]
  case rem => rw [wrap_tmod]; simp only [toInt_eq_zero]
  case eq => rw [beq_eq]
  case notEq => rw [bne, beq_eq, decide_not]
  case lt => rw [less_eq]
  case ltEq => rw [lessEq_eq]
  case gt => rw [less_eq]
  case gtEq => rw [lessEq_eq]
  case bitAnd => rw [wrap_land]
  case bitOr => rw [wrap_lor]
  case bitXor => rw [wrap_lxor]
  case shl => rw [wrap_mul_two_pow]
  case shr => rw [wrap_fdiv_two_pow]
  case and | or => rfl

theorem applyInt_eq_error (e : EvalError) :
    op.applyInt k a b = .error e ↔
      ((op = div ∨ op = rem) ∧ b = 0 ∧ e = .of .divideByZero) ∨
      ((op = and ∨ op = or) ∧ e = .of (.invalidOperator op.symbol (Category.int k).name)) := by
  cases op
  case div | rem => simp only [applyInt]; split <;> simp_all [@eq_comm _ e]
  case and | or => simp [applyInt, undefinedFor, @eq_comm _ e]
  all_goals simp [applyInt]

/-- Division by minus one of the least integer wraps around to it, and leaves
nothing. (Where there is no sign the least integer is zero, and minus one wraps
to the greatest.) -/
theorem minimum_div_neg_one :
    k.div (k.wrap k.minimum) (k.wrap (-1)) = k.wrap k.minimum ∧
      k.rem (k.wrap k.minimum) (k.wrap (-1)) = 0 := by
  cases k <;> exact ⟨rfl, rfl⟩

theorem wrap_neg_one_ne_zero : k.wrap (-1) ≠ 0 := by
  cases k <;> decide

/-- **Integer operators are exact arithmetic, reduced to the kind.** Reduction is
to the value of the kind that is congruent modulo two to the width. Quotient and
remainder make up the dividend, and the remainder has the dividend's sign. The
operators fail exactly for division by zero and for the logical connectives. -/
theorem integers_exact :
    op.apply (.int k a) (.int k b) = op.onIntegers k (k.toInt a) (k.toInt b) ∧
    (∀ n : Int, k.toInt (k.wrap n) ≡ n [ZMOD 2 ^ k.width] ∧
      k.minimum ≤ k.toInt (k.wrap n) ∧ k.toInt (k.wrap n) ≤ k.maximum) ∧
    (b = 0 ∨ ∃ q r, div.apply (.int k a) (.int k b) = .ok (.int k q) ∧
      rem.apply (.int k a) (.int k b) = .ok (.int k r) ∧
      k.toInt q * k.toInt b + k.toInt r ≡ k.toInt a [ZMOD 2 ^ k.width] ∧
      (k.toInt r = 0 ∨ (k.toInt r).sign = (k.toInt a).sign)) ∧
    div.apply (.int k (k.wrap k.minimum)) (.int k (k.wrap (-1))) =
      .ok (.int k (k.wrap k.minimum)) ∧
    rem.apply (.int k (k.wrap k.minimum)) (.int k (k.wrap (-1))) = .ok (.int k 0) ∧
    ∀ e, op.apply (.int k a) (.int k b) = .error e ↔
      ((op = div ∨ op = rem) ∧ b = 0 ∧ e = .of .divideByZero) ∨
      ((op = and ∨ op = or) ∧ e = .of (.invalidOperator op.symbol (Category.int k).name)) := by
  obtain ⟨quotient, remainder⟩ := minimum_div_neg_one k
  have nonzero := wrap_neg_one_ne_zero k
  simp only [apply_int]
  refine ⟨applyInt_eq_onIntegers k op a b, fun n => ⟨k.toInt_wrap_modEq n, k.toInt_mem _⟩, ?_, ?_,
    ?_, applyInt_eq_error k op a b⟩
  · by_cases hb : b = 0
    · exact .inl hb
    · refine .inr ⟨k.div a b, k.rem a b, if_neg hb, if_neg hb, ?_, k.sign_rem a b⟩
      exact k.div_mul_add_rem_modEq a b
  · rw [applyInt, if_neg nonzero, quotient]
  · rw [applyInt, if_neg nonzero, remainder]

-- A count of minus one is, in eight bits, a count of seven.
example : shl.apply (.int .i8 1) (.int .i8 (-1)) = .ok (.int .i8 (-128)) := rfl

end BinaryOp

end OpTree
