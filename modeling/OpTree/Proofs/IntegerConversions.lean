/-
Conversions between integer kinds. Converting to a kind keeps an integer modulo two to the
width of the kind, and of the values of a kind only one is congruent to an integer
(`IntKind.eq_wrap_iff`), so a conversion is told by one congruence. All the rest is which
congruences follow from which. What holds modulo a power of two holds modulo every smaller
one, so a kind no narrower than the target may come in between (`IntKind.wrap_toInt_wrap`).
And an operator that respects congruence gives, on converted operands, what its answer is
converted to (`BinaryOp.residual_modEq`). Sums, differences and products respect it by
arithmetic; for the operators on bits, congruence is agreement of the low bits.
-/
import OpTree.Proofs.IntegerArithmetic
import OpTree.Value.Convert

namespace OpTree

namespace IntKind

variable (k : IntKind)

/-! ## Residues -/

theorem eq_wrap_iff {v : BitVec k.width} {n : Int} :
    v = k.wrap n ↔ k.toInt v ≡ n [ZMOD 2 ^ k.width] := by
  rw [← wrap_eq_wrap, wrap_toInt]

theorem toInt_wrap_of_mem {n : Int} (least : k.minimum ≤ n) (greatest : n ≤ k.maximum) :
    k.toInt (k.wrap n) = n := by
  have congruent := k.toInt_wrap_modEq n
  have mem := k.toInt_mem (k.wrap n)
  generalize k.toInt (k.wrap n) = m at congruent mem
  unfold Int.ModEq at congruent
  cases k <;> simp only [minimum, maximum, width, signed] at * <;> norm_num at * <;> omega

theorem wrap_toInt_wrap {k' : IntKind} (narrower : k.width ≤ k'.width) (n : Int) :
    k.wrap (k'.toInt (k'.wrap n)) = k.wrap n :=
  k.wrap_eq_wrap.2 ((k'.toInt_wrap_modEq n).of_dvd (pow_dvd_pow 2 narrower))

theorem modEq_iff_testBit {m n : Int} :
    m ≡ n [ZMOD 2 ^ k.width] ↔ ∀ i < k.width, m.testBit i = n.testBit i := by
  rw [← wrap_eq_wrap]
  constructor
  · intro same i hi
    have bit := congrArg (fun v => v.getLsbD i) same
    simpa only [getLsbD_wrap, decide_eq_true hi, Bool.true_and] using bit
  · intro same
    refine BitVec.eq_of_getLsbD_eq fun i hi => ?_
    rw [getLsbD_wrap, getLsbD_wrap, same i hi]

end IntKind

/-! ## Operators that respect residues -/

namespace BinaryOp

/-- The operators for which the low bits of the answer come from the low bits of the
operands, as operators on all integers. -/
def residual? : BinaryOp → Option (Int → Int → Int)
  | add => some (· + ·)
  | sub => some (· - ·)
  | mul => some (· * ·)
  | bitAnd => some Int.land
  | bitOr => some Int.lor
  | bitXor => some Int.xor
  | _ => none

variable {op : BinaryOp} {f : Int → Int → Int} (residual : op.residual? = some f)

include residual

theorem apply_residual (k : IntKind) (x y : BitVec k.width) :
    op.apply (.int k x) (.int k y) = .ok (.int k (k.wrap (f (k.toInt x) (k.toInt y)))) := by
  rw [apply_int, applyInt_eq_onIntegers]
  cases op <;> cases residual <;> rfl

theorem residual_modEq (k : IntKind) {m m' n n' : Int} (hm : m ≡ m' [ZMOD 2 ^ k.width])
    (hn : n ≡ n' [ZMOD 2 ^ k.width]) : f m n ≡ f m' n' [ZMOD 2 ^ k.width] := by
  cases op <;> cases residual
  case add => exact hm.add hn
  case sub => exact hm.sub hn
  case mul => exact hm.mul hn
  -- bits do not follow from arithmetic: congruence is read bit by bit
  all_goals
    rw [k.modEq_iff_testBit] at hm hn ⊢
    intro i hi
  case bitAnd => rw [Int.testBit_land, Int.testBit_land, hm i hi, hn i hi]
  case bitOr => rw [Int.testBit_lor, Int.testBit_lor, hm i hi, hn i hi]
  case bitXor => rw [Int.testBit_lxor, Int.testBit_lxor, hm i hi, hn i hi]

/-- Wrapped to a kind that is no wider, the answer is that on the wrapped operands. -/
theorem wrap_residual {k k' : IntKind} (narrower : k.width ≤ k'.width) (m n : Int) :
    k.wrap (k'.toInt (k'.wrap (f m n))) =
      k.wrap (f (k.toInt (k.wrap m)) (k.toInt (k.wrap n))) := by
  rw [k.wrap_toInt_wrap narrower, k.wrap_eq_wrap]
  exact (residual_modEq residual k (k.toInt_wrap_modEq m) (k.toInt_wrap_modEq n)).symm

end BinaryOp

/-! ## Conversions -/

namespace Value

theorem convertPrimitive?_int (a b : IntKind) (x : BitVec a.width) :
    (int a x).convertPrimitive? b.primitive = some (int b (b.wrap (a.toInt x))) := by
  cases b <;> rfl

/-- **Conversions between integer kinds are reductions to the residue.** An integer is
converted to the one value of the target that is congruent to it modulo two to the target's
width. So it may be converted to any kind no narrower than the target on the way; converted
to a kind that contains it, it stays the same integer, and comes back; and to convert to a
kind no wider the answer of an operator that adds, subtracts, multiplies or combines bits is
to convert its operands. -/
theorem integers_converted (a b : IntKind) (x y : BitVec a.width) :
    let converted (k : IntKind) (v : Value) := v.convertPrimitive? k.primitive
    (∃ z : BitVec b.width, converted b (.int a x) = some (.int b z) ∧
      ∀ z', z' = z ↔ b.toInt z' ≡ a.toInt x [ZMOD 2 ^ b.width]) ∧
    (∀ c : IntKind, c.width ≤ b.width →
      (converted b (.int a x)).bind (converted c) = converted c (.int a x)) ∧
    (b.minimum ≤ a.toInt x → a.toInt x ≤ b.maximum →
      ∃ z : BitVec b.width, b.toInt z = a.toInt x ∧ converted b (.int a x) = some (.int b z) ∧
        converted a (.int b z) = some (.int a x)) ∧
    (b.width ≤ a.width → ∀ op ∈ [BinaryOp.add, .sub, .mul, .bitAnd, .bitOr, .bitXor],
      ∃ r x' y' r', op.apply (.int a x) (.int a y) = .ok r ∧
        converted b (.int a x) = some x' ∧ converted b (.int a y) = some y' ∧
        op.apply x' y' = .ok r' ∧ converted b r = some r') := by
  intro converted
  refine ⟨⟨_, convertPrimitive?_int a b x, fun z' => b.eq_wrap_iff⟩, fun c narrower => ?_,
    fun least greatest => ?_, fun narrower op hop => ?_⟩
  · simp only [converted, convertPrimitive?_int, Option.bind_some, c.wrap_toInt_wrap narrower]
  · have kept := b.toInt_wrap_of_mem least greatest
    refine ⟨_, kept, convertPrimitive?_int a b x, ?_⟩
    simp only [converted, convertPrimitive?_int, kept, a.wrap_toInt]
  · obtain ⟨f, residual⟩ : ∃ f, op.residual? = some f := by
      simp only [List.mem_cons, List.not_mem_nil, or_false] at hop
      rcases hop with rfl | rfl | rfl | rfl | rfl | rfl <;> exact ⟨_, rfl⟩
    refine ⟨_, _, _, _, BinaryOp.apply_residual residual a x y, convertPrimitive?_int a b x,
      convertPrimitive?_int a b y, BinaryOp.apply_residual residual b _ _, ?_⟩
    simp only [converted, convertPrimitive?_int, BinaryOp.wrap_residual residual narrower]

/-- Two hundred is a byte: as one it keeps its value and comes back, the signed byte of the
same bits is found from it, and multiplied by a hundred it wraps as the wide product does. -/
theorem long_converted :
    let x : BitVec IntKind.i64.width := 200
    let y : BitVec IntKind.i64.width := 100
    let converted (k : IntKind) (v : Value) := v.convertPrimitive? k.primitive
    IntKind.i8.width ≤ IntKind.u8.width ∧ IntKind.u8.width ≤ IntKind.i64.width ∧
      IntKind.u8.minimum ≤ IntKind.i64.toInt x ∧ IntKind.i64.toInt x ≤ IntKind.u8.maximum ∧
      (converted .u8 (.int .i64 x)).bind (converted .i8) = some (.int .i8 (-56)) ∧
      (∃ z : BitVec IntKind.u8.width, IntKind.u8.toInt z = 200 ∧
        converted .u8 (.int .i64 x) = some (.int .u8 z) ∧
        converted .i64 (.int .u8 z) = some (.int .i64 x)) ∧
      ∃ r x' y' r', BinaryOp.mul.apply (.int .i64 x) (.int .i64 y) = .ok r ∧
        converted .u8 (.int .i64 x) = some x' ∧ converted .u8 (.int .i64 y) = some y' ∧
        BinaryOp.mul.apply x' y' = .ok r' ∧ converted .u8 r = some r' := by
  intro x y converted
  obtain ⟨-, between, contained, commutes⟩ := integers_converted .i64 .u8 x y
  refine ⟨by decide, by decide, by decide, by decide, ?_, contained (by decide) (by decide),
    commutes (by decide) .mul (by simp)⟩
  rw [between .i8 (by decide)]
  rfl

end Value

end OpTree
