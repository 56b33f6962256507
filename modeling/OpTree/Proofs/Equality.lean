/-
The equality operators against equality of values. `==` goes three ways: references are compared
by identity, primitives of one category by the operator of the category, and all other pairs of
operands are refused. Equality of values goes by the shape of the two values alone and takes
components of tuples too. `Value.equality_operators` says that the operators answer what equality
of values does and its negation, that both refuse the same pairs, and that the order of the
operands does not matter.

Symmetry of reals is that of the comparison of IEEE, in which NaN has no place
(`UnpackedFloat.compare_swap`).
-/
import OpTree.Value.Arithmetic

namespace OpTree

/-! ## Reals -/

namespace BinaryReal

open Float.Model (UnpackedFloat)

/-- The other way round, numbers compare the other way, and what cannot be compared still
cannot. -/
theorem compare_swap (a b : UnpackedFloat) : b.compare a = (a.compare b).map Ordering.swap := by
  cases a with
  | notANumber => cases b <;> rfl
  | infinity s =>
    cases b with
    | notANumber => cases s <;> rfl
    | infinity s' => cases s <;> cases s' <;> rfl
    | zero | finite => cases s <;> rfl
  | zero s =>
    cases b with
    | infinity s' | finite s' => cases s' <;> rfl
    | notANumber | zero => rfl
  | finite s m e pos =>
    cases b with
    | notANumber => cases s <;> rfl
    | infinity s' => cases s <;> cases s' <;> rfl
    | zero => cases s <;> rfl
    | finite s' m' e' pos' =>
      have exponents : compare e' e = (compare e e').swap := (Int.compare_swap e e').symm
      have mantissas : compare m' m = (compare m m').swap := (Nat.compare_swap m m').symm
      have sizes : (compare e' e).then (compare m' m) =
          ((compare e e').then (compare m m')).swap := by
        rw [exponents, mantissas, Ordering.swap_then]
      cases s <;> cases s'
      case positive.positive => exact congrArg some sizes
      case negative.negative => exact congrArg (some ∘ Ordering.swap) sizes
      all_goals rfl

theorem unpacked_beq_comm (a b : UnpackedFloat) : a.beq b = b.beq a := by
  show (a.compare b == some .eq) = (b.compare a == some .eq)
  rw [compare_swap a b]
  rcases a.compare b with _ | _ | _ | _ <;> rfl

theorem float_beq_comm (x y : Float) : (x == y) = (y == x) :=
  unpacked_beq_comm x.toModel.unpack y.toModel.unpack

theorem float32_beq_comm (x y : Float32) : (x == y) = (y == x) :=
  unpacked_beq_comm x.toModel.unpack y.toModel.unpack

end BinaryReal

/-! ## Equality of values -/

namespace Value

mutual

theorem equal_comm : ∀ a b : Value, a.equal b = b.equal a
  | .void, b | .null, b => by cases b <;> rfl
  | .bool x, b => by
    cases b with
    | bool y => exact BEq.comm
    | _ => rfl
  | .char x, b => by
    cases b with
    | char y => exact BEq.comm
    | _ => rfl
  | .int k x, b => by
    cases b with
    | int k' y =>
      by_cases h : k = k'
      · subst h
        simp only [equal, dite_true]
        exact BEq.comm
      · simp only [equal, h, Ne.symm h, dite_false]
    | _ => rfl
  | .f32 x, b => by
    cases b with
    | f32 y => exact BinaryReal.float32_beq_comm x y
    | _ => rfl
  | .f64 x, b => by
    cases b with
    | f64 y => exact BinaryReal.float_beq_comm x y
    | _ => rfl
  | .text x, b => by
    cases b with
    | text y => exact BEq.comm
    | _ => rfl
  | .object o, b => by
    cases b with
    | object o' => exact BEq.comm
    | _ => rfl
  | .array r, b => by
    cases b with
    | array r' => exact BEq.comm
    | _ => rfl
  | .tuple as, b => by
    cases b with
    | tuple bs => exact allEqual_comm as bs
    | _ => rfl
  | .type t, b => by
    cases b with
    | type t' => simp only [equal, eq_comm]
    | _ => rfl

theorem allEqual_comm : ∀ as bs : List Value, allEqual as bs = allEqual bs as
  | [], [] | [], _ :: _ | _ :: _, [] => rfl
  | a :: as, b :: bs => by rw [allEqual, allEqual, equal_comm a b, allEqual_comm as bs]

end

/-- Identity is equality where it is asked about a reference. -/
theorem sameReference_eq_equal {a b : Value} (h : a.isReference = true ∨ b.isReference = true) :
    a.sameReference b = a.equal b := by
  by_cases ha : a.isReference = true
  · cases a with
    | null | object _ | array _ | type _ => cases b <;> rfl
    | _ => cases ha
  · have hb : b.isReference = true := h.resolve_left ha
    cases b with
    | null | object _ | array _ | type _ => cases a <;> rfl
    | _ => cases hb

/-- The values can be compared: one of them is a reference, or both are of one category. -/
def Comparable (a b : Value) : Prop :=
  a.isReference = true ∨ b.isReference = true ∨ ∃ c, a.category? = some c ∧ b.category? = some c

theorem Comparable.symm {a b : Value} (h : a.Comparable b) : b.Comparable a := by
  rcases h with h | h | ⟨c, ha, hb⟩
  · exact .inr (.inl h)
  · exact .inl h
  · exact .inr (.inr ⟨c, hb, ha⟩)

end Value

/-! ## The operators -/

namespace BinaryOp

theorem eval_of_isReference {a b : Value} (h : a.isReference = true ∨ b.isReference = true) :
    eq.eval a b = .ok (.bool (a.equal b)) ∧ notEq.eval a b = .ok (.bool !(a.equal b)) := by
  have either : (a.isReference || b.isReference) = true := by simpa using h
  simp [eval, isEquality, either, Value.sameReference_eq_equal h]

theorem eval_of_not_isReference {op : BinaryOp} {a b : Value} (equality : op.isEquality = true)
    (ha : a.isReference = false) (hb : b.isReference = false) : op.eval a b = op.apply a b := by
  have plain : op.joinsText a b = false := by
    cases op <;> first | rfl | cases equality
  simp [eval, ha, hb, plain]

theorem apply_of_category {a b : Value} {c : Category} (ha : a.category? = some c)
    (hb : b.category? = some c) :
    eq.apply a b = .ok (.bool (a.equal b)) ∧ notEq.apply a b = .ok (.bool !(a.equal b)) := by
  cases a <;> cases ha <;> cases b <;> cases hb
  case int.refl.int.refl k x y =>
    simp [apply, applyInt, Value.equal, bne]
  all_goals exact ⟨rfl, rfl⟩

theorem apply_of_not_comparable (op : BinaryOp) {a b : Value} (h : ¬a.Comparable b) :
    op.apply a b = .error (op.operandError a b) := by
  unfold apply
  split
  case h_3 k x k' y =>
    split
    · rename_i same
      subst same
      exact absurd (.inr (.inr ⟨_, rfl, rfl⟩)) h
    · rfl
  case h_7 => rfl
  all_goals exact absurd (.inr (.inr ⟨_, rfl, rfl⟩)) h

end BinaryOp

/-- `==` answers equality of values and `!=` the contrary, in either order of the operands, wherever
the values can be compared; elsewhere all of them fail. -/
theorem Value.equality_operators (a b : Value) :
    (a.Comparable b ∧ BinaryOp.eq.eval a b = .ok (.bool (a.equal b)) ∧
        BinaryOp.notEq.eval a b = .ok (.bool !(a.equal b)) ∧
        BinaryOp.eq.eval b a = .ok (.bool (a.equal b))) ∨
      (¬a.Comparable b ∧ BinaryOp.eq.eval a b = .error (BinaryOp.eq.operandError a b) ∧
        BinaryOp.notEq.eval a b = .error (BinaryOp.notEq.operandError a b) ∧
        BinaryOp.eq.eval b a = .error (BinaryOp.eq.operandError b a)) := by
  have answers {x y : Value} (h : x.Comparable y) :
      BinaryOp.eq.eval x y = .ok (.bool (x.equal y)) ∧
        BinaryOp.notEq.eval x y = .ok (.bool !(x.equal y)) := by
    by_cases refs : x.isReference = true ∨ y.isReference = true
    · exact BinaryOp.eval_of_isReference refs
    · simp only [not_or, Bool.not_eq_true] at refs
      obtain ⟨c, hx, hy⟩ : ∃ c, x.category? = some c ∧ y.category? = some c := by
        simpa [Comparable, refs] using h
      rw [BinaryOp.eval_of_not_isReference rfl refs.1 refs.2,
        BinaryOp.eval_of_not_isReference rfl refs.1 refs.2]
      exact BinaryOp.apply_of_category hx hy
  have refuses {op : BinaryOp} {x y : Value} (equality : op.isEquality = true)
      (h : ¬x.Comparable y) : op.eval x y = .error (op.operandError x y) := by
    have refs : x.isReference = false ∧ y.isReference = false := by
      simp only [Comparable, not_or, Bool.not_eq_true] at h
      exact ⟨h.1, h.2.1⟩
    rw [BinaryOp.eval_of_not_isReference equality refs.1 refs.2, op.apply_of_not_comparable h]
  by_cases h : a.Comparable b
  · have turned := (answers h.symm).1
    rw [equal_comm b a] at turned
    exact .inl ⟨h, (answers h).1, (answers h).2, turned⟩
  · exact .inr ⟨h, refuses rfl h, refuses rfl h, refuses rfl fun h' => h h'.symm⟩

/-- NaN is not even equal to itself. -/
example : BinaryOp.eq.eval (.f64 (0 / 0)) (.f64 (0 / 0)) = .ok (.bool false) := rfl

end OpTree
