/-
Unary operators and steps by one. They are defined apart from the binary operators, and on
integers they answer what sums and differences in the same category do: minus is the difference
from zero, complement is one below minus, and a step adds or takes away one, all of them wrapped
to the width (`Value.unary_and_steps`).

A character is stepped by its code point. Counting in words of 32 bits wraps below zero, but what
it wraps to is no code point, so a step reaches exactly the code point next to it, where there is
one: not across either end and not into the surrogates (`Value.step_char`, `Value.step_word`).
-/
import OpTree.Proofs.IntegerArithmetic

namespace OpTree

namespace IntKind

variable (k : IntKind)

theorem wrap_neg (n : Int) : k.wrap (-n) = -k.wrap n := BitVec.ofInt_neg

theorem wrap_sub_wrap (m n : Int) : k.wrap m - k.wrap n = k.wrap (m - n) := by
  rw [Int.sub_eq_add_neg, BitVec.sub_eq_add_neg, ← k.wrap_neg]
  exact (BitVec.ofInt_add ..).symm

theorem wrap_add_wrap (m n : Int) : k.wrap m + k.wrap n = k.wrap (m + n) := (BitVec.ofInt_add ..).symm

theorem not_wrap (n : Int) : ~~~k.wrap n = k.wrap (-n - 1) := by
  rw [BitVec.not_eq_neg_add, ← k.wrap_neg, ← k.wrap_sub_wrap]
  cases k <;> rfl

end IntKind

namespace Value

/-- The value of an integer kind that is congruent to a number. -/
def integer (k : IntKind) (n : Int) : Value := .int k (k.wrap n)

/-- The number one above or below. -/
def neighbour (decrement : Bool) (n : Int) : Int := if decrement then n - 1 else n + 1

theorem neighbour_neighbour (decrement : Bool) (n : Int) :
    neighbour (!decrement) (neighbour decrement n) = n := by
  cases decrement <;> simp [neighbour]

/-! ## Integers -/

theorem int_eq_integer (k : IntKind) (v : BitVec k.width) : Value.int k v = integer k (k.toInt v) := by
  rw [integer, k.wrap_toInt]

theorem add_integer (k : IntKind) (m n : Int) :
    BinaryOp.add.apply (integer k m) (integer k n) = .ok (integer k (m + n)) := by
  simp only [integer, BinaryOp.apply_int, BinaryOp.applyInt, k.wrap_add_wrap]

theorem sub_integer (k : IntKind) (m n : Int) :
    BinaryOp.sub.apply (integer k m) (integer k n) = .ok (integer k (m - n)) := by
  simp only [integer, BinaryOp.apply_int, BinaryOp.applyInt, k.wrap_sub_wrap]

theorem neg_integer (k : IntKind) (n : Int) :
    UnaryOp.neg.apply (integer k n) = .ok (integer k (-n)) := by
  simp only [integer, UnaryOp.apply, k.wrap_neg]

theorem bitNot_integer (k : IntKind) (n : Int) :
    UnaryOp.bitNot.apply (integer k n) = .ok (integer k (-n - 1)) := by
  simp only [integer, UnaryOp.apply, k.not_wrap]

theorem plus_integer (k : IntKind) (n : Int) :
    UnaryOp.plus.apply (integer k n) = .ok (integer k n) := rfl

theorem step_integer (decrement : Bool) (k : IntKind) (n : Int) :
    step decrement (integer k n) = .ok (integer k (neighbour decrement n)) := by
  have one : k.wrap 1 = 1 := by cases k <;> rfl
  have up : k.wrap n + 1 = k.wrap (n + 1) := by rw [← one, k.wrap_add_wrap]
  have down : k.wrap n - 1 = k.wrap (n - 1) := by rw [← one, k.wrap_sub_wrap]
  cases decrement
  · exact congrArg (Except.ok ∘ Value.int k) up
  · exact congrArg (Except.ok ∘ Value.int k) down

/-! ## Characters -/

/-- The number is a code point that a character can have: none of the surrogates, and none above
the last plane. -/
def IsScalar (n : Int) : Prop := 0 ≤ n ∧ n < 0xD800 ∨ 0xDFFF < n ∧ n ≤ 0x10FFFF

theorem toNat_ofNat_of_valid {n : Nat} (h : n.isValidChar) : (Char.ofNat n).toNat = n := by
  rw [Char.ofNat, dif_pos h]
  rfl

theorem isScalar_iff (n : Int) : IsScalar n ↔ ∃ c : Char, (c.toNat : Int) = n := by
  constructor
  · intro h
    have nonneg : 0 ≤ n := by unfold IsScalar at h; omega
    have valid : n.toNat.isValidChar := by unfold IsScalar at h; unfold Nat.isValidChar; omega
    refine ⟨Char.ofNat n.toNat, ?_⟩
    rw [toNat_ofNat_of_valid valid, Int.toNat_of_nonneg nonneg]
  · rintro ⟨c, rfl⟩
    have valid : c.toNat.isValidChar := c.valid
    unfold Nat.isValidChar at valid
    unfold IsScalar
    omega

theorem char?_eq_some {n : Int} {c : Char} : char? n = some c ↔ (c.toNat : Int) = n := by
  unfold char?
  constructor
  · intro h
    split at h
    case isTrue valid =>
      cases h
      rw [toNat_ofNat_of_valid valid.2, Int.toNat_of_nonneg valid.1]
    case isFalse => cases h
  · rintro rfl
    have valid : c.toNat.isValidChar := c.valid
    rw [Int.toNat_natCast, if_pos ⟨Int.natCast_nonneg _, valid⟩, Char.ofNat_toNat]

theorem step_char {decrement : Bool} {c : Char} {w : Value} :
    step decrement (.char c) = .ok w ↔
      ∃ d, w = .char d ∧ (d.toNat : Int) = neighbour decrement c.toNat := by
  cases h : char? (neighbour decrement c.toNat) with
  | some next =>
    have stepped : step decrement (.char c) = .ok (.char next) := by
      rw [neighbour] at h
      simp only [step, h]
    have point := char?_eq_some.1 h
    rw [stepped]
    constructor
    · rintro ⟨⟩
      exact ⟨next, rfl, point⟩
    · rintro ⟨d, rfl, hd⟩
      have same : next = d := Char.toNat_inj.1 (by omega)
      rw [same]
  | none =>
    have stepped : step decrement (.char c) = .error (.of (.invalidOperator
        (if decrement then "--" else "++") (Value.char c).typeName)) := by
      rw [neighbour] at h
      simp only [step, h]
    rw [stepped]
    constructor
    · nofun
    · rintro ⟨d, -, hd⟩
      rw [char?_eq_some.2 hd] at h
      cases h

/-- Counting code points in words of 32 bits comes to the same: below zero it wraps, but not to a
code point. -/
theorem step_word (decrement : Bool) (c d : Char) :
    step decrement (.char c) = .ok (.char d) ↔
      step decrement (integer .u32 c.toNat) = .ok (integer .u32 d.toNat) := by
  have valid (c : Char) : c.toNat < 0x110000 := by
    have := c.valid
    unfold UInt32.isValidChar Nat.isValidChar at this
    unfold Char.toNat
    omega
  have hc := valid c
  have hd := valid d
  have word : integer .u32 (neighbour decrement c.toNat) = integer .u32 d.toNat ↔
      (d.toNat : Int) = neighbour decrement c.toNat := by
    have same : integer .u32 (neighbour decrement c.toNat) = integer .u32 d.toNat ↔
        IntKind.u32.wrap (neighbour decrement c.toNat) = IntKind.u32.wrap d.toNat := by
      simp [integer]
    have modulus : (2 : Int) ^ IntKind.u32.width = 4294967296 := rfl
    rw [same, IntKind.wrap_eq_wrap, Int.ModEq, modulus]
    unfold neighbour
    split <;> omega
  rw [step_char, step_integer, Except.ok.injEq, word]
  constructor
  · rintro ⟨_, ⟨⟩, hd⟩
    exact hd
  · intro hd
    exact ⟨d, rfl, hd⟩

/-! ## All together -/

/-- A value that is stepped by one exactly. -/
def IsCounted : Value → Prop
  | .int .. | .char _ => True
  | _ => False

/-- A step is taken back by a step the other way. -/
theorem step_back {v w : Value} {decrement : Bool} (counted : v.IsCounted)
    (h : step decrement v = .ok w) : step (!decrement) w = .ok v := by
  cases v with
  | int k v =>
    rw [int_eq_integer, step_integer] at h
    cases h
    rw [int_eq_integer k v, step_integer, neighbour_neighbour]
  | char c =>
    obtain ⟨d, rfl, hd⟩ := step_char.1 h
    refine step_char.2 ⟨c, rfl, ?_⟩
    rw [hd, neighbour_neighbour]
  | _ => cases counted

/-- On the integers of every kind the unary operators and the steps answer what sums and differences
with zero and one answer, wrapped to the kind. A character is stepped to the next code point up or
down, if that is one, and counting in words of 32 bits comes to the same. A step of an integer or a
character is taken back by one the other way. -/
theorem unary_and_steps :
    (∀ (k : IntKind) (v : BitVec k.width),
      let n := k.toInt v
      (UnaryOp.neg.apply (.int k v) = .ok (integer k (-n)) ∧
        BinaryOp.sub.apply (integer k 0) (.int k v) = .ok (integer k (-n))) ∧
      (UnaryOp.bitNot.apply (.int k v) = .ok (integer k (-n - 1)) ∧
        BinaryOp.sub.apply (integer k (-n)) (integer k 1) = .ok (integer k (-n - 1))) ∧
      UnaryOp.plus.apply (.int k v) = .ok (.int k v) ∧
      (step false (.int k v) = .ok (integer k (n + 1)) ∧
        BinaryOp.add.apply (.int k v) (integer k 1) = .ok (integer k (n + 1))) ∧
      (step true (.int k v) = .ok (integer k (n - 1)) ∧
        BinaryOp.sub.apply (.int k v) (integer k 1) = .ok (integer k (n - 1)))) ∧
    (∀ (c : Char) (decrement : Bool),
      let next := neighbour decrement c.toNat
      ((∃ w, step decrement (.char c) = .ok w) ↔ IsScalar next) ∧
      (∀ w, step decrement (.char c) = .ok w ↔ ∃ d, w = .char d ∧ (d.toNat : Int) = next) ∧
      ∀ d : Char, step decrement (.char c) = .ok (.char d) ↔
        step decrement (integer .u32 c.toNat) = .ok (integer .u32 d.toNat)) ∧
    ∀ (v w : Value) (decrement : Bool), v.IsCounted → step decrement v = .ok w →
      step (!decrement) w = .ok v := by
  refine ⟨fun k v => ?_, fun c decrement => ?_, fun v w decrement => step_back⟩
  · intro n
    simp only [int_eq_integer k v, neg_integer, bitNot_integer, plus_integer, step_integer,
      sub_integer, add_integer, Int.zero_sub, neighbour]
    simp [n]
  · intro next
    refine ⟨?_, fun w => step_char, step_word decrement c⟩
    rw [isScalar_iff]
    constructor
    · rintro ⟨w, hw⟩
      obtain ⟨d, -, hd⟩ := step_char.1 hw
      exact ⟨d, hd⟩
    · rintro ⟨d, hd⟩
      exact ⟨.char d, step_char.2 ⟨d, rfl, hd⟩⟩

/-- A character next to the surrogates and the largest number of eight bits, each stepped there and
back. -/
theorem borders_stepped :
    (step true (.char '\ue001') = .ok (.char '\ue000') ∧
        step false (.char '\ue000') = .ok (.char '\ue001')) ∧
      (step false (.int .i8 127) = .ok (.int .i8 (-128)) ∧
        step true (.int .i8 (-128)) = .ok (.int .i8 127)) ∧
      ¬∃ w, step true (.char '\ue000') = .ok w := by
  obtain ⟨-, chars, back⟩ := unary_and_steps
  have down : step true (.char '\ue001') = .ok (.char '\ue000') := rfl
  have up : step false (.int .i8 127) = .ok (.int .i8 (-128)) := rfl
  refine ⟨⟨down, back _ _ true trivial down⟩, ⟨up, back _ _ false trivial up⟩, ?_⟩
  have point : neighbour true '\ue000'.toNat = 0xDFFF := rfl
  rw [(chars _ true).1, point, IsScalar]
  omega

end Value

end OpTree
