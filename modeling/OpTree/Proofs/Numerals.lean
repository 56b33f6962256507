/-
Numerals. A digit stands for its place among the digits of its base, and a numeral is read from
the left, one digit after the other. `Numeral` says of a text that it is the numeral of a number
with some least count of digits: it reads as the number, and it is as long as the number or that
count makes it and no longer.
-/
import OpTree.Value.Format

namespace OpTree

-- Powers of numbers are the recursive ones, whatever other instances are in scope.
attribute [local instance (high)] instPowNat

/-- The decimal digits, each in the place of what it stands for. -/
def decimalDigits : List Char := ['0', '1', '2', '3', '4', '5', '6', '7', '8', '9']

/-- The hexadecimal digits. -/
def hexDigits (upper : Bool) : List Char :=
  decimalDigits ++ if upper then ['A', 'B', 'C', 'D', 'E', 'F'] else ['a', 'b', 'c', 'd', 'e', 'f']

@[simp] theorem length_decimalDigits : decimalDigits.length = 10 := rfl

namespace Numeral

/-- Read on, after digits that denote `n`. -/
def readOn? (digits : List Char) (n : Nat) : List Char → Option Nat
  | [] => some n
  | c :: cs => (digits.idxOf? c).bind fun d => readOn? digits (digits.length * n + d) cs

/-- The number that a text denotes, if it is made of digits. -/
def read? (digits : List Char) (text : List Char) : Option Nat :=
  if text.isEmpty then none else readOn? digits 0 text

end Numeral

/-- A minus sign before a text, for negative numbers. -/
def withSign (n : Int) (text : List Char) : List Char := if n < 0 then '-' :: text else text

/-- The integer that a decimal text denotes, a minus sign before it or none. -/
def readInteger? : List Char → Option Int
  | '-' :: text => (Numeral.read? decimalDigits text).map fun n : Nat => -(n : Int)
  | text => (Numeral.read? decimalDigits text).map Int.ofNat

/-- The text is a numeral of `n` in some digits: of as many of them as it takes, and of no fewer
than `width`. -/
structure Numeral (digits : List Char) (width n : Nat) (text : List Char) : Prop where
  length_le : ∀ j, text.length ≤ j ↔ width ≤ j ∧ 0 < j ∧ n < digits.length ^ j
  reads : Numeral.read? digits text = some n

namespace Numeral

variable {digits : List Char} {width n : Nat} {text : List Char}

theorem readOn?_append (n : Nat) (xs ys : List Char) :
    readOn? digits n (xs ++ ys) = (readOn? digits n xs).bind fun m => readOn? digits m ys := by
  induction xs generalizing n with
  | nil => rfl
  | cons c xs ih =>
    simp only [List.cons_append, readOn?, ih]
    cases digits.idxOf? c <;> rfl

theorem readOn?_zeros (zero : digits.idxOf? '0' = some 0) (k : Nat) (text : List Char) :
    readOn? digits 0 (List.replicate k '0' ++ text) = readOn? digits 0 text := by
  induction k with
  | zero => rfl
  | succ k ih => simpa [List.replicate_succ, readOn?, zero] using ih

theorem readOn?_replicate (zero : digits.idxOf? '0' = some 0) (k n : Nat) :
    readOn? digits n (List.replicate k '0') = some (n * digits.length ^ k) := by
  induction k generalizing n with
  | zero => simp [readOn?]
  | succ k ih =>
    rw [List.replicate_succ, readOn?, zero, Option.bind_some, ih, Nat.add_zero, Nat.pow_succ,
      Nat.mul_comm digits.length n, Nat.mul_assoc, Nat.mul_comm digits.length]

/-- The digits of a number are read as the number, however they are spelled. -/
theorem readOn?_toDigits {spell : Char → Char} (base : 1 < digits.length)
    (spelled : ∀ d < digits.length, digits.idxOf? (spell d.digitChar) = some d) (n : Nat) :
    readOn? digits 0 ((Nat.toDigits digits.length n).map spell) = some n := by
  induction n using Nat.base_induction digits.length base with
  | single d hd => simp [Nat.toDigits_of_lt_base hd, readOn?, spelled d hd]
  | digit m d hd hm ih =>
    rw [← Nat.toDigits_append_toDigits base hm hd, List.map_append, readOn?_append, ih,
      Nat.toDigits_of_lt_base hd]
    simp [readOn?, spelled d hd]

/-- The digits of a number with zeros in front, up to the width. -/
theorem of_toDigits {spell : Char → Char} (base : 1 < digits.length)
    (spelled : ∀ d < digits.length, digits.idxOf? (spell d.digitChar) = some d)
    (zero : digits.idxOf? '0' = some 0) (width n : Nat) :
    Numeral digits width n (List.replicate (width - (Nat.toDigits digits.length n).length) '0' ++
      (Nat.toDigits digits.length n).map spell) where
  length_le j := by
    have pos : 0 < (Nat.toDigits digits.length n).length := Nat.length_toDigits_pos
    rw [List.length_append, List.length_replicate, List.length_map]
    by_cases hj : 0 < j
    · have fits := Nat.length_toDigits_le_iff (n := n) base hj
      rw [and_iff_right hj, ← fits]
      omega
    · exact ⟨fun h => absurd h (by omega), fun h => absurd h.2.1 hj⟩
  reads := by
    have pos : 0 < (Nat.toDigits digits.length n).length := Nat.length_toDigits_pos
    rw [read?, if_neg, readOn?_zeros zero, readOn?_toDigits base spelled]
    simp

theorem decimal (width n : Nat) : Numeral decimalDigits width n
    (List.replicate (width - (Nat.toDigits 10 n).length) '0' ++ Nat.toDigits 10 n) := by
  have := @of_toDigits decimalDigits id (by decide) (by decide) rfl width n
  rwa [List.map_id] at this

theorem hex (upper : Bool) (width n : Nat) : Numeral (hexDigits upper) width n
    (List.replicate (width - (Nat.toDigits 16 n).length) '0' ++
      (Nat.toDigits 16 n).map (if upper then Char.toUpper else id)) := by
  cases upper with
  | true => exact of_toDigits (by decide) (by decide) rfl width n
  | false => exact of_toDigits (by decide) (by decide) rfl width n

/-! ## Decimal numerals -/

theorem exists_digitChar {c : Char} (h : c.isDigit = true) : ∃ d < 10, c = Nat.digitChar d := by
  obtain ⟨low, high⟩ := Char.isDigit_iff_toNat.1 h
  have low : 48 ≤ c.toNat := low
  have high : c.toNat ≤ 57 := high
  refine ⟨c.toNat - 48, by omega, Char.toNat_inj.1 ?_⟩
  rw [Nat.toNat_digitChar_of_lt_ten (by omega)]
  omega

theorem idxOf?_decimalDigits (c : Char) :
    decimalDigits.idxOf? c = if c.isDigit then some (c.toNat - '0'.toNat) else none := by
  split
  · rename_i h
    obtain ⟨d, hd, rfl⟩ := exists_digitChar h
    rw [Nat.toNat_digitChar_of_lt_ten hd]
    have := (by decide : ∀ d < 10, decimalDigits.idxOf? (Nat.digitChar d) = some d) d hd
    simpa using this
  · rename_i h
    refine List.idxOf?_eq_none_iff.2 fun hc => h ?_
    exact List.all_eq_true.1 (show decimalDigits.all Char.isDigit = true from rfl) c hc

theorem readOn?_decimal (n : Nat) (text : List Char) : readOn? decimalDigits n text =
    if text.all Char.isDigit then some (Nat.ofDigitChars 10 text n) else none := by
  induction text generalizing n with
  | nil => rfl
  | cons c text ih =>
    rw [readOn?, idxOf?_decimalDigits, List.all_cons, Nat.ofDigitChars_cons]
    cases c.isDigit with
    | true => simpa using ih _
    | false => rfl

theorem read?_decimal (text : List Char) : read? decimalDigits text =
    if text.isEmpty || !text.all Char.isDigit then none else some (Nat.ofDigitChars 10 text 0) := by
  rw [read?, readOn?_decimal]
  cases text.isEmpty <;> cases text.all Char.isDigit <;> rfl

theorem read?_decimal_eq_some {p : Nat} : read? decimalDigits text = some p ↔
    text ≠ [] ∧ (∀ c ∈ text, c.isDigit = true) ∧ Nat.ofDigitChars 10 text 0 = p := by
  rw [read?_decimal]
  cases text with
  | nil => simp
  | cons c text => simp [and_assoc]

end Numeral

theorem readInteger?_withSign {text : List Char} (n : Int)
    (reads : Numeral.read? decimalDigits text = some n.natAbs) :
    readInteger? (withSign n text) = some n := by
  by_cases neg : n < 0
  · rw [withSign, if_pos neg, readInteger?, reads, Option.map_some]
    exact congrArg some (by omega)
  · rw [withSign, if_neg neg, readInteger?, reads, Option.map_some]
    · exact congrArg some (Int.natAbs_of_nonneg (Int.not_lt.1 neg))
    · rintro rest rfl
      cases reads

end OpTree
