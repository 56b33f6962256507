/-
Integers under the specifiers `D` and `X`. `D` writes the decimal numeral of the absolute value,
with a minus sign before it for negative integers; `X` writes the hexadecimal numeral of the two's
complement in the integer's own width, which is the integer modulo two to that width. The precision
is the least count of digits, so zeros fill up a number and never a text with its sign.

Both can be read back, whatever the precision, so that two integers of a kind have never one text
(`integers_written`). An alignment adds spaces to a text, whatever the text is of.
-/
import OpTree.Proofs.IntegerArithmetic
import OpTree.Proofs.Specifiers

namespace OpTree

def spaces (n : Nat) : String := String.ofList (List.replicate n ' ')

/-- Spaces were added to a text until it is of some width, if it was not wider: before it, or
after it where the width is negative. -/
structure Padded (width : Int) (s t : String) : Prop where
  spaces : ∃ n, t = if width < 0 then s ++ spaces n else spaces n ++ s
  length : t.length = max width.natAbs s.length

theorem IntKind.toInt_emod (k : IntKind) (v : BitVec k.width) :
    (k.toInt v % 2 ^ k.width).toNat = v.toNat := by
  have same : k.toInt v % 2 ^ k.width = (v.toNat : Int) := by
    have pow : ((2 ^ k.width : Nat) : Int) = 2 ^ k.width := by push_cast; rfl
    have small : (v.toNat : Int) % 2 ^ k.width = v.toNat := by
      rw [← pow]
      exact Int.emod_eq_of_lt (Int.natCast_nonneg _) (Int.ofNat_lt.2 v.isLt)
    unfold toInt
    split
    · rw [BitVec.toInt_eq_toNat_bmod, ← pow, Int.bmod_emod, pow, small]
    · exact small
  rw [same, Int.toNat_natCast]

namespace Value

/-! ## Texts -/

theorem decimalText_eq (n : Int) (width : Nat) : decimalText n width =
    String.ofList (withSign n (List.replicate (width - (Nat.toDigits 10 n.natAbs).length) '0' ++
      Nat.toDigits 10 n.natAbs)) := by
  apply String.toList_inj.1
  by_cases neg : n < 0
  · simp [decimalText, padStart, withSign, neg, ← String.length_toList]
  · simp [decimalText, padStart, withSign, neg, ← String.length_toList]

theorem hexText_eq (upper : Bool) (n width : Nat) : hexText upper n width =
    String.ofList (List.replicate (width - (Nat.toDigits 16 n).length) '0' ++
      (Nat.toDigits 16 n).map (if upper then Char.toUpper else id)) := by
  apply String.toList_inj.1
  cases upper with
  | true => simp [hexText, padStart, String.toUpper]
  | false => simp [hexText, padStart]

theorem padded_align (width : Int) (s : String) : Padded width s (align s (some width)) where
  spaces := by
    refine ⟨width.natAbs - s.length, ?_⟩
    simp only [align, padStart, padEnd, OpTree.spaces]
  length := by
    simp only [align, padStart, padEnd]
    split <;> simp <;> omega

/-- A text is made before it is aligned. -/
theorem format_eq_map_align (v : Value) (spec : Option String) (alignment : Option Int) :
    v.format spec alignment = (v.format spec none).map fun s => align s alignment := by
  obtain rfl | rfl | ⟨letter, cs, rfl⟩ := specifier_cases spec
  · rfl
  · rfl
  · rw [format_cons, format_cons]
    cases (precision? cs).bind (v.lettered? letter) <;> rfl

/-! ## Specifiers -/

variable (k : IntKind) {precision : List Char} {p : Nat} {letter : Char}

theorem decimal_written (v : BitVec k.width)
    (reads : Numeral.read? decimalDigits precision = some p) (le : p ≤ 65535)
    (hl : letter ∈ ['D', 'd']) :
    ∃ text, (int k v).format (some (.ofList (letter :: precision))) none =
        .ok (.ofList (withSign (k.toInt v) text)) ∧
      Numeral decimalDigits p (k.toInt v).natAbs text := by
  refine ⟨_, ?_, Numeral.decimal p _⟩
  have written : (int k v).lettered? letter (some p) = some (decimalText (k.toInt v) p) := by
    simp only [List.mem_cons, List.not_mem_nil, or_false] at hl
    obtain rfl | rfl := hl <;> rfl
  rw [format_cons, precision?_digits reads le, Option.bind_some, written, decimalText_eq]
  rfl

/-- The letter that asks for hexadecimal digits of one case. -/
def hexLetter (upper : Bool) : Char := if upper then 'X' else 'x'

theorem hex_written (v : BitVec k.width)
    (reads : Numeral.read? decimalDigits precision = some p) (le : p ≤ 65535) (upper : Bool) :
    ∃ text, (int k v).format (some (.ofList (hexLetter upper :: precision))) none =
        .ok (.ofList text) ∧
      Numeral (hexDigits upper) p (k.toInt v % 2 ^ k.width).toNat text := by
  rw [k.toInt_emod]
  refine ⟨_, ?_, Numeral.hex upper p v.toNat⟩
  have written : (int k v).lettered? (hexLetter upper) (some p) =
      some (hexText upper v.toNat p) := by
    cases upper <;> rfl
  rw [format_cons, precision?_digits reads le, Option.bind_some, written, hexText_eq]
  rfl

/-- Integers of one kind that have one text under a letter are one integer, also where the
precisions differ. -/
theorem eq_of_format_eq {v v' : BitVec k.width} {precision' : List Char} {p' : Nat}
    (reads : Numeral.read? decimalDigits precision = some p) (le : p ≤ 65535)
    (reads' : Numeral.read? decimalDigits precision' = some p') (le' : p' ≤ 65535)
    (hl : letter ∈ ['D', 'd', 'X', 'x'])
    (same : (int k v).format (some (.ofList (letter :: precision))) none =
      (int k v').format (some (.ofList (letter :: precision'))) none) : v = v' := by
  by_cases decimal : letter ∈ ['D', 'd']
  · obtain ⟨text, h, numeral⟩ := decimal_written k v reads le decimal
    obtain ⟨text', h', numeral'⟩ := decimal_written k v' reads' le' decimal
    rw [h, h', Except.ok.injEq, String.ofList_inj] at same
    have back := readInteger?_withSign _ numeral.reads
    rw [same, readInteger?_withSign _ numeral'.reads, Option.some.injEq] at back
    exact (k.toInt_inj.1 back).symm
  · obtain ⟨upper, rfl⟩ : ∃ upper, letter = hexLetter upper := by
      simp only [List.mem_cons, List.not_mem_nil, or_false] at hl decimal
      rcases hl with hl | hl | hl | hl
      · exact absurd (.inl hl) decimal
      · exact absurd (.inr hl) decimal
      · exact ⟨true, hl⟩
      · exact ⟨false, hl⟩
    obtain ⟨text, h, numeral⟩ := hex_written k v reads le upper
    obtain ⟨text', h', numeral'⟩ := hex_written k v' reads' le' upper
    rw [h, h', Except.ok.injEq, String.ofList_inj] at same
    have back := numeral.reads
    rw [same, numeral'.reads, Option.some.injEq, k.toInt_emod, k.toInt_emod] at back
    exact BitVec.eq_of_toNat_eq back.symm

/-- Integers under `D` and `X` with a precision: what is written is a numeral of the integer, which
can be read back; and an alignment adds spaces to it, as to any other text of the integer. -/
theorem integers_written (v : BitVec k.width)
    (reads : Numeral.read? decimalDigits precision = some p) (le : p ≤ 65535) :
    (∀ letter ∈ ['D', 'd'], ∃ text,
      (int k v).format (some (.ofList (letter :: precision))) none =
        .ok (.ofList (withSign (k.toInt v) text)) ∧
      Numeral decimalDigits p (k.toInt v).natAbs text ∧
      readInteger? (withSign (k.toInt v) text) = some (k.toInt v)) ∧
    (∀ upper, ∃ text,
      (int k v).format (some (.ofList (hexLetter upper :: precision))) none = .ok (.ofList text) ∧
      Numeral (hexDigits upper) p (k.toInt v % 2 ^ k.width).toNat text) ∧
    (∀ letter ∈ ['D', 'd', 'X', 'x'], ∀ v' precision' p',
      Numeral.read? decimalDigits precision' = some p' → p' ≤ 65535 →
      (int k v).format (some (.ofList (letter :: precision))) none =
        (int k v').format (some (.ofList (letter :: precision'))) none → v = v') ∧
    ∀ spec s width, (int k v).format spec none = .ok s →
      ∃ t, (int k v).format spec (some width) = .ok t ∧ Padded width s t := by
  refine ⟨fun letter hl => ?_, hex_written k v reads le, ?_, ?_⟩
  · obtain ⟨text, written, numeral⟩ := decimal_written k v reads le hl
    exact ⟨text, written, numeral, readInteger?_withSign _ numeral.reads⟩
  · intro letter hl v' precision' p' reads' le' same
    exact eq_of_format_eq k reads le reads' le' hl same
  · intro spec s width h
    refine ⟨align s (some width), ?_, padded_align width s⟩
    rw [format_eq_map_align, h]
    rfl

theorem leastByte_written : Numeral.read? decimalDigits ['5'] = some 5 ∧ 5 ≤ 65535 ∧
    (∃ text, (int .i8 (-128)).format (some "D5") none = .ok (.ofList (withSign (-128) text)) ∧
      Numeral decimalDigits 5 128 text ∧ readInteger? (withSign (-128) text) = some (-128)) ∧
    (∃ text, (int .i8 (-128)).format (some "X5") none = .ok (.ofList text) ∧
      Numeral (hexDigits true) 5 128 text) ∧
    ∃ t, (int .i8 (-128)).format (some "D5") (some (-9)) = .ok t ∧ Padded (-9) "-00128" t := by
  have reads : Numeral.read? decimalDigits ['5'] = some 5 := rfl
  obtain ⟨decimal, hex, -, aligned⟩ := integers_written .i8 (-128) reads (by decide)
  exact ⟨reads, by decide, decimal 'D' (by decide), hex true, aligned _ "-00128" (-9) rfl⟩

end Value

end OpTree
