/-
Format specifiers: which are taken. A specifier is a letter and a precision. Which letters there
are depends on the value alone: an integer takes all of them, a real number `F` and `N`, any
other value none. A precision is decimal digits or nothing; but it is read by a reader that
lets a plus sign stand before digits, so that one is taken too, and changes nothing
(`format_takes`).
-/
import OpTree.Proofs.Numerals

namespace OpTree

namespace Value

/-- The letters that a specifier for a value can begin with. -/
def Takes (v : Value) (letter : Char) : Prop :=
  (v.category?.any Category.isInteger ∧ letter ∈ ['D', 'd', 'X', 'x', 'F', 'f', 'N', 'n']) ∨
    (v.category?.any Category.isReal ∧ letter ∈ ['F', 'f', 'N', 'n'])

/-- A specifier for a value, if there is any: a letter that the value takes, and digits. The empty
one is none. -/
def Accepts (v : Value) : Option String → Prop
  | none => True
  | some spec => spec = "" ∨ ∃ letter digits, spec = String.ofList (letter :: digits) ∧
      v.Takes letter ∧ ∀ c ∈ digits, c.isDigit = true

/-- A specifier with a plus sign before its digits. -/
def AcceptsSigned (v : Value) (spec : Option String) : Prop :=
  ∃ letter digits, spec = some (String.ofList (letter :: '+' :: digits)) ∧ v.Takes letter ∧
    digits ≠ [] ∧ ∀ c ∈ digits, c.isDigit = true

/-! ## Precisions -/

/-- What is left when a plus sign in front is taken away. -/
def unsigned (cs : List Char) : List Char :=
  match cs with
  | '+' :: rest => rest
  | _ => cs

theorem unsigned_digits {digits : List Char} (all : ∀ c ∈ digits, c.isDigit = true) :
    unsigned digits = digits := by
  unfold unsigned
  split
  · exact absurd (all '+' List.mem_cons_self) (by decide)
  · rfl

/-- Where a specifier has a precision, with a plus sign or without, it is at most 65535. -/
def Moderate (spec : Option String) : Prop :=
  ∀ letter cs p, spec = some (String.ofList (letter :: cs)) →
    Numeral.read? decimalDigits (unsigned cs) = some p → p ≤ 65535

/-- A text is a precision if it is empty, or a numeral after a plus sign or none; it must not be
too great for 64 bits. -/
theorem precision?_eq (cs : List Char) : precision? cs = if cs = [] then some none else
    (Numeral.read? decimalDigits (unsigned cs)).bind fun p =>
      if (p : Int) ≤ IntKind.u64.maximum then some (some p) else none := by
  have taken : precision? cs = if cs.isEmpty then some none else
      if (unsigned cs).isEmpty || !(unsigned cs).all Char.isDigit then none else
        if (Nat.ofDigitChars 10 (unsigned cs) 0 : Int) ≤ IntKind.u64.maximum then
          some (some (Nat.ofDigitChars 10 (unsigned cs) 0)) else none := by
    rw [Nat.ofDigitChars_eq_foldl]
    rfl
  rw [taken, Numeral.read?_decimal]
  simp only [List.isEmpty_iff]
  split
  · rfl
  · split <;> rfl

theorem precision?_of_le {cs : List Char}
    (le : ∀ p, Numeral.read? decimalDigits (unsigned cs) = some p → p ≤ 65535) :
    precision? cs = if cs = [] then some none else
      (Numeral.read? decimalDigits (unsigned cs)).map some := by
  rw [precision?_eq]
  cases reads : Numeral.read? decimalDigits (unsigned cs) with
  | none => rfl
  | some p =>
    have fits : (p : Int) ≤ IntKind.u64.maximum := by
      have := le p reads
      simp only [IntKind.maximum, IntKind.signed, IntKind.width]
      omega
    rw [Option.bind_some, if_pos fits, Option.map_some]

theorem precision?_digits {digits : List Char} {p : Nat}
    (reads : Numeral.read? decimalDigits digits = some p) (le : p ≤ 65535) :
    precision? digits = some (some p) := by
  obtain ⟨nonempty, all, -⟩ := Numeral.read?_decimal_eq_some.1 reads
  have same := unsigned_digits all
  rw [precision?_of_le, if_neg nonempty, same, reads, Option.map_some]
  intro q hq
  rw [same, reads] at hq
  cases hq
  exact le

theorem precision?_plus {digits : List Char} (nonempty : digits ≠ [])
    (all : ∀ c ∈ digits, c.isDigit = true) : precision? ('+' :: digits) = precision? digits := by
  have same : unsigned ('+' :: digits) = unsigned digits := (unsigned_digits all).symm
  rw [precision?_eq, precision?_eq, if_neg nonempty, if_neg (List.cons_ne_nil _ _), same]

theorem precision?_isSome {cs : List Char}
    (le : ∀ p, Numeral.read? decimalDigits (unsigned cs) = some p → p ≤ 65535) :
    (precision? cs).isSome ↔ (∀ c ∈ cs, c.isDigit = true) ∨
      ∃ digits, cs = '+' :: digits ∧ digits ≠ [] ∧ ∀ c ∈ digits, c.isDigit = true := by
  rw [precision?_of_le le]
  cases cs with
  | nil => simp
  | cons c cs =>
    rw [if_neg (List.cons_ne_nil _ _), Option.isSome_map, Numeral.read?_decimal]
    by_cases plus : c = '+'
    · subst plus
      have same : unsigned ('+' :: cs) = cs := rfl
      rw [same]
      have sign : ('+').isDigit = false := by decide
      cases cs <;> simp [sign]
    · have same : unsigned (c :: cs) = c :: cs := by simp [unsigned, plus]
      rw [same]
      simp [plus]

/-! ## Letters -/

/-- Which letters give a text depends on neither the value's bits nor the precision. -/
theorem lettered?_isSome (v : Value) (letter : Char) (precision : Option Nat) :
    (v.lettered? letter precision).isSome ↔ v.Takes letter := by
  unfold lettered? Takes
  split <;> cases v <;> simp_all [real?, category?, Category.isInteger, Category.isReal]

/-! ## Specifiers -/

theorem specText_cons (v : Value) (letter : Char) (cs : List Char) :
    v.specText (String.ofList (letter :: cs)) =
      match (precision? cs).bind (v.lettered? letter) with
      | some s => .ok s
      | none => .error (.of (.invalidFormat (String.ofList (letter :: cs)) v.typeName)) := by
  cases text : (precision? cs).bind (v.lettered? letter) <;> simp [specText, text]

theorem format_of_ne_empty (v : Value) {spec : String} (nonempty : spec ≠ "")
    (alignment : Option Int) :
    v.format (some spec) alignment = (v.specText spec).map fun s => align s alignment := by
  simp only [format]
  cases v.specText spec <;> rfl

theorem format_cons (v : Value) (letter : Char) (cs : List Char) (alignment : Option Int) :
    v.format (some (String.ofList (letter :: cs))) alignment =
      match (precision? cs).bind (v.lettered? letter) with
      | some s => .ok (align s alignment)
      | none => .error (.of (.invalidFormat (String.ofList (letter :: cs)) v.typeName)) := by
  have nonempty : String.ofList (letter :: cs) ≠ "" := fun h => by
    have := congrArg String.toList h
    simp at this
  rw [format_of_ne_empty v nonempty, specText_cons]
  cases (precision? cs).bind (v.lettered? letter) <;> rfl

theorem exists_format_cons (v : Value) (letter : Char) (cs : List Char)
    (alignment : Option Int) :
    (∃ s, v.format (some (String.ofList (letter :: cs))) alignment = .ok s) ↔
      v.Takes letter ∧ (precision? cs).isSome := by
  rw [format_cons]
  cases precision? cs with
  | none => simp
  | some p =>
    rw [Option.bind_some, ← lettered?_isSome v letter p]
    cases v.lettered? letter p <;> simp

theorem ofList_cons_inj {letter letter' : Char} {cs cs' : List Char}
    (h : String.ofList (letter :: cs) = String.ofList (letter' :: cs')) :
    letter = letter' ∧ cs = cs' := by
  have := congrArg String.toList h
  simpa using this

theorem accepts_cons (v : Value) (letter : Char) (cs : List Char) :
    v.Accepts (some (String.ofList (letter :: cs))) ∨
        v.AcceptsSigned (some (String.ofList (letter :: cs))) ↔
      v.Takes letter ∧ ((∀ c ∈ cs, c.isDigit = true) ∨
        ∃ digits, cs = '+' :: digits ∧ digits ≠ [] ∧ ∀ c ∈ digits, c.isDigit = true) := by
  constructor
  · rintro ((empty | ⟨letter', digits, h, takes, all⟩) | ⟨letter', digits, h, takes, nonempty, all⟩)
    · have := congrArg String.toList empty
      simp at this
    · obtain ⟨rfl, rfl⟩ := ofList_cons_inj h
      exact ⟨takes, .inl all⟩
    · obtain ⟨rfl, rfl⟩ := ofList_cons_inj (Option.some.inj h)
      exact ⟨takes, .inr ⟨digits, rfl, nonempty, all⟩⟩
  · rintro ⟨takes, all | ⟨digits, rfl, nonempty, all⟩⟩
    · exact .inl (.inr ⟨letter, cs, rfl, takes, all⟩)
    · exact .inr ⟨letter, digits, rfl, takes, nonempty, all⟩

theorem specifier_cases (spec : Option String) :
    spec = none ∨ spec = some "" ∨ ∃ letter cs, spec = some (String.ofList (letter :: cs)) := by
  cases spec with
  | none => exact .inl rfl
  | some s =>
    cases hs : s.toList with
    | nil => exact .inr (.inl (congrArg some (String.toList_inj.1 hs)))
    | cons letter cs => exact .inr (.inr ⟨letter, cs, by rw [← hs, String.ofList_toList]⟩)

theorem exists_format {v : Value} {spec : Option String} (moderate : Moderate spec)
    (alignment : Option Int) :
    (∃ s, v.format spec alignment = .ok s) ↔ v.Accepts spec ∨ v.AcceptsSigned spec := by
  obtain rfl | rfl | ⟨letter, cs, rfl⟩ := specifier_cases spec
  · exact ⟨fun _ => .inl trivial, fun _ => ⟨_, rfl⟩⟩
  · exact ⟨fun _ => .inl (.inl rfl), fun _ => ⟨_, rfl⟩⟩
  · rw [exists_format_cons, accepts_cons, precision?_isSome fun p => moderate letter cs p rfl]

theorem format_eq_error {v : Value} {spec : Option String} {alignment : Option Int} {e : EvalError}
    (h : v.format spec alignment = .error e) :
    ∃ s, spec = some s ∧ e = .of (.invalidFormat s v.typeName) := by
  obtain rfl | rfl | ⟨letter, cs, rfl⟩ := specifier_cases spec
  · cases h
  · cases h
  · rw [format_cons] at h
    split at h
    · cases h
    · cases h
      exact ⟨_, rfl, rfl⟩

/-- A specifier is taken for a value if it is empty, or a letter that the value takes and decimal
digits; a plus sign before the digits is let through, and makes no difference. Any other
specifier is an error, which names it and the value's type. -/
theorem format_takes (v : Value) (spec : Option String) (alignment : Option Int)
    (moderate : Moderate spec) :
    ((∃ s, v.format spec alignment = .ok s) ↔ v.Accepts spec ∨ v.AcceptsSigned spec) ∧
    (∀ e, v.format spec alignment = .error e ↔ ¬(v.Accepts spec ∨ v.AcceptsSigned spec) ∧
      ∃ s, spec = some s ∧ e = .of (.invalidFormat s v.typeName)) ∧
    ∀ letter digits, v.Takes letter → digits ≠ [] → (∀ c ∈ digits, c.isDigit = true) →
      spec = some (String.ofList (letter :: '+' :: digits)) →
        v.format spec alignment = v.format (some (String.ofList (letter :: digits))) alignment := by
  have taken := exists_format (v := v) moderate alignment
  refine ⟨taken, fun e => ⟨fun h => ⟨?_, format_eq_error h⟩, ?_⟩, ?_⟩
  · rw [← taken]
    rintro ⟨s, ok⟩
    rw [ok] at h
    cases h
  · rintro ⟨refused, s, rfl, rfl⟩
    cases h : v.format (some s) alignment with
    | ok s => exact absurd (taken.1 ⟨s, h⟩) refused
    | error e =>
      obtain ⟨s', same, rfl⟩ := format_eq_error h
      cases same
      rfl
  · rintro letter digits takes nonempty all rfl
    have reads := Numeral.read?_decimal_eq_some.2 ⟨nonempty, all, rfl⟩
    have precise := precision?_digits reads (moderate letter _ _ rfl reads)
    obtain ⟨s, text⟩ := Option.isSome_iff_exists.1 ((lettered?_isSome v letter _).2 takes)
    rw [format_cons, format_cons, precision?_plus nonempty all, precise, Option.bind_some, text]

/-- A digit of another script makes no precision. -/
theorem foreignDigit_refused : Moderate (some "F٣") ∧
    (int .i64 7).format (some "F٣") (some 4) = .error (.of (.invalidFormat "F٣" "long")) := by
  have spelled : "F٣" = String.ofList ('F' :: ['٣']) := rfl
  have moderate : Moderate (some "F٣") := by
    intro letter cs p h reads
    obtain ⟨-, rfl⟩ := ofList_cons_inj (Option.some.inj h)
    cases reads
  refine ⟨moderate, ((format_takes _ _ _ moderate).2.1 _).2 ⟨?_, "F٣", rfl, rfl⟩⟩
  rw [spelled, accepts_cons]
  rintro ⟨-, all | ⟨digits, h, -⟩⟩
  · exact absurd (all '٣' List.mem_cons_self) (by decide)
  · exact absurd (List.cons.inj h).1 (by decide)

/-- A plus sign before the digits is let through. -/
theorem plusSign_accepted : ¬(int .i32 5).Accepts (some "D+3") ∧
    (int .i32 5).format (some "D+3") none = .ok "005" := by
  refine ⟨?_, rfl⟩
  rintro (empty | ⟨letter, digits, h, -, all⟩)
  · exact absurd empty (by decide)
  · have h : String.ofList ('D' :: ['+', '3']) = String.ofList (letter :: digits) := h
    obtain ⟨-, rfl⟩ := ofList_cons_inj h
    exact absurd (all '+' List.mem_cons_self) (by decide)

end Value

end OpTree
