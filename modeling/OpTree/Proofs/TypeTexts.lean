/-
The texts of types are read from the end. The last character of a text tells the form of the
type: a letter a primitive, a digit a type without arguments, and each bracket and the mark of
nullability one form of its own (`ClosedType.ending_text`). What stands before it is again texts
of types and separators, and a run of letters, digits or commas goes on as long as it can. So a
text can be taken off the end of another in one way only (`ClosedType.append_text_inj`), and two
types of one text are one type (`ClosedType.text_inj`).

An array without a dimension would be written as one of one dimension.
-/
import Mathlib.Data.List.Basic
import Mathlib.Data.List.Induction
import OpTree.Proofs.Numerals
import OpTree.Types.ClosedType

namespace OpTree

/-- Two texts that end in a run of one kind of characters, as long as can be. -/
theorem append_run_inj {kind : Char → Bool} {u v xs ys : List Char}
    (hu : ∀ c ∈ u.getLast?, kind c = false) (hv : ∀ c ∈ v.getLast?, kind c = false)
    (hxs : ∀ c ∈ xs, kind c = true) (hys : ∀ c ∈ ys, kind c = true) (h : u ++ xs = v ++ ys) :
    u = v ∧ xs = ys := by
  have ended {w rest : List Char} (hw : ∀ c ∈ w.getLast?, kind c = false)
      (hrest : ∀ c ∈ rest, kind c = true) {before} (hb : w = before ++ rest) : rest = [] := by
    rcases List.eq_nil_or_concat' rest with empty | ⟨rest, c, rfl⟩
    · exact empty
    · have last : kind c = false := hw c (by simp [hb])
      rw [hrest c (by simp)] at last
      cases last
  rcases List.append_eq_append_iff.1 h with ⟨more, hm, hx⟩ | ⟨more, hm, hy⟩
  · obtain rfl := ended hv (fun c hc => hxs c (by simp [hx, hc])) hm
    simp [hm, hx]
  · obtain rfl := ended hu (fun c hc => hys c (by simp [hy, hc])) hm
    simp [hm, hy]

theorem PrimitiveType.ofName?_name (p : PrimitiveType) : ofName? p.name = some p := by
  cases p <;> rfl

theorem PrimitiveType.isAlpha_name (p : PrimitiveType) : ∀ c ∈ p.name.toList, c.isAlpha = true := by
  have letters : p.name.toList.all Char.isAlpha = true := by cases p <;> rfl
  exact List.all_eq_true.1 letters

namespace ClosedType

/-- Every array in the type has a dimension. -/
inductive Ranked : ClosedType → Prop where
  | primitive (p) : Ranked (.primitive p)
  | plain (d) : Ranked (.named d [])
  | generic (d) {a as} : (∀ c ∈ a :: as, Ranked c) → Ranked (.named d (a :: as))
  | array {element rank} : Ranked element → 0 < rank → Ranked (.array element rank)
  | tuple {elements} : (∀ c ∈ elements, Ranked c) → Ranked (.tuple elements)
  | nullable {inner} : Ranked inner → Ranked (.nullable inner)

/-! ## Texts as characters -/

/-- The text of a type without arguments. -/
def plainText (d : TypeId) : List Char := "type#".toList ++ Nat.toDigits 10 d.raw

/-- The texts of the members of a list, with what stands between them. -/
def listText : List ClosedType → List Char
  | [] => []
  | c :: cs => c.text.toList ++ (restText cs).toList

/-- What stands before the text of a further member. -/
def leadText (cs : List ClosedType) : List Char := cs.flatMap fun c => c.text.toList ++ [',', ' ']

theorem toList_plain (d : TypeId) : (named d []).text.toList = plainText d := by
  show ("type#" ++ toString d.raw).toList = plainText d
  have digits : (toString d.raw).toList = Nat.toDigits 10 d.raw := by
    rw [Nat.toString_eq_ofList_toDigits, String.toList_ofList]
  rw [plainText, String.toList_append, digits]

theorem toList_generic (d : TypeId) (a : ClosedType) (as : List ClosedType) :
    (named d (a :: as)).text.toList = plainText d ++ '<' :: listText (a :: as) ++ ['>'] := by
  show ("type#" ++ toString d.raw ++ "<" ++ a.text ++ restText as ++ ">").toList = _
  simp [plainText, listText]

theorem toList_array (element : ClosedType) (rank : Nat) : (array element rank).text.toList =
    element.text.toList ++ '[' :: List.replicate (rank - 1) ',' ++ [']'] := by
  simp [text]

theorem toList_tuple (elements : List ClosedType) :
    (tuple elements).text.toList = '(' :: listText elements ++ [')'] := by
  cases elements <;> simp [text, listText]

theorem toList_nullable (inner : ClosedType) :
    (nullable inner).text.toList = inner.text.toList ++ ['?'] := by
  simp [text]

theorem listText_concat (cs : List ClosedType) (c : ClosedType) :
    listText (cs ++ [c]) = leadText cs ++ c.text.toList := by
  induction cs with
  | nil => simp [listText, leadText, restText]
  | cons a as ih =>
    have rest : (restText (as ++ [c])).toList = [',', ' '] ++ listText (as ++ [c]) := by
      cases as <;> simp [restText, listText]
    rw [List.cons_append, listText, rest, ih]
    simp [leadText]

theorem leadText_concat (cs : List ClosedType) (c : ClosedType) :
    leadText (cs ++ [c]) = leadText cs ++ c.text.toList ++ [',', ' '] := by
  simp [leadText]

/-! ## The last character -/

/-- What a character tells at the end of a text; all letters tell the same, and all digits. -/
def ending (c : Char) : Char := if c.isAlpha then 'a' else if c.isDigit then '0' else c

/-- What the end of the text of a type tells. -/
def form : ClosedType → Char
  | primitive _ => 'a'
  | named _ [] => '0'
  | named _ (_ :: _) => '>'
  | array .. => ']'
  | tuple _ => ')'
  | nullable _ => '?'

theorem ending_of_isDigit {c : Char} (h : c.isDigit = true) : ending c = '0' := by
  obtain ⟨d, hd, rfl⟩ := Numeral.exists_digitChar h
  exact (by decide : ∀ d < 10, ending (Nat.digitChar d) = '0') d hd

/-- The last character of the text tells the form of the type. -/
theorem ending_text (t : ClosedType) : t.text.toList.getLast?.map ending = some t.form := by
  cases t with
  | primitive p => cases p <;> rfl
  | named d args =>
    cases args with
    | nil =>
      have digits : Nat.toDigits 10 d.raw ≠ [] := Nat.toDigits_ne_nil
      have digit := Nat.isDigit_of_mem_toDigits (by decide) (by decide) (List.getLast_mem digits)
      rw [toList_plain, plainText, List.getLast?_append, List.getLast?_eq_some_getLast digits,
        Option.some_or, Option.map_some, ending_of_isDigit digit]
      rfl
    | cons a as => rw [toList_generic, List.getLast?_concat]; rfl
  | array element rank => rw [toList_array, List.getLast?_concat]; rfl
  | tuple elements => rw [toList_tuple, List.getLast?_concat]; rfl
  | nullable inner => rw [toList_nullable, List.getLast?_concat]; rfl

theorem ending_append (u : List Char) (t : ClosedType) :
    (u ++ t.text.toList).getLast?.map ending = some t.form := by
  have last := ending_text t
  rw [List.getLast?_append]
  cases ends : t.text.toList.getLast? with
  | some c => simpa [ends] using last
  | none => simp [ends] at last

theorem form_eq {s t : ClosedType} {u v : List Char} (h : u ++ s.text.toList = v ++ t.text.toList) :
    s.form = t.form := by
  rw [← Option.some_inj, ← ending_append u, ← ending_append v, h]

/-! ## Taking a text off the end -/

/-- What a type can stand after in a text: nothing, an opening bracket, or the space after a comma. -/
def Opens (u : List Char) : Prop := ∀ c ∈ u.getLast?, c = '(' ∨ c = '<' ∨ c = ' '

theorem plainText_inj {d e : TypeId} {u v : List Char} (h : u ++ plainText d = v ++ plainText e) :
    u = v ∧ d = e := by
  simp only [plainText, ← List.append_assoc] at h
  have digits (n : Nat) : ∀ c ∈ Nat.toDigits 10 n, c.isDigit = true := fun c hc =>
    Nat.isDigit_of_mem_toDigits (by decide) (by decide) hc
  have sharp (w : List Char) : ∀ c ∈ (w ++ "type#".toList).getLast?, c.isDigit = false := by
    simp
  obtain ⟨before, same⟩ := append_run_inj (sharp u) (sharp v) (digits d.raw) (digits e.raw) h
  have raw : d.raw = e.raw := by
    simpa using congrArg (fun ds => Nat.ofDigitChars 10 ds 0) same
  obtain ⟨raw'⟩ := d
  obtain rfl : raw' = e.raw := raw
  exact ⟨List.append_cancel_right before, rfl⟩

/-- The type is taken off the end of a text in one way. -/
def EndsAlone (s : ClosedType) : Prop :=
  ∀ t u v, t.Ranked → Opens u → Opens v → u ++ s.text.toList = v ++ t.text.toList → u = v ∧ s = t

theorem bracket_ne_text {o : Char} (ho : o = '(' ∨ o = '<') (t : ClosedType) (u v : List Char) :
    u ++ [o] ≠ v ++ t.text.toList := by
  intro h
  have last := congrArg (fun w => w.getLast?.map ending) h
  simp only [List.getLast?_concat, ending_append, Option.map_some, Option.some.injEq] at last
  unfold form at last
  rcases ho with rfl | rfl <;> split at last <;> exact absurd last (by decide)

theorem opens_leadText {o : Char} (ho : o = '(' ∨ o = '<') (u : List Char) (cs : List ClosedType) :
    Opens (u ++ o :: leadText cs) := by
  intro c hc
  rcases List.eq_nil_or_concat' cs with rfl | ⟨cs, d, rfl⟩
  · have last : o = c := by simpa [leadText] using hc
    rw [← last]
    exact ho.imp_right .inl
  · have last : ' ' = c := by simpa [leadText_concat, List.getLast?_cons] using hc
    simp [← last]

/-- By induction from the end of the list, as the texts are taken off. -/
theorem leadText_inj {o : Char} (ho : o = '(' ∨ o = '<') {cs ds : List ClosedType} {u v : List Char}
    (hcs : ∀ c ∈ cs, c.EndsAlone) (hds : ∀ d ∈ ds, d.Ranked)
    (h : u ++ o :: leadText cs = v ++ o :: leadText ds) : u = v ∧ cs = ds := by
  have bracket (w w' : List Char) : w ++ [o] ≠ w' ++ [',', ' '] := by
    intro same
    have last : o = ' ' := by simpa using congrArg List.getLast? same
    simp [last] at ho
  induction cs using List.reverseRecOn generalizing ds u v with
  | nil =>
    rcases List.eq_nil_or_concat' ds with rfl | ⟨ds, d, rfl⟩
    · simpa [leadText] using h
    · exact absurd (by simpa [leadText] using h) (bracket u (v ++ o :: leadText ds ++ d.text.toList))
  | append_singleton cs c ih =>
    rcases List.eq_nil_or_concat' ds with rfl | ⟨ds, d, rfl⟩
    · exact absurd (by simpa [leadText] using h.symm)
        (bracket v (u ++ o :: leadText cs ++ c.text.toList))
    · have texts : u ++ o :: leadText cs ++ c.text.toList = v ++ o :: leadText ds ++ d.text.toList := by
        refine List.append_cancel_right (?_ : _ ++ [',', ' '] = _ ++ [',', ' '])
        simpa [leadText_concat] using h
      obtain ⟨leads, same⟩ := hcs c (by simp) d _ _ (hds d (by simp)) (opens_leadText ho u cs)
        (opens_leadText ho v ds) texts
      obtain ⟨before, others⟩ :=
        ih (fun c hc => hcs c (by simp [hc])) (fun d hd => hds d (by simp [hd])) leads
      exact ⟨before, by rw [same, others]⟩

theorem listText_inj {o : Char} (ho : o = '(' ∨ o = '<') {cs ds : List ClosedType} {u v : List Char}
    (hcs : ∀ c ∈ cs, c.EndsAlone) (hds : ∀ d ∈ ds, d.Ranked)
    (h : u ++ o :: listText cs = v ++ o :: listText ds) : u = v ∧ cs = ds := by
  rcases List.eq_nil_or_concat' cs with rfl | ⟨cs, c, rfl⟩
  · rcases List.eq_nil_or_concat' ds with rfl | ⟨ds, d, rfl⟩
    · simpa [listText] using h
    · rw [listText_concat] at h
      exact absurd (by simpa [listText] using h) (bracket_ne_text ho d u (v ++ o :: leadText ds))
  · rcases List.eq_nil_or_concat' ds with rfl | ⟨ds, d, rfl⟩
    · rw [listText_concat] at h
      exact absurd (by simpa [listText] using h.symm) (bracket_ne_text ho c v (u ++ o :: leadText cs))
    · have longer := congrArg (fun w => w ++ [',', ' ']) h
      refine leadText_inj ho hcs hds ?_
      simpa [leadText_concat, listText_concat] using longer

/-- By induction on the type that is taken off. The last character leaves one form for the other
type (`form_eq`); then the same marks go from both ends, and the members follow. -/
theorem Ranked.endsAlone {s : ClosedType} (hs : s.Ranked) : s.EndsAlone := by
  induction hs with
  | primitive p =>
    intro t u v ht hu hv h
    have same := form_eq h
    cases ht with
    | primitive q =>
      have word (w : List Char) (hw : Opens w) : ∀ c ∈ w.getLast?, c.isAlpha = false := by
        intro c hc
        rcases hw c hc with rfl | rfl | rfl <;> rfl
      obtain ⟨before, names⟩ :=
        append_run_inj (word u hu) (word v hv) p.isAlpha_name q.isAlpha_name h
      have primitive := congrArg PrimitiveType.ofName? (String.toList_inj.1 names)
      simp only [PrimitiveType.ofName?_name, Option.some.injEq] at primitive
      exact ⟨before, by rw [primitive]⟩
    | plain | generic | array | tuple | nullable => simp [form] at same
  | plain d =>
    intro t u v ht hu hv h
    have same := form_eq h
    cases ht with
    | plain e =>
      rw [toList_plain, toList_plain] at h
      obtain ⟨before, same⟩ := plainText_inj h
      exact ⟨before, by rw [same]⟩
    | primitive | generic | array | tuple | nullable => simp [form] at same
  | @generic d a as _ ih =>
    intro t u v ht hu hv h
    have same := form_eq h
    cases ht with
    | @generic e b bs hb =>
      rw [toList_generic, toList_generic] at h
      have lists : u ++ plainText d ++ '<' :: listText (a :: as) =
          v ++ plainText e ++ '<' :: listText (b :: bs) := by
        refine List.append_cancel_right (?_ : _ ++ ['>'] = _ ++ ['>'])
        simpa using h
      obtain ⟨names, args⟩ := listText_inj (by simp) ih hb lists
      obtain ⟨before, same⟩ := plainText_inj names
      exact ⟨before, by rw [same, args]⟩
    | primitive | plain | array | tuple | nullable => simp [form] at same
  | @array element rank _ pos ih =>
    intro t u v ht hu hv h
    have same := form_eq h
    cases ht with
    | @array element' rank' he pos' =>
      rw [toList_array, toList_array] at h
      have runs : u ++ element.text.toList ++ ['['] ++ List.replicate (rank - 1) ',' =
          v ++ element'.text.toList ++ ['['] ++ List.replicate (rank' - 1) ',' := by
        refine List.append_cancel_right (?_ : _ ++ [']'] = _ ++ [']'])
        simpa using h
      have comma (n : Nat) : ∀ c ∈ List.replicate n ',', (c == ',') = true := by simp
      obtain ⟨elements, commas⟩ :=
        append_run_inj (by simp) (by simp) (comma (rank - 1)) (comma (rank' - 1)) runs
      obtain ⟨before, same⟩ := ih _ _ _ he hu hv (List.append_cancel_right elements)
      have ranks : rank - 1 = rank' - 1 := by simpa using congrArg List.length commas
      have ranks : rank = rank' := by omega
      exact ⟨before, by rw [same, ranks]⟩
    | primitive | plain | generic | tuple | nullable => simp [form] at same
  | @tuple elements _ ih =>
    intro t u v ht hu hv h
    have same := form_eq h
    cases ht with
    | @tuple elements' he =>
      rw [toList_tuple, toList_tuple] at h
      have lists : u ++ '(' :: listText elements = v ++ '(' :: listText elements' := by
        refine List.append_cancel_right (?_ : _ ++ [')'] = _ ++ [')'])
        simpa using h
      obtain ⟨before, same⟩ := listText_inj (by simp) ih he lists
      exact ⟨before, by rw [same]⟩
    | primitive | plain | generic | array | nullable => simp [form] at same
  | @nullable inner _ ih =>
    intro t u v ht hu hv h
    have same := form_eq h
    cases ht with
    | @nullable inner' hi =>
      rw [toList_nullable, toList_nullable] at h
      have inners : u ++ inner.text.toList = v ++ inner'.text.toList := by
        refine List.append_cancel_right (?_ : _ ++ ['?'] = _ ++ ['?'])
        simpa using h
      obtain ⟨before, same⟩ := ih _ _ _ hi hu hv inners
      exact ⟨before, by rw [same]⟩
    | primitive | plain | generic | array | tuple => simp [form] at same

/-- **A text is the text of one type.** Types in which every array has a dimension are written alike
only if they are the same. -/
theorem text_unambiguous {s t : ClosedType} (hs : s.Ranked) (ht : t.Ranked) :
    s.text = t.text ↔ s = t := by
  constructor
  · intro same
    have opens : Opens [] := by simp [Opens]
    exact (hs.endsAlone t [] [] ht opens opens (by rw [same])).2
  · intro same
    rw [same]

/-- An array of tuples, and a tuple that ends in an array of arrays. -/
theorem brackets_unambiguous :
    let pairs : ClosedType := .array (.tuple [.nullable (.primitive .i32),
      .named ⟨12⟩ [.primitive .i8, .array (.primitive .text) 2]]) 1
    let pair : ClosedType := .tuple [.nullable (.primitive .i32),
      .named ⟨12⟩ [.primitive .i8, .array (.array (.primitive .text) 2) 1]]
    pairs.Ranked ∧ pair.Ranked ∧ pairs.text = "(int?, type#12<sbyte, string[,]>)[]" ∧
      pair.text = "(int?, type#12<sbyte, string[,][]>)" ∧ pairs.text ≠ pair.text := by
  intro pairs pair
  have table : (array (.primitive .text) 2).Ranked := .array (.primitive .text) (by decide)
  have ranked : pairs.Ranked := by
    refine .array (.tuple ?_) (by decide)
    simp only [List.forall_mem_cons]
    refine ⟨.nullable (.primitive .i32), .generic ⟨12⟩ ?_, nofun⟩
    simp only [List.forall_mem_cons]
    exact ⟨.primitive .i8, table, nofun⟩
  have ranked' : pair.Ranked := by
    refine .tuple ?_
    simp only [List.forall_mem_cons]
    refine ⟨.nullable (.primitive .i32), .generic ⟨12⟩ ?_, nofun⟩
    simp only [List.forall_mem_cons]
    exact ⟨.primitive .i8, .array table (by decide), nofun⟩
  have differ : pairs ≠ pair := by simp [pairs, pair]
  exact ⟨ranked, ranked', by rfl, by rfl, fun same => differ ((text_unambiguous ranked ranked').1 same)⟩

-- without a dimension an array is written as one of one dimension
example : (array (primitive .i32) 0).text = (array (primitive .i32) 1).text := rfl

end ClosedType

end OpTree
