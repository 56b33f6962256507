/-
Interning over histories. A table finds the number of a string and an array the string of a
number; after any strings were interned, each undoes the other (`Interner.Paired`). A number
that was given out stays with its string whatever is interned later (`Interner.Extends`), so
strings and the numbers given for them are equal together, and there are as many numbers as
there are distinct strings, the empty one always among them (`Interner.numbers_stand`).

Numbers are below the count of strings: 32 bits hold them until there are more than 2 ^ 32.
-/
import Mathlib.Data.Finset.Card
import OpTree.Interner

namespace OpTree.Interner

variable {t t' : Interner} {s : String} {n : Nat}

/-- The numbers of strings that are interned one after the other, and the interner then. -/
def internAll (t : Interner) : List String → List Nat × Interner
  | [] => ([], t)
  | s :: ss =>
    let (n, t) := t.intern s
    let (ns, t) := internAll t ss
    (n :: ns, t)

@[simp] theorem internAll_nil (t : Interner) : t.internAll [] = ([], t) := rfl

@[simp] theorem internAll_cons (t : Interner) (s : String) (ss : List String) :
    t.internAll (s :: ss) =
      ((t.intern s).1 :: ((t.intern s).2.internAll ss).1, ((t.intern s).2.internAll ss).2) := rfl

/-! ## One string -/

theorem intern_of_known (h : t.numbers.get? s = some n) : t.intern s = (n, t) := by
  simp [intern, h]

theorem intern_of_new (h : t.numbers.get? s = none) :
    t.intern s = (t.strings.size, ⟨t.numbers.insert s t.strings.size, t.strings.push s⟩) := by
  simp [intern, h]

/-- The table and the array undo each other, and the empty string comes first. -/
structure Paired (t : Interner) : Prop where
  inverse : ∀ s n, t.numbers.get? s = some n ↔ t.strings[n]? = some s
  first : t.strings[0]? = some ""

/-- Every number that stands for a string goes on to stand for it. -/
def Extends (t t' : Interner) : Prop :=
  ∀ (n : Nat) s, t.strings[n]? = some s → t'.strings[n]? = some s

theorem Extends.refl (t : Interner) : t.Extends t := fun _ _ h => h

theorem Extends.trans {t'' : Interner} (h : t.Extends t') (h' : t'.Extends t'') : t.Extends t'' :=
  fun n s hs => h' n s (h n s hs)

theorem extends_intern (t : Interner) (s : String) : t.Extends (t.intern s).2 := by
  cases found : t.numbers.get? s with
  | some n => rw [intern_of_known found]; exact .refl t
  | none =>
    rw [intern_of_new found]
    intro n x hx
    obtain ⟨hn, -⟩ := Array.getElem?_eq_some_iff.1 hx
    simp only [Array.getElem?_push]
    rw [if_neg (by omega)]
    exact hx

namespace Paired

theorem empty : Interner.empty.Paired where
  inverse s n := by
    by_cases h : s = ""
    · subst h
      cases n <;> simp [Interner.empty]
    · have unseen : Interner.empty.numbers.get? s = none := by
        simp [Interner.empty, Table.get?_insert_other _ (Ne.symm h)]
      rw [unseen]
      cases n <;> simp [Interner.empty, Ne.symm h]
  first := rfl

theorem not_mem_of_new (h : t.Paired) (new : t.numbers.get? s = none) : s ∉ t.strings := by
  intro mem
  obtain ⟨n, hn⟩ := Array.mem_iff_getElem?.1 mem
  rw [(h.inverse s n).2 hn] at new
  cases new

theorem intern (h : t.Paired) (s : String) : (t.intern s).2.Paired := by
  cases found : t.numbers.get? s with
  | some n => rw [intern_of_known found]; exact h
  | none =>
    have grown := extends_intern t s
    rw [intern_of_new found] at grown ⊢
    refine ⟨fun x n => ?_, grown 0 "" h.first⟩
    simp only [Array.getElem?_push]
    by_cases same : s = x
    · subst same
      have unseen : t.strings[n]? ≠ some s := fun hn => h.not_mem_of_new found (Array.mem_of_getElem? hn)
      rw [Table.get?_insert_self]
      by_cases hn : n = t.strings.size
      · simp [hn]
      · simp [hn, Ne.symm hn, unseen]
    · rw [Table.get?_insert_other _ same, h.inverse]
      by_cases hn : n = t.strings.size
      · simp [hn, same]
      · simp [hn]

theorem strings_intern (h : t.Paired) (s : String) :
    (t.intern s).2.strings[(t.intern s).1]? = some s := by
  cases found : t.numbers.get? s with
  | some n => rw [intern_of_known found]; exact (h.inverse s n).1 found
  | none => simp [intern_of_new found]

theorem intern_of_strings (h : t.Paired) (hn : t.strings[n]? = some s) : t.intern s = (n, t) :=
  intern_of_known ((h.inverse s n).2 hn)

theorem mem_intern (h : t.Paired) {x : String} :
    x ∈ (t.intern s).2.strings ↔ x = s ∨ x ∈ t.strings := by
  cases found : t.numbers.get? s with
  | some n =>
    have known : s ∈ t.strings := Array.mem_of_getElem? ((h.inverse s n).1 found)
    rw [intern_of_known found]
    constructor
    · exact .inr
    · intro mem
      rcases mem with rfl | mem
      · exact known
      · exact mem
  | none => simp [intern_of_new found, or_comm]

/-! ## Any number of strings -/

theorem internAll (h : t.Paired) (ss : List String) : (t.internAll ss).2.Paired := by
  induction ss generalizing t with
  | nil => exact h
  | cons s ss ih => exact ih (h.intern s)

end Paired

theorem extends_internAll (t : Interner) (ss : List String) : t.Extends (t.internAll ss).2 := by
  induction ss generalizing t with
  | nil => exact .refl t
  | cons s ss ih => exact (extends_intern t s).trans (ih _)

namespace Paired

theorem strings_internAll (h : t.Paired) (ss : List String) (later : (t.internAll ss).2.Extends t') :
    (t.internAll ss).1.map (fun n => t'.strings[n]?) = ss.map some := by
  induction ss generalizing t with
  | nil => rfl
  | cons s ss ih =>
    have first := later _ s (extends_internAll _ ss _ _ (h.strings_intern s))
    simp only [internAll_cons, List.map_cons, first, ih (h.intern s) later]

theorem numbers_internAll (h : t.Paired) (ss : List String) (h' : t'.Paired)
    (later : (t.internAll ss).2.Extends t') :
    ss.map t'.numbers.get? = (t.internAll ss).1.map some := by
  induction ss generalizing t with
  | nil => rfl
  | cons s ss ih =>
    have first := later _ s (extends_internAll _ ss _ _ (h.strings_intern s))
    simp only [internAll_cons, List.map_cons, (h'.inverse _ _).2 first, ih (h.intern s) later]

theorem mem_internAll (h : t.Paired) (ss : List String) {x : String} :
    x ∈ (t.internAll ss).2.strings ↔ x ∈ ss ∨ x ∈ t.strings := by
  induction ss generalizing t with
  | nil => simp
  | cons s ss ih =>
    rw [internAll_cons, ih (h.intern s), h.mem_intern, List.mem_cons]
    tauto

theorem nodup (h : t.Paired) : t.strings.toList.Nodup := by
  rw [List.nodup_iff_getElem?_ne_getElem?]
  intro i j hij hj same
  have later : t.strings[j]? = some t.strings[j] := by simp
  have earlier : t.strings[i]? = some t.strings[j] := by
    simpa using same.trans (List.getElem?_eq_getElem hj)
  rw [← h.inverse] at earlier later
  rw [earlier] at later
  simp only [Option.some.injEq] at later
  omega

end Paired

/-! ## Histories -/

/-- There is one number for each string that is interned, and one for the empty string. -/
theorem size_internAll (calls : List String) :
    (empty.internAll calls).2.size = (calls.toFinset.erase "").card + 1 := by
  have paired := Paired.empty.internAll calls
  have strings : (empty.internAll calls).2.strings.toList.toFinset = insert "" calls.toFinset := by
    ext x
    have mem := Paired.empty.mem_internAll calls (x := x)
    simp only [List.mem_toFinset, Finset.mem_insert, Array.mem_toList_iff, mem]
    simp [empty, or_comm]
  calc (empty.internAll calls).2.size
      = (empty.internAll calls).2.strings.toList.toFinset.card := by
        rw [List.toFinset_card_of_nodup paired.nodup]
        rfl
    _ = (calls.toFinset.erase "").card + 1 := by
        rw [strings, ← Finset.card_erase_add_one (Finset.mem_insert_self ..),
          Finset.erase_insert_eq_erase]

/-- The numbers that stand for strings are 0 and those that were given. -/
theorem lt_size_internAll (calls : List String) (n : Nat) :
    n < (empty.internAll calls).2.size ↔ n ∈ 0 :: (empty.internAll calls).1 := by
  have paired := Paired.empty.internAll calls
  have strings := Paired.empty.strings_internAll calls (.refl _)
  have numbers := Paired.empty.numbers_internAll calls paired (.refl _)
  constructor
  · intro lt
    have found : (empty.internAll calls).2.strings[n]? = some (empty.internAll calls).2.strings[n] :=
      Array.getElem?_eq_getElem lt
    have number := (paired.inverse _ _).2 found
    rcases (Paired.empty.mem_internAll calls).1 (Array.mem_of_getElem? found) with mem | mem
    · have given := List.mem_map_of_mem (f := (empty.internAll calls).2.numbers.get?) mem
      rw [number, numbers] at given
      simpa using Or.inr given
    · have blank : (empty.internAll calls).2.strings[n] = "" := by simpa [empty] using mem
      rw [blank, (paired.inverse "" 0).2 paired.first] at number
      simp only [Option.some.injEq] at number
      simp [← number]
  · intro mem
    have known : ∃ s, (empty.internAll calls).2.strings[n]? = some s := by
      rcases List.mem_cons.1 mem with rfl | mem
      · exact ⟨"", paired.first⟩
      · have given := List.mem_map_of_mem (f := fun n => (empty.internAll calls).2.strings[n]?) mem
        rw [strings] at given
        obtain ⟨s, -, hs⟩ := List.mem_map.1 given
        exact ⟨s, hs.symm⟩
    obtain ⟨s, hs⟩ := known
    exact (Array.getElem?_eq_some_iff.1 hs).1

theorem map_lookup {ns : List Nat} {ss : List String}
    (h : ns.map (fun n => t.strings[n]?) = ss.map some) : ns.map t.lookup = ss := by
  have texts := congrArg (List.map fun o : Option String => o.getD unknown) h
  show ns.map (fun n => (t.strings[n]?).getD unknown) = ss
  simpa [Function.comp_def] using texts

/-- **Numbers stand for strings.** After any strings were interned, the table and the array are
inverse to each other. Each number that was given is looked up as its string, then and whatever is
interned later; two of the numbers are equal exactly when their strings are; to intern one of the
strings again gives its number and adds nothing. The empty string is number 0. There are as many
strings as distinct ones were interned, the empty one counted in any case. The numbers are those
below their count, and a number that was not given out stands for nothing. -/
theorem numbers_stand (calls later : List String) :
    let numbers := (empty.internAll calls).1
    let t := (empty.internAll calls).2
    (∀ s n, t.numbers.get? s = some n ↔ t.strings[n]? = some s) ∧
    numbers.map t.lookup = calls ∧ numbers.map (t.internAll later).2.lookup = calls ∧
    (∀ i j : Nat, numbers[i]? = numbers[j]? ↔ calls[i]? = calls[j]?) ∧
    (∀ p ∈ calls.zip numbers, t.intern p.1 = (p.2, t)) ∧
    t.intern "" = (0, t) ∧
    t.size = (calls.toFinset.erase "").card + 1 ∧
    (∀ n, n < t.size ↔ n ∈ 0 :: numbers) ∧
    ∀ n, n ∉ 0 :: numbers → t.lookup n = unknown := by
  intro numbers t
  have paired : t.Paired := Paired.empty.internAll calls
  have strings : numbers.map (fun n => t.strings[n]?) = calls.map some :=
    Paired.empty.strings_internAll calls (.refl t)
  have table : calls.map t.numbers.get? = numbers.map some :=
    Paired.empty.numbers_internAll calls paired (.refl t)
  have stringAt (i : Nat) : (numbers[i]?).map (fun n => t.strings[n]?) = (calls[i]?).map some := by
    rw [← List.getElem?_map, strings, List.getElem?_map]
  have numberAt (i : Nat) : (calls[i]?).map t.numbers.get? = (numbers[i]?).map some := by
    rw [← List.getElem?_map, table, List.getElem?_map]
  refine ⟨paired.inverse, map_lookup strings,
    map_lookup (Paired.empty.strings_internAll calls (extends_internAll t later)), fun i j => ?_,
    fun p hp => ?_, paired.intern_of_strings paired.first, size_internAll calls,
    lt_size_internAll calls, fun n ungiven => ?_⟩
  · constructor
    · intro same
      apply Option.map_injective (Option.some_injective String)
      rw [← stringAt i, ← stringAt j, same]
    · intro same
      apply Option.map_injective (Option.some_injective Nat)
      rw [← numberAt i, ← numberAt j, same]
  · obtain ⟨i, hi⟩ := List.mem_iff_getElem?.1 hp
    obtain ⟨called, given⟩ := List.getElem?_zip_eq_some.1 hi
    have stands := stringAt i
    rw [called, given] at stands
    exact paired.intern_of_strings (by simpa using stands)
  · have out : ¬n < t.strings.size := fun lt => ungiven ((lt_size_internAll calls n).1 lt)
    simp [lookup, out]

/-- A string interned twice and the empty one between others. -/
theorem repeated_stands :
    let calls := ["x", "", "y", "x"]
    let t := (empty.internAll calls).2
    (empty.internAll calls).1 = [1, 0, 2, 1] ∧ ("y", 2) ∈ calls.zip [1, 0, 2, 1] ∧
      t.intern "y" = (2, t) ∧ [1, 0, 2, 1].map (t.internAll ["z", "y"]).2.lookup = calls ∧
      3 ∉ [0, 1, 0, 2, 1] ∧ t.lookup 3 = "<unknown>" := by
  intro calls t
  have given : (empty.internAll calls).1 = [1, 0, 2, 1] := by decide
  have stands := numbers_stand calls ["z", "y"]
  rw [given] at stands
  have again : ("y", 2) ∈ calls.zip [1, 0, 2, 1] := by decide
  have ungiven : 3 ∉ [0, 1, 0, 2, 1] := by decide
  obtain ⟨-, -, kept, -, reinterned, -, -, -, unknown⟩ := stands
  exact ⟨given, again, reinterned _ again, kept, ungiven, unknown 3 ungiven⟩

end OpTree.Interner
