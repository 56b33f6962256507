/-
Indexing rectangular arrays. An index list is in range when it has one index for every
dimension and each of them is within its own (`ArrayCell.InRange`). The lists in range are
numbered in lexicographic order (`ArrayCell.indicesAt`), and the place of an element is the
number of its index list, so the places of an array are taken one by one and none is left
out. All other lists are refused, on account of their number or of the first index that is
out of its dimension.

A place is found one dimension after another, and the numbers on the way
(`ArrayCell.waypoints`) are within the dimensions so far, whether or not there is a place in
the end; so places can be found in words wherever the number of elements can be.

On this rests that an array is a map from the index lists in range to values, which keeps
its lengths for good (`evalWithin_lengths`).
-/
import Mathlib.Data.List.Lex
import Mathlib.Tactic.Ring
import OpTree.Proofs.Decisions

namespace OpTree

namespace ArrayCell

/-- There is one index for every dimension, and each is within its dimension. -/
def InRange : List Nat → List Int → Prop
  | [], [] => True
  | n :: ns, i :: is => (0 ≤ i ∧ i < n) ∧ InRange ns is
  | _, _ => False

/-- The index list with a number. -/
def indicesAt : List Nat → Nat → List Int
  | [], _ => []
  | _ :: ns, k => (k / elementCount ns : Nat) :: indicesAt ns (k % elementCount ns)

/-- The numbers that come up while a place is found: the place among the elements of the
dimensions so far, for each dimension up to the first index that is out of range. -/
def waypoints (place : Nat) : List Nat → List Int → List Nat
  | n :: ns, i :: is =>
    match position n i with
    | .ok k => (place * n + k) :: waypoints (place * n + k) ns is
    | .error _ => []
  | _, _ => []

/-! ## Positions -/

theorem position_eq_ok {n k : Nat} {i : Int} : position n i = .ok k ↔ i = k ∧ k < n := by
  simp only [position]
  split
  · rename_i h
    rw [Except.ok.injEq]
    constructor
    · rintro rfl
      exact ⟨(Int.toNat_of_nonneg h.1).symm, h.2⟩
    · rintro ⟨rfl, -⟩
      rfl
  · rename_i h
    refine ⟨nofun, fun ⟨hi, hk⟩ => absurd ?_ h⟩
    subst hi
    exact ⟨Int.natCast_nonneg k, hk⟩

theorem position_eq_error {n : Nat} {i : Int} (h : ¬(0 ≤ i ∧ i < n)) :
    position n i = .error (.of (.indexOutOfRange i n)) := by
  rw [position, if_neg]
  rintro ⟨h0, hn⟩
  exact h ⟨h0, (Int.toNat_lt h0).1 hn⟩

/-- The first of the indices is the number of a block of elements, and the others find an
element in it. -/
theorem flatIndex_cons {n k : Nat} {ns : List Nat} {i : Int} {is : List Int} :
    flatIndex (n :: ns) (i :: is) = .ok k ↔
      ∃ j r, i = (j : Nat) ∧ j < n ∧ flatIndex ns is = .ok r ∧ k = j * elementCount ns + r := by
  simp only [flatIndex, List.length_cons, Nat.add_right_cancel_iff]
  by_cases hl : is.length = ns.length
  · simp only [hl, if_true, offset]
    cases hp : position n i with
    | error e =>
      refine ⟨nofun, ?_⟩
      rintro ⟨j, r, hi, hj, -⟩
      rw [position_eq_ok.2 ⟨hi, hj⟩] at hp
      cases hp
    | ok j =>
      obtain ⟨hi, hj⟩ := position_eq_ok.1 hp
      cases ho : offset ns is with
      | error e => exact ⟨nofun, fun ⟨_, _, _, _, h, _⟩ => nomatch h⟩
      | ok r =>
        constructor
        · intro h
          cases h
          exact ⟨j, r, hi, hj, rfl, rfl⟩
        · rintro ⟨j', r', hi', -, h, rfl⟩
          cases h
          obtain rfl : j = j' := Int.ofNat_inj.1 (hi.symm.trans hi')
          rfl
  · simp only [hl, if_false]
    exact ⟨nofun, fun ⟨_, _, _, _, h, _⟩ => nomatch h⟩

theorem flatIndex_nil {k : Nat} {is : List Int} : flatIndex [] is = .ok k ↔ is = [] ∧ k = 0 := by
  cases is with
  | nil => simp [flatIndex, offset, eq_comm]
  | cons i is => simp [flatIndex]

theorem not_flatIndex_cons_nil {n k : Nat} {ns : List Nat} : flatIndex (n :: ns) [] ≠ .ok k := nofun

/-! ## Index lists and their numbers -/

theorem flatIndex_lt {ns : List Nat} {is : List Int} {k : Nat} (h : flatIndex ns is = .ok k) :
    k < elementCount ns := by
  induction ns generalizing is k with
  | nil =>
    obtain ⟨-, rfl⟩ := flatIndex_nil.1 h
    exact Nat.one_pos
  | cons n ns ih =>
    cases is with
    | nil => exact absurd h not_flatIndex_cons_nil
    | cons i is =>
      obtain ⟨j, r, -, hj, hr, rfl⟩ := flatIndex_cons.1 h
      calc j * elementCount ns + r
        _ < j * elementCount ns + elementCount ns := Nat.add_lt_add_left (ih hr) _
        _ = (j + 1) * elementCount ns := (Nat.succ_mul ..).symm
        _ ≤ n * elementCount ns := Nat.mul_le_mul_right _ hj

/-- The index lists that have a place are those in range. -/
theorem inRange_iff {ns : List Nat} {is : List Int} :
    InRange ns is ↔ ∃ k, flatIndex ns is = .ok k := by
  induction ns generalizing is with
  | nil =>
    cases is with
    | nil => exact ⟨fun _ => ⟨0, rfl⟩, fun _ => trivial⟩
    | cons i is => exact ⟨False.elim, fun ⟨k, h⟩ => nomatch h⟩
  | cons n ns ih =>
    cases is with
    | nil => exact ⟨False.elim, fun ⟨k, h⟩ => nomatch h⟩
    | cons i is =>
      simp only [InRange, ih]
      constructor
      · rintro ⟨⟨h0, hn⟩, r, hr⟩
        refine ⟨_, flatIndex_cons.2 ⟨i.toNat, r, (Int.toNat_of_nonneg h0).symm, ?_, hr, rfl⟩⟩
        exact (Int.toNat_lt h0).2 hn
      · rintro ⟨k, h⟩
        obtain ⟨j, r, rfl, hj, hr, -⟩ := flatIndex_cons.1 h
        exact ⟨⟨Int.natCast_nonneg j, Int.ofNat_lt.2 hj⟩, r, hr⟩

instance : ∀ ns is, Decidable (InRange ns is)
  | [], [] => isTrue trivial
  | n :: ns, i :: is =>
    have := instDecidableInRange ns is
    inferInstanceAs (Decidable ((0 ≤ i ∧ i < (n : Int)) ∧ InRange ns is))
  | [], _ :: _ => isFalse id
  | _ :: _, [] => isFalse id

theorem flatIndex_indicesAt {ns : List Nat} {k : Nat} (h : k < elementCount ns) :
    flatIndex ns (indicesAt ns k) = .ok k := by
  induction ns generalizing k with
  | nil => exact flatIndex_nil.2 ⟨rfl, Nat.lt_one_iff.1 h⟩
  | cons n ns ih =>
    have pos : 0 < elementCount ns := Nat.pos_of_ne_zero fun h0 => by
      simp [elementCount, h0] at h
    have first : k / elementCount ns < n := (Nat.div_lt_iff_lt_mul pos).2 h
    refine flatIndex_cons.2 ⟨_, _, rfl, first, ih (Nat.mod_lt k pos), ?_⟩
    rw [Nat.mul_comm, Nat.div_add_mod]

theorem indicesAt_flatIndex {ns : List Nat} {is : List Int} {k : Nat}
    (h : flatIndex ns is = .ok k) : indicesAt ns k = is := by
  induction ns generalizing is k with
  | nil => exact (flatIndex_nil.1 h).1.symm
  | cons n ns ih =>
    cases is with
    | nil => exact absurd h not_flatIndex_cons_nil
    | cons i is =>
      obtain ⟨j, r, rfl, -, hr, rfl⟩ := flatIndex_cons.1 h
      have hlt := flatIndex_lt hr
      have pos : 0 < elementCount ns := Nat.zero_lt_of_lt hlt
      have block : (j * elementCount ns + r) / elementCount ns = j := by
        rw [Nat.mul_comm, Nat.mul_add_div pos, Nat.div_eq_of_lt hlt, Nat.add_zero]
      have rest : (j * elementCount ns + r) % elementCount ns = r := by
        rw [Nat.mul_comm, Nat.mul_add_mod, Nat.mod_eq_of_lt hlt]
      rw [indicesAt, block, rest, ih hr]

theorem flatIndex_inj {ns : List Nat} {is js : List Int} {k : Nat} (h : flatIndex ns is = .ok k)
    (h' : flatIndex ns js = .ok k) : is = js :=
  (indicesAt_flatIndex h).symm.trans (indicesAt_flatIndex h')

theorem mul_add_lt_mul_add_iff {m j j' r r' : Nat} (hr : r < m) (hr' : r' < m) :
    j * m + r < j' * m + r' ↔ j < j' ∨ j = j' ∧ r < r' := by
  rcases Nat.lt_trichotomy j j' with h | rfl | h
  · have := Nat.mul_le_mul_right m h
    rw [Nat.succ_mul] at this
    omega
  · omega
  · have := Nat.mul_le_mul_right m h
    rw [Nat.succ_mul] at this
    omega

/-- Places are in the order of the index lists. -/
theorem flatIndex_lt_flatIndex_iff {ns : List Nat} {is js : List Int} {k l : Nat}
    (h : flatIndex ns is = .ok k) (h' : flatIndex ns js = .ok l) : is < js ↔ k < l := by
  induction ns generalizing is js k l with
  | nil =>
    obtain ⟨rfl, rfl⟩ := flatIndex_nil.1 h
    obtain ⟨rfl, rfl⟩ := flatIndex_nil.1 h'
    simp
  | cons n ns ih =>
    cases is with
    | nil => exact absurd h not_flatIndex_cons_nil
    | cons i is =>
      cases js with
      | nil => exact absurd h' not_flatIndex_cons_nil
      | cons j js =>
        obtain ⟨i, r, rfl, -, hr, rfl⟩ := flatIndex_cons.1 h
        obtain ⟨j, r', rfl, -, hr', rfl⟩ := flatIndex_cons.1 h'
        rw [mul_add_lt_mul_add_iff (flatIndex_lt hr) (flatIndex_lt hr'), List.cons_lt_cons_iff,
          ih hr hr', Int.ofNat_lt, Int.ofNat_inj]

/-! ## The numbers on the way to a place -/

/-- A place found among some dimensions is within them, and so is the next one with the next
dimension. -/
theorem mul_add_lt {place count n j : Nat} (h : place < count) (hj : j < n) :
    place * n + j < count * n := by
  have := Nat.mul_le_mul_right n h
  rw [Nat.succ_mul] at this
  omega

theorem elementCount_append (ns ms : List Nat) :
    elementCount (ns ++ ms) = elementCount ns * elementCount ms := by
  induction ns with
  | nil => simp [elementCount]
  | cons n ns ih => rw [List.cons_append, elementCount, elementCount, ih, Nat.mul_assoc]

/-- The numbers on the way to a place are within the dimensions so far, also when there is no
place. -/
theorem lt_of_mem_waypoints (before : List Nat) {ns : List Nat} {is : List Int} {place : Nat}
    (h : place < elementCount before) :
    ∀ p ∈ waypoints place ns is, ∃ k, p < elementCount (before ++ ns.take k) := by
  induction ns generalizing is place before with
  | nil => simp [waypoints]
  | cons n ns ih =>
    cases is with
    | nil => simp [waypoints]
    | cons i is =>
      simp only [waypoints]
      cases hp : position n i with
      | error e => simp
      | ok j =>
        have within := mul_add_lt h (position_eq_ok.1 hp).2
        have single : elementCount (before ++ [n]) = elementCount before * n := by
          rw [elementCount_append, elementCount, elementCount, Nat.mul_one]
        simp only [List.mem_cons]
        rintro p (rfl | hp)
        · exact ⟨1, by simpa [single] using within⟩
        · obtain ⟨k, hk⟩ := ih (before ++ [n]) (single ▸ within) p hp
          exact ⟨k + 1, by simpa using hk⟩

theorem getLastD_waypoints {ns : List Nat} {is : List Int} {place k : Nat}
    (h : flatIndex ns is = .ok k) :
    (waypoints place ns is).getLastD place = place * elementCount ns + k := by
  induction ns generalizing is place k with
  | nil =>
    obtain ⟨-, rfl⟩ := flatIndex_nil.1 h
    simp [waypoints, elementCount]
  | cons n ns ih =>
    cases is with
    | nil => exact absurd h not_flatIndex_cons_nil
    | cons i is =>
      obtain ⟨j, r, hi, hj, hr, rfl⟩ := flatIndex_cons.1 h
      simp only [waypoints, position_eq_ok.2 ⟨hi, hj⟩, List.getLastD_cons, ih hr, elementCount]
      ring

/-! ## What is refused -/

theorem flatIndex_of_length_ne {ns : List Nat} {is : List Int} (h : is.length ≠ ns.length) :
    flatIndex ns is = .error (.of (.arityMismatch "array element access" ns.length is.length)) := by
  rw [flatIndex, if_neg h]

theorem length_eq_of_inRange {ns : List Nat} {is : List Int} (h : InRange ns is) :
    is.length = ns.length := by
  induction ns generalizing is with
  | nil =>
    cases is with
    | nil => rfl
    | cons => exact h.elim
  | cons n ns ih =>
    cases is with
    | nil => exact h.elim
    | cons i is => simp [ih h.2]

/-- An index that is out of its dimension is reported if those before it are in range. -/
theorem flatIndex_of_first {ns ns' : List Nat} {is is' : List Int} {n : Nat} {i : Int}
    (before : InRange ns is) (length : is'.length = ns'.length) (out : ¬(0 ≤ i ∧ i < n)) :
    flatIndex (ns ++ n :: ns') (is ++ i :: is') = .error (.of (.indexOutOfRange i n)) := by
  have lengths : (is ++ i :: is').length = (ns ++ n :: ns').length := by
    simp [length_eq_of_inRange before, length]
  rw [flatIndex, if_pos lengths]
  clear lengths
  induction ns generalizing is with
  | nil =>
    cases is with
    | nil => simp only [List.nil_append, offset, position_eq_error out]; rfl
    | cons => exact before.elim
  | cons m ns ih =>
    cases is with
    | nil => exact before.elim
    | cons j is =>
      obtain ⟨⟨h0, hm⟩, before⟩ := before
      have within : position m j = .ok j.toNat :=
        position_eq_ok.2 ⟨(Int.toNat_of_nonneg h0).symm, (Int.toNat_lt h0).2 hm⟩
      simp only [List.cons_append, offset, within, ih before]
      rfl

/-- A list of the right length that is not in range has a first index that is out of its
dimension. -/
theorem exists_first {ns : List Nat} {is : List Int} (length : is.length = ns.length)
    (h : ¬InRange ns is) : ∃ (ns₁ : List Nat) (n : Nat) (ns₂ : List Nat) (is₁ : List Int) (i : Int)
      (is₂ : List Int), ns = ns₁ ++ n :: ns₂ ∧ is = is₁ ++ i :: is₂ ∧
      InRange ns₁ is₁ ∧ is₂.length = ns₂.length ∧ ¬(0 ≤ i ∧ i < n) := by
  induction ns generalizing is with
  | nil =>
    obtain rfl := List.length_eq_zero_iff.1 length
    exact absurd trivial h
  | cons n ns ih =>
    cases is with
    | nil => cases length
    | cons i is =>
      have length : is.length = ns.length := Nat.succ.inj length
      by_cases first : 0 ≤ i ∧ i < (n : Int)
      · obtain ⟨ns₁, m, ns₂, is₁, j, is₂, rfl, rfl, before, rest, out⟩ :=
          ih length fun within => h ⟨first, within⟩
        exact ⟨n :: ns₁, m, ns₂, i :: is₁, j, is₂, rfl, rfl, ⟨first, before⟩, rest, out⟩
      · exact ⟨[], n, ns, [], i, is, rfl, rfl, trivial, length, first⟩

/-- Whoever is refused is refused for the number of indices, or for the first that is out of its
dimension. -/
theorem flatIndex_eq_error {ns : List Nat} {is : List Int} (h : ¬InRange ns is) :
    is.length ≠ ns.length ∧
      flatIndex ns is = .error (.of (.arityMismatch "array element access" ns.length is.length)) ∨
    ∃ (ns₁ : List Nat) (n : Nat) (ns₂ : List Nat) (is₁ : List Int) (i : Int) (is₂ : List Int),
      ns = ns₁ ++ n :: ns₂ ∧ is = is₁ ++ i :: is₂ ∧ is.length = ns.length ∧ InRange ns₁ is₁ ∧
      ¬(0 ≤ i ∧ i < n) ∧ flatIndex ns is = .error (.of (.indexOutOfRange i n)) := by
  by_cases length : is.length = ns.length
  · obtain ⟨ns₁, n, ns₂, is₁, i, is₂, rfl, rfl, before, rest, out⟩ := exists_first length h
    exact .inr ⟨ns₁, n, ns₂, is₁, i, is₂, rfl, rfl, length, before, out,
      flatIndex_of_first before rest out⟩
  · exact .inl ⟨length, flatIndex_of_length_ne length⟩

/-! ## Elements -/

variable {a : ArrayCell} {is js : List Int} {k : Nat} {v : Value}

theorem get_of_flatIndex (h : flatIndex a.lengths is = .ok k) :
    a.get is = .ok (a.data[k]?.getD .void) := by
  simp only [get, h]
  rfl

theorem get_of_error {e : EvalError} (h : flatIndex a.lengths is = .error e) : a.get is = .error e := by
  simp only [get, h]
  rfl

theorem set_of_flatIndex (h : flatIndex a.lengths is = .ok k) (v : Value) :
    ∃ a', a.set is v = .ok a' ∧ a'.lengths = a.lengths ∧ a'.data = a.data.setIfInBounds k v :=
  ⟨⟨a.lengths, a.data.setIfInBounds k v, by simp [a.size_eq]⟩, by simp only [set, h]; rfl, rfl, rfl⟩

theorem set_of_error {e : EvalError} (h : flatIndex a.lengths is = .error e) (v : Value) :
    a.set is v = .error e := by
  simp only [set, h]
  rfl

theorem getElem?_data (h : flatIndex a.lengths is = .ok k) : ∃ v, a.data[k]? = some v ∧ a.get is = .ok v := by
  have hk : k < a.data.size := a.size_eq ▸ flatIndex_lt h
  refine ⟨a.data[k], Array.getElem?_eq_getElem hk, ?_⟩
  rw [get_of_flatIndex h, Array.getElem?_eq_getElem hk, Option.getD_some]

theorem overwriteFrom_before {data : Array Value} {i j : Nat} (values : List Value) (h : j < i) :
    (overwriteFrom data i values)[j]? = data[j]? := by
  induction values generalizing data i with
  | nil => rfl
  | cons v vs ih =>
    rw [overwriteFrom, ih (Nat.lt_succ_of_lt h), Array.getElem?_setIfInBounds_ne (Nat.ne_of_gt h)]

theorem getElem?_overwriteFrom {data : Array Value} {i j : Nat} (values : List Value)
    (bound : i + j < data.size) :
    (overwriteFrom data i values)[i + j]? = (values[j]?).or data[i + j]? := by
  induction values generalizing data i j with
  | nil => simp [overwriteFrom]
  | cons v vs ih =>
    rw [overwriteFrom]
    cases j with
    | zero =>
      have here : i + 0 < i + 1 := Nat.lt_succ_self i
      rw [overwriteFrom_before vs here]
      exact Array.getElem?_setIfInBounds_self_of_lt bound
    | succ j =>
      have shift : i + (j + 1) = i + 1 + j := by omega
      have other : i ≠ i + 1 + j := by omega
      rw [shift] at bound ⊢
      rw [ih (by rwa [Array.size_setIfInBounds]), Array.getElem?_setIfInBounds_ne other,
        List.getElem?_cons_succ]

/-- The values that an array is begun with are at the first places, and the one it goes on with is
at all others. -/
theorem get_startingWith {ns : List Nat} (values : List Value) (rest : Value)
    (h : flatIndex ns is = .ok k) : (startingWith ns values rest).get is = .ok (values[k]?.getD rest) := by
  have begun : (startingWith ns values rest).get is =
      .ok ((overwriteFrom (.replicate (elementCount ns) rest) 0 values)[k]?.getD .void) :=
    get_of_flatIndex (a := startingWith ns values rest) h
  have bound : 0 + k < (Array.replicate (elementCount ns) rest).size := by
    simpa using flatIndex_lt h
  have found := getElem?_overwriteFrom values bound
  rw [Nat.zero_add] at bound found
  rw [begun, found, Array.getElem?_eq_getElem bound]
  cases values[k]? <;> simp

theorem get_set_same {a' : ArrayCell} (h : a.set is v = .ok a') : a'.get is = .ok v := by
  cases hk : flatIndex a.lengths is with
  | error e => rw [set_of_error hk] at h; cases h
  | ok k =>
    obtain ⟨_, hs, hl, hd⟩ := set_of_flatIndex hk v
    cases hs.symm.trans h
    have bound : k < a.data.size := a.size_eq ▸ flatIndex_lt hk
    rw [get_of_flatIndex (hl ▸ hk), hd, Array.getElem?_setIfInBounds_self_of_lt bound,
      Option.getD_some]

theorem get_set_other {a' : ArrayCell} (h : a.set is v = .ok a') (hne : js ≠ is) :
    a'.get js = a.get js := by
  cases hk : flatIndex a.lengths is with
  | error e => rw [set_of_error hk] at h; cases h
  | ok k =>
    obtain ⟨_, hs, hl, hd⟩ := set_of_flatIndex hk v
    cases hs.symm.trans h
    cases hj : flatIndex a.lengths js with
    | error e => rw [get_of_error hj, get_of_error (hl ▸ hj)]
    | ok l =>
      have apart : k ≠ l := by
        rintro rfl
        exact hne (flatIndex_inj hj hk)
      rw [get_of_flatIndex hj, get_of_flatIndex (hl ▸ hj), hd, Array.getElem?_setIfInBounds_ne apart]

end ArrayCell

/-! ## Arrays in the heap -/

namespace World

variable {σ : Type} {w : World σ} {a : ArrayRef} {cell : ArrayCell} {is : List Int} {v : Value}

/-- What an element is stored into is one cell of the heap. -/
theorem setElement_of_inRange (h : w.cell? a = some cell) (within : ArrayCell.InRange cell.lengths is) :
    ∃ cell', cell.set is v = .ok cell' ∧ cell'.lengths = cell.lengths ∧
      setElement a is v w = (.ok (), { w with arrays := w.arrays.setIfInBounds a.id cell' }) := by
  obtain ⟨k, hk⟩ := ArrayCell.inRange_iff.1 within
  obtain ⟨cell', hs, hl, -⟩ := ArrayCell.set_of_flatIndex hk v
  exact ⟨cell', hs, hl, by simp only [setElement, h, hs]⟩

theorem setElement_of_error {e : EvalError} (h : w.cell? a = some cell)
    (he : ArrayCell.flatIndex cell.lengths is = .error e) :
    setElement a is v w = (.error (.failed e), w) := by
  simp only [setElement, h, ArrayCell.set_of_error he]

theorem cell?_setIfInBounds (h : w.cell? a = some cell) (cell' : ArrayCell) (b : ArrayRef) :
    ({ w with arrays := w.arrays.setIfInBounds a.id cell' } : World σ).cell? b =
      if b.id = a.id then some cell' else w.cell? b := by
  obtain ⟨bound, -⟩ := Array.getElem?_eq_some_iff.1 h
  simp only [cell?]
  split
  · rename_i hb
    rw [hb, Array.getElem?_setIfInBounds_self_of_lt bound]
  · rename_i hb
    rw [Array.getElem?_setIfInBounds_ne (Ne.symm hb)]

theorem length_elements (h : w.cell? a = some cell) :
    (w.elements a).length = elementCount cell.lengths := by
  simp only [elements, h, Array.length_toList, cell.size_eq]

theorem getElem?_elements (h : w.cell? a = some cell) {k : Nat}
    (hk : ArrayCell.flatIndex cell.lengths is = .ok k) :
    ∃ v, (w.elements a)[k]? = some v ∧ w.getElement a is = .ok v := by
  obtain ⟨v, hv, hg⟩ := ArrayCell.getElem?_data hk
  exact ⟨v, by simpa only [elements, h, Array.getElem?_toList] using hv, by simpa only [getElement, h]⟩

/-- Arrays stay, and keep their lengths. -/
def KeepsLengths (w w' : World σ) : Prop :=
  ∀ (i : Nat) (cell : ArrayCell), w.arrays[i]? = some cell →
    ∃ cell', w'.arrays[i]? = some cell' ∧ cell'.lengths = cell.lengths

namespace KeepsLengths

variable {w w' w'' : World σ}

theorem of_eq (h : w'.arrays = w.arrays) : w.KeepsLengths w' :=
  fun _ cell hc => ⟨cell, h ▸ hc, rfl⟩

theorem refl (w : World σ) : w.KeepsLengths w := .of_eq rfl

theorem trans (h : w.KeepsLengths w') (h' : w'.KeepsLengths w'') : w.KeepsLengths w'' := by
  intro i cell hc
  obtain ⟨cell', hc', hl⟩ := h i cell hc
  obtain ⟨cell'', hc'', hl'⟩ := h' i cell' hc'
  exact ⟨cell'', hc'', hl'.trans hl⟩

theorem newArray (w : World σ) (element : ClosedType) (cell : ArrayCell) :
    w.KeepsLengths (w.newArray element cell).2 := by
  intro i old hc
  obtain ⟨bound, -⟩ := Array.getElem?_eq_some_iff.1 hc
  exact ⟨old, by simp only [World.newArray, Array.getElem?_push_lt bound, ← hc,
    Array.getElem?_eq_getElem bound], rfl⟩

theorem setElement (w : World σ) (a : ArrayRef) (is : List Int) (v : Value) :
    w.KeepsLengths (World.setElement a is v w).2 := by
  intro i old hc
  cases ha : w.cell? a with
  | none => exact ⟨old, by simpa only [World.setElement, ha] using hc, rfl⟩
  | some cell =>
    by_cases within : ArrayCell.InRange cell.lengths is
    · obtain ⟨cell', -, hl, hs⟩ := setElement_of_inRange (v := v) ha within
      have stored := cell?_setIfInBounds ha cell' ⟨i, a.element, a.dimensions⟩
      simp only [cell?] at stored ha
      rw [hs, stored]
      split
      · rename_i hi
        rw [hi, ha] at hc
        exact ⟨cell', rfl, Option.some.inj hc ▸ hl⟩
      · exact ⟨old, hc, rfl⟩
    · rcases ArrayCell.flatIndex_eq_error within with ⟨-, he⟩ | ⟨_, _, _, _, _, _, _, _, _, _, _, he⟩
      all_goals
        rw [setElement_of_error ha he]
        exact ⟨old, hc, rfl⟩

theorem changeFrames {name : String} (change : FrameStore → Except FrameError FrameStore)
    (w : World σ) : w.KeepsLengths (World.changeFrames name change w).2 := by
  simp only [World.changeFrames]
  split <;> exact .of_eq rfl

theorem classFrame (s : SessionId) (type : ClosedType) (w : World σ) :
    w.KeepsLengths (World.classFrame s type w).2 := by
  simp only [World.classFrame, Run.modifyGet]
  split <;> exact .of_eq rfl

theorem childFrame (f : FrameId) (kind : FrameKind) (w : World σ) :
    w.KeepsLengths (World.childFrame f kind w).2 :=
  .of_eq rfl

theorem bind (o : ObjectRef) (link : Link σ) (w : World σ) :
    w.KeepsLengths (World.bind o link w).2 := by
  simp only [World.bind]
  split <;> exact .of_eq rfl

end KeepsLengths

/-- Runs that change no lengths. -/
def keepingLengths (host : Host σ) : WorldTerms host where
  toTerms := .keeping KeepsLengths False False .refl .trans
  sights _ f f' := f = f'
  frames _ f f' := f = f'
  roots _ f f' := f = f'
  holders _ _ f f' := f = f'
  seen h := h
  holds h := h
  laterSights _ h := h
  later _ h := h
  laterRoots _ h := h
  laterHolders _ h := h
  names h hf name := by obtain ⟨rfl, rfl⟩ := h; rw [hf]
  arguments h hf := by obtain ⟨rfl, rfl⟩ := h; rw [hf]
  instances h hf := by obtain ⟨rfl, rfl⟩ := h; rw [hf]
  links h o := by
    obtain ⟨rfl, rfl⟩ := h
    exact .refl (fun _ => rfl) _
  slots h _ _ := by obtain ⟨rfl, rfl⟩ := h; rfl
  statics h _ _ := by obtain ⟨rfl, rfl⟩ := h; rfl
  entries h _ _ := by obtain ⟨rfl, rfl⟩ := h; rfl
  tables h _ _ := by obtain ⟨rfl, rfl⟩ := h; rfl
  isOpen h _ := by obtain ⟨rfl, rfl⟩ := h; rfl
  cells h _ := by obtain ⟨rfl, rfl⟩ := h; rfl
  state h := by obtain ⟨rfl, rfl⟩ := h; rfl
  classFrame b s type := Run.agrees_keeping (KeepsLengths.classFrame s type) b
  methodFrame m typeArgs hf := hf ▸ Run.agrees_keeping (KeepsLengths.childFrame _ (.ofMethod m typeArgs)) _
  instanceFrame o hf := Run.AgreesBy.imp
    (hf ▸ Run.agrees_keeping (KeepsLengths.childFrame _ (.ofInstance (some o))) _)
    fun _ _ _ made => ⟨made, made⟩
  scopeFrame hf := hf ▸ Run.agrees_keeping (KeepsLengths.childFrame _ .scope) _
  declare name hf := hf ▸ Run.agrees_keeping (KeepsLengths.changeFrames _) _
  define name v hf := hf ▸ Run.agrees_keeping (KeepsLengths.changeFrames _) _
  assign name v hf := hf ▸ Run.agrees_keeping (KeepsLengths.changeFrames _) _
  target c m hc := Run.agrees_keeping fun w => .of_eq (c.target_sameButTargets m w).arrays.symm
  register s entry := Run.agrees_keeping fun _ => .of_eq rfl
  keepTable s type table h _ _ :=
    Run.tied_keeping (fun w : World σ => w.keepTable s type table) h (.of_eq rfl)
  storeStatic s place v h :=
    Run.tied_keeping (fun w : World σ => w.storeStatic s place v) h (.of_eq rfl)
  storeSlot o field v h := Run.tied_keeping (fun w : World σ => w.storeSlot o field v) h (.of_eq rfl)
  bindLink o s _ table h hf _ := hf ▸ (Run.agrees_keeping (KeepsLengths.bind o _)).apply h
  newObject type := Run.agrees_keeping fun _ => .of_eq rfl
  newArray element cell := Run.agrees_keeping fun w => .newArray w element cell
  setElement a is v := Run.agrees_keeping fun w => .setElement w a is v
  record call h := Run.tied_keeping (fun w : World σ => w.record call) h (.of_eq rfl)
  write state h := Run.tied_keeping (fun w : World σ => { w with host := state }) h (.of_eq rfl)
  noteFailure call e h := Run.tied_keeping (fun w : World σ => w.noteFailure call e) h (.of_eq rfl)

end World

theorem evalWithin_lengths {σ : Type} (host : Host σ) (n : Nat) (session : SessionId) (x : Node)
    (s : Machine σ) : s.world.KeepsLengths (evalWithin host n session x s).2.world := by
  have agrees := (Context.within_self (World.keepingLengths host) n session).eval x
  have tied : (NodeTerms.all (World.keepingLengths host)).Tied s.world s.activation s.activation := by
    refine ⟨rfl, fun _ => ?_, ⟨rfl, rfl, rfl, rfl, rfl, rfl⟩, False.elim⟩
    cases s.activation.instanceFrame with
    | none => exact .none
    | some f => exact .some rfl
  have ends := agrees.apply (b := ⟨s.world, s.activation, s.activation⟩) ⟨⟨rfl, rfl⟩, tied, rfl, rfl⟩
  change s.world.KeepsLengths ((Context.within host n session).eval x s).2.world
  generalize (Context.within host n session).eval x s = y at ends
  cases ends with
  | short hl => exact hl.elim
  | short' hl => exact hl.elim
  | ok hle ht _ | error hle ht =>
    obtain ⟨⟨hb, -⟩, -⟩ := ht
    exact hb ▸ hle.1

/-- The lengths can be multiplied in words, one after another. -/
def FitsWord (lengths : List Nat) : Prop := ∀ k, elementCount (lengths.take k) < 2 ^ 64

/-- The index lists in range are numbered from nothing to the number of elements, in
lexicographic order and in words; the others are refused for their number or for the first
index that is out of its dimension. An array of the lengths holds a value at every index list in
range: storing one there changes the value there and nothing else, storing one elsewhere fails
and changes nothing, and evaluation leaves the number of elements as it is. -/
theorem rectangular_arrays_are_maps {lengths : List Nat} (fits : FitsWord lengths) :
    (∀ is, ArrayCell.InRange lengths is →
      ∃ k < elementCount lengths, ArrayCell.flatIndex lengths is = .ok k) ∧
    (∀ k < elementCount lengths, ∃ is, ArrayCell.InRange lengths is ∧
      ArrayCell.flatIndex lengths is = .ok k ∧
      ∀ js, ArrayCell.flatIndex lengths js = .ok k → js = is) ∧
    (∀ is js k l, ArrayCell.flatIndex lengths is = .ok k → ArrayCell.flatIndex lengths js = .ok l →
      (is < js ↔ k < l)) ∧
    (∀ is, (∀ p ∈ ArrayCell.waypoints 0 lengths is, p < 2 ^ 64) ∧
      ∀ k, ArrayCell.flatIndex lengths is = .ok k →
        (ArrayCell.waypoints 0 lengths is).getLastD 0 = k) ∧
    (∀ is, ¬ArrayCell.InRange lengths is →
      is.length ≠ lengths.length ∧ ArrayCell.flatIndex lengths is =
        .error (.of (.arityMismatch "array element access" lengths.length is.length)) ∨
      ∃ (ns₁ : List Nat) (n : Nat) (ns₂ : List Nat) (is₁ : List Int) (i : Int) (is₂ : List Int),
        lengths = ns₁ ++ n :: ns₂ ∧ is = is₁ ++ i :: is₂ ∧ is.length = lengths.length ∧
        ArrayCell.InRange ns₁ is₁ ∧ ¬(0 ≤ i ∧ i < n) ∧
        ArrayCell.flatIndex lengths is = .error (.of (.indexOutOfRange i n))) ∧
    ∀ {σ : Type} (w : World σ) (a : ArrayRef) (cell : ArrayCell), w.cell? a = some cell →
      cell.lengths = lengths →
      (w.elements a).length = elementCount lengths ∧
      (∀ is k, ArrayCell.flatIndex lengths is = .ok k →
        ∃ v, (w.elements a)[k]? = some v ∧ w.getElement a is = .ok v) ∧
      (∀ is v, ArrayCell.InRange lengths is → ∃ cell', cell'.lengths = lengths ∧
        let w' := { w with arrays := w.arrays.setIfInBounds a.id cell' }
        World.setElement a is v w = (.ok (), w') ∧ w'.getElement a is = .ok v ∧
        (∀ js ≠ is, w'.getElement a js = w.getElement a js) ∧
        ∀ b : ArrayRef, b.id ≠ a.id → w'.cell? b = w.cell? b) ∧
      (∀ is v e, ArrayCell.flatIndex lengths is = .error e →
        w.getElement a is = .error e ∧ World.setElement a is v w = (.error (.failed e), w)) ∧
      ∀ (host : Host σ) n session x activation,
        ∃ cell', (evalWithin host n session x ⟨w, activation⟩).2.world.cell? a = some cell' ∧
          cell'.lengths = lengths ∧ cell'.data.size = elementCount lengths := by
  refine ⟨fun is within => ?_, fun k hk => ?_, fun is js k l => ArrayCell.flatIndex_lt_flatIndex_iff,
    fun is => ⟨fun p hp => ?_, fun k hk => ?_⟩, fun is => ArrayCell.flatIndex_eq_error, ?_⟩
  · obtain ⟨k, hk⟩ := ArrayCell.inRange_iff.1 within
    exact ⟨k, ArrayCell.flatIndex_lt hk, hk⟩
  · have found := ArrayCell.flatIndex_indicesAt hk
    exact ⟨_, ArrayCell.inRange_iff.2 ⟨k, found⟩, found, fun js hj => ArrayCell.flatIndex_inj hj found⟩
  · obtain ⟨k, bound⟩ := ArrayCell.lt_of_mem_waypoints [] Nat.one_pos p hp
    exact bound.trans (fits k)
  · rw [ArrayCell.getLastD_waypoints hk, Nat.zero_mul, Nat.zero_add]
  · rintro σ w a cell ha rfl
    refine ⟨World.length_elements ha, fun is k => World.getElem?_elements ha, fun is v within => ?_,
      fun is v e he => ⟨?_, World.setElement_of_error ha he⟩, fun host n session x activation => ?_⟩
    · obtain ⟨cell', hs, hl, stored⟩ := World.setElement_of_inRange (v := v) ha within
      have cells := World.cell?_setIfInBounds ha cell'
      refine ⟨cell', hl, stored, ?_, fun js hne => ?_, fun b hb => by rw [cells b, if_neg hb]⟩
      · simp only [World.getElement, cells a, if_true, ArrayCell.get_set_same hs]
      · simp only [World.getElement, cells a, if_true, ha, ArrayCell.get_set_other hs hne]
    · simp only [World.getElement, ha, ArrayCell.get_of_error he]
    · obtain ⟨cell', ha', hl⟩ := evalWithin_lengths host n session x ⟨w, activation⟩ a.id cell ha
      exact ⟨cell', ha', hl, hl ▸ cell'.size_eq⟩

/-- In an array of two rows of three, the fifth element is in the second row. -/
theorem fifth_of_two_rows : FitsWord [2, 3] ∧
    ∃ is, ArrayCell.InRange [2, 3] is ∧ ArrayCell.flatIndex [2, 3] is = .ok 4 ∧ is = [1, 1] := by
  have fits : FitsWord [2, 3]
    | 0 => by decide
    | 1 => by decide
    | k + 2 => by simp [elementCount]
  obtain ⟨-, onto, -⟩ := rectangular_arrays_are_maps fits
  obtain ⟨is, within, place, only⟩ := onto 4 (by decide)
  exact ⟨fits, is, within, place, (only [1, 1] rfl).symm⟩

end OpTree
