/-
Tables: finite maps that keep their keys in the order of first insertion. A
key has at most one value; inserting again replaces it.
-/

namespace OpTree

/-- A finite map as its list of keys and values. -/
structure Table (κ ν : Type) where
  entries : List (κ × ν)

namespace Table

variable {κ ν : Type} [DecidableEq κ]

def empty : Table κ ν := ⟨[]⟩

def size (t : Table κ ν) : Nat := t.entries.length

def find (k : κ) : List (κ × ν) → Option ν
  | [] => none
  | (k', v) :: rest => if k' = k then some v else find k rest

/-- The value at a key. -/
def get? (t : Table κ ν) (k : κ) : Option ν := find k t.entries

def put (k : κ) (v : ν) : List (κ × ν) → List (κ × ν)
  | [] => [(k, v)]
  | (k', v') :: rest => if k' = k then (k, v) :: rest else (k', v') :: put k v rest

/-- The table with `v` at `k`. -/
def insert (t : Table κ ν) (k : κ) (v : ν) : Table κ ν := ⟨put k v t.entries⟩

/-- The table with `v` at `k` unless `k` has a value. -/
def insertIfNew (t : Table κ ν) (k : κ) (v : ν) : Table κ ν :=
  match t.get? k with
  | some _ => t
  | none => t.insert k v

@[simp] theorem get?_empty (k : κ) : (empty : Table κ ν).get? k = none := rfl

theorem find_put_self (k : κ) (v : ν) (es : List (κ × ν)) : find k (put k v es) = some v := by
  induction es with
  | nil => simp [put, find]
  | cons e es ih =>
    obtain ⟨k', v'⟩ := e
    by_cases h : k' = k <;> simp [put, find, h, ih]

theorem find_put_other {k k' : κ} (h : k ≠ k') (v : ν) (es : List (κ × ν)) :
    find k' (put k v es) = find k' es := by
  induction es with
  | nil => simp [put, find, h]
  | cons e es ih =>
    obtain ⟨k₀, v₀⟩ := e
    by_cases hk : k₀ = k
    · subst hk; simp [put, find, h]
    · simp only [put, hk, if_false, find, ih]

@[simp] theorem get?_insert_self (t : Table κ ν) (k : κ) (v : ν) : (t.insert k v).get? k = some v :=
  find_put_self k v t.entries

theorem get?_insert_other (t : Table κ ν) {k k' : κ} (h : k ≠ k') (v : ν) :
    (t.insert k v).get? k' = t.get? k' :=
  find_put_other h v t.entries

end Table

end OpTree
