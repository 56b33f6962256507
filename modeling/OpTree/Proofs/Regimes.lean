/-
Regimes. A run is held to an invariant of its states, and to what may lie between the state
before and the state after. Whatever is put together of runs that obey a regime obeys it, also
where one of them fails; and when a run answers, something may be known of the answer in the
state that it leaves (`Run.Obeys`).

This is what is asked of one run. Where two runs are held against each other, they agree
(`Run.Agrees`); but that speaks of all answers alike, and of an answer a regime can tell which
it may be.
-/
import OpTree.Eval.Control
import OpTree.Proofs.Runs

namespace OpTree

/-- An invariant of a state, and what may lie between the state before a run and the state after. -/
structure Regime (σ : Type) where
  inv : σ → Prop
  le : σ → σ → Prop
  refl : ∀ s, le s s
  trans : ∀ {s t u}, le s t → le t u → le s u

/-- From a state, the run comes to one that may follow, also when it fails; and something is
known of its answer. -/
structure Run.Obeys {σ α : Type} (R : Regime σ) (m : Run σ α) (s : σ) (Q : σ → α → Prop) : Prop where
  inv : R.inv (m s).2
  le : R.le s (m s).2
  answer : ∀ a, (m s).1 = .ok a → Q (m s).2 a

namespace Run.Obeys

variable {σ α β : Type} {R : Regime σ} {m : Run σ α} {f : α → Run σ β} {s t : σ}
  {Q : σ → α → Prop} {S : σ → β → Prop}

theorem bind (h : Obeys R m s Q)
    (hf : ∀ a t, R.le s t → R.inv t → Q t a → Obeys R (f a) t S) : Obeys R (m >>= f) s S := by
  obtain ⟨hi, hl, hq⟩ := h
  rcases hm : m s with ⟨e | a, t⟩
  · rw [hm] at hi hl
    have stopped : (m >>= f) s = (.error e, t) := Run.bind_error hm
    exact ⟨stopped ▸ hi, stopped ▸ hl, fun b hb => by rw [stopped] at hb; cases hb⟩
  · rw [hm] at hi hl hq
    obtain ⟨hi', hl', hs⟩ := hf a t hl hi (hq a rfl)
    have went : (m >>= f) s = f a t := Run.bind_ok hm
    exact ⟨went ▸ hi', went ▸ R.trans hl hl', went ▸ hs⟩

/-- The answer is at hand, and the state is another. -/
theorem after {r : Except Stop α} (hm : m s = (r, t)) (ht : R.inv t) (hl : R.le s t)
    (ha : ∀ a, r = .ok a → Q t a) : Obeys R m s Q :=
  ⟨hm ▸ ht, hm ▸ hl, fun a h => by rw [hm] at h ⊢; exact ha a h⟩

theorem stopped {e : Stop} (hm : m s = (.error e, t)) (ht : R.inv t) (hl : R.le s t) : Obeys R m s Q :=
  after hm ht hl nofun

/-- What follows is as another run from another state. -/
theorem «from» {n : Run σ α} (h : Obeys R n t Q) (hm : m s = n t) (hl : R.le s t) : Obeys R m s Q :=
  ⟨hm ▸ h.inv, hm ▸ R.trans hl h.le, hm ▸ h.answer⟩

/-- Nothing was changed. -/
theorem still {r : Except Stop α} (hm : m s = (r, s)) (hs : R.inv s) (ha : ∀ a, r = .ok a → Q s a) :
    Obeys R m s Q :=
  after hm hs (R.refl s) ha

theorem pure {a : α} (hs : R.inv s) (ha : Q s a) : Obeys R (Pure.pure a) s Q :=
  still rfl hs fun _ h => by cases h; exact ha

theorem ofExcept {r : Except EvalError α} (hs : R.inv s) (ha : ∀ a, r = .ok a → Q s a) :
    Obeys R (Run.ofExcept r) s Q :=
  still rfl hs fun a h => by
    cases r with
    | error e => cases h
    | ok a' => cases h; exact ha a rfl

/-- An answer that does not depend on the state is known. -/
theorem known {r : Except EvalError α} (hs : R.inv s) :
    Obeys R (Run.ofExcept r) s fun _ a => r = .ok a :=
  ofExcept hs fun _ h => h

/-- What is read is told by the state. -/
theorem reads {g : σ → Except EvalError α} (hs : R.inv s) (ha : ∀ a, g s = .ok a → Q s a) :
    Obeys R (fun s => Run.ofExcept (g s) s) s Q :=
  (ofExcept hs ha).from rfl (R.refl s)

theorem ofStop {r : Except Stop α} (hs : R.inv s) (ha : ∀ a, r = .ok a → Q s a) :
    Obeys R (Run.ofStop r) s Q :=
  still rfl hs ha

theorem fail {cause : Cause} (hs : R.inv s) : Obeys R (Run.fail cause) s Q :=
  still rfl hs fun _ h => by cases h

theorem exhausted (hs : R.inv s) : Obeys R (Run.exhausted : Run σ α) s Q :=
  still rfl hs fun _ h => by cases h

theorem gets {g : σ → α} (hs : R.inv s) : Obeys R (Run.gets g) s fun t a => a = g t :=
  still rfl hs fun _ h => by cases h; rfl

theorem modify {g : σ → σ} (hs : R.inv (g s)) (hl : R.le s (g s)) :
    Obeys R (Run.modify g) s fun _ _ => True :=
  ⟨hs, hl, fun _ _ => trivial⟩

theorem ite {c : Prop} [Decidable c] {n : Run σ α} (h : c → Obeys R m s Q) (h' : ¬c → Obeys R n s Q) :
    Obeys R (if c then m else n) s Q := by
  split
  · exact h ‹_›
  · exact h' ‹_›

theorem orSpan (span : Span) (h : Obeys R m s Q) : Obeys R (Run.orSpan span m) s Q := by
  obtain ⟨hi, hl, hq⟩ := h
  rcases hm : m s with ⟨(e | _) | a, t⟩ <;> rw [hm] at hi hl hq
  · have spanned : Run.orSpan span m s = (.error (.failed (e.orSpan span)), t) := by
      rw [Run.orSpan, hm]
    exact ⟨spanned ▸ hi, spanned ▸ hl, fun b hb => by rw [spanned] at hb; cases hb⟩
  · have stopped : Run.orSpan span m s = (.error .exhausted, t) := by rw [Run.orSpan, hm]
    exact ⟨stopped ▸ hi, stopped ▸ hl, fun b hb => by rw [stopped] at hb; cases hb⟩
  · have answered : Run.orSpan span m s = (.ok a, t) := by rw [Run.orSpan, hm]
    exact ⟨answered ▸ hi, answered ▸ hl, answered ▸ hq⟩

theorem forList {g : β → Run σ Unit} {bs : List β}
    (h : ∀ b ∈ bs, ∀ t, R.le s t → R.inv t → Obeys R (g b) t fun _ _ => True) (hs : R.inv s) :
    Obeys R (Run.forList g bs) s fun _ _ => True := by
  induction bs generalizing s with
  | nil => exact pure hs trivial
  | cons b bs ih =>
    refine bind (h b (by simp) s (R.refl s) hs) fun _ t hl ht _ => ih (fun b' hb u hu hi => ?_) ht
    exact h b' (by simp [hb]) u (R.trans hl hu) hi

theorem mapList {g : β → Run σ α} {bs : List β}
    (h : ∀ b ∈ bs, ∀ t, R.le s t → R.inv t → Obeys R (g b) t Q) (hs : R.inv s)
    (later : ∀ {t u a}, R.le t u → Q t a → Q u a) :
    Obeys R (Run.mapList g bs) s fun t as => ∀ a ∈ as, Q t a := by
  induction bs generalizing s with
  | nil => exact pure hs (by simp)
  | cons b bs ih =>
    refine bind (h b (by simp) s (R.refl s) hs) fun a t hl ht ha => ?_
    refine bind (ih (fun b' hb u hu hi => h b' (by simp [hb]) u (R.trans hl hu) hi) ht)
      fun as u hl' hu has => pure hu ?_
    exact List.forall_mem_cons.2 ⟨later hl' ha, has⟩

theorem repeatWhile {round : Run σ Bool} (n : Nat)
    (h : ∀ t, R.le s t → R.inv t → Obeys R round t fun _ _ => True) (hs : R.inv s) :
    Obeys R (Run.repeatWhile round n) s fun _ _ => True := by
  induction n generalizing s with
  | zero => exact exhausted hs
  | succ n ih =>
    refine bind (h s (R.refl s) hs) fun goes t hl ht _ => ite (fun _ => ?_) fun _ => pure ht trivial
    exact ih (fun u hu hi => h u (R.trans hl hu) hi) ht

end Run.Obeys

end OpTree
