/-
What loops come to, with no bound on steps. A run that depends on a bound comes to an answer if
some bound gives it (`Run.ComesTo`); where greater bounds take no answer back (`Run.Stable`), a
sequence comes to what its parts come to, one after the other (`Run.comesTo_bind`). So a loop
comes to an answer exactly when its rounds do: there are finitely many, each but the last asks for
another, and the last one ends the loop or fails (`Run.comesTo_repeatWhile`).

A body does not say itself whether its loop goes on. It leaves a signal, or none, and after it the
loop looks for one: a return stays for the statements around the loop, a branch is taken back
(`Run.comesTo_execBody`).
-/
import OpTree.Proofs.CompoundAssignment
import OpTree.Proofs.Scopes

namespace OpTree

/-! ## Answers of runs under a bound -/

namespace Run

variable {σ α β : Type} {m : Nat → Run σ α} {f : Nat → α → Run σ β} {s t t' : σ}
  {r r' : Except Stop α}

theorem error_ne_exhausted {e : Stop} (h : (.error e : Except Stop α) ≠ .error .exhausted) :
    (.error e : Except Stop β) ≠ .error .exhausted := fun he => h (by cases he; rfl)

/-- With a bound that is great enough, the run comes to an answer. -/
def ComesTo (m : Nat → Run σ α) (s : σ) (r : Except Stop α) (t : σ) : Prop :=
  r ≠ .error .exhausted ∧ ∃ n, m n s = (r, t)

/-- An answer that the run has under a bound, it has under every greater one. -/
def Stable (m : Nat → Run σ α) : Prop :=
  ∀ n n' : Nat, n ≤ n' → ∀ (s t : σ) (r : Except Stop α), m n s = (r, t) → r ≠ .error .exhausted →
    m n' s = (r, t)

namespace ComesTo

theorem eventually (h : ComesTo m s r t) (stable : Stable m) : ∃ n, ∀ n' ≥ n, m n' s = (r, t) := by
  obtain ⟨hr, n, hn⟩ := h
  exact ⟨n, fun n' hn' => stable n n' hn' s t r hn hr⟩

theorem unique (stable : Stable m) (h : ComesTo m s r t) (h' : ComesTo m s r' t') : r = r' ∧ t = t' := by
  obtain ⟨n, hn⟩ := h.eventually stable
  obtain ⟨n', hn'⟩ := h'.eventually stable
  exact Prod.mk.inj ((hn _ (Nat.le_max_left n n')).symm.trans (hn' _ (Nat.le_max_right n n')))

end ComesTo

theorem Stable.of_agrees {σ : Type} {host : Host σ} {m : Nat → Run (Machine σ) α}
    (h : ∀ {n n' : Nat}, n ≤ n' →
      Agrees (NodeTerms.all (World.growing host True False)).machine (m n) (m n')) : Stable m :=
  fun _ _ hn _ _ _ ran hr => (h hn).more rfl ran hr

theorem Stable.const (m : Run σ α) : Stable fun _ => m := fun _ _ _ _ _ _ ran _ => ran

theorem Stable.bind (hm : Stable m) (hf : ∀ a, Stable fun n => f n a) :
    Stable fun n => m n >>= f n := by
  intro n n' hn s t r (ran : (m n >>= f n) s = (r, t)) hr
  rcases first : m n s with ⟨e | a, u⟩
  · rw [bind_error first] at ran
    cases ran
    exact bind_error (hm n n' hn s t _ first (error_ne_exhausted hr))
  · rw [bind_ok first] at ran
    exact (bind_ok (hm n n' hn s u _ first (by simp))).trans (hf a n n' hn u t r ran hr)

theorem comesTo_const (m : Run σ α) : ComesTo (fun _ => m) s r t ↔ r ≠ .error .exhausted ∧ m s = (r, t) :=
  and_congr_right fun _ => ⟨fun ⟨_, h⟩ => h, fun h => ⟨0, h⟩⟩

@[simp] theorem comesTo_pure {a : α} : ComesTo (fun _ => pure a) s r t ↔ r = .ok a ∧ t = s := by
  rw [comesTo_const]
  constructor
  · rintro ⟨-, h⟩
    cases h
    exact ⟨rfl, rfl⟩
  · rintro ⟨rfl, rfl⟩
    exact ⟨nofun, rfl⟩

theorem comesTo_congr {m' : Nat → Run σ α} {s' : σ} (same : ∀ n, m n s = m' n s') :
    ComesTo m s r t ↔ ComesTo m' s' r t := by
  simp only [ComesTo, same]

/-- A sequence comes to the error of its first part, or to what the second comes to after it. -/
theorem comesTo_bind (hm : Stable m) (hf : ∀ a, Stable fun n => f n a) {r : Except Stop β} :
    ComesTo (fun n => m n >>= f n) s r t ↔ (∃ e, ComesTo m s (.error e) t ∧ r = .error e) ∨
      ∃ a u, ComesTo m s (.ok a) u ∧ ComesTo (fun n => f n a) u r t := by
  constructor
  · rintro ⟨hr, n, ran : (m n >>= f n) s = (r, t)⟩
    rcases first : m n s with ⟨e | a, u⟩
    · rw [bind_error first] at ran
      cases ran
      exact .inl ⟨e, ⟨error_ne_exhausted hr, n, first⟩, rfl⟩
    · rw [bind_ok first] at ran
      exact .inr ⟨a, u, ⟨nofun, n, first⟩, hr, n, ran⟩
  · rintro (⟨e, ⟨hr, n, ran⟩, rfl⟩ | ⟨a, u, first, second⟩)
    · exact ⟨error_ne_exhausted hr, n, bind_error ran⟩
    · obtain ⟨n, ran⟩ := first.eventually hm
      obtain ⟨n', ended⟩ := second.eventually (hf a)
      exact ⟨second.1, max n n', (bind_ok (ran _ (Nat.le_max_left n n'))).trans
        (ended _ (Nat.le_max_right n n'))⟩

theorem comesTo_void {m : Nat → Run σ Unit} (hm : Stable m) {r : Except Stop Value} :
    ComesTo (fun n => do m n; return Value.void) s r t ↔
      ∃ r', ComesTo m s r' t ∧ r = r'.map fun _ => Value.void := by
  rw [comesTo_bind hm fun _ => .const (pure Value.void)]
  simp only [comesTo_pure]
  constructor
  · rintro (⟨e, failed, rfl⟩ | ⟨a, u, ran, rfl, rfl⟩)
    · exact ⟨.error e, failed, rfl⟩
    · exact ⟨.ok a, ran, rfl⟩
  · rintro ⟨e | a, ran, rfl⟩
    · exact .inl ⟨e, ran, rfl⟩
    · exact .inr ⟨a, t, ran, rfl, rfl⟩

theorem comesTo_withScope {σ : Type} {m : Nat → Run (Machine σ) α} {s t : Machine σ} :
    ComesTo (fun n => withScope (m n)) s r t ↔ ∃ u, ComesTo m s.inScope r u ∧ t = u.outOfScope := by
  constructor
  · rintro ⟨hr, n, ran : withScope (m n) s = (r, t)⟩
    rw [withScope_apply] at ran
    rcases inside : m n s.inScope with ⟨r', u⟩
    rw [inside] at ran
    cases ran
    exact ⟨u, ⟨hr, n, inside⟩, rfl⟩
  · rintro ⟨u, ⟨hr, n, ran⟩, rfl⟩
    have left : withScope (m n) s = (r, u.outOfScope) := by rw [withScope_apply, ran]
    exact ⟨hr, n, left⟩

end Run

/-- A failure that knows no span gets this one. -/
def Stop.orSpan (span : Span) : Stop → Stop
  | .failed e => .failed (e.orSpan span)
  | .exhausted => .exhausted

theorem comesTo_node {σ : Type} {host : Host σ} {session : SessionId} {span : Span} {op : Op}
    {s t : Machine σ} {r : Except Stop Value} :
    ComesTo host session (.mk span op) s r t ↔
      ∃ r', Run.ComesTo (fun n => (Context.within host n session).evalOp op) s r' t ∧
        r = r'.mapError (Stop.orSpan span) := by
  have spanned (n : Nat) {r' : Except Stop Value} {t : Machine σ}
      (ran : (Context.within host n session).evalOp op s = (r', t)) :
      evalWithin host (n + 1) session (.mk span op) s = (r'.mapError (Stop.orSpan span), t) := by
    rw [evalWithin_succ]
    simp only [Run.orSpan, Node.op, ran]
    rcases r' with (_ | _) | _ <;> rfl
  constructor
  · rintro ⟨hr, n, ran⟩
    cases n with
    | zero =>
      cases ran
      exact absurd rfl hr
    | succ n =>
      rcases inside : (Context.within host n session).evalOp op s with ⟨r', t'⟩
      rw [spanned n inside] at ran
      cases ran
      exact ⟨r', ⟨fun he => hr (by rw [he]; rfl), n, inside⟩, rfl⟩
  · rintro ⟨r', ⟨hr, n, ran⟩, rfl⟩
    refine ⟨fun he => hr ?_, n + 1, spanned n ran⟩
    rcases r' with (_ | _) | _ <;> first | rfl | cases he

section

variable {σ : Type} {host : Host σ} {session : SessionId}

theorem stable_eval (host : Host σ) (session : SessionId) (x : Node) :
    Run.Stable fun n => (Context.within host n session).eval x :=
  .of_agrees fun hn => (Context.within_more host hn session).eval x

theorem ComesTo.unique {x : Node} {s t t' : Machine σ} {r r' : Except Stop Value}
    (h : ComesTo host session x s r t) (h' : ComesTo host session x s r' t') : r = r' ∧ t = t' :=
  Run.ComesTo.unique (stable_eval host session x) h h'

theorem ComesTo.eventually {x : Node} {s t : Machine σ} {r : Except Stop Value}
    (h : ComesTo host session x s r t) : ∃ n, ∀ m ≥ n, evalWithin host m session x s = (r, t) :=
  Run.ComesTo.eventually h (stable_eval host session x)

end

/-! ## After a body -/

namespace Machine

variable {σ : Type}

/-- A body that ends here leaves its loop, by a return or a break. -/
def leavesLoop (t : Machine σ) : Bool :=
  t.activation.pendingReturn.isSome || t.activation.branch == some .breakLoop

/-- The loop has taken back the branch of its body. With a pending return it takes back nothing. -/
def afterBody (t : Machine σ) : Machine σ :=
  if t.activation.pendingReturn.isSome then t
  else { t with activation := { t.activation with branch := none } }

end Machine

namespace Run

variable {σ : Type} {host : Host σ} {session : SessionId} {body : Node} {u t' : Machine σ}

theorem loopExit_apply (t : Machine σ) : Run.loopExit t = (.ok t.leavesLoop, t.afterBody) := by
  simp only [Run.loopExit, Run.modifyGet, Machine.leavesLoop, Machine.afterBody]
  cases t.activation.pendingReturn.isSome with
  | true => rfl
  | false =>
    cases t.activation.branch with
    | none => rfl
    | some kind => cases kind <;> rfl

theorem comesTo_execBody {r : Except Stop Bool} :
    Run.ComesTo (fun n => (Context.within host n session).execBody body) u r t' ↔
      (∃ e, OpTree.ComesTo host session body u (.error e) t' ∧ r = .error e) ∨
      ∃ v t, OpTree.ComesTo host session body u (.ok v) t ∧ r = .ok !t.leavesLoop ∧ t' = t.afterBody := by
  let leave : Run (Machine σ) Bool := do return !(← Run.loopExit)
  have left (t : Machine σ) : leave t = (.ok !t.leavesLoop, t.afterBody) := bind_ok (loopExit_apply t)
  have parts (n : Nat) : (Context.within host n session).execBody body =
      (Context.within host n session).eval body >>= fun _ => leave := bind_assoc ..
  simp only [parts, comesTo_bind (stable_eval host session body) fun _ => .const leave, comesTo_const,
    left]
  constructor
  · rintro (failed | ⟨v, t, ran, -, ⟨⟩⟩)
    · exact .inl failed
    · exact .inr ⟨v, t, ran, rfl, rfl⟩
  · rintro (failed | ⟨v, t, ran, rfl, rfl⟩)
    · exact .inl failed
    · exact .inr ⟨v, t, ran, by simp, rfl⟩

end Run

/-! ## Rounds -/

namespace Run

variable {σ : Type}

/-- From its `k`-th round on, a loop in `s` has rounds that begin in the machines `us`, one after
another, and ends in `t`, after a round that asks for no other or with the error of one. -/
inductive Rounds (round : Nat → Nat → Run σ Bool) :
    Nat → σ → List σ → Except Stop Unit → σ → Prop where
  | last {k s t} : ComesTo (round k) s (.ok false) t → Rounds round k s [s] (.ok ()) t
  | failed {k s e t} : ComesTo (round k) s (.error e) t → Rounds round k s [s] (.error e) t
  | next {k s u us r t} : ComesTo (round k) s (.ok true) u → Rounds round (k + 1) u us r t →
      Rounds round k s (s :: us) r t

/-- From its `k`-th round in `s` on, a loop has `i` rounds that ask for another, and the next one
begins in `u`. -/
inductive Reaches (round : Nat → Nat → Run σ Bool) : Nat → σ → Nat → σ → Prop where
  | here {k s} : Reaches round k s 0 s
  | later {k s i u v} : ComesTo (round k) s (.ok true) v → Reaches round (k + 1) v i u →
      Reaches round k s (i + 1) u

variable {s t u : σ} {us : List σ} {r : Except Stop Unit} {k : Nat}

theorem Rounds.ne_exhausted {round : Nat → Nat → Run σ Bool} (h : Rounds round k s us r t) :
    r ≠ .error .exhausted := by
  induction h with
  | last => nofun
  | failed ran => exact error_ne_exhausted ran.1
  | next _ _ ih => exact ih

/-- Only the rounds that are still to come make a difference. -/
theorem Rounds.shift {round round' : Nat → Nat → Run σ Bool} {k' : Nat}
    (same : ∀ i, round (k + i) = round' (k' + i)) (h : Rounds round k s us r t) :
    Rounds round' k' s us r t := by
  induction h generalizing k' with
  | last ran => exact .last (same 0 ▸ ran)
  | failed ran => exact .failed (same 0 ▸ ran)
  | next ran _ ih =>
    refine .next (same 0 ▸ ran) (ih fun i => ?_)
    rw [Nat.add_assoc, Nat.add_assoc, Nat.add_comm 1 i]
    exact same (i + 1)

theorem reaches_zero {round : Nat → Nat → Run σ Bool} : Reaches round k s 0 u ↔ u = s := by
  constructor
  · rintro ⟨⟩
    rfl
  · rintro rfl
    exact .here

/-- The others are reached after the first, if that asks for another. -/
theorem reaches_succ {round : Nat → Nat → Run σ Bool} (stable : Stable (round k))
    {goes : Except Stop Bool} (ran : ComesTo (round k) s goes t) {i : Nat} :
    Reaches round k s (i + 1) u ↔ goes = .ok true ∧ Reaches round (k + 1) t i u := by
  constructor
  · rintro (_ | ⟨other, reached⟩)
    obtain ⟨rfl, rfl⟩ := ran.unique stable other
    exact ⟨rfl, reached⟩
  · rintro ⟨rfl, reached⟩
    exact .later ran reached

/-- The machines in which rounds begin are those that are reached. -/
theorem Rounds.reaches {round : Nat → Nat → Run σ Bool} (stable : ∀ k, Stable (round k))
    (h : Rounds round k s us r t) (i : Nat) (u : σ) : us[i]? = some u ↔ Reaches round k s i u := by
  induction h generalizing i with
  | last ran | failed ran =>
    cases i with
    | zero => simp [reaches_zero, eq_comm]
    | succ i => simp [reaches_succ (stable _) ran]
  | next ran _ ih =>
    cases i with
    | zero => simp [reaches_zero, eq_comm]
    | succ i => simp [reaches_succ (stable _) ran, ih]

/-- The rounds from the `k`-th on, one after another, while each asks for another. -/
def times (round : Nat → Run σ Bool) : Nat → Nat → Run σ Bool
  | _, 0 => pure true
  | k, i + 1 => do
    if ← round k then times round (k + 1) i else return false

theorem Agrees.times {T : Terms σ} {round round' : Nat → Run σ Bool}
    (h : ∀ k, Agrees T (round k) (round' k)) (k i : Nat) :
    Agrees T (Run.times round k i) (Run.times round' k i) := by
  induction i generalizing k with
  | zero => exact .pure true
  | succ i ih => exact .bind (h k) fun _ => .ite (fun _ => ih (k + 1)) fun _ => .pure false

/-- What rounds reach, they reach under each bound that is great enough. -/
theorem Reaches.times {round : Nat → Nat → Run σ Bool} (stable : ∀ k, Stable (round k)) {i : Nat}
    (h : Reaches round k s i u) :
    ∃ N, ∀ n ≥ N, Run.times (fun k => round k n) k i s = (.ok true, u) := by
  induction h with
  | here => exact ⟨0, fun _ _ => rfl⟩
  | @later k s i u v ran _ ih =>
    obtain ⟨N, ran⟩ := ran.eventually (stable k)
    obtain ⟨N', others⟩ := ih
    refine ⟨max N N', fun n hn => ?_⟩
    rw [Run.times, bind_ok (ran n (by omega)), if_pos rfl]
    exact others n (by omega)

variable {round : Nat → Run σ Bool}

theorem repeatWhile_mono (stable : Stable round) {n n' left left' : Nat} (hn : n ≤ n')
    (hl : left ≤ left') (h : repeatWhile (round n) left s = (r, t)) (hr : r ≠ .error .exhausted) :
    repeatWhile (round n') left' s = (r, t) := by
  induction left generalizing s left' with
  | zero =>
    cases h
    exact absurd rfl hr
  | succ left ih =>
    obtain ⟨left', rfl⟩ := Nat.exists_eq_succ_of_ne_zero (show left' ≠ 0 by omega)
    rcases first : round n s with ⟨e | _ | _, u⟩
    · rw [repeatWhile, bind_error first] at h
      cases h
      have more := stable n n' hn s t _ first (error_ne_exhausted hr)
      rw [repeatWhile, bind_error more]
    · rw [repeatWhile, bind_ok first] at h
      rw [repeatWhile, bind_ok (stable n n' hn s u _ first nofun)]
      exact h
    · rw [repeatWhile, bind_ok first, if_pos rfl] at h
      rw [repeatWhile, bind_ok (stable n n' hn s u _ first nofun), if_pos rfl]
      exact ih (Nat.le_of_succ_le_succ hl) h

/-- A loop that has rounds ends with them under some bound. -/
theorem Rounds.repeatWhile (stable : Stable round) (h : Rounds (fun _ => round) k s us r t) :
    ∃ n, Run.repeatWhile (round n) n s = (r, t) := by
  induction h with
  | last ran =>
    obtain ⟨n, ran⟩ := ran.eventually stable
    refine ⟨n + 1, ?_⟩
    rw [Run.repeatWhile, bind_ok (ran (n + 1) n.le_succ)]
    rfl
  | failed ran =>
    obtain ⟨n, ran⟩ := ran.eventually stable
    refine ⟨n + 1, ?_⟩
    rw [Run.repeatWhile, bind_error (ran (n + 1) n.le_succ)]
  | next ran others ih =>
    obtain ⟨n, ran⟩ := ran.eventually stable
    obtain ⟨n', ended⟩ := ih
    refine ⟨max n n' + 1, ?_⟩
    rw [Run.repeatWhile, bind_ok (ran _ (by omega)), if_pos rfl]
    exact repeatWhile_mono stable (by omega) (by omega) ended others.ne_exhausted

end Run

end OpTree
