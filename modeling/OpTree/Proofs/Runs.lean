/-
Two runs side by side. Most of what is shown about evaluation has one shape: from
states that have to do with each other, two runs end alike, and in states that
have to do with each other again. What is known of the two states at one time is
a bond, and it may only become more while the runs go on. `Terms` says what the
bonds are, which states they tie, what is left of that when the runs have stopped with
an error, what may come to be known, and which of the runs may give up for want of
steps where the other goes on; `Run.Agrees` says that two runs are held to that.

A run may be held against itself: a bond is then the state that the run is in, and
what may come to be known is which states can follow (`Terms.keeping`). So this is
also how invariants are stated.

The lemmas follow the ways in which runs are put together, so that a property of
evaluation is shown operation by operation and its proof has the operation's
form.
-/
import OpTree.Eval.Machine

namespace OpTree

/-- What two runs over a state are held to. -/
structure Terms (σ : Type) where
  /-- What may be known of the two states at one time. -/
  Bond : Type
  /-- The states of which it is true. -/
  ties : Bond → σ → σ → Prop
  /-- The states of which it may be true that the runs stopped in them. Nothing less is
  known of those, unless it is said what. -/
  stops : Bond → Stop → σ → σ → Prop := fun b _ => ties b
  /-- What may be known later. -/
  le : Bond → Bond → Prop
  /-- The first run may stop for want of steps where the second goes on. -/
  lax : Prop
  /-- The second run may stop for want of steps where the first goes on. -/
  lax' : Prop
  refl : ∀ b, le b b
  trans : ∀ {a b c}, le a b → le b c → le a c
  /-- Runs may stop anywhere. -/
  stop : ∀ {b s s'} e, ties b s s' → stops b e s s' := by intros; assumption
  /-- An error may get a span on the way. -/
  spanned : ∀ {b e s s'} span, stops b (.failed e) s s' → stops b (.failed (e.orSpan span)) s s' := by
    intros; assumption

/-- One run held against itself, or against one with another bound on its steps:
what may lie between the state before and the state after. -/
def Terms.keeping {σ : Type} (keeps : σ → σ → Prop) (lax lax' : Prop) (refl : ∀ s, keeps s s)
    (trans : ∀ {s t u}, keeps s t → keeps t u → keeps s u) : Terms σ where
  Bond := σ
  ties b s s' := b = s ∧ b = s'
  le := keeps
  lax := lax
  lax' := lax'
  refl := refl
  trans := trans

/-- One run held against itself: an invariant, and what may lie between the state
before and the state after. -/
def Terms.holding {σ : Type} (inv : σ → Prop) (keeps : σ → σ → Prop) (refl : ∀ s, keeps s s)
    (trans : ∀ {s t u}, keeps s t → keeps t u → keeps s u) : Terms σ where
  Bond := σ
  ties b s s' := b = s ∧ b = s' ∧ inv b
  le := keeps
  lax := False
  lax' := False
  refl := refl
  trans := trans

/-- Two answers are the same, unless the run wanted for steps that may. -/
def Stop.Agrees {α : Type} (lax lax' : Prop) (r r' : Except Stop α) : Prop :=
  r = r' ∨ lax ∧ r = .error .exhausted ∨ lax' ∧ r' = .error .exhausted

namespace Run

variable {σ α β : Type} {T : Terms σ}

@[simp] theorem bind_def (m : Run σ α) (f : α → Run σ β) (s : σ) :
    (m >>= f) s = match m s with
      | (.ok a, s') => f a s'
      | (.error e, s') => (.error e, s') := rfl

@[simp] theorem pure_def (a : α) (s : σ) : (pure a : Run σ α) s = (.ok a, s) := rfl

theorem liftM_except (r : Except EvalError α) : (liftM r : Run σ α) = ofExcept r := rfl

theorem liftM_world {σ : Type} (m : Run (World σ) α) : (liftM m : Run (Machine σ) α) = onWorld m :=
  rfl

@[simp] theorem ofExcept_ok (a : α) (s : σ) : (ofExcept (.ok a)) s = (.ok a, s) := rfl

@[simp] theorem ofExcept_error (e : EvalError) (s : σ) :
    (ofExcept (.error e) : Run σ α) s = (.error (.failed e), s) := rfl

theorem ofExcept_eq_ok {r : Except EvalError α} {s t : σ} {a : α} :
    ofExcept r s = (.ok a, t) ↔ r = .ok a ∧ t = s := by
  cases r with
  | error e => simp
  | ok a' => simp [eq_comm]

@[simp] theorem gets_def (f : σ → α) (s : σ) : gets f s = (.ok (f s), s) := rfl

@[simp] theorem modify_def (f : σ → σ) (s : σ) : modify f s = (.ok (), f s) := rfl

@[simp] theorem fail_def (cause : Cause) (s : σ) :
    (fail cause : Run σ α) s = (.error (.failed (.of cause)), s) := rfl

theorem bind_ok {m : Run σ α} {f : α → Run σ β} {s s' a} (h : m s = (.ok a, s')) :
    (m >>= f) s = f a s' := by simp [h]

theorem bind_error {m : Run σ α} {f : α → Run σ β} {s s' e} (h : m s = (.error e, s')) :
    (m >>= f) s = (.error e, s') := by simp [h]

/-- A sequence that succeeds is two runs that do. -/
theorem bind_eq_ok {m : Run σ α} {f : α → Run σ β} {s s' b} :
    (m >>= f) s = (.ok b, s') ↔ ∃ a t, m s = (.ok a, t) ∧ f a t = (.ok b, s') := by
  rw [bind_def]
  rcases h : m s with ⟨r, t⟩
  cases r with
  | ok a =>
    constructor
    · intro hf; exact ⟨a, t, rfl, hf⟩
    · rintro ⟨_, _, he, hf⟩; cases he; exact hf
  | error e => simp

theorem orSpan_eq_ok {span : Span} {m : Run σ α} {s t a} :
    orSpan span m s = (.ok a, t) ↔ m s = (.ok a, t) := by
  simp only [orSpan]
  rcases m s with ⟨(e | _) | a', t'⟩
  · constructor <;> intro h <;> cases h
  · exact Iff.rfl
  · exact Iff.rfl

/-- A run over the world succeeds where it does so from the machine's world. -/
theorem onWorld_eq_ok {σ : Type} {m : Run (World σ) α} {s s' : Machine σ} {a : α} :
    onWorld m s = (.ok a, s') ↔ ∃ w, m s.world = (.ok a, w) ∧ s' = ⟨w, s.activation⟩ := by
  obtain ⟨w, act⟩ := s
  simp only [onWorld]
  rcases m w with ⟨r, w'⟩
  constructor
  · intro h; cases h; exact ⟨w', rfl, rfl⟩
  · rintro ⟨_, h, rfl⟩; cases h; rfl

/-- Sequences with one beginning end alike when their continuations do. -/
theorem bind_congr {m : Run σ α} {f g : α → Run σ β} {s : σ}
    (h : ∀ a t, m s = (.ok a, t) → f a t = g a t) : (m >>= f) s = (m >>= g) s := by
  simp only [bind_def]
  rcases hm : m s with ⟨r, t⟩
  cases r with
  | ok a => exact h a t hm
  | error e => rfl

theorem bind_assoc {γ : Type} (m : Run σ α) (f : α → Run σ β) (g : β → Run σ γ) :
    m >>= f >>= g = m >>= fun a => f a >>= g := by
  funext s
  simp only [bind_def]
  rcases m s with ⟨r, t⟩
  cases r <;> rfl

/-- Two runs that began in states tied by `b` have ended as they should: with one
error, or with answers that have to do with each other, or the one that may wanted
for steps. -/
inductive Ends (T : Terms σ) (b : T.Bond) (Q : T.Bond → α → β → Prop) :
    Except Stop α × σ → Except Stop β × σ → Prop where
  | short {s x'} : T.lax → Ends T b Q (.error .exhausted, s) x'
  | short' {x s'} : T.lax' → Ends T b Q x (.error .exhausted, s')
  | ok {b' a a' s s'} : T.le b b' → T.ties b' s s' → Q b' a a' → Ends T b Q (.ok a, s) (.ok a', s')
  | error {b' e s s'} : T.le b b' → T.stops b' e s s' → Ends T b Q (.error e, s) (.error e, s')

/-- From states tied by `b` or by a later bond, two runs end as they should. -/
def AgreesBy (T : Terms σ) (b : T.Bond) (Q : T.Bond → α → β → Prop) (m : Run σ α) (m' : Run σ β) :
    Prop :=
  ∀ b₁ s s', T.le b b₁ → T.ties b₁ s s' → Ends T b₁ Q (m s) (m' s')

/-- From all states that are tied, two runs end with one answer. -/
def Agrees (T : Terms σ) (m m' : Run σ α) : Prop := ∀ b, AgreesBy T b (fun _ => Eq) m m'

namespace Ends

variable {γ δ : Type} {b b₁ : T.Bond} {Q : T.Bond → α → β → Prop} {R : T.Bond → γ → δ → Prop}

theorem later (hb : T.le b b₁) {x : Except Stop α × σ} {x' : Except Stop β × σ}
    (h : Ends T b₁ Q x x') : Ends T b Q x x' := by
  cases h with
  | short hl => exact .short hl
  | short' hl => exact .short' hl
  | ok hle hs hq => exact .ok (T.trans hb hle) hs hq
  | error hle hs => exact .error (T.trans hb hle) hs

theorem imp {S : T.Bond → α → β → Prop} {x : Except Stop α × σ} {x' : Except Stop β × σ}
    (h : Ends T b Q x x') (hq : ∀ b₁ a a', Q b₁ a a' → S b₁ a a') : Ends T b S x x' := by
  cases h with
  | short hl => exact .short hl
  | short' hl => exact .short' hl
  | ok hle hs h => exact .ok hle hs (hq _ _ _ h)
  | error hle hs => exact .error hle hs

/-- What is known of the first run's answer by itself. -/
theorem answered {P : α → Prop} {x : Except Stop α × σ} {x' : Except Stop β × σ}
    (h : Ends T b Q x x') (hp : ∀ a t, x = (.ok a, t) → P a) :
    Ends T b (fun b a a' => Q b a a' ∧ P a) x x' := by
  cases h with
  | short hl => exact .short hl
  | short' hl => exact .short' hl
  | ok hle hs hq => exact .ok hle hs ⟨hq, hp _ _ rfl⟩
  | error hle hs => exact .error hle hs

/-- What is done afterwards: nothing when a run stopped. -/
theorem bind {m : Run σ α} {m' : Run σ β} {f : α → Run σ γ} {f' : β → Run σ δ} {s s' : σ}
    (h : Ends T b Q (m s) (m' s'))
    (hf : ∀ b₁ a a' t t', T.le b b₁ → T.ties b₁ t t' → Q b₁ a a' → m s = (.ok a, t) →
      m' s' = (.ok a', t') → Ends T b₁ R (f a t) (f' a' t')) :
    Ends T b R ((m >>= f) s) ((m' >>= f') s') := by
  rw [bind_def, bind_def]
  generalize m s = x at h hf
  generalize m' s' = x' at h hf
  cases h with
  | short hl => exact .short hl
  | short' hl => exact .short' hl
  | ok hle hs hq => exact (hf _ _ _ _ _ hle hs hq rfl rfl).later hle
  | error hle hs => exact .error hle hs

/-- The states are changed afterwards, however the runs ended. -/
theorem map {τ : Type} {U : Terms τ} {c : U.Bond} {S : U.Bond → α → β → Prop}
    {x : Except Stop α × σ} {x' : Except Stop β × σ} (h : Ends T b Q x x') (g g' : σ → τ)
    (hl : T.lax → U.lax) (hl' : T.lax' → U.lax')
    (hg : ∀ b₁ s s', T.le b b₁ → T.ties b₁ s s' →
      ∃ c₁, U.le c c₁ ∧ U.ties c₁ (g s) (g' s') ∧ ∀ a a', Q b₁ a a' → S c₁ a a')
    (he : ∀ b₁ e s s', T.le b b₁ → T.stops b₁ e s s' →
      ∃ c₁, U.le c c₁ ∧ U.stops c₁ e (g s) (g' s')) :
    Ends U c S (x.1, g x.2) (x'.1, g' x'.2) := by
  cases h with
  | short h => exact .short (hl h)
  | short' h => exact .short' (hl' h)
  | ok hle hs hq =>
    obtain ⟨c₁, hc, hg, ha⟩ := hg _ _ _ hle hs
    exact .ok hc hg (ha _ _ hq)
  | error hle hs =>
    obtain ⟨c₁, hc, hg⟩ := he _ _ _ _ hle hs
    exact .error hc hg

/-- Nothing was changed, and there is one answer. -/
theorem stay {r : Except Stop α} {s s' : σ} (hs : T.ties b s s') :
    Ends T b (fun _ => Eq) (r, s) (r, s') := by
  cases r with
  | ok a => exact .ok (T.refl b) hs rfl
  | error e => exact .error (T.refl b) (T.stop e hs)

end Ends

namespace AgreesBy

variable {γ δ : Type} {b b₁ : T.Bond} {Q : T.Bond → α → β → Prop} {R : T.Bond → γ → δ → Prop}

theorem apply {m : Run σ α} {m' : Run σ β} (h : AgreesBy T b Q m m') {s s' : σ}
    (hs : T.ties b s s') : Ends T b Q (m s) (m' s') :=
  h b s s' (T.refl b) hs

theorem later {m : Run σ α} {m' : Run σ β} (h : AgreesBy T b Q m m') (hb : T.le b b₁) :
    AgreesBy T b₁ Q m m' :=
  fun _ _ _ hle hs => h _ _ _ (T.trans hb hle) hs

theorem imp {S : T.Bond → α → β → Prop} {m : Run σ α} {m' : Run σ β} (h : AgreesBy T b Q m m')
    (hq : ∀ b₁ a a', Q b₁ a a' → S b₁ a a') : AgreesBy T b S m m' :=
  fun b₁ s s' hb hs => (h b₁ s s' hb hs).imp hq

theorem bind {m : Run σ α} {m' : Run σ β} {f : α → Run σ γ} {f' : β → Run σ δ}
    (h : AgreesBy T b Q m m')
    (hf : ∀ b₁ a a', T.le b b₁ → Q b₁ a a' → AgreesBy T b₁ R (f a) (f' a')) :
    AgreesBy T b R (m >>= f) (m' >>= f') := by
  intro b₀ s s' hb hs
  refine (h b₀ s s' hb hs).bind fun b₁ a a' t t' hle ht hq _ _ => ?_
  exact hf b₁ a a' (T.trans hb hle) hq b₁ t t' (T.refl b₁) ht

/-- A first step whose answers are the same. -/
theorem seq {m m' : Run σ α} {f : α → Run σ γ} {f' : α → Run σ δ} (h : Agrees T m m')
    (hf : ∀ a, AgreesBy T b R (f a) (f' a)) : AgreesBy T b R (m >>= f) (m' >>= f') := by
  refine (h b).bind fun b₁ a a' hb he => ?_
  cases he
  exact (hf a).later hb

theorem pure {a : α} {a' : β} (h : ∀ b₁, T.le b b₁ → Q b₁ a a') :
    AgreesBy T b Q (Pure.pure a) (Pure.pure a') :=
  fun b₁ _ _ hb hs => .ok (T.refl b₁) hs (h b₁ hb)

theorem fail (cause : Cause) : AgreesBy T b Q (Run.fail cause) (Run.fail cause) :=
  fun b₁ _ _ _ hs => .error (T.refl b₁) (T.stop _ hs)

theorem gets {f : σ → α} {f' : σ → β}
    (h : ∀ b₁ s s', T.le b b₁ → T.ties b₁ s s' → Q b₁ (f s) (f' s')) :
    AgreesBy T b Q (Run.gets f) (Run.gets f') :=
  fun b₁ s s' hb hs => .ok (T.refl b₁) hs (h b₁ s s' hb hs)

theorem forList {as : List γ} {f f' : γ → Run σ Unit}
    (h : ∀ a ∈ as, AgreesBy T b (fun _ => Eq) (f a) (f' a)) :
    AgreesBy T b (fun _ => Eq) (Run.forList f as) (Run.forList f' as) := by
  induction as generalizing b with
  | nil => exact .pure fun _ _ => rfl
  | cons a as ih =>
    refine (h a (by simp)).bind fun b₁ _ _ hb _ => ?_
    exact ih fun x hx => (h x (by simp [hx])).later hb

theorem ite {c : Prop} [Decidable c] {m n : Run σ α} {m' n' : Run σ β} (h : c → AgreesBy T b Q m m')
    (h' : ¬c → AgreesBy T b Q n n') :
    AgreesBy T b Q (if c then m else n) (if c then m' else n') := by
  split
  · exact h ‹_›
  · exact h' ‹_›

end AgreesBy

namespace Agrees

theorem apply {m m' : Run σ α} (h : Agrees T m m') {b : T.Bond} {s s' : σ} (hs : T.ties b s s') :
    Ends T b (fun _ => Eq) (m s) (m' s') :=
  (h b).apply hs

theorem of_ends {m m' : Run σ α}
    (h : ∀ b s s', T.ties b s s' → Ends T b (fun _ => Eq) (m s) (m' s')) : Agrees T m m' :=
  fun _ b₁ s s' _ hs => h b₁ s s' hs

/-- Another run in the place of the second, where states are tied. -/
theorem replace {m m' m₁ : Run σ α} (h : Agrees T m m')
    (same : ∀ b s s', T.ties b s s' → m₁ s' = m' s') : Agrees T m m₁ :=
  .of_ends fun b s s' hs => by
    rw [same b s s' hs]
    exact h.apply hs

theorem bind {m m' : Run σ α} {f f' : α → Run σ β} (h : Agrees T m m')
    (hf : ∀ a, Agrees T (f a) (f' a)) : Agrees T (m >>= f) (m' >>= f') :=
  fun b => .seq h fun a => hf a b

/-- A first step whose answers have to do with each other. -/
theorem tied {γ δ : Type} {Q : T.Bond → γ → δ → Prop} {m : Run σ γ} {m' : Run σ δ}
    {f : γ → Run σ α} {f' : δ → Run σ α} (h : ∀ b, AgreesBy T b Q m m')
    (hf : ∀ b a a', Q b a a' → AgreesBy T b (fun _ => Eq) (f a) (f' a')) :
    Agrees T (m >>= f) (m' >>= f') :=
  fun b => (h b).bind fun b₁ a a' _ hq => hf b₁ a a' hq

/-- Runs that answer one thing and leave the states as they are. -/
theorem still {m m' : Run σ α}
    (h : ∀ b s s', T.ties b s s' → ∃ r, m s = (r, s) ∧ m' s' = (r, s')) : Agrees T m m' := by
  refine .of_ends fun b s s' hs => ?_
  obtain ⟨r, hm, hm'⟩ := h b s s' hs
  rw [hm, hm']
  exact .stay hs

theorem pure (a : α) : Agrees T (Pure.pure a) (Pure.pure a) :=
  .still fun _ _ _ _ => ⟨.ok a, rfl, rfl⟩

theorem ofExcept (r : Except EvalError α) : Agrees T (Run.ofExcept r) (Run.ofExcept r) :=
  .still fun _ _ _ _ => ⟨Stop.ofExcept r, rfl, rfl⟩

theorem ofStop {r r' : Except Stop α} (h : Stop.Agrees T.lax T.lax' r r') :
    Agrees T (Run.ofStop r) (Run.ofStop r') := by
  refine .of_ends fun b s s' hs => ?_
  rcases h with rfl | ⟨hl, rfl⟩ | ⟨hl, rfl⟩
  · exact .stay hs
  · exact .short hl
  · exact .short' hl

theorem fail (cause : Cause) : Agrees T (Run.fail cause : Run σ α) (Run.fail cause) :=
  fun _ => .fail cause

theorem exhausted : Agrees T (Run.exhausted : Run σ α) Run.exhausted :=
  .still fun _ _ _ _ => ⟨.error .exhausted, rfl, rfl⟩

theorem gets {f f' : σ → α} (h : ∀ b s s', T.ties b s s' → f s = f' s') :
    Agrees T (Run.gets f) (Run.gets f') :=
  fun _ => .gets fun b₁ s s' _ hs => h b₁ s s' hs

theorem modify {f f' : σ → σ}
    (h : ∀ b s s', T.ties b s s' → ∃ b', T.le b b' ∧ T.ties b' (f s) (f' s')) :
    Agrees T (Run.modify f) (Run.modify f') := by
  refine .of_ends fun b s s' hs => ?_
  obtain ⟨b', hb, ht⟩ := h b s s' hs
  exact .ok hb ht rfl

theorem orSpan {m m' : Run σ α} (span : Span) (h : Agrees T m m') :
    Agrees T (Run.orSpan span m) (Run.orSpan span m') := by
  refine .of_ends fun b s s' hs => ?_
  have he := h.apply hs
  simp only [Run.orSpan]
  generalize m s = x at he
  generalize m' s' = x' at he
  cases he with
  | short hl => exact .short hl
  | short' hl => exact .short' hl
  | ok hle ht hq => exact .ok hle ht hq
  | @error b' e _ _ hle ht =>
    cases e with
    | failed e => exact .error hle (T.spanned span ht)
    | exhausted => exact .error hle ht

theorem mapList {γ : Type} {f f' : γ → Run σ α} {as : List γ}
    (h : ∀ a ∈ as, Agrees T (f a) (f' a)) : Agrees T (Run.mapList f as) (Run.mapList f' as) := by
  induction as with
  | nil => exact .pure []
  | cons a as ih =>
    refine .bind (h a (by simp)) fun b => .bind (ih fun x hx => h x (by simp [hx])) fun bs => ?_
    exact .pure (b :: bs)

theorem ite {c : Prop} [Decidable c] {m m' n n' : Run σ α} (h : c → Agrees T m m')
    (h' : ¬c → Agrees T n n') : Agrees T (if c then m else n) (if c then m' else n') :=
  fun b => .ite (fun hc => h hc b) fun hc => h' hc b

end Agrees

/-! ## One run against itself -/

section keeping

variable {keeps : σ → σ → Prop} {lax lax' : Prop} {refl : ∀ s, keeps s s}
  {trans : ∀ {s t u}, keeps s t → keeps t u → keeps s u}

theorem agrees_keeping {m : Run σ α} (h : ∀ s, keeps s (m s).2) :
    Agrees (.keeping keeps lax lax' refl trans) m m := by
  refine .of_ends ?_
  rintro b _ _ ⟨rfl, rfl⟩
  have hk := h b
  generalize m b = x at hk
  obtain ⟨e | a, t⟩ := x
  · exact .error hk ⟨rfl, rfl⟩
  · exact .ok hk ⟨rfl, rfl⟩ rfl

/-- A change after which the state may follow. -/
theorem tied_keeping (f : σ → σ) {b s s' : σ}
    (h : (Terms.keeping keeps lax lax' refl trans).ties b s s') (hf : keeps s (f s)) :
    ∃ b', (Terms.keeping keeps lax lax' refl trans).le b b' ∧
      (Terms.keeping keeps lax lax' refl trans).ties b' (f s) (f s') := by
  obtain ⟨rfl, rfl⟩ := h
  exact ⟨f b, hf, rfl, rfl⟩

/-- Runs that agree end in one way, and in a state that may follow. -/
theorem AgreesBy.keeping {m m' : Run σ α} {s : σ}
    (h : AgreesBy (.keeping keeps lax lax' refl trans) s (fun _ => Eq) m m') :
    m s = m' s ∧ keeps s (m s).2 ∨ lax ∧ (m s).1 = .error .exhausted ∨
      lax' ∧ (m' s).1 = .error .exhausted := by
  have he := h s s s (refl s) ⟨rfl, rfl⟩
  generalize m s = x at he
  generalize m' s = x' at he
  cases he with
  | short hl => exact .inr (.inl ⟨hl, rfl⟩)
  | short' hl => exact .inr (.inr ⟨hl, rfl⟩)
  | ok hk ht hq =>
    obtain ⟨rfl, rfl⟩ := ht
    cases hq
    exact .inl ⟨rfl, hk⟩
  | error hk ht =>
    obtain ⟨rfl, rfl⟩ := ht
    exact .inl ⟨rfl, hk⟩

end keeping

section holding

variable {inv : σ → Prop} {keeps : σ → σ → Prop} {refl : ∀ s, keeps s s}
  {trans : ∀ {s t u}, keeps s t → keeps t u → keeps s u}

/-- A run that keeps to an invariant, and what is known of its answers. -/
theorem agreesBy_holding {b : σ} {Q : σ → α → α → Prop} {m : Run σ α}
    (h : ∀ s, keeps b s → inv s → keeps s (m s).2 ∧ inv (m s).2 ∧
      ∀ a, (m s).1 = .ok a → Q (m s).2 a a) :
    AgreesBy (.holding inv keeps refl trans) b Q m m := by
  rintro b₁ _ _ hb ⟨rfl, rfl, hi⟩
  obtain ⟨hk, hi, hq⟩ := h b₁ hb hi
  generalize m b₁ = x at hk hi hq
  obtain ⟨e | a, t⟩ := x
  · exact .error hk ⟨rfl, rfl, hi⟩
  · exact .ok hk ⟨rfl, rfl, hi⟩ (hq a rfl)

theorem agrees_holding {m : Run σ α}
    (h : ∀ s, inv s → keeps s (m s).2 ∧ inv (m s).2) :
    Agrees (.holding inv keeps refl trans) m m :=
  fun _ => agreesBy_holding fun s _ hi => ⟨(h s hi).1, (h s hi).2, fun _ _ => rfl⟩

/-- A change that keeps to an invariant. -/
theorem tied_holding (f : σ → σ) {b s s' : σ} (h : (Terms.holding inv keeps refl trans).ties b s s')
    (hf : inv s → keeps s (f s) ∧ inv (f s)) :
    ∃ b', (Terms.holding inv keeps refl trans).le b b' ∧
      (Terms.holding inv keeps refl trans).ties b' (f s) (f s') := by
  obtain ⟨rfl, rfl, hi⟩ := h
  obtain ⟨hk, hi⟩ := hf hi
  exact ⟨f b, hk, rfl, rfl, hi⟩

/-- What a run that agrees with itself leaves behind. -/
theorem AgreesBy.holding {Q : σ → α → α → Prop} {m m' : Run σ α} {s : σ}
    (h : AgreesBy (.holding inv keeps refl trans) s Q m m') (hi : inv s) :
    keeps s (m s).2 ∧ inv (m s).2 := by
  have he := h s s s (refl s) ⟨rfl, rfl, hi⟩
  generalize m s = x at he
  generalize m' s = x' at he
  cases he with
  | short hl => exact hl.elim
  | short' hl => exact hl.elim
  | ok hk ht _ =>
    obtain ⟨rfl, -, hi⟩ := ht
    exact ⟨hk, hi⟩
  | error hk ht =>
    obtain ⟨rfl, -, hi⟩ := ht
    exact ⟨hk, hi⟩

end holding

/-! ## Bounds on steps -/

/-- What is asked of two bounds: they are the same, or the run that may wants for
steps first. -/
def Enough (lax lax' : Prop) (n n' : Nat) : Prop := n = n' ∨ lax ∧ n ≤ n' ∨ lax' ∧ n' ≤ n

namespace Enough

variable {lax lax' : Prop} {n n' : Nat}

theorem same (n : Nat) : Enough lax lax' n n := .inl rfl

theorem pred (h : Enough lax lax' (n + 1) (n' + 1)) : Enough lax lax' n n' := by
  rcases h with h | ⟨hl, h⟩ | ⟨hl, h⟩
  · exact .inl (by omega)
  · exact .inr (.inl ⟨hl, by omega⟩)
  · exact .inr (.inr ⟨hl, by omega⟩)

theorem succ (h : Enough lax lax' n n') : Enough lax lax' (n + 1) (n' + 1) := by
  rcases h with h | ⟨hl, h⟩ | ⟨hl, h⟩
  · exact .inl (by omega)
  · exact .inr (.inl ⟨hl, by omega⟩)
  · exact .inr (.inr ⟨hl, by omega⟩)

/-- Induction on both bounds, down to where one of them is used up. -/
theorem induction {P : Nat → Nat → Prop}
    (stop : ∀ n n', Enough lax lax' n n' → n = 0 ∨ n' = 0 → P n n')
    (step : ∀ n n', Enough lax lax' n n' → P n n' → P (n + 1) (n' + 1)) :
    ∀ n n', Enough lax lax' n n' → P n n'
  | 0, n', h => stop 0 n' h (.inl rfl)
  | n + 1, 0, h => stop (n + 1) 0 h (.inr rfl)
  | n + 1, n' + 1, h => step n n' h.pred (induction stop step n n' h.pred)

theorem stop {r r' : Except Stop α} (h : Enough lax lax' n n') (h0 : n = 0 ∨ n' = 0)
    (hr : n = 0 → r = .error .exhausted) (hr' : n' = 0 → r' = .error .exhausted) :
    Stop.Agrees lax lax' r r' := by
  rcases h with rfl | ⟨hl, h⟩ | ⟨hl, h⟩
  · have h0 : n = 0 := by omega
    exact .inl ((hr h0).trans (hr' h0).symm)
  · exact .inr (.inl ⟨hl, hr (by omega)⟩)
  · exact .inr (.inr ⟨hl, hr' (by omega)⟩)

theorem exhausted {m m' : Run σ α} (h : Enough T.lax T.lax' n n') (h0 : n = 0 ∨ n' = 0)
    (hm : n = 0 → m = Run.exhausted) (hm' : n' = 0 → m' = Run.exhausted) : Agrees T m m' := by
  rcases h with rfl | ⟨hl, h⟩ | ⟨hl, h⟩
  · have h0 : n = 0 := by omega
    rw [hm h0, hm' h0]
    exact .exhausted
  · rw [hm (by omega)]
    exact .of_ends fun _ _ _ _ => .short hl
  · rw [hm' (by omega)]
    exact .of_ends fun _ _ _ _ => .short' hl

end Enough

end Run

end OpTree
