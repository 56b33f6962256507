/-
Loops over collections. What a loop goes over is read off the collection once, before the first
body runs: the elements of an array in row-major order, or the characters of a text. From then
on, a body is run for one item after another (`Context.EntersBody`), each time on a new scope where
the item has its name; so what it sees is that name and what was visible before the loop, and
neither what an earlier body has declared nor what it has stored in the array makes a difference
to that.

How far a loop gets depends on its bodies. But there are no more of them than items, and if each
of those that are run comes to an answer, the loop does (`forEach_runs`).
-/
import OpTree.Proofs.ArrayIndexing
import OpTree.Proofs.Loops
import OpTree.Proofs.Shadowing

namespace OpTree

/-! ## Names on a new scope -/

namespace FrameStore

variable {s : FrameStore} {f : FrameId} {name : String} {b : Binding}

theorem isBound_addChild (s : FrameStore) (parent : FrameId) (kind : FrameKind) (name : String) :
    (s.addChild parent kind).2.isBound (s.addChild parent kind).1 name = s.isBound parent name := by
  rw [isBound, lookup?_addChild, isBound]

theorem isBound_bindAt (hf : s.Has f) (name : String) (b : Binding) (name' : String) :
    (s.bindAt f name b).isBound f name' = (name' == name || s.isBound f name') := by
  rw [Bool.eq_iff_iff, Bool.or_eq_true, beq_iff_eq, isBound_eq, isBound_eq, chain_bindAt,
    List.any_eq_true, List.any_eq_true]
  simp only [bindingAt?_bindAt hf]
  constructor
  · rintro ⟨g, hg, bound⟩
    split at bound
    · rename_i he
      exact .inl he.2.symm
    · exact .inr ⟨g, hg, bound⟩
  · rintro (rfl | ⟨g, hg, bound⟩)
    · exact ⟨f, mem_chain_self s f, by simp⟩
    · refine ⟨g, hg, ?_⟩
      split
      · rfl
      · exact bound

theorem read_bindAt (hf : s.Has f) (name : String) (v : Value) :
    (s.bindAt f name (.assigned v)).read f name = .ok v := by
  simp only [read, lookup?, chain, owner?, bindingAt?_bindAt hf, true_and, if_true]

end FrameStore

namespace Machine

variable {σ : Type} {s u : Machine σ}

theorem sees_inScope (s : Machine σ) (name : String) : s.inScope.sees name = s.sees name :=
  FrameStore.isBound_addChild ..

theorem has_inScope (s : Machine σ) : s.inScope.world.frames.Has s.inScope.activation.frame :=
  FrameStore.has_add ..

end Machine

/-- A local that was defined on a new scope was not visible; now it is, and nothing else is. -/
theorem Run.defineLocal_inScope {σ : Type} {s u : Machine σ} {name : String} {v : Value}
    (h : Run.defineLocal name v s.inScope = (.ok (), u)) :
    s.sees name = false ∧ u.world.readName u.activation.frame name = .ok v ∧
      ∀ x, u.sees x = (x == name || s.sees x) := by
  simp only [Run.defineLocal, Run.currentFrame, Run.bind_def, Run.gets_def] at h
  obtain ⟨w, hw, rfl⟩ := Run.onWorld_eq_ok.1 h
  simp only [World.define, World.changeFrames, FrameStore.define, FrameStore.insert] at hw
  split at hw
  · rename_i frames hi
    split at hi
    · cases hi
    · rename_i hn
      cases hi
      cases hw
      refine ⟨(s.sees_inScope name).symm.trans (eq_false_of_ne_true hn), ?_, fun x => ?_⟩
      · simp only [World.readName, FrameStore.read_bindAt s.has_inScope]
      · rw [← Machine.sees_inScope s x]
        exact FrameStore.isBound_bindAt s.has_inScope name _ x
  · cases hw

/-! ## The bodies that are run -/

/-- When a loop over some items begins in `s`, its body is run from `u` for the `k`-th of them,
counted from nothing. -/
inductive EntersBody {σ : Type} (host : Host σ) (session : SessionId) (name : String) (body : Node) :
    List Value → Machine σ → Nat → Machine σ → Prop where
  | first {item rest s u} : Run.defineLocal name item s.inScope = (.ok (), u) →
      EntersBody host session name body (item :: rest) s 0 u
  | later {item rest s u v t k u'} : Run.defineLocal name item s.inScope = (.ok (), u) →
      ComesTo host session body u (.ok v) t → t.leavesLoop = false →
      EntersBody host session name body rest t.afterBody.outOfScope k u' →
      EntersBody host session name body (item :: rest) s (k + 1) u'

/-- A loop over some items that begins in `s` runs its body from the machines `us`, one after
another, and ends in `t`: after the last item, with a body that leaves it, or with an error. -/
inductive Passes {σ : Type} (host : Host σ) (session : SessionId) (name : String) (body : Node) :
    List Value → Machine σ → List (Machine σ) → Except Stop Unit → Machine σ → Prop where
  | done {s} : Passes host session name body [] s [] (.ok ()) s
  /-- The name is visible already. -/
  | taken {item rest s e u} : Run.defineLocal name item s.inScope = (.error e, u) →
      Passes host session name body (item :: rest) s [] (.error e) u.outOfScope
  | failed {item rest s u e t} : Run.defineLocal name item s.inScope = (.ok (), u) →
      ComesTo host session body u (.error e) t →
      Passes host session name body (item :: rest) s [u] (.error e) t.outOfScope
  | left {item rest s u v t} : Run.defineLocal name item s.inScope = (.ok (), u) →
      ComesTo host session body u (.ok v) t → t.leavesLoop = true →
      Passes host session name body (item :: rest) s [u] (.ok ()) t.afterBody.outOfScope
  | next {item rest s u v t us r t'} : Run.defineLocal name item s.inScope = (.ok (), u) →
      ComesTo host session body u (.ok v) t → t.leavesLoop = false →
      Passes host session name body rest t.afterBody.outOfScope us r t' →
      Passes host session name body (item :: rest) s (u :: us) r t'

section

variable {σ : Type} {host : Host σ} {session : SessionId} {name : String} {body : Node}
  {items : List Value} {s t u u' : Machine σ} {us : List (Machine σ)} {r : Except Stop Unit} {k : Nat}

theorem Passes.length_le (h : Passes host session name body items s us r t) :
    us.length ≤ items.length := by
  induction h with
  | done => exact Nat.le_refl 0
  | taken => exact Nat.zero_le _
  | failed | left => exact Nat.succ_le_succ (Nat.zero_le _)
  | next _ _ _ _ ih => exact Nat.succ_le_succ ih

theorem enters_zero {item : Value} (defined : Run.defineLocal name item s.inScope = (.ok (), u)) :
    EntersBody host session name body (item :: items) s 0 u' ↔ u' = u := by
  constructor
  · rintro ⟨again⟩
    rw [defined] at again
    cases again
    rfl
  · rintro rfl
    exact .first defined

/-- For the items after the first the body is run if the first one's body does not leave the loop. -/
theorem enters_succ {item : Value} (defined : Run.defineLocal name item s.inScope = (.ok (), u))
    {answer : Except Stop Value} (ran : ComesTo host session body u answer t) :
    EntersBody host session name body (item :: items) s (k + 1) u' ↔
      (∃ v, answer = .ok v) ∧ t.leavesLoop = false ∧
        EntersBody host session name body items t.afterBody.outOfScope k u' := by
  constructor
  · rintro (_ | ⟨again, other, stays, entered⟩)
    rw [defined] at again
    cases again
    obtain ⟨rfl, rfl⟩ := ran.unique other
    exact ⟨⟨_, rfl⟩, stays, entered⟩
  · rintro ⟨⟨v, rfl⟩, stays, entered⟩
    exact .later defined ran stays entered

/-- The machines from which the body is run are those from which it is run for some item. -/
theorem Passes.enters (h : Passes host session name body items s us r t) (k : Nat) (u : Machine σ) :
    us[k]? = some u ↔ EntersBody host session name body items s k u := by
  induction h generalizing k with
  | done => exact ⟨nofun, nofun⟩
  | taken refused =>
    refine ⟨nofun, ?_⟩
    rintro (defined | ⟨defined, -⟩) <;> · rw [refused] at defined; cases defined
  | failed defined ended =>
    cases k with
    | zero => simp [enters_zero defined, eq_comm]
    | succ k => simp [enters_succ defined ended]
  | left defined ended leaves =>
    cases k with
    | zero => simp [enters_zero defined, eq_comm]
    | succ k => simp [enters_succ defined ended, leaves]
  | next defined ended stays _ ih =>
    cases k with
    | zero => simp [enters_zero defined, eq_comm]
    | succ k => simp [enters_succ defined ended, stays, ih]

theorem EntersBody.unique (h : EntersBody host session name body items s k u)
    (h' : EntersBody host session name body items s k u') : u = u' := by
  induction h with
  | first defined => exact ((enters_zero defined).1 h').symm
  | later defined ended _ _ ih =>
    obtain ⟨-, -, h'⟩ := (enters_succ defined ended).1 h'
    exact ih h'

/-! ## The rounds of a loop -/

/-- What a loop over a collection runs for an item. -/
def Context.itemRound (c : Context σ) (name : String) (body : Node) (item : Value) :
    Run (Machine σ) Bool :=
  Run.withScope do
    Run.defineLocal name item
    c.execBody body

theorem Context.Agrees.itemRound {W : WorldTerms host} {c c' : Context σ} (h : c.Agrees W c')
    (name : String) (body : Node) (item : Value) : Run.Agrees (NodeTerms.all W).machine
      (c.itemRound name body item) (c'.itemRound name body item) :=
  .withScope (.bind (.defineLocal name item) fun _ => h.execBody body)

theorem Context.Agrees.execItems {W : WorldTerms host} {c c' : Context σ} (h : c.Agrees W c')
    (name : String) (body : Node) (items : List Value) : Run.Agrees (NodeTerms.all W).machine
      (c.execItems name body items) (c'.execItems name body items) := by
  induction items with
  | nil => exact .pure ()
  | cons item rest ih =>
    exact .bind (h.itemRound name body item) fun _ => .ite (fun _ => ih) fun _ => .pure ()

theorem stable_execBody (host : Host σ) (session : SessionId) (body : Node) :
    Run.Stable fun n => (Context.within host n session).execBody body :=
  .of_agrees fun hn => (Context.within_more host hn session).execBody body

theorem stable_itemRound (host : Host σ) (session : SessionId) (name : String) (body : Node)
    (item : Value) : Run.Stable fun n => (Context.within host n session).itemRound name body item :=
  .of_agrees fun hn => (Context.within_more host hn session).itemRound name body item

theorem stable_execItems (host : Host σ) (session : SessionId) (name : String) (body : Node)
    (items : List Value) : Run.Stable fun n => (Context.within host n session).execItems name body items :=
  .of_agrees fun hn => (Context.within_more host hn session).execItems name body items

theorem defineLocal_ne_exhausted (name : String) (item : Value) (s : Machine σ) :
    (Run.defineLocal name item s).1 ≠ .error .exhausted := by
  simp only [Run.defineLocal, Run.currentFrame, Run.bind_def, Run.gets_def, Run.onWorld, World.define,
    World.changeFrames]
  split <;> simp

/-- It comes to an error if the name is visible already, and else to what the body comes to. -/
theorem comesTo_itemRound (item : Value) {goes : Except Stop Bool} :
    Run.ComesTo (fun n => (Context.within host n session).itemRound name body item) s goes t ↔
      (∃ e u, Run.defineLocal name item s.inScope = (.error e, u) ∧ goes = .error e ∧
        t = u.outOfScope) ∨
      ∃ u, Run.defineLocal name item s.inScope = (.ok (), u) ∧
        ((∃ e t', ComesTo host session body u (.error e) t' ∧ goes = .error e ∧ t = t'.outOfScope) ∨
        ∃ v t', ComesTo host session body u (.ok v) t' ∧ goes = .ok !t'.leavesLoop ∧
          t = t'.afterBody.outOfScope) := by
  simp only [Context.itemRound, Run.comesTo_withScope,
    Run.comesTo_bind (.const (Run.defineLocal name item)) fun _ => stable_execBody host session body,
    Run.comesTo_const, Run.comesTo_execBody]
  constructor
  · rintro ⟨u', ⟨e, ⟨-, refused⟩, rfl⟩ | ⟨⟨⟩, u, ⟨-, defined⟩, ended⟩, rfl⟩
    · exact .inl ⟨e, u', refused, rfl, rfl⟩
    · refine .inr ⟨u, defined, ?_⟩
      obtain ⟨e, ran, rfl⟩ | ⟨v, t', ran, rfl, rfl⟩ := ended
      · exact .inl ⟨e, u', ran, rfl, rfl⟩
      · exact .inr ⟨v, t', ran, rfl, rfl⟩
  · rintro (⟨e, u, refused, rfl, rfl⟩ | ⟨u, defined, ⟨e, t', ran, rfl, rfl⟩ | ⟨v, t', ran, rfl, rfl⟩⟩)
    · have known := defineLocal_ne_exhausted name item s.inScope
      rw [refused] at known
      exact ⟨u, .inl ⟨e, ⟨Run.error_ne_exhausted known, refused⟩, rfl⟩, rfl⟩
    · exact ⟨t', .inr ⟨(), u, ⟨nofun, defined⟩, .inl ⟨e, ran, rfl⟩⟩, rfl⟩
    · exact ⟨_, .inr ⟨(), u, ⟨nofun, defined⟩, .inr ⟨v, t', ran, rfl, rfl⟩⟩, rfl⟩

/-- After an item whose body does not leave the loop, it goes on with the next. -/
theorem itemRound_of_stays {item v : Value} (defined : Run.defineLocal name item s.inScope = (.ok (), u))
    (ran : ComesTo host session body u (.ok v) t) (stays : t.leavesLoop = false) :
    ∃ n, (Context.within host n session).itemRound name body item s =
      (.ok true, t.afterBody.outOfScope) := by
  have goes : Except.ok true = (Except.ok !t.leavesLoop : Except Stop Bool) := by rw [stays]; rfl
  exact ((comesTo_itemRound item).2 (.inr ⟨u, defined, .inr ⟨v, t, ran, goes, rfl⟩⟩)).2

theorem comesTo_execItems :
    Run.ComesTo (fun n => (Context.within host n session).execItems name body items) s r t ↔
      ∃ us, Passes host session name body items s us r t := by
  have stable (rest : List Value) (goes : Bool) : Run.Stable fun n =>
      if goes then (Context.within host n session).execItems name body rest else pure () := by
    cases goes with
    | true => exact stable_execItems host session name body rest
    | false => exact .const (pure ())
  induction items generalizing s with
  | nil =>
    constructor
    · rintro ⟨-, -, ⟨⟩⟩
      exact ⟨[], .done⟩
    · rintro ⟨us, ⟨⟩⟩
      exact ⟨nofun, 0, rfl⟩
  | cons item rest ih =>
    have unfolded (n : Nat) : (Context.within host n session).execItems name body (item :: rest) =
      (Context.within host n session).itemRound name body item >>= fun goes =>
        if goes then (Context.within host n session).execItems name body rest else pure () := rfl
    simp only [unfolded, Run.comesTo_bind (stable_itemRound host session name body item) (stable rest),
      comesTo_itemRound]
    constructor
    · rintro (⟨e, round, rfl⟩ | ⟨goes, u', round, others⟩)
      · obtain ⟨_, u, taken, ⟨⟩, rfl⟩ | ⟨u, defined, ⟨_, t', ran, ⟨⟩, rfl⟩ | ⟨_, _, -, ⟨⟩, -⟩⟩ := round
        · exact ⟨[], .taken taken⟩
        · exact ⟨[u], .failed defined ran⟩
      · obtain ⟨_, _, -, ⟨⟩, -⟩ | ⟨u, defined, ⟨_, _, -, ⟨⟩, -⟩ | ⟨v, t', ran, ⟨⟩, rfl⟩⟩ := round
        cases leaves : t'.leavesLoop with
        | true =>
          simp only [leaves, Bool.not_true, Bool.false_eq_true, if_false, Run.comesTo_pure] at others
          obtain ⟨rfl, rfl⟩ := others
          exact ⟨[u], .left defined ran leaves⟩
        | false =>
          simp only [leaves, Bool.not_false, if_true] at others
          obtain ⟨us, others⟩ := ih.1 others
          exact ⟨u :: us, .next defined ran leaves others⟩
    · rintro ⟨us, passes⟩
      cases passes with
      | @taken _ _ _ e u refused => exact .inl ⟨e, .inl ⟨e, u, refused, rfl, rfl⟩, rfl⟩
      | @failed _ _ _ u e t' defined ran =>
        exact .inl ⟨e, .inr ⟨u, defined, .inl ⟨e, t', ran, rfl, rfl⟩⟩, rfl⟩
      | @left _ _ _ u v t' defined ran leaves =>
        refine .inr ⟨false, _, .inr ⟨u, defined, .inr ⟨v, t', ran, by rw [leaves]; rfl, rfl⟩⟩, ?_⟩
        exact ⟨nofun, 0, rfl⟩
      | @next _ _ _ u v t' us _ _ defined ran leaves others =>
        refine .inr ⟨true, _, .inr ⟨u, defined, .inr ⟨v, t', ran, by rw [leaves]; rfl, rfl⟩⟩, ?_⟩
        exact ih.2 ⟨us, others⟩

/-- If all bodies that are run come to an answer, so does the loop over the items. -/
theorem Passes.exists_of_enters (items : List Value) (s : Machine σ)
    (terminates : ∀ k u, EntersBody host session name body items s k u →
      ∃ r t, ComesTo host session body u r t) : ∃ us r t, Passes host session name body items s us r t := by
  induction items generalizing s with
  | nil => exact ⟨_, _, _, .done⟩
  | cons item rest ih =>
    rcases defined : Run.defineLocal name item s.inScope with ⟨e | _, u⟩
    · exact ⟨_, _, _, .taken defined⟩
    · obtain ⟨e | v, t, ran⟩ := terminates 0 u (.first defined)
      · exact ⟨_, _, _, .failed defined ran⟩
      · cases leaves : t.leavesLoop with
        | true => exact ⟨_, _, _, .left defined ran leaves⟩
        | false =>
          obtain ⟨us, r, t', others⟩ := ih _ fun k u' entered =>
            terminates (k + 1) u' (.later defined ran leaves entered)
          exact ⟨_, _, _, .next defined ran leaves others⟩

/-! ## What a body sees -/

theorem EntersBody.entered (h : EntersBody host session name body items s k u) :
    ∃ item s', items[k]? = some item ∧ s.SameSight s' ∧
      Run.defineLocal name item s'.inScope = (.ok (), u) := by
  induction h with
  | @first item rest s u defined => exact ⟨item, s, rfl, .refl s, defined⟩
  | @later item rest s u v t k u' defined ran stays _ ih =>
    obtain ⟨item', s', found, sight, entered⟩ := ih
    obtain ⟨n, round⟩ := itemRound_of_stays defined ran stays
    have left := Run.withScope_sameSight host (fun named => .bind (.defineLocal name item) fun _ =>
      (Context.within_self (World.sparing host False named) n session).execBody body) s
    rw [← Context.itemRound, round] at left
    exact ⟨item', s', found, left.trans sight, entered⟩

theorem EntersBody.sees (h : EntersBody host session name body items s k u) (standing : s.Standing) :
    s.sees name = false ∧
      (∃ item, items[k]? = some item ∧ u.world.readName u.activation.frame name = .ok item) ∧
      ∀ x, u.sees x = (x == name || s.sees x) := by
  obtain ⟨item, s', found, sight, entered⟩ := h.entered
  obtain ⟨unseen, read, seen⟩ := Run.defineLocal_inScope entered
  refine ⟨by rw [← sight.sees standing, unseen], ⟨item, found, read⟩, fun x => ?_⟩
  rw [seen x, sight.sees standing]

/-! ## The whole loop -/

/-- The answer of a loop at a span: nothing, or the error of its last iteration. -/
def loopAnswer (span : Span) (r : Except Stop Unit) : Except Stop Value :=
  (r.map fun _ => Value.void).mapError (Stop.orSpan span)

theorem Context.itemsOf_array {w : World σ} {a : ArrayRef} {cell : ArrayCell}
    (found : w.cell? a = some cell) (h : Context.itemsOf w (.array a) = .ok items) :
    items.length = elementCount cell.lengths ∧ ∀ k < elementCount cell.lengths,
      ∃ item, items[k]? = some item ∧
        w.getElement a (ArrayCell.indicesAt cell.lengths k) = .ok item := by
  cases h
  exact ⟨World.length_elements found,
    fun k hk => World.getElem?_elements found (ArrayCell.flatIndex_indicesAt hk)⟩

/-- What a loop does once its collection has been evaluated. -/
def Context.runItems (c : Context σ) (name : String) (body : Node) (v : Value) :
    Run (Machine σ) Value := do
  let items ← Run.ofExcept (← Run.gets fun s => itemsOf s.world v)
  c.execItems name body items
  return .void

theorem stable_runItems (host : Host σ) (session : SessionId) (name : String) (body : Node) (v : Value) :
    Run.Stable fun n => (Context.within host n session).runItems name body v :=
  .bind (.const _) fun entry => .bind (.const (Run.ofExcept entry)) fun items =>
    .bind (stable_execItems host session name body items) fun _ => .const (pure Value.void)

theorem comesTo_runItems {v : Value} {answer : Except Stop Value} :
    Run.ComesTo (fun n => (Context.within host n session).runItems name body v) s answer t ↔
      (∃ e, Context.itemsOf s.world v = .error e ∧ answer = .error (.failed e) ∧ t = s) ∨
      ∃ items, Context.itemsOf s.world v = .ok items ∧
        ∃ us r, Passes host session name body items s us r t ∧ answer = r.map fun _ => Value.void := by
  rcases entry : Context.itemsOf s.world v with e | items
  · have refused (n : Nat) : (Context.within host n session).runItems name body v s =
        (Run.ofExcept (.error e) : Run (Machine σ) Value) s := by
      simp only [Context.runItems, Run.bind_def, Run.gets_def, entry, Run.ofExcept_error]
    rw [Run.comesTo_congr refused, Run.comesTo_const, Run.ofExcept_error]
    constructor
    · rintro ⟨-, ⟨⟩⟩
      exact .inl ⟨e, rfl, rfl, rfl⟩
    · rintro (⟨e', he, rfl, rfl⟩ | ⟨items, he, -⟩) <;> cases he
      exact ⟨by simp, rfl⟩
  · have begun (n : Nat) : (Context.within host n session).runItems name body v s =
        (do (Context.within host n session).execItems name body items; return Value.void :
          Run (Machine σ) Value) s := by
      simp only [Context.runItems, Run.bind_def, Run.gets_def, entry, Run.ofExcept_ok]
    rw [Run.comesTo_congr begun, Run.comesTo_void (stable_execItems host session name body items)]
    simp only [comesTo_execItems]
    constructor
    · rintro ⟨r, ⟨us, passes⟩, rfl⟩
      exact .inr ⟨items, rfl, us, r, passes, rfl⟩
    · rintro (⟨e, he, -⟩ | ⟨items', he, us, r, passes, rfl⟩) <;> cases he
      exact ⟨r, ⟨us, passes⟩, rfl⟩

/-- A loop comes to the error of its collection, or to what it comes to over the items that it has
then. -/
theorem comesTo_forEach {collection : Node} {answer : Except Stop Value} :
    Run.ComesTo (fun n => (Context.within host n session).evalOp (.forEachLoop name collection body))
        s answer t ↔
      (∃ e, ComesTo host session collection s (.error e) t ∧ answer = .error e) ∨
      ∃ v s₁, ComesTo host session collection s (.ok v) s₁ ∧
        Run.ComesTo (fun n => (Context.within host n session).runItems name body v) s₁ answer t :=
  Run.comesTo_bind (stable_eval host session collection) (stable_runItems host session name body)

/-- Over the items of a collection that has been evaluated, a loop comes to what it passes to. -/
theorem comesTo_forEach_items {span : Span} {collection : Node} {s₁ : Machine σ} {v : Value}
    (collected : ComesTo host session collection s (.ok v) s₁)
    (entry : Context.itemsOf s₁.world v = .ok items) (answer : Except Stop Value) (t : Machine σ) :
    ComesTo host session (.mk span (.forEachLoop name collection body)) s answer t ↔
      ∃ us r, Passes host session name body items s₁ us r t ∧ answer = loopAnswer span r := by
  rw [comesTo_node]
  simp only [comesTo_forEach, comesTo_runItems]
  constructor
  · rintro ⟨_, ⟨e, failed, rfl⟩ | ⟨v', s', evaluated, ended⟩, rfl⟩
    · cases (collected.unique failed).1
    · obtain ⟨hv, rfl⟩ := collected.unique evaluated
      cases hv
      obtain ⟨e, refused, -⟩ | ⟨items', he, us, r, passes, rfl⟩ := ended
      · rw [entry] at refused
        cases refused
      · rw [entry] at he
        cases he
        exact ⟨us, r, passes, rfl⟩
  · rintro ⟨us, r, passes, rfl⟩
    exact ⟨_, .inr ⟨v, s₁, collected, .inr ⟨items, entry, us, r, passes, rfl⟩⟩, rfl⟩

/-- Take a loop over an array or a text, and the items that it has when the loop begins. The loop
comes to an answer exactly when it passes to its end over those items, and these are all the runs
of its body: at most one for each item, one after another. The run for the `k`-th item sees it by
the name of the loop, sees what was visible before, and sees no other name. If each body that is
run comes to an answer, the loop comes to one. And however it does, what is visible after it was
visible before its first body, the name of the loop is not if a body was run, and no frame that
there was binds another name. -/
theorem forEach_runs (span : Span) (name : String) (collection body : Node) {s s₁ : Machine σ} {v : Value}
    {items : List Value} (standing : s.Standing)
    (collected : ComesTo host session collection s (.ok v) s₁)
    (entry : Context.itemsOf s₁.world v = .ok items) :
    let loop := Node.mk span (.forEachLoop name collection body)
    let passes := Passes host session name body items s₁
    let enters := EntersBody host session name body items s₁
    ((∃ a, v = .array a ∧ items = s₁.world.elements a ∧
        ∀ cell, s₁.world.cell? a = some cell → items.length = elementCount cell.lengths ∧
          ∀ k < elementCount cell.lengths, ∃ item, items[k]? = some item ∧
            s₁.world.getElement a (ArrayCell.indicesAt cell.lengths k) = .ok item) ∨
      ∃ text, v = .text text ∧ items = text.toList.map Value.char) ∧
    (∀ r t, ComesTo host session loop s r t ↔ ∃ us r', passes us r' t ∧ r = loopAnswer span r') ∧
    (∀ us r t, passes us r t → us.length ≤ items.length ∧ ∀ k u, us[k]? = some u ↔ enters k u) ∧
    (∀ k u, enters k u → k < items.length ∧ (∀ u', enters k u' → u' = u) ∧
      (∃ item, items[k]? = some item ∧ u.world.readName u.activation.frame name = .ok item) ∧
      ∀ x, u.sees x = (x == name || s₁.sees x)) ∧
    ((∀ k u, enters k u → ∃ r t, ComesTo host session body u r t) →
      ∃ r t, ComesTo host session loop s r t) ∧
    ∀ r t, ComesTo host session loop s r t → (∀ x, t.sees x = s₁.sees x) ∧
      (∀ u, enters 0 u → t.sees name = false) ∧
      ∀ f, s₁.world.frames.Has f → s₁.world.frames.SameNames t.world.frames f := by
  intro loop passes enters
  have standing₁ : s₁.Standing := by
    obtain ⟨-, n, hn⟩ := collected
    obtain ⟨grows, rests⟩ := evalWithin_grows host n session collection s
    rw [hn] at grows rests
    exact standing.grown grows.frames rests.frame
  have comes (r : Except Stop Value) (t : Machine σ) : ComesTo host session loop s r t ↔
      ∃ us r', passes us r' t ∧ r = loopAnswer span r' :=
    comesTo_forEach_items collected entry r t
  refine ⟨?_, comes, fun us r t passed => ⟨passed.length_le, passed.enters⟩, fun k u entered => ?_,
    fun terminates => ?_, fun r t ended => ?_⟩
  · cases v with
    | array a =>
      exact .inl ⟨a, rfl, (Except.ok.inj entry).symm, fun cell found =>
        Context.itemsOf_array found entry⟩
    | text text => exact .inr ⟨text, rfl, (Except.ok.inj entry).symm⟩
    | _ => cases entry
  · obtain ⟨-, ⟨item, found, read⟩, seen⟩ := entered.sees standing₁
    exact ⟨(List.getElem?_eq_some_iff.1 found).1, fun u' entered' => entered'.unique entered,
      ⟨item, found, read⟩, seen⟩
  · obtain ⟨us, r, t, passed⟩ := Passes.exists_of_enters items s₁ terminates
    exact ⟨_, t, (comes _ t).2 ⟨us, r, passed, rfl⟩⟩
  · obtain ⟨n₀, collected⟩ := collected.eventually
    obtain ⟨n, more⟩ := ended.eventually
    have whole := evalWithin_encloses host (max n₀ n + 1) session (x := loop)
      (.forEachLoop name collection body) s
    rw [more _ (by omega)] at whole
    simp only [Context.afterFirst, Nat.add_sub_cancel, Context.within,
      collected _ (Nat.le_max_left n₀ n)] at whole
    refine ⟨whole.sees standing₁, fun u entered => ?_, whole.names⟩
    rw [whole.sees standing₁]
    exact (entered.sees standing₁).1

end

namespace eachCharacter

def node (op : Op) : Node := .mk .dummy op

/-- A local is declared, and not in a block. -/
def body : Node := node (.variableDeclaration "y" none)

theorem body_comesTo (host : Host Scripted.State) (u : Machine Scripted.State) :
    ∃ r t, ComesTo host ⟨0⟩ body u r t := by
  refine ⟨(evalWithin host 1 ⟨0⟩ body u).1, (evalWithin host 1 ⟨0⟩ body u).2, ?_, 1, rfl⟩
  have evaluated : (evalWithin host 1 ⟨0⟩ body u).1 =
      (Run.orSpan .dummy (do Run.declareLocal "y"; return Value.void) u).1 := rfl
  rw [evaluated]
  simp only [Run.orSpan, Run.declareLocal, Run.currentFrame, Run.bind_def, Run.gets_def, Run.onWorld,
    World.declare, World.changeFrames]
  cases u.world.frames.declare u.activation.frame "y" <;> simp

/-- After the first character the body is run for the second. -/
theorem enters_second :
    ∃ u, EntersBody (Scripted.Program.host ⟨[], []⟩) ⟨0⟩ "c" body [.char 'a', .char 'b']
      inPlainMethod 1 u := by
  let host := Scripted.Program.host ⟨[], []⟩
  let u := (Run.defineLocal "c" (.char 'a') inPlainMethod.inScope).2
  let t := (evalWithin host 1 ⟨0⟩ body u).2
  let next := Run.defineLocal "c" (.char 'b') t.afterBody.outOfScope.inScope
  have declared : (evalWithin host 1 ⟨0⟩ body u).1 = .ok .void := rfl
  have ran : ComesTo host ⟨0⟩ body u (.ok .void) t := ⟨nofun, 1, by rw [← declared]⟩
  have stays : t.leavesLoop = false := by decide +kernel
  have answer : next.1 = .ok () := by decide +kernel
  have defined : next = (.ok (), next.2) := by rw [← answer]
  exact ⟨next.2, .later rfl ran stays (.first defined)⟩

/-- Every character's body declares the local anew. -/
theorem loop_comesTo :
    let host := Scripted.Program.host ⟨[], []⟩
    let s := inPlainMethod
    let text := node (.literal (.text "ab"))
    s.Standing ∧ ComesTo host ⟨0⟩ text s (.ok (.text "ab")) s ∧
      Context.itemsOf s.world (.text "ab") = .ok [.char 'a', .char 'b'] ∧
      (∀ u, ∃ r t, ComesTo host ⟨0⟩ body u r t) ∧
      ∃ r t us r' u, ComesTo host ⟨0⟩ (node (.forEachLoop "c" text body)) s r t ∧
        Passes host ⟨0⟩ "c" body [.char 'a', .char 'b'] s us r' t ∧
        us[1]? = some u ∧ u.sees "c" = true ∧ u.sees "y" = false ∧
        t.sees "c" = false ∧ t.sees "y" = false := by
  intro host s text
  have standing : s.Standing := by decide
  have collected : ComesTo host ⟨0⟩ text s (.ok (.text "ab")) s := ⟨nofun, 1, rfl⟩
  have entry : Context.itemsOf s.world (.text "ab") = .ok [.char 'a', .char 'b'] := rfl
  have ends (u : Machine Scripted.State) : ∃ r t, ComesTo host ⟨0⟩ body u r t := body_comesTo host u
  obtain ⟨-, comes, runs, sees, terminates, after⟩ :=
    forEach_runs .dummy "c" text body standing collected entry
  obtain ⟨r, t, ended⟩ := terminates fun _ u _ => ends u
  obtain ⟨us, r', passes, -⟩ := (comes r t).1 ended
  obtain ⟨seen, -⟩ := after r t ended
  obtain ⟨u, second⟩ := enters_second
  obtain ⟨-, -, -, inside⟩ := sees 1 u second
  refine ⟨standing, collected, entry, ends, r, t, us, r', u, ended, passes,
    ((runs us r' t passes).2 1 u).2 second, ?_, ?_, ?_, ?_⟩
  · rw [inside "c"]
    rfl
  · rw [inside "y"]
    decide
  · rw [seen "c"]
    decide
  · rw [seen "y"]
    decide

end eachCharacter

end OpTree
