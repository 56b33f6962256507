/-
What code can get at. Each kind of node keeps secrets if the code that it runs does, so secrets
stay as they are whatever is run, however it ends (`evalWithin_discreet`).
-/
import OpTree.Proofs.Discretion

namespace OpTree

open Run (Obeys)

namespace Context.Discreet

variable {σ α : Type} {S : Secrecy σ} {c : Context σ} {w : World σ} (h : c.Discreet S)

include h

/-! ## Operands -/

variable {inits : List ArrayInit} {s : Machine σ}

theorem exec (hs : s.Discreet S inits) {x : Node} (hx : S.Permits inits x) :
    Obeys (S.machine inits) (c.exec x) s fun _ _ => True :=
  .bind (h.eval hs hx) fun _ _ _ ht _ => .pure ht trivial

theorem execEach (hs : s.Discreet S inits) {xs : List Node} (hx : ∀ x ∈ xs, S.Permits inits x) :
    Obeys (S.machine inits) (Run.forList c.exec xs) s fun _ _ => True :=
  .forList (fun x hm _ _ ht => h.exec ht (hx x hm)) hs

theorem test (hs : s.Discreet S inits) {x : Node} (hx : S.Permits inits x) :
    Obeys (S.machine inits) (c.test x) s fun _ _ => True :=
  .bind (h.eval hs hx) fun _ _ _ ht _ => .ofExcept ht fun _ _ => trivial

theorem receiverFor (hs : s.Discreet S inits) (m : ResolvedMember) {receiver : Option Node}
    (hr : ∀ x ∈ receiver.toList, S.Permits inits x) :
    Obeys (S.machine inits) (c.receiverFor m receiver) s fun s r => ∀ v ∈ r, S.Allows s.world v := by
  cases receiver with
  | some x =>
    refine .bind (h.eval hs (hr x (by simp))) fun v _ _ ht hv => .pure ht fun u hu => ?_
    cases hu
    exact hv
  | none =>
    refine .bind (.known hs) fun member t _ ht _ => .ite (fun _ => .pure ht nofun) fun _ => ?_
    refine .bind ht.currentInstance fun o _ _ hu _ => .pure hu fun u hu => ?_
    cases hu
    exact Secrecy.allows_of_arrays rfl

/-- A member is reached with its receiver and its operands evaluated. -/
theorem onMember (hs : s.Discreet S inits) {use : MemberUse} {receiver : Option Node}
    {operands : List Node} (hr : ∀ x ∈ receiver.toList, S.Permits inits x)
    (ho : ∀ x ∈ operands, S.Permits inits x) {Q : Machine σ → α → Prop}
    {k : ResolvedMember → Option Value → List Value → Run (Machine σ) α}
    (hk : ∀ m r vs {t : Machine σ}, t.Discreet S inits → (∀ v ∈ r, S.Allows t.world v) →
      (∀ v ∈ vs, S.Allows t.world v) → Obeys (S.machine inits) (k m r vs) t Q) :
    Obeys (S.machine inits) (Run.closeMember use >>= fun m => c.receiverFor m receiver >>= fun r =>
      c.evalList operands >>= fun vs => k m r vs) s Q :=
  .bind (hs.closeMember use) fun m _ _ ht _ => .bind (h.receiverFor ht m hr) fun r _ _ hu hr =>
    .bind (h.nodes hu ho) fun vs _ hl hx hv => hk m r vs hx (Secrecy.Allows.option_later hr hl) hv

/-! ## Members -/

theorem readMember (hs : s.Discreet S inits) {use : MemberUse} {receiver : Option Node}
    {index : List Node} (isVirtual : Bool) (hr : ∀ x ∈ receiver.toList, S.Permits inits x)
    (hi : ∀ x ∈ index, S.Permits inits x) :
    Obeys (S.machine inits) (c.readMember use receiver index isVirtual) s
      fun s => S.Allows s.world :=
  h.onMember hs hr hi fun m _ _ _ ht hr hi => ht.onWorld (h.getMember ht.world m hr hi isVirtual)

theorem invoke (hs : s.Discreet S inits) {use : MemberUse} {receiver : Option Node}
    {args : List Node} (isVirtual : Bool) (hr : ∀ x ∈ receiver.toList, S.Permits inits x)
    (ha : ∀ x ∈ args, S.Permits inits x) :
    Obeys (S.machine inits) (c.invoke use receiver args isVirtual) s fun s => S.Allows s.world :=
  h.onMember hs hr ha fun m _ _ _ ht hr ha => ht.onWorld (h.callMember ht.world m hr ha isVirtual)

theorem callOperator (hs : s.Discreet S inits) (use : MemberUse) {args : List Value}
    (ha : ∀ v ∈ args, S.Allows s.world v) :
    Obeys (S.machine inits) (c.callOperator use args) s fun s => S.Allows s.world := by
  refine .bind (hs.closeMember use) fun m t hl ht _ => ?_
  have absent : ∀ v ∈ (none : Option Value), S.Allows t.world v := nofun
  exact ht.onWorld (h.callMember ht.world m absent (Secrecy.Allows.all_later ha hl) false)

theorem applyBinary (hs : s.Discreet S inits) (op : BinaryOp) (operator : Option MemberUse)
    {l r : Value} (hl : S.Allows s.world l) (hr : S.Allows s.world r) :
    Obeys (S.machine inits) (c.applyBinary op operator l r) s fun s => S.Allows s.world := by
  cases operator with
  | some use =>
    exact h.callOperator hs use (List.forall_mem_cons.2 ⟨hl, List.forall_mem_singleton.2 hr⟩)
  | none => exact .ofExcept hs fun _ hv => Secrecy.allows_of_arrays (BinaryOp.arrays_eval hv)

theorem evalFor (hs : s.Discreet S inits) {o : Value} (ho : S.Allows s.world o) {x : Node}
    (hx : S.Permits inits x) :
    Obeys (S.machine inits) (c.evalFor o x) s fun s => S.Allows s.world :=
  hs.during ⟨List.forall_mem_cons.2 ⟨ho, hs.activation.receivers⟩, hs.activation.conditionals,
      hs.activation.pendingReturn, hs.activation.prepared⟩ rfl
    (fun ha => ⟨fun v hv => ha.receivers v (List.mem_of_mem_tail hv), ha.conditionals,
      ha.pendingReturn, ha.prepared⟩) (fun _ => rfl) fun _ ht => h.eval ht hx

theorem initializerArguments (hs : s.Discreet S inits) {args : List Node}
    (ha : ∀ x ∈ args, S.Permits inits x) :
    Obeys (S.machine inits) (c.initializerArguments args) s fun s found =>
      (∀ v ∈ found.1, S.Allows s.world v) ∧ ∀ vs ∈ found.2, ∀ v ∈ vs, S.Allows s.world v := by
  refine .bind (.gets hs) fun prepared t _ ht hp => ?_
  have given := ht.activation.prepared
  rw [← hp] at given
  cases prepared with
  | nil => exact .bind (h.nodes ht ha) fun values _ _ hu hv => .pure hu ⟨hv, nofun⟩
  | cons values rest =>
    refine .bind (ht.modifyActivation ⟨ht.activation.receivers, ht.activation.conditionals,
      ht.activation.pendingReturn, nofun⟩ ht.inits) fun _ u hl hu _ => .pure hu ⟨?_, fun vs hv => ?_⟩
    · exact Secrecy.Allows.all_later (given values (by simp)) hl
    · exact Secrecy.Allows.all_later (given vs (by simp [hv])) hl

theorem runConstructorInitializer (hs : s.Discreet S inits) {use : MemberUse} {args : List Node}
    (ha : ∀ x ∈ args, S.Permits inits x) :
    Obeys (S.machine inits) (c.runConstructorInitializer use args) s fun s => S.Allows s.world := by
  refine .bind (hs.closeMember use) fun m t _ ht _ => ?_
  refine .bind (ht.onWorld (h.target ht.world m.symbol)) fun target u _ hu _ => ?_
  have void {t : Machine σ} : S.Allows t.world .void := Secrecy.allows_of_arrays rfl
  cases target with
  | interpreted tree =>
    refine .bind hu.currentInstance fun o v _ hv _ => ?_
    refine .bind (h.initializerArguments hv ha) fun found x _ hx hf => ?_
    refine .bind (hx.onWorld (prepare hx.world _ _ _ _ hf.1)) fun a y hl hy hp => ?_
    have started : { a with prepared := found.2 }.Discreet S y.world :=
      { hp.1 with prepared := fun vs hv => Secrecy.Allows.all_later (hf.2 vs hv) hl }
    exact .bind (hy.onWorld (h.runBody hy.world started hp.2 tree)) fun _ _ _ hz _ => .pure hz void
  | physical | slot | staticSlot | frameSlot | accessors | bodiless | empty => exact .pure hu void

theorem createObject (hs : s.Discreet S inits) {use : MemberUse} {args : List Node}
    {initializer : Option Node} (ha : ∀ x ∈ args, S.Permits inits x)
    (hi : ∀ x ∈ initializer.toList, S.Permits inits x) :
    Obeys (S.machine inits) (c.createObject use args initializer) s fun s => S.Allows s.world := by
  refine .bind (hs.closeMember use) fun m t _ ht _ => .bind (h.nodes ht ha) fun vs u _ hu hv => ?_
  refine .bind (.known hu) fun constructor v hl hv' _ => ?_
  refine .bind (hv'.onWorld (h.activateWith hv'.world constructor _ (Secrecy.Allows.all_later hv hl)))
    fun o x _ hx _ => ?_
  have object {t : Machine σ} : S.Allows t.world (.object o) := Secrecy.allows_of_arrays rfl
  cases initializer with
  | some node =>
    exact .bind (h.evalFor hx object (hi node (by simp))) fun _ _ _ hy _ => .pure hy object
  | none => exact .pure hx object

theorem createAnonymous (hs : s.Discreet S inits) {type : TypeRef} {initializers : List Node}
    (hi : ∀ x ∈ initializers, S.Permits inits x) :
    Obeys (S.machine inits) (c.createAnonymous type initializers) s fun s => S.Allows s.world := by
  refine .bind (hs.closeType type) fun closed t _ ht _ => ?_
  refine .bind (ht.onWorld (h.activate ht.world closed nofun)) fun o u _ hu _ => ?_
  have object {t : Machine σ} : S.Allows t.world (.object o) := Secrecy.allows_of_arrays rfl
  refine .bind (.forList (fun x hm v _ hv => ?_) hu) fun _ _ _ hx _ => .pure hx object
  exact .bind (h.evalFor hv object (hi x hm)) fun _ _ _ hy _ => .pure hy trivial

/-! ## Arrays -/

theorem elementTarget (hs : s.Discreet S inits) {array : Node} {index : List Node}
    (ha : S.Permits inits array) (hi : ∀ x ∈ index, S.Permits inits x) :
    Obeys (S.machine inits) (c.elementTarget array index) s fun s found =>
      S.visible s.world found.1.id := by
  refine .bind (h.eval hs ha) fun v t _ ht hv => ?_
  split
  · rename_i a
    refine .bind (h.nodes ht hi) fun values u hl hu _ => ?_
    refine .bind (.known hu) fun is x hl' hx _ => .pure hx ?_
    exact Value.within_array.1 (hv.later (S.world.trans hl hl'))
  · exact .fail ht
  · exact .fail ht

theorem readElement (hs : s.Discreet S inits) {array : Node} {index : List Node}
    (ha : S.Permits inits array) (hi : ∀ x ∈ index, S.Permits inits x) :
    Obeys (S.machine inits) (c.readElement array index) s fun s => S.Allows s.world := by
  refine .bind (h.elementTarget hs ha hi) fun found t _ ht hf => ?_
  refine .bind (.gets ht) fun r u hl hu hr => .ofExcept hu fun v hv => ?_
  exact hu.world.getElement (Secrecy.visible_later hl hf).2 (hr ▸ hv)

theorem newLengths (hs : s.Discreet S inits) (rank : Nat) {dimensions : List Node}
    {initializer : Option Node} (hd : ∀ x ∈ dimensions, S.Permits inits x) :
    Obeys (S.machine inits) (c.newLengths rank dimensions initializer) s fun _ _ => True := by
  cases dimensions with
  | nil => cases initializer <;> exact .pure hs trivial
  | cons d ds =>
    exact .bind (h.nodes hs hd) fun values _ _ ht _ => .ofExcept ht fun _ _ => trivial

omit h in
/-- A new array has a default everywhere. -/
theorem filled_allows (w : World σ) (ns : List Nat) (type : ClosedType) :
    ∀ v ∈ (ArrayCell.filled ns type.defaultValue).data, S.Allows w v := by
  intro v hv
  rw [Array.eq_of_mem_replicate hv]
  exact Secrecy.allows_of_arrays type.arrays_defaultValue

theorem createArray (hs : s.Discreet S inits) {element : TypeRef} (rank : Nat)
    {dimensions : List Node} {initializer : Option Node} (hd : ∀ x ∈ dimensions, S.Permits inits x) :
    Obeys (S.machine inits) (c.createArray element rank dimensions initializer) s
      fun s => S.Allows s.world := by
  refine .bind (hs.closeType element) fun type t _ ht _ => ?_
  refine .bind (h.newLengths ht rank hd) fun ns u _ hu _ => .ite (fun _ => .fail hu) fun _ => ?_
  refine .bind (hu.onWorld (hu.world.newArray type (filled_allows _ ns type))) fun a v _ hv made => ?_
  cases initializer with
  | none => exact .pure hv (Value.within_array.2 made)
  | some x =>
    -- the new array is no secret, so its initializer may fill it
    have permitted : S.Permits (⟨a, []⟩ :: inits) x :=
      .inl fun init hi => by cases hi; exact made.2
    refine .bind (Machine.Discreet.between (Q := fun w => S.Allows w) (h.eval ?_ permitted) ?_)
      fun _ x hl hx _ => .pure hx (Value.within_array.2 (Secrecy.visible_later hl made))
    · exact ⟨hv.world, ⟨hv.activation.receivers, hv.activation.conditionals,
        hv.activation.pendingReturn, hv.activation.prepared⟩, congrArg _ hv.inits⟩
    · exact fun x hx => ⟨⟨hx.activation.receivers, hx.activation.conditionals,
        hx.activation.pendingReturn, hx.activation.prepared⟩, congrArg List.tail hx.inits⟩

theorem fillItems (exposed : S.Exposed inits) {items : List Node} (position : Int)
    (hs : s.Discreet S inits) :
    Obeys (S.machine inits) (c.fillItems position items) s fun _ _ => True := by
  induction items generalizing s position with
  | nil => exact .pure hs trivial
  | cons x xs ih =>
    simp only [Context.fillItems]
    split
    · have inner : S.Exposed (Context.mapInnerPath (· ++ [position]) s.activation).arrayInits :=
        Secrecy.Exposed.innerPath (hs.inits ▸ exposed) _
      have filled := h.eval (x := x)
        (s := { s with activation := Context.mapInnerPath (· ++ [position]) s.activation })
        ⟨hs.world, hs.activation.innerPath (· ++ [position]), rfl⟩ (.inl inner)
      refine .bind (Machine.Discreet.between filled fun t ht => ?_) fun _ _ _ ht _ => ih (position + 1) ht
      exact ⟨ht.activation.innerPath _, (arrayInits_outer ht.inits).trans hs.inits⟩
    · refine .bind (h.eval hs (.inl exposed)) fun v t _ ht hv => ?_
      refine .bind (.gets ht) fun found u hl hu hf => ?_
      have filling := hf.trans hu.inits
      split
      · rename_i init _
        have open_ : ¬S.hidden init.array.id := exposed init (by rw [← filling]; rfl)
        exact .bind (hu.onWorld (hu.world.setElement open_ _ (hv.later hl))) fun _ _ _ hx _ =>
          ih (position + 1) hx
      · exact .bind (Q := fun _ _ => True) (.fail hu) fun _ _ _ hx _ => ih (position + 1) hx

theorem fillArray (exposed : S.Exposed inits) {items : List Node} (hs : s.Discreet S inits) :
    Obeys (S.machine inits) (c.fillArray items) s fun s => S.Allows s.world := by
  refine .bind (.gets hs) fun found t _ ht hf => ?_
  split
  · exact .fail ht
  · exact .bind (h.fillItems exposed 0 ht) fun _ _ _ hu _ =>
      .pure hu (Secrecy.allows_of_arrays rfl)

/-! ## Statements -/

theorem execStatements (hs : s.Discreet S inits) {statements : List Node}
    (hx : ∀ x ∈ statements, S.Permits inits x) :
    Obeys (S.machine inits) (c.execStatements statements) s fun _ _ => True := by
  induction statements generalizing s with
  | nil => exact .pure hs trivial
  | cons x xs ih =>
    refine .bind (h.exec hs (hx x (by simp))) fun _ t _ ht _ => ?_
    refine .bind (.gets ht) fun interrupted u _ hu _ => .ite (fun _ => .pure hu trivial) fun _ => ?_
    exact ih hu fun y hy => hx y (by simp [hy])

theorem runBlock (hs : s.Discreet S inits) {statements : List Node}
    (hx : ∀ x ∈ statements, S.Permits inits x) :
    Obeys (S.machine inits) (c.runBlock statements) s fun s => S.Allows s.world :=
  hs.withScope fun _ ht => .bind (h.execStatements ht hx) fun _ _ _ hu _ =>
    .pure hu (Secrecy.allows_of_arrays rfl)

theorem declareVariable (hs : s.Discreet S inits) (name : String) {initializer : Option Node}
    (hi : ∀ x ∈ initializer.toList, S.Permits inits x) :
    Obeys (S.machine inits) (c.declareVariable name initializer) s fun s => S.Allows s.world := by
  have void {t : Machine σ} : S.Allows t.world .void := Secrecy.allows_of_arrays rfl
  cases initializer with
  | some x =>
    refine .bind (h.eval hs (hi x (by simp))) fun v _ _ ht hv => ?_
    exact .bind (ht.defineLocal name hv) fun _ _ _ hu _ => .pure hu void
  | none => exact .bind (hs.declareLocal name) fun _ _ _ ht _ => .pure ht void

theorem choose (hs : s.Discreet S inits) {condition whenTrue : Node} {whenFalse : Option Node}
    (hc : S.Permits inits condition) (ht : S.Permits inits whenTrue)
    (hf : ∀ x ∈ whenFalse.toList, S.Permits inits x) :
    Obeys (S.machine inits) (c.choose condition whenTrue whenFalse) s fun s => S.Allows s.world := by
  refine .bind (h.test hs hc) fun holds t _ hd _ => .ite (fun _ => ?_) fun _ => ?_
  · exact hd.withScope fun _ hu => h.eval hu ht
  · cases whenFalse with
    | some x => exact hd.withScope fun _ hu => h.eval hu (hf x (by simp))
    | none => exact .pure hd (Secrecy.allows_of_arrays rfl)

theorem execBody (hs : s.Discreet S inits) {body : Node} (hb : S.Permits inits body) :
    Obeys (S.machine inits) (c.execBody body) s fun _ _ => True :=
  .bind (h.exec hs hb) fun _ _ _ ht _ => .bind ht.loopExit fun _ _ _ hu _ => .pure hu trivial

theorem guardedRound (hs : s.Discreet S inits) {condition body : Node}
    (hc : S.Permits inits condition) (hb : S.Permits inits body) :
    Obeys (S.machine inits) (c.guardedRound condition body) s fun _ _ => True :=
  .bind (h.test hs hc) fun _ _ _ ht _ => .ite (fun _ => h.execBody ht hb) fun _ => .pure ht trivial

theorem runWhile (hs : s.Discreet S inits) {condition body : Node} (testFirst : Bool)
    (hc : S.Permits inits condition) (hb : S.Permits inits body) :
    Obeys (S.machine inits) (c.runWhile condition body testFirst) s fun s => S.Allows s.world := by
  refine hs.withScope fun {t} _ ht => ?_
  have rounds {t : Machine σ} (ht : t.Discreet S inits) : Obeys (S.machine inits)
      (Run.repeatWhile (c.guardedRound condition body) c.fuel) t fun _ _ => True :=
    .repeatWhile _ (fun _ _ hu => h.guardedRound hu hc hb) ht
  have void {t : Machine σ} : S.Allows t.world .void := Secrecy.allows_of_arrays rfl
  split
  · exact .bind (rounds ht) fun _ _ _ hu _ => .pure hu void
  · refine .bind (h.execBody ht hb) fun goes u _ hu _ => ?_
    split
    · exact .bind (rounds hu) fun _ _ _ hv _ => .pure hv void
    · exact .pure hu void

theorem steppedRound (hs : s.Discreet S inits) {condition : Option Node} {after : List Node}
    {body : Node} (hc : ∀ x ∈ condition.toList, S.Permits inits x)
    (ha : ∀ x ∈ after, S.Permits inits x) (hb : S.Permits inits body) :
    Obeys (S.machine inits) (c.steppedRound condition after body) s fun _ _ => True := by
  have rest {t : Machine σ} (ht : t.Discreet S inits) (goes : Bool) :
      Obeys (S.machine inits) (if goes then do
          if ← c.execBody body then
            Run.forList c.exec after
            return true
          else return false
        else return false) t fun _ _ => True :=
    .ite (fun _ => .bind (h.execBody ht hb) fun _ _ _ hu _ => .ite (fun _ =>
      .bind (h.execEach hu ha) fun _ _ _ hv _ => .pure hv trivial) fun _ => .pure hu trivial)
      fun _ => .pure ht trivial
  cases condition with
  | some x => exact .bind (h.test hs (hc x (by simp))) fun goes _ _ ht _ => rest ht goes
  | none => exact rest hs true

theorem runFor (hs : s.Discreet S inits) {before : List Node} {condition : Option Node}
    {after : List Node} {body : Node} (hb : ∀ x ∈ before, S.Permits inits x)
    (hc : ∀ x ∈ condition.toList, S.Permits inits x) (ha : ∀ x ∈ after, S.Permits inits x)
    (hx : S.Permits inits body) :
    Obeys (S.machine inits) (c.runFor before condition after body) s fun s => S.Allows s.world :=
  hs.withScope fun _ ht => .bind (h.execEach ht hb) fun _ _ _ hu _ =>
    .bind (.repeatWhile _ (fun _ _ hv => h.steppedRound hv hc ha hx) hu) fun _ _ _ hv _ =>
      .pure hv (Secrecy.allows_of_arrays rfl)

theorem execItems (hs : s.Discreet S inits) (name : String) {body : Node}
    (hb : S.Permits inits body) {items : List Value} (hi : ∀ v ∈ items, S.Allows s.world v) :
    Obeys (S.machine inits) (c.execItems name body items) s fun _ _ => True := by
  induction items generalizing s with
  | nil => exact .pure hs trivial
  | cons item rest ih =>
    refine .bind (Q := fun _ _ => True) (hs.withScope (Q := fun _ _ => True) fun hl ht => ?_)
      fun goes t hl ht _ => .ite (fun _ => ?_) fun _ => .pure ht trivial
    · exact .bind (ht.defineLocal name ((hi item (by simp)).later hl)) fun _ _ _ hu _ =>
        h.execBody hu hb
    · exact ih ht fun v hv => (hi v (by simp [hv])).later hl

theorem runForEach (hs : s.Discreet S inits) (name : String) {collection body : Node}
    (hc : S.Permits inits collection) (hb : S.Permits inits body) :
    Obeys (S.machine inits) (c.runForEach name collection body) s fun s => S.Allows s.world := by
  refine .bind (h.eval hs hc) fun v t _ ht hv => .bind (.gets ht) fun read u hl hu hr => ?_
  refine .bind (.known hu) fun items x hl' hx hi => ?_
  have allowed : ∀ item ∈ items, S.Allows u.world item := by
    rw [hr] at hi
    have hv := hv.later hl
    intro item hm
    cases v with
    | array a => cases hi; exact hu.world.elements (Value.within_array.1 hv).2 item hm
    | text text =>
      cases hi
      obtain ⟨ch, -, rfl⟩ := List.mem_map.1 hm
      exact Secrecy.allows_of_arrays rfl
    | _ => cases hi
  exact .bind (h.execItems hx name hb (Secrecy.Allows.all_later allowed hl')) fun _ _ _ hy _ =>
    .pure hy (Secrecy.allows_of_arrays rfl)

theorem evalReturn (hs : s.Discreet S inits) {value : Option Node}
    (hv : ∀ x ∈ value.toList, S.Permits inits x) :
    Obeys (S.machine inits) (c.evalReturn value) s fun s => S.Allows s.world := by
  have leave {t : Machine σ} (ht : t.Discreet S inits) {v : Value} (hv : S.Allows t.world v) :
      Obeys (S.machine inits) (do
        Run.modifyActivation fun a => { a with pendingReturn := some v }
        return Value.void) t fun s => S.Allows s.world :=
    .bind (ht.modifyActivation ⟨ht.activation.receivers, ht.activation.conditionals,
      fun u hu => by cases hu; exact hv, ht.activation.prepared⟩ ht.inits) fun _ _ _ hu _ =>
        .pure hu (Secrecy.allows_of_arrays rfl)
  cases value with
  | some x => exact .bind (h.eval hs (hv x (by simp))) fun v _ _ ht hv => leave ht hv
  | none => exact leave hs (Secrecy.allows_of_arrays rfl)

/-! ## Places -/

theorem memberPlace (hs : s.Discreet S inits) {use : MemberUse} {receiver : Option Node}
    {index : List Node} (isVirtual : Bool) (hr : ∀ x ∈ receiver.toList, S.Permits inits x)
    (hi : ∀ x ∈ index, S.Permits inits x) :
    Obeys (S.machine inits) (c.memberPlace use receiver index isVirtual) s
      fun s p => p.Within (S.visible s.world) :=
  h.onMember hs hr hi fun _ _ _ _ ht hr hi => .pure ht (.member hr hi)

theorem leafPlace (hs : s.Discreet S inits) (span : Span) {op : Op}
    (hx : S.Permits inits (.mk span op)) :
    Obeys (S.machine inits) (c.leafPlace span op) s fun s p => p.Within (S.visible s.world) := by
  cases op
  case localRef name | parameterRef name => exact .pure hs (.named name)
  case declarationTarget name => exact .bind (hs.declareLocal name) fun _ _ _ ht _ => .pure ht (.named name)
  case discard => exact .pure hs .discard
  case fieldRef field receiver =>
    exact h.memberPlace hs false (fun x hm => hx.operand rfl x hm) (by simp)
  case propertyRef property receiver index isVirtual =>
    exact h.memberPlace hs isVirtual (fun x hm => hx.operand rfl x (by simp [Op.operands, hm]))
      (fun x hm => hx.operand rfl x (by simp [Op.operands, hm]))
  case arrayElement array index =>
    refine .bind (h.elementTarget hs (hx.operand rfl _ (by simp [Op.operands]))
      fun x hm => hx.operand rfl x (by simp [Op.operands, hm])) fun found _ _ ht hf => ?_
    exact .pure ht (.element hf)
  all_goals exact .orSpan span (.fail hs)

omit h

mutual

theorem place (h : c.Discreet S) : ∀ {s : Machine σ} (x : Node), s.Discreet S inits →
    S.Permits inits x → Obeys (S.machine inits) (c.place x) s fun s p => p.Within (S.visible s.world)
  | s, .mk span op, hs, hx => by
    cases op
    case tuple targets =>
      exact .bind (h.places targets hs fun x hm => hx.operand rfl x hm) fun ps _ _ ht hp =>
        .pure ht (.tuple hp)
    all_goals exact h.leafPlace hs span hx

theorem places (h : c.Discreet S) : ∀ {s : Machine σ} (xs : List Node), s.Discreet S inits →
    (∀ x ∈ xs, S.Permits inits x) →
    Obeys (S.machine inits) (c.places xs) s fun s ps => ∀ p ∈ ps, p.Within (S.visible s.world)
  | _, [], hs, _ => .pure hs nofun
  | _, x :: xs, hs, hx =>
    .bind (h.place x hs (hx x (by simp))) fun _ _ _ ht hp =>
      .bind (h.places xs ht fun y hy => hx y (by simp [hy])) fun _ _ hl hu hps =>
        .pure hu (List.forall_mem_cons.2 ⟨hp.later hl, hps⟩)

end

include h

theorem load (hs : s.Discreet S inits) {p : Place} (hp : p.Within (S.visible s.world)) :
    Obeys (S.machine inits) (c.load p) s fun s => S.Allows s.world := by
  cases hp with
  | named name => exact .reads hs fun v hv => hs.world.readName hv
  | member hr hi => exact hs.onWorld (h.getMember hs.world _ hr hi _)
  | element ha => exact .reads hs fun v hv => hs.world.getElement ha.2 hv
  | discard | tuple => exact .fail hs

omit h

mutual

theorem store (h : c.Discreet S) : ∀ {s : Machine σ} (p : Place) (v : Value), s.Discreet S inits →
    p.Within (S.visible s.world) → S.Allows s.world v →
    Obeys (S.machine inits) (c.store p v) s fun _ _ => True
  | s, .named name, v, hs, _, hv =>
    .bind (.gets hs) fun frame _ hl ht _ => ht.onWorld (ht.world.assign frame name (hv.later hl))
  | s, .member m receiver index isVirtual, v, hs, hp, hv => by
    cases hp with
    | member hr hi => exact hs.onWorld (h.setMember hs.world m hr hi hv isVirtual)
  | s, .element a is, v, hs, hp, hv => by
    cases hp with
    | element ha => exact hs.onWorld (hs.world.setElement ha.2 is hv)
  | s, .discard, _, hs, _, _ => .pure hs trivial
  | s, .tuple targets, v, hs, hp, hv => by
    cases hp with
    | tuple hp =>
      cases v
      case tuple values =>
        exact .ite (fun _ => h.storeAll targets values hs hp (Value.within_tuple.1 hv)) fun _ => .fail hs
      all_goals exact .fail hs

theorem storeAll (h : c.Discreet S) : ∀ {s : Machine σ} (ps : List Place) (vs : List Value),
    s.Discreet S inits → (∀ p ∈ ps, p.Within (S.visible s.world)) → (∀ v ∈ vs, S.Allows s.world v) →
    Obeys (S.machine inits) (c.storeAll ps vs) s fun _ _ => True
  | s, p :: ps, v :: vs, hs, hp, hv =>
    .bind (h.store p v hs (hp p (by simp)) (hv v (by simp))) fun _ _ hl ht _ =>
      h.storeAll ps vs ht (fun q hq => (hp q (by simp [hq])).later hl)
        fun u hu => (hv u (by simp [hu])).later hl
  | s, [], _, hs, _, _ => .pure hs trivial
  | s, _ :: _, [], hs, _, _ => .pure hs trivial

end

include h

theorem assign (hs : s.Discreet S inits) {target value : Node} (ht : S.Permits inits target)
    (hv : S.Permits inits value) :
    Obeys (S.machine inits) (c.assign target value) s fun s => S.Allows s.world := by
  refine .bind (h.place target hs ht) fun p t _ hd hp => .bind (h.eval hd hv) fun v u hl hu hv => ?_
  exact .bind (h.store p v hu (hp.later hl) hv) fun _ _ hl hx _ => .pure hx (hv.later hl)

theorem compoundAssign (hs : s.Discreet S inits) (op : BinaryOp) {target value : Node}
    (operator : Option MemberUse) (ht : S.Permits inits target) (hv : S.Permits inits value) :
    Obeys (S.machine inits) (c.compoundAssign op target value operator) s
      fun s => S.Allows s.world := by
  refine .bind (h.place target hs ht) fun p t _ hd hp => ?_
  refine .bind (h.load hd hp) fun current u hl hu hc => ?_
  refine .bind (h.eval hu hv) fun rhs x hl' hx hr => ?_
  refine .bind (h.applyBinary hx op operator (hc.later hl') hr) fun result y hl'' hy hv => ?_
  refine .bind (h.store p result hy (hp.later (S.world.trans hl (S.world.trans hl' hl''))) hv) ?_
  exact fun _ _ hl hz _ => .pure hz (hv.later hl)

theorem increment (hs : s.Discreet S inits) {target : Node} (decrement postfixed : Bool)
    (operator : Option MemberUse) (ht : S.Permits inits target) :
    Obeys (S.machine inits) (c.increment target decrement postfixed operator) s
      fun s => S.Allows s.world := by
  refine .bind (h.place target hs ht) fun p t _ hd hp => .bind (h.load hd hp) fun old u hl hu ho => ?_
  have rest {new : Value} {x : Machine σ} (hl' : S.world.le u.world x.world) (hx : x.Discreet S inits)
      (hn : S.Allows x.world new) : Obeys (S.machine inits) (do
        c.store p new
        return if postfixed then old else new) x fun s => S.Allows s.world := by
    refine .bind (h.store p new hx (hp.later (S.world.trans hl hl')) hn) fun _ y hl'' hy _ => .pure hy ?_
    split
    · exact ho.later (S.world.trans hl' hl'')
    · exact hn.later hl''
  cases operator with
  | some use =>
    exact .bind (h.callOperator hu use (List.forall_mem_singleton.2 ho)) fun _ _ hl' hx hn =>
      rest hl' hx hn
  | none =>
    exact .bind (.ofExcept (Q := fun s => S.Allows s.world) hu fun _ hv =>
      Secrecy.allows_of_arrays (Value.arrays_step hv)) fun _ _ hl' hx hn => rest hl' hx hn

/-! ## Operations -/

theorem evalBinary (hs : s.Discreet S inits) (op : BinaryOp) {left right : Node}
    (operator : Option MemberUse) (hl : S.Permits inits left) (hr : S.Permits inits right) :
    Obeys (S.machine inits) (c.evalBinary op left right operator) s fun s => S.Allows s.world := by
  refine .bind (h.eval hs hl) fun l t _ ht hl => ?_
  split
  · refine .ite (fun _ => .pure ht (Secrecy.allows_of_arrays rfl)) fun _ => ?_
    exact .bind (h.test ht hr) fun _ _ _ hu _ => .pure hu (Secrecy.allows_of_arrays rfl)
  · exact .bind (h.eval ht hr) fun r _ hle hu hr => h.applyBinary hu op operator (hl.later hle) hr

theorem evalUnary (hs : s.Discreet S inits) (op : UnaryOp) {operand : Node}
    (operator : Option MemberUse) (ho : S.Permits inits operand) :
    Obeys (S.machine inits) (c.evalUnary op operand operator) s fun s => S.Allows s.world := by
  refine .bind (h.eval hs ho) fun v _ _ ht hv => ?_
  cases operator with
  | some use => exact h.callOperator ht use (List.forall_mem_singleton.2 hv)
  | none => exact .ofExcept ht fun _ hr => Secrecy.allows_of_arrays (UnaryOp.arrays_apply hr)

theorem evalConversion (hs : s.Discreet S inits) {operand : Node} (target : TypeRef)
    (kind : ConversionKind) (operator : Option MemberUse) (ho : S.Permits inits operand) :
    Obeys (S.machine inits) (c.evalConversion operand target kind operator) s
      fun s => S.Allows s.world := by
  refine .bind (h.eval hs ho) fun v _ _ ht hv => ?_
  cases operator with
  | some use => exact h.callOperator ht use (List.forall_mem_singleton.2 hv)
  | none =>
    refine .bind (ht.closeType target) fun type _ hl hu _ => .ofStop hu fun r hr => ?_
    exact Host.convert_within (hv.later hl) hr

theorem evalIsType (hs : s.Discreet S inits) {operand : Node} (target : TypeRef) (negated : Bool)
    (ho : S.Permits inits operand) :
    Obeys (S.machine inits) (c.evalIsType operand target negated) s fun s => S.Allows s.world := by
  refine .bind (h.eval hs ho) fun v _ _ ht _ => .bind (ht.closeType target) fun type _ _ hu _ => ?_
  refine .ite (fun _ => .pure hu (Secrecy.allows_of_arrays rfl)) fun _ => ?_
  exact .bind (.ofStop (Q := fun _ _ => True) hu fun _ _ => trivial) fun _ _ _ hx _ =>
    .pure hx (Secrecy.allows_of_arrays rfl)

theorem evalCoalesce (hs : s.Discreet S inits) {value whenNull : Node} (hv : S.Permits inits value)
    (hn : S.Permits inits whenNull) :
    Obeys (S.machine inits) (c.evalCoalesce value whenNull) s fun s => S.Allows s.world :=
  .bind (h.eval hs hv) fun _ _ _ ht hv => .ite (fun _ => h.eval ht hn) fun _ => .pure ht hv

theorem evalConditionalAccess (hs : s.Discreet S inits) {receiver whenNotNull : Node}
    (hr : S.Permits inits receiver) (hn : S.Permits inits whenNotNull) :
    Obeys (S.machine inits) (c.evalConditionalAccess receiver whenNotNull) s
      fun s => S.Allows s.world := by
  refine .bind (h.eval hs hr) fun v t _ ht hv => ?_
  refine .ite (fun _ => .pure ht (Secrecy.allows_of_arrays rfl)) fun _ => ?_
  exact ht.during ⟨ht.activation.receivers, List.forall_mem_cons.2 ⟨hv, ht.activation.conditionals⟩,
      ht.activation.pendingReturn, ht.activation.prepared⟩ rfl
    (fun ha => ⟨ha.receivers, fun v hv => ha.conditionals v (List.mem_of_mem_tail hv),
      ha.pendingReturn, ha.prepared⟩) (fun _ => rfl) fun _ hu => h.eval hu hn

theorem evalInterpolation (hs : s.Discreet S inits) {value : Node} {alignment : Option Node}
    (format : Option String) (hv : S.Permits inits value)
    (ha : ∀ x ∈ alignment.toList, S.Permits inits x) :
    Obeys (S.machine inits) (c.evalInterpolation value alignment format) s
      fun s => S.Allows s.world := by
  refine .bind (h.eval hs hv) fun v t _ ht _ => ?_
  have text {t : Machine σ} (ht : t.Discreet S inits) (width : Option Int) :
      Obeys (S.machine inits) (do
        let text ← Run.ofExcept (v.format format width)
        return Value.text text) t fun s => S.Allows s.world :=
    .bind (.known ht) fun _ _ _ hu _ => .pure hu (Secrecy.allows_of_arrays rfl)
  cases alignment with
  | some x =>
    refine .bind (h.eval ht (ha x (by simp))) fun w _ _ hu _ => ?_
    exact .bind (.known hu) fun n _ _ hx _ => text hx (some n)
  | none => exact text ht none

theorem evalOp (hs : s.Discreet S inits) {span : Span} {op : Op} (hx : S.Permits inits (.mk span op)) :
    Obeys (S.machine inits) (c.evalOp op) s fun s => S.Allows s.world := by
  have plain {t : Machine σ} {v : Value} (ht : t.Discreet S inits) (hv : v.arrays = []) :
      Obeys (S.machine inits) (pure v) t fun s => S.Allows s.world :=
    .pure ht (Secrecy.allows_of_arrays hv)
  have below (hop : op.isArrayCreation = false) {y : Node} (hy : y ∈ op.operands) :
      S.Permits inits y := hx.operand hop y hy
  cases op with
  | literal value => exact plain hs (by cases value <;> rfl)
  | interpolatedText | empty => exact plain hs rfl
  | defaultValue type =>
    exact .bind (hs.closeType type) fun closed _ _ ht _ => plain ht closed.arrays_defaultValue
  | typeOf type => exact .bind (hs.closeType type) fun closed _ _ ht _ => plain ht rfl
  | localRef name | parameterRef name => exact h.load hs (.named name)
  | this => exact .bind hs.currentInstance fun o _ _ ht _ => plain ht rfl
  | implicitReceiver => exact hs.innermost _ hs.activation.receivers
  | conditionalInstance => exact hs.innermost _ hs.activation.conditionals
  | fieldRef field receiver => exact h.readMember hs false (fun x hm => below rfl hm) (by simp)
  | propertyRef property receiver index isVirtual =>
    exact h.readMember hs isVirtual (fun x hm => below rfl (by simp [Op.operands, hm]))
      fun x hm => below rfl (by simp [Op.operands, hm])
  | arrayElement array indices =>
    exact h.readElement hs (below rfl (by simp [Op.operands]))
      fun x hm => below rfl (by simp [Op.operands, hm])
  | binary op left right operator =>
    exact h.evalBinary hs op operator (below rfl (by simp [Op.operands]))
      (below rfl (by simp [Op.operands]))
  | unary op operand operator => exact h.evalUnary hs op operator (below rfl (by simp [Op.operands]))
  | conversion operand target kind operator =>
    exact h.evalConversion hs target kind operator (below rfl (by simp [Op.operands]))
  | coalesce value whenNull =>
    exact h.evalCoalesce hs (below rfl (by simp [Op.operands])) (below rfl (by simp [Op.operands]))
  | conditionalAccess receiver whenNotNull =>
    exact h.evalConditionalAccess hs (below rfl (by simp [Op.operands]))
      (below rfl (by simp [Op.operands]))
  | isType operand target negated =>
    exact h.evalIsType hs target negated (below rfl (by simp [Op.operands]))
  | assign target value | deconstruct target value =>
    exact h.assign hs (below rfl (by simp [Op.operands])) (below rfl (by simp [Op.operands]))
  | compoundAssign op target value operator =>
    exact h.compoundAssign hs op operator (below rfl (by simp [Op.operands]))
      (below rfl (by simp [Op.operands]))
  | increment target decrement postfixed operator =>
    exact h.increment hs decrement postfixed operator (below rfl (by simp [Op.operands]))
  | invocation method receiver args isVirtual =>
    exact h.invoke hs isVirtual (fun x hm => below rfl (by simp [Op.operands, hm]))
      fun x hm => below rfl (by simp [Op.operands, hm])
  | constructorInitializer constructor args =>
    exact h.runConstructorInitializer hs fun x hm => below rfl hm
  | objectCreation constructor args initializer =>
    exact h.createObject hs (fun x hm => below rfl (by simp [Op.operands, hm]))
      fun x hm => below rfl (by simp [Op.operands, hm])
  | anonymousCreation type initializers => exact h.createAnonymous hs fun x hm => below rfl hm
  | objectInitializer items =>
    exact .bind (h.nodes hs fun x hm => below rfl hm) fun _ _ _ ht _ => plain ht rfl
  | arrayCreation element rank dimensions initializer =>
    exact h.createArray hs rank hx.dimension
  | arrayInitializer items => exact h.fillArray hx.exposed hs
  | tuple elements =>
    exact .bind (h.nodes hs fun x hm => below rfl hm) fun vs _ _ ht hv =>
      .pure ht (Value.within_tuple.2 hv)
  | interpolatedString parts =>
    exact .bind (h.nodes hs fun x hm => below rfl hm) fun _ _ _ ht _ => plain ht rfl
  | interpolation value alignment format =>
    exact h.evalInterpolation hs format (below rfl (by simp [Op.operands]))
      fun x hm => below rfl (by simp [Op.operands, hm])
  | block statements => exact h.runBlock hs fun x hm => below rfl hm
  | expressionStatement expression =>
    exact .bind (h.exec hs (below rfl (by simp [Op.operands]))) fun _ _ _ ht _ => plain ht rfl
  | variableDeclaration name initializer => exact h.declareVariable hs name fun x hm => below rfl hm
  | conditional condition whenTrue whenFalse =>
    exact h.choose hs (below rfl (by simp [Op.operands])) (below rfl (by simp [Op.operands]))
      fun x hm => below rfl (by simp [Op.operands, hm])
  | whileLoop condition body testFirst =>
    exact h.runWhile hs testFirst (below rfl (by simp [Op.operands]))
      (below rfl (by simp [Op.operands]))
  | forLoop before condition after body =>
    exact h.runFor hs (fun x hm => below rfl (by simp [Op.operands, hm]))
      (fun x hm => below rfl (by simp [Op.operands, hm]))
      (fun x hm => below rfl (by simp [Op.operands, hm])) (below rfl (by simp [Op.operands]))
  | forEachLoop name collection body =>
    exact h.runForEach hs name (below rfl (by simp [Op.operands]))
      (below rfl (by simp [Op.operands]))
  | branch kind =>
    exact .bind (hs.modifyActivation ⟨hs.activation.receivers, hs.activation.conditionals,
      hs.activation.pendingReturn, hs.activation.prepared⟩ hs.inits) fun _ _ _ ht _ => plain ht rfl
  | returnWith value => exact h.evalReturn hs fun x hm => below rfl hm
  | declarationTarget | discard | throwWith | await | lambda | switch => exact .fail hs

theorem evalNode (hs : s.Discreet S inits) {x : Node} (hx : S.Permits inits x) :
    Obeys (S.machine inits) (c.evalNode x) s fun s => S.Allows s.world := by
  obtain ⟨span, op⟩ := x
  exact .orSpan span (h.evalOp hs hx)

end Context.Discreet

/-! ## Evaluation -/

/-- Whatever a session of a discreet host runs keeps secrets. -/
theorem Context.within_discreet {σ : Type} {S : Secrecy σ} {host : Host σ}
    (discreet : host.Discreet S.holds) (n : Nat) (session : SessionId) :
    (Context.within host n session).Discreet S := by
  induction n generalizing session with
  | zero => exact ⟨discreet, fun hs _ => .exhausted hs, fun hw _ => .exhausted hw⟩
  | succ n ih =>
    refine ⟨discreet, fun hs hx => (ih session).evalNode hs hx, fun {o m typeArgs args w} hw ha => ?_⟩
    change Obeys S.world (dispatchWithin host (n + 1) o m typeArgs args) w S.Allows
    cases linked : w.link? o with
    | none =>
      exact .stopped (by simp only [dispatchWithin, linked]; rfl) hw (S.world.refl w)
    | some link =>
      obtain ⟨cell, found, held⟩ := Option.bind_eq_some_iff.1 linked
      have honest := (hw.objects found).link held
      cases link with
      | foreign serve =>
        have served : dispatchWithin host (n + 1) o m typeArgs args w =
            (serve o m typeArgs args).run (dispatchWithin host n) w := by
          simp only [dispatchWithin, linked]
        exact (World.Discreet.hostAction (ih session).dispatch _ hw (honest o m typeArgs args ha)).from
          served (S.world.refl w)
      | session s frame table =>
        by_cases opened : (w.session s).isOpen = true
        · have served : dispatchWithin host (n + 1) o m typeArgs args w =
              (Context.within host n s).serve table o m typeArgs args w := by
            simp only [dispatchWithin, linked, opened, if_true]
            rfl
          exact ((ih s).serve hw table o m typeArgs ha).from served (S.world.refl w)
        · exact .stopped (by simp only [dispatchWithin, linked, opened]; rfl) hw (S.world.refl w)

/-- However an evaluation ends, the secrets before it are secrets after it, and are as they were. -/
theorem evalWithin_discreet {σ : Type} {S : Secrecy σ} {host : Host σ}
    (discreet : host.Discreet S.holds) (n : Nat) (session : SessionId) {inits : List ArrayInit}
    {x : Node} (hx : S.Permits inits x) {s : Machine σ} (hs : s.Discreet S inits) :
    Obeys (S.machine inits) (evalWithin host n session x) s fun s => S.Allows s.world :=
  (Context.within_discreet discreet n session).eval hs hx

end OpTree
