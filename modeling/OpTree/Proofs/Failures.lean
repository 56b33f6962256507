/-
Nothing swallows a failure of the host. Once a call to the host has failed, nothing more
is asked of the host, and the request ends with the host's error, to which at most a span
was added where it had none. The host has its part in this: what it runs when it is called
may call back, and it has to hand on the errors that it gets for that (`Host.Relays`).

What is known of a world while a run goes on is that nothing has been noted since the run
began; what is known once the run has stopped is that all that was noted since is the error
at hand. These are `Terms.ties` and `Terms.stops` of `relayingTerms`. That no operation goes
on after an error is then what `Request.agrees` says, and the steps on worlds have to be
shown to note nothing by themselves (`World.Quiet`).
-/
import OpTree.Proofs.Requests
import OpTree.Proofs.Sparing
import OpTree.Scripted

namespace OpTree

/-! ## Errors on their way -/

/-- The error says what the other does, and may have got the span that the other lacks. -/
structure EvalError.Reports (e e' : EvalError) : Prop where
  cause : e.cause = e'.cause
  notes : e.notes = e'.notes
  span : ∀ {span}, e'.span = some span → e.span = some span

namespace EvalError.Reports

variable {e e' : EvalError}

theorem refl (e : EvalError) : e.Reports e := ⟨rfl, rfl, id⟩

theorem orSpan (h : e.Reports e') (span : Span) : (e.orSpan span).Reports e' where
  cause := h.cause
  notes := h.notes
  span hs := by simp only [EvalError.orSpan, h.span hs, Option.some_or]

end EvalError.Reports

/-- Since `noted` was all, nothing failed but with the error that a run now stops with, and
nothing was asked of the host afterwards. -/
def World.Reports {σ : Type} (w : World σ) (noted : List HostFailure) (stop : Stop) : Prop :=
  ∃ failed, w.failures = failed ++ noted ∧ ∀ f ∈ failed, f.calls = w.trace.length ∧
    ∃ e, stop = .failed e ∧ e.Reports f.error

namespace World.Reports

variable {σ : Type} {w : World σ} {noted : List HostFailure}

theorem nothing (stop : Stop) (h : w.failures = noted) : w.Reports noted stop :=
  ⟨[], h, fun _ hf => absurd hf List.not_mem_nil⟩

theorem orSpan {e : EvalError} (h : w.Reports noted (.failed e)) (span : Span) :
    w.Reports noted (.failed (e.orSpan span)) := by
  obtain ⟨failed, noted, told⟩ := h
  refine ⟨failed, noted, fun f hf => ?_⟩
  obtain ⟨last, _, ⟨⟩, reports⟩ := told f hf
  exact ⟨last, _, rfl, reports.orSpan span⟩

theorem noteFailure {e : EvalError} (h : w.Reports noted (.failed e)) (call : HostCall) :
    (w.noteFailure call e).Reports noted (.failed e) := by
  obtain ⟨failed, noted, told⟩ := h
  refine ⟨_ :: failed, congrArg _ noted, fun f hf => ?_⟩
  rcases List.mem_cons.1 hf with rfl | hf
  · exact ⟨rfl, e, rfl, .refl e⟩
  · exact told f hf

end World.Reports

/-! ## Hosts that relay errors -/

/-- Whatever the host runs when it is called, errors are relayed there. -/
structure Host.Relays {σ : Type} (host : Host σ) : Prop where
  handle : ∀ {m handle}, host.handle m = .ok (some handle) → handle.Relays
  backing : ∀ {type backing} args, host.synthesize type = .ok backing → (backing args).Relays

theorem Host.handle_of_decide {σ : Type} {host : Host σ} {m : SymbolId} {handle : Handle σ}
    (h : host.decide m = .ok (.physical handle)) : host.handle m = .ok (some handle) := by
  simp only [Host.decide, bind, Except.bind, pure, Except.pure] at h
  cases hm : host.member m with
  | error e => simp [hm] at h
  | ok member =>
    cases hh : host.handle m with
    | error e => simp [hm, hh] at h
    | ok found =>
      simp only [hm, hh] at h
      cases found with
      | some found =>
        cases h
        rfl
      | none =>
        -- what is left to decide is which of the other ways it is
        dsimp only at h
        repeat' split at h
        all_goals cases h

theorem Host.Relays.decide {σ : Type} {host : Host σ} (h : host.Relays) {m : SymbolId}
    {t : Target σ} (hd : host.decide m = .ok t) : t.Relays := by
  cases t with
  | physical handle => exact h.handle (Host.handle_of_decide hd)
  | _ => trivial

/-- Whatever is reached by what was decided and bound, errors are relayed there. -/
structure World.Relays {σ : Type} (w : World σ) : Prop where
  targets : ∀ {s m t}, (w.session s).targets.get? m = some t → t.Relays
  links : ∀ {o l}, w.link? o = some l → l.Relays

theorem World.Relays.initial {σ : Type} (state : σ) : (World.initial state).Relays where
  targets h := by cases h
  links h := by simp [World.link?, World.initial] at h

/-! ## Steps that note nothing -/

/-- Nothing was noted, and whatever can be reached now relays errors, or could be reached
before. -/
structure World.Quiet {σ : Type} (w w' : World σ) : Prop where
  failures : w'.failures = w.failures
  targets : ∀ {s m t}, (w'.session s).targets.get? m = some t →
    (w.session s).targets.get? m = some t ∨ t.Relays
  links : ∀ {o l}, w'.link? o = some l → w.link? o = some l ∨ l.Relays

namespace World.Quiet

variable {σ : Type} {w w' : World σ}

theorem refl (w : World σ) : w.Quiet w := ⟨rfl, .inl, .inl⟩

theorem relays (h : w.Quiet w') (hw : w.Relays) : w'.Relays where
  targets ht := (h.targets ht).elim hw.targets id
  links hl := (h.links hl).elim hw.links id

theorem mapSession {s : SessionId} {f : SessionState σ → SessionState σ}
    (hf : ∀ {m t}, (f (w.session s)).targets.get? m = some t →
      (w.session s).targets.get? m = some t ∨ t.Relays) : w.Quiet (w.mapSession s f) where
  failures := rfl
  targets {s' m t} ht := by
    rw [session_mapSession] at ht
    split at ht
    · next hs =>
      subst hs
      exact hf ht
    · exact .inl ht
  links := .inl

theorem newObject (w : World σ) (type : ClosedType) : w.Quiet (w.newObject type).2 :=
  ⟨rfl, .inl, fun hl => .inl (link?_newObject type hl)⟩

theorem storeSlot (w : World σ) (o : ObjectRef) (field : SymbolId) (v : Value) :
    w.Quiet (w.storeSlot o field v) := by
  refine ⟨rfl, .inl, fun {o' l} hl => .inl ?_⟩
  rcases link?_modify hl with hl | ⟨cell, hc, hl⟩
  · exact hl
  · simp only [link?, hc, Option.bind_some]
    exact hl

theorem bind (w : World σ) (o : ObjectRef) (s : SessionId) (f : FrameId) (table : MemberTable) :
    w.Quiet (World.bind o (.session s f table) w).2 := by
  unfold World.bind
  split
  · exact .refl w
  · refine ⟨rfl, .inl, fun {o' l} hl => ?_⟩
    rcases link?_modify hl with hl | ⟨cell, -, hl⟩
    · exact .inl hl
    · cases hl
      exact .inr trivial

theorem classFrame (w : World σ) (s : SessionId) (type : ClosedType) :
    w.Quiet (World.classFrame s type w).2 := by
  simp only [World.classFrame, Run.modifyGet]
  cases (w.session s).classFrames.get? type with
  | some f => exact .refl w
  | none =>
    obtain ⟨noted, targets, links⟩ := mapSession (w := { w with frames := (w.frames.addClass type).2 })
      (s := s) (f := fun state =>
        { state with classFrames := state.classFrames.insert type (w.frames.addClass type).1 }) .inl
    exact ⟨noted, targets, links⟩

theorem childFrame (w : World σ) (f : FrameId) (kind : FrameKind) :
    w.Quiet (World.childFrame f kind w).2 :=
  ⟨rfl, .inl, .inl⟩

theorem register (w : World σ) (s : SessionId) (entry : RegistryEntry) :
    w.Quiet (World.register s entry w).2 :=
  mapSession (f := fun state =>
    { state with registry := ((w.session s).registry.register entry).2 }) .inl

theorem changeFrames (w : World σ) (name : String)
    (change : FrameStore → Except FrameError FrameStore) :
    w.Quiet (World.changeFrames name change w).2 := by
  unfold World.changeFrames
  split
  · exact ⟨rfl, .inl, .inl⟩
  · exact .refl w

theorem setElement (w : World σ) (a : ArrayRef) (indices : List Int) (v : Value) :
    w.Quiet (World.setElement a indices v w).2 := by
  unfold World.setElement
  split
  · split
    · exact ⟨rfl, .inl, .inl⟩
    · exact .refl w
  · exact .refl w

theorem target {c : Context σ} (relays : c.host.Relays) (w : World σ) (m : SymbolId) :
    w.Quiet (c.target m w).2 := by
  cases hm : (w.session c.session).targets.get? m with
  | some t =>
    rw [c.target_of_cached hm]
    exact .refl w
  | none =>
    cases hd : c.host.decide m with
    | error e =>
      rw [c.target_of_error hm hd]
      exact .refl w
    | ok t =>
      rw [c.target_of_decided hm hd]
      refine mapSession (f := fun state => { state with targets := state.targets.insert m t })
        fun {m' t'} ht => ?_
      by_cases same : m = m'
      · subst same
        rw [Table.get?_insert_self] at ht
        cases ht
        exact .inr (relays.decide hd)
      · rw [Table.get?_insert_other _ same] at ht
        exact .inl ht

end World.Quiet

/-! ## Runs -/

/-- A run held against itself: while it goes on nothing is noted, and when it has stopped,
all that was noted is why. -/
def relayingTerms (σ : Type) : Terms (World σ) where
  Bond := List HostFailure
  ties noted w w' := w = w' ∧ w.Relays ∧ w.failures = noted
  stops noted stop w w' := w = w' ∧ w.Relays ∧ w.Reports noted stop
  le := Eq
  lax := False
  lax' := False
  refl _ := rfl
  trans := Eq.trans
  stop stop h := ⟨h.1, h.2.1, .nothing stop h.2.2⟩
  spanned span h := ⟨h.1, h.2.1, h.2.2.orSpan span⟩

namespace World.Quiet

variable {σ α : Type}

theorem agrees {m : Run (World σ) α} (h : ∀ w, Quiet w (m w).2) :
    Run.Agrees (relayingTerms σ) m m := by
  refine .of_ends ?_
  rintro noted w _ ⟨rfl, relays, rfl⟩
  have hq := h w
  generalize m w = x at hq
  obtain ⟨r, t⟩ := x
  exact .stay ⟨rfl, hq.relays relays, hq.failures⟩

theorem tied {noted : List HostFailure} (change : World σ → World σ) {w w' : World σ}
    (hw : (relayingTerms σ).ties noted w w') (h : w.Quiet (change w)) :
    ∃ noted', (relayingTerms σ).le noted noted' ∧
      (relayingTerms σ).ties noted' (change w) (change w') :=
  ⟨noted, rfl, congrArg change hw.1, h.relays hw.2.1, h.failures.trans hw.2.2⟩

end World.Quiet

theorem World.Relays.target {σ : Type} {w u : World σ} (h : w.Relays) {c : Context σ}
    (relays : c.host.Relays) {m : SymbolId} {t : Target σ} (found : c.target m w = (.ok t, u)) :
    t.Relays := by
  cases hm : (w.session c.session).targets.get? m with
  | some t' =>
    rw [c.target_of_cached hm] at found
    cases found
    exact h.targets hm
  | none =>
    cases hd : c.host.decide m with
    | error e =>
      rw [c.target_of_error hm hd] at found
      cases found
    | ok t' =>
      rw [c.target_of_decided hm hd] at found
      cases found
      exact relays.decide hd

/-- The failure of a call is noted with the error that the run stops with. -/
theorem World.noteFailure_relaying {σ : Type} {noted : List HostFailure} {w w' : World σ}
    (call : HostCall) (e : EvalError) (h : (relayingTerms σ).stops noted (.failed e) w w') :
    ∃ noted', (relayingTerms σ).le noted noted' ∧ (relayingTerms σ).stops noted' (.failed e)
      (w.noteFailure call e) (w'.noteFailure call e) := by
  obtain ⟨rfl, hw, told⟩ := h
  exact ⟨noted, rfl, rfl, ⟨hw.targets, hw.links⟩, told.noteFailure call⟩

/-- After an error the host may see to its own state and make objects, and it relays the
error. -/
theorem relayingTerms.relays {σ : Type} {host : Host σ} (relays : host.Relays) :
    (relayingTerms σ).Relays host where
  same h := h.1
  write _ h := ⟨rfl, ⟨h.2.1.targets, h.2.1.links⟩, h.2.2⟩
  newObject {_ _ w} type h := ⟨rfl, (World.Quiet.newObject w type).relays h.2.1, h.2.2⟩
  backing := relays.backing
  target hc h found := h.2.1.target (hc ▸ relays) found
  link h found := h.2.1.links found

/-- Every step on worlds notes nothing, and the host relays the errors that it gets. -/
def World.relaying {σ : Type} {host : Host σ} (relays : host.Relays) : WorldTerms host where
  toTerms := relayingTerms σ
  sights _ f f' := f = f'
  frames _ f f' := f = f'
  roots _ f f' := f = f'
  holders _ _ f f' := f = f'
  seen h := h
  holds h := h
  laterSights _ h := h
  later _ h := h
  laterRoots _ h := h
  laterHolders _ h := h
  names h hf name := by rw [h.1, hf]
  arguments h hf := by rw [h.1, hf]
  instances h hf := by rw [h.1, hf]
  links h o := by
    rw [h.1]
    exact .refl (fun _ => rfl) _
  slots h _ _ := by rw [h.1]
  statics h _ _ := by rw [h.1]
  entries h _ _ := by rw [h.1]
  tables h _ _ := by rw [h.1]
  isOpen h _ := by rw [h.1]
  cells h _ := by rw [h.1]
  state h := by rw [h.1]
  classFrame b s type := Quiet.agrees (fun w => .classFrame w s type) b
  methodFrame m typeArgs hf := hf ▸ Quiet.agrees (fun w => .childFrame w _ (.ofMethod m typeArgs)) _
  instanceFrame o hf := Run.AgreesBy.imp
    (hf ▸ Quiet.agrees (fun w => .childFrame w _ (.ofInstance (some o))) _) fun _ _ _ made => ⟨made, made⟩
  scopeFrame hf := hf ▸ Quiet.agrees (fun w => .childFrame w _ .scope) _
  declare name hf := hf ▸ Quiet.agrees (fun w => .changeFrames w name _) _
  define name v hf := hf ▸ Quiet.agrees (fun w => .changeFrames w name _) _
  assign name v hf := hf ▸ Quiet.agrees (fun w => .changeFrames w name _) _
  target c m hc := Quiet.agrees fun w => .target (hc ▸ relays) w m
  register s entry := Quiet.agrees fun w => .register w s entry
  keepTable s type table h _ _ := Quiet.tied (·.keepTable s type table) h (.mapSession .inl)
  storeStatic s place v h := Quiet.tied (·.storeStatic s place v) h (.mapSession .inl)
  storeSlot {_ w _} o field v h := Quiet.tied (·.storeSlot o field v) h (.storeSlot w o field v)
  bindLink {_ _ _ f _} o s _ table h hf _ :=
    hf ▸ (Quiet.agrees fun w => .bind w o s f table).apply h
  newObject type := Quiet.agrees fun w => .newObject w type
  newArray element cell := Quiet.agrees fun _ => ⟨rfl, .inl, .inl⟩
  setElement a indices v := Quiet.agrees fun w => .setElement w a indices v
  record call h := Quiet.tied (·.record call) h ⟨rfl, .inl, .inl⟩
  write state h := Quiet.tied ({ · with host := state }) h ⟨rfl, .inl, .inl⟩
  noteFailure := noteFailure_relaying
  errors := .inr (relayingTerms.relays relays)

/-- Whatever is asked of a session, and whatever has happened before: when a call of the
host fails in the course of it, nothing is asked of the host afterwards, and the request
fails with the error of that call, where only a missing span may have been filled in. The
host may be called back in between, as long as it relays the errors that it gets. -/
theorem failures_reported {σ : Type} (s : Session σ) (relays : s.host.Relays) (w : World σ)
    (hw : w.Relays) (r : Request) :
    ∃ failed, (r.run s w).2.failures = failed ++ w.failures ∧
      ∀ f ∈ failed, f.calls = (r.run s w).2.trace.length ∧
        ∃ e, (r.run s w).1 = .error (.failed e) ∧ e.Reports f.error := by
  have self := Context.within_self (World.relaying relays) s.fuel s.id
  have start : (relayingTerms σ).ties w.failures w w := ⟨rfl, hw, rfl⟩
  have ends := (Request.agrees (W := World.relaying relays) (fun h => h.1) self r).apply start
  generalize r.run s w = x at ends ⊢
  cases x
  cases ends with
  | short hl => exact hl.elim
  | short' hl => exact hl.elim
  | ok hb ht hv =>
    cases hb
    exact ⟨[], ht.2.2, fun _ hf => absurd hf List.not_mem_nil⟩
  | error hb ht =>
    cases hb
    obtain ⟨failed, noted, told⟩ := ht.2.2
    refine ⟨failed, noted, fun f hf => ?_⟩
    obtain ⟨last, e, rfl, reports⟩ := told f hf
    exact ⟨last, e, rfl, reports⟩

/-! ## Scripted hosts -/

theorem Handle.Relays.ofInvoke {σ : Type} {invoke : PhysicalCall → HostAction σ Value}
    (h : ∀ call, (invoke call).Relays) : (Handle.ofInvoke invoke).Relays where
  invoke := h
  load _ := trivial
  store _ _ := trivial

namespace Scripted

theorem Script.relays (m : SymbolId) (script : Script) : (script.handle m).Relays := by
  cases script with
  | constant | receiver | fail => exact .ofInvoke fun _ => trivial
  | create | count => exact .ofInvoke fun _ _ => trivial
  | argument i =>
    refine .ofInvoke fun call => ?_
    split <;> exact trivial
  | cell start =>
    refine ⟨fun call => ?_, fun _ _ => trivial, fun _ _ _ => trivial⟩
    simp only [Script.handle]
    split <;> exact fun _ => trivial
  | dispatch member =>
    refine .ofInvoke fun call => ?_
    split
    · exact ⟨fun _ => rfl, fun _ => trivial⟩
    · exact trivial

theorem Program.relays (p : Program) : p.host.Relays where
  handle {m handle} h := by
    obtain ⟨member, -, found⟩ := Option.bind_eq_some_iff.1 (Except.ok.inj h)
    obtain ⟨script, -, rfl⟩ := Option.map_eq_some_iff.1 found
    exact script.relays m
  backing {type backing} args h := by
    simp only [Program.host] at h
    split at h
    · cases h
      exact fun _ => trivial
    · cases h
      intro state
      dsimp only
      split
      · exact trivial
      · exact fun _ => trivial
    · cases h
    · cases h
      exact trivial

end Scripted

/-- A constructor hands its object to the host, which calls a method of the object. The
method, in a loop without an end, calls the host again, and fails there. -/
def callingBack : Scripted.Program :=
  let call (m : Nat) (args : List Node) : Node :=
    .mk ⟨5, 6⟩ (.invocation ⟨⟨m⟩, .named ⟨1⟩ [], []⟩ none args false)
  let forever (body : Node) : Node :=
    .mk ⟨3, 7⟩ (.whileLoop (.mk .dummy (.literal (.bool true))) body true)
  let method (m : Nat) (name : String) (isStatic : Bool) (origin : MemberOrigin) : MemberDescriptor :=
    ⟨⟨m⟩, name, ⟨1⟩, isStatic, origin, .method [] (.primitive .void) 0 false none⟩
  ⟨[⟨⟨⟨1⟩, "T", .classType, true, 0, none, [], [⟨20⟩, ⟨30⟩, ⟨31⟩, ⟨32⟩]⟩, .fresh⟩],
    [⟨⟨⟨20⟩, ".ctor", ⟨1⟩, false, .source, .constructor []⟩,
      some (call 32 [.mk .dummy .this]), none⟩,
    ⟨method 30 "Work" false .source, some (forever (call 31 [])), none⟩,
    ⟨method 31 "Fail" true .loaded, none, some (.fail "down")⟩,
    ⟨method 32 "Back" true .loaded, none, some (.dispatch ⟨30⟩)⟩]⟩

/-- Both calls of the host fail, the inner one first, with one error. -/
theorem callingBack_reported :
    let s : Session Scripted.State := ⟨callingBack.host, ⟨0⟩, 20⟩
    let w := World.initial Scripted.State.initial
    let x := (Request.create (.named ⟨1⟩ []) [] false).run s w
    s.host.Relays ∧ w.Relays ∧ x.2.failures.map HostFailure.calls = [4, 4] ∧
      (match x.1 with
        | .error (.failed e) => some e
        | _ => none) = some ⟨.host "down", some ⟨5, 6⟩, []⟩ ∧
      ∃ failed, x.2.failures = failed ++ w.failures ∧ ∀ f ∈ failed, f.calls = x.2.trace.length ∧
        ∃ e, x.1 = .error (.failed e) ∧ e.Reports f.error := by
  have reported := failures_reported ⟨callingBack.host, ⟨0⟩, 20⟩ callingBack.relays
    (World.initial .initial) (.initial _) (.create (.named ⟨1⟩ []) [] false)
  refine ⟨callingBack.relays, .initial _, ?_, ?_, ?_⟩
  · decide +kernel
  · decide +kernel
  · exact reported

end OpTree
