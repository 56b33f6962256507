/-
What a session remembers is written once. A session numbers bodies, decides how
members are reached, makes member tables and class frames on the first request, and
attaches itself to objects; all of it happens in the middle of whatever else runs, and
also where that fails. `World.Remembers` says that none of it was taken back between
two moments, `Step` is everything that can happen between two moments, and a history
is a list of such steps, by any sessions of any hosts, of which each goes on from the
world that the one before has left, however it ended.

One step keeps what is remembered (`Step.remembers`), so a history does
(`Step.remembers_all`); and what is remembered is what every later request is answered
with.
-/
import OpTree.Proofs.Isolation
import OpTree.Proofs.Requests

namespace OpTree

/-- What a session has numbered, decided and made is still so. -/
structure SessionState.Remembers {σ : Type} (a b : SessionState σ) : Prop where
  /-- The registry has grown at its end. -/
  registry : ∃ later, b.registry.entries = a.registry.entries ++ later
  targets : ∀ {m t}, a.targets.get? m = some t → b.targets.get? m = some t
  tables : ∀ {type t}, a.tables.get? type = some t → b.tables.get? type = some t
  classFrames : ∀ {type f}, a.classFrames.get? type = some f → b.classFrames.get? type = some f

/-- What the sessions have numbered, decided and made is still so, and objects have
the links that they had. -/
structure World.Remembers {σ : Type} (w w' : World σ) : Prop where
  sessions : ∀ s, (w.session s).Remembers (w'.session s)
  links : ∀ {o l}, w.link? o = some l → w'.link? o = some l

namespace Registry

/-- Where every number stands for the entry that it stood for, the registry has grown
at its end. -/
theorem entries_append {r r' : Registry}
    (h : ∀ {id entry}, r.get? id = some entry → r'.get? id = some entry) :
    ∃ later, r'.entries = r.entries ++ later := by
  have isPrefix : r.entries.toList <+: r'.entries.toList := by
    rw [List.prefix_iff_getElem?]
    intro i hi
    have here : r.get? ⟨i⟩ = some r.entries.toList[i] := by simp [get?]
    simpa [get?] using h here
  obtain ⟨later, hl⟩ := isPrefix
  exact ⟨later.toArray, by rw [← Array.toList_inj]; simp [hl]⟩

theorem get?_append {r r' : Registry} (h : ∃ later, r'.entries = r.entries ++ later)
    {id : OperationId} {entry : RegistryEntry} (he : r.get? id = some entry) :
    r'.get? id = some entry := by
  obtain ⟨later, hl⟩ := h
  obtain ⟨hi, -⟩ := Array.getElem?_eq_some_iff.1 he
  rw [get?, hl, Array.getElem?_append_left hi]
  exact he

end Registry

section

variable {σ : Type}

namespace SessionState.Remembers

variable {a b c : SessionState σ}

theorem refl (a : SessionState σ) : a.Remembers a where
  registry := ⟨#[], by simp⟩
  targets h := h
  tables h := h
  classFrames h := h

theorem trans (h : a.Remembers b) (h' : b.Remembers c) : a.Remembers c where
  registry := by
    obtain ⟨later, hl⟩ := h.registry
    obtain ⟨later', hl'⟩ := h'.registry
    exact ⟨later ++ later', by rw [hl', hl, Array.append_assoc]⟩
  targets ht := h'.targets (h.targets ht)
  tables ht := h'.tables (h.tables ht)
  classFrames hf := h'.classFrames (h.classFrames hf)

theorem of_extends {host : Host σ} (h : a.Extends host b) : a.Remembers b where
  registry := Registry.entries_append h.registry
  targets := h.targets
  tables := h.tables
  classFrames := h.classFrames

end SessionState.Remembers

namespace World.Remembers

variable {w w' w'' : World σ}

theorem refl (w : World σ) : w.Remembers w := ⟨fun _ => .refl _, fun h => h⟩

theorem trans (h : w.Remembers w') (h' : w'.Remembers w'') : w.Remembers w'' where
  sessions s := (h.sessions s).trans (h'.sessions s)
  links hl := h'.links (h.links hl)

theorem of_grows {host : Host σ} (h : w.Grows host w') : w.Remembers w' where
  sessions s := .of_extends (h.sessions s)
  links := h.links

theorem close (s : Session σ) (w : World σ) : w.Remembers (s.close w).2 where
  sessions s' := by
    show (w.session s').Remembers ((w.mapSession s.id _).session s')
    rw [World.session_mapSession]
    split
    · rename_i hs; subst hs; exact { SessionState.Remembers.refl (w.session s.id) with }
    · exact .refl _
  links h := h

end World.Remembers

/-! ### Histories -/

/-- What can happen next: something is asked of a session from outside; code that runs
asks for something, or goes on at a node; a host's own code does something; an object is
bound to a session or claimed by another owner; or a session ends. -/
inductive Step (σ : Type) where
  | request (r : Request)
  | physicalArguments (constructor : SymbolId) (type : ClosedType) (args : List Value)
  | classFrame (type : ClosedType)
  | memberTable (type : ClosedType)
  | register (entry : RegistryEntry)
  | call (call : Call)
  | evaluate (a : Activation) (node : Node)
  | perform (action : HostAction σ Value)
  | bind (o : ObjectRef) (type : ClosedType)
  | attach (o : ObjectRef) (link : Link σ)
  | close

namespace Step

/-- The world after a step of a session, however it ended. -/
def after (s : Session σ) (w : World σ) : Step σ → World σ
  | request r => (r.run s w).2
  | physicalArguments constructor type args => (s.physicalArguments constructor type args w).2
  | classFrame type => (s.classFrame type w).2
  | memberTable type => (s.memberTable type w).2
  | register entry => (World.register s.id entry w).2
  | call c => (c.run s.context w).2
  | evaluate a node => (s.context.eval node ⟨w, a⟩).2.world
  | perform action => (action.run s.context.dispatch w).2
  | bind o type => (s.context.bind o type w).2
  | attach o link => (World.bind o link w).2
  | close => (s.close w).2

/-- The world after a history. -/
def afterAll (w : World σ) : List (Session σ × Step σ) → World σ
  | [] => w
  | (s, step) :: rest => afterAll (step.after s w) rest

theorem grows (s : Session σ) (w : World σ) :
    ∀ step : Step σ, step.after s w = (s.close w).2 ∨ w.Grows s.host (step.after s w)
  | request r => .inr (r.grows s w)
  | physicalArguments constructor type args => by
    have chain := (Context.within_grows s.host s.fuel s.id).constructorChain s.fuel s.fuel
      (.same _) constructor type args
    have found : Run.Agrees (World.growing s.host False False).toTerms
        (s.physicalArguments constructor type args) (s.physicalArguments constructor type args) :=
      .bind chain fun _ => .pure _
    exact .inr (found.grows rfl)
  | classFrame type => .inr (World.classFrame_grows s.id type w)
  | memberTable type =>
    .inr (((Context.within_grows s.host s.fuel s.id).memberTable type).grows rfl)
  | register entry => .inr (((World.growing s.host False False).register s.id entry).grows rfl)
  | call c => .inr (c.grows s.host s.fuel s.id w)
  | evaluate a node => .inr (evalWithin_grows s.host s.fuel s.id node ⟨w, a⟩).1
  | perform action => by
    have self := Context.within_grows s.host s.fuel s.id
    have resumes : (World.growing s.host False False).toTerms.Resumes := fun _ _ _ _ h => h
    exact .inr ((Run.Agrees.hostAction self.dispatch action (.inl resumes)).grows rfl)
  | bind o type => .inr (((Context.within_grows s.host s.fuel s.id).bind o type w).grows rfl)
  | attach o link => .inr (World.bind_grows o link w)
  | close => .inl rfl

theorem remembers (s : Session σ) (w : World σ) (step : Step σ) : w.Remembers (step.after s w) := by
  rcases step.grows s w with ends | grows
  · rw [ends]
    exact .close s w
  · exact .of_grows grows

theorem remembers_all (history : List (Session σ × Step σ)) (w : World σ) :
    w.Remembers (afterAll w history) := by
  induction history generalizing w with
  | nil => exact .refl w
  | cons entry rest ih => exact (entry.2.remembers entry.1 w).trans (ih _)

end Step

/-! ### What is remembered is what is answered -/

namespace World

variable {w w' : World σ} {s : SessionId}

theorem classFrame_of_made {type : ClosedType} {f : FrameId}
    (h : (w.session s).classFrames.get? type = some f) : World.classFrame s type w = (.ok f, w) := by
  simp [World.classFrame, Run.modifyGet, h]

theorem classFrame_made (s : SessionId) (type : ClosedType) (w : World σ) :
    ∃ f w', World.classFrame s type w = (.ok f, w') ∧
      (w'.session s).classFrames.get? type = some f ∧ w'.objects = w.objects ∧
      (w'.session s).tables = (w.session s).tables := by
  cases h : (w.session s).classFrames.get? type with
  | some f => exact ⟨f, w, classFrame_of_made h, h, rfl, rfl⟩
  | none =>
    simp only [World.classFrame, Run.modifyGet, h]
    refine ⟨_, _, rfl, by simp, rfl, ?_⟩
    rw [session_mapSession_self]
    rfl

theorem bind_of_link {o : ObjectRef} {l : Link σ} (h : w.link? o = some l) (l' : Link σ) :
    World.bind o l' w = (.error (.failed (.of (.alreadyBound o.type.text))), w) := by
  have bound : w.isBound o = true := by rw [World.isBound, h]; rfl
  rw [World.bind, if_pos bound]

end World

namespace Context

variable {c : Context σ} {w w' : World σ}

theorem target_recorded {m : SymbolId} {t : Target σ} (h : c.target m w = (.ok t, w')) :
    (w'.session c.session).targets.get? m = some t := by
  cases hm : (w.session c.session).targets.get? m with
  | some t' =>
    rw [c.target_of_cached hm] at h
    cases h
    exact hm
  | none =>
    cases hd : c.host.decide m with
    | ok t' =>
      rw [c.target_of_decided hm hd] at h
      cases h
      simp
    | error e => rw [c.target_of_error hm hd] at h; cases h

theorem memberTable_objects (c : Context σ) (type : ClosedType) (w : World σ) :
    (c.memberTable type w).2.objects = w.objects := by
  let T : Terms (World σ) := .keeping (fun w w' => w'.objects = w.objects) False False
    (fun _ => rfl) fun h h' => h'.trans h
  have levels : Run.Agrees T (c.registerLevels c.fuel type true (.empty type))
      (c.registerLevels c.fuel type true (.empty type)) :=
    registerLevels_agrees rfl rfl (fun _ _ => Run.agrees_keeping fun _ => rfl) c.fuel c.fuel
      (.same _) type true (.empty type)
  have found : Run.Agrees T (c.memberTable type) (c.memberTable type) := by
    refine .bind (.gets fun b w w' hw => by obtain ⟨rfl, rfl⟩ := hw; rfl) fun found => ?_
    cases found with
    | some t => exact .pure t
    | none =>
      exact .bind levels fun t => .bind (Run.agrees_keeping fun _ => rfl) fun _ => .pure t
  rcases (found w).keeping with ⟨-, h⟩ | ⟨hl, -⟩ | ⟨hl, -⟩
  · exact h
  · exact hl.elim
  · exact hl.elim

/-- Make the instance frame of an object, on the class frame of a type. -/
def frameFor (c : Context σ) (o : ObjectRef) (type : ClosedType) : Run (World σ) FrameId := do
  let classFrame ← World.classFrame c.session type
  World.childFrame classFrame (.ofInstance (some o))

/-- The session's member table of a type, or why it has none, when an object is to be bound. -/
def tableFor (c : Context σ) (o : ObjectRef) (type : ClosedType) (w : World σ) :
    Except Stop MemberTable × World σ :=
  c.memberTable type (c.frameFor o type w).2

/-- Why an object that has a link is not bound: there is no member table, or else because of the
link. -/
def refusal (o : ObjectRef) : Except Stop MemberTable → Stop
  | .error e => e
  | .ok _ => .failed (.of (.alreadyBound o.type.text))

/-- An object that has a link is not bound, and leaves all objects as they were. A session that has a
member table of the type is not lacking one. -/
theorem bind_eq_refusal {o : ObjectRef} {l : Link σ} (h : w.link? o = some l) (type : ClosedType) :
    c.bind o type w = (.error (refusal o (c.tableFor o type w).1), (c.tableFor o type w).2) ∧
      (c.tableFor o type w).2.objects = w.objects ∧
      ∀ t, (w.session c.session).tables.get? type = some t → (c.tableFor o type w).1 = .ok t := by
  obtain ⟨f, w₁, root, -, objects, tables⟩ := World.classFrame_made c.session type w
  obtain ⟨g, frames, child⟩ : ∃ g frames, World.childFrame f (.ofInstance (some o)) w₁ =
      (.ok g, { w₁ with frames := frames }) := ⟨_, _, rfl⟩
  let w₂ : World σ := { w₁ with frames := frames }
  have framed : c.frameFor o type w = (.ok g, w₂) := (Run.bind_ok root).trans child
  have begins : c.bind o type w = (do
      let table ← c.memberTable type
      World.bind o (.session c.session g table)
      return g : Run (World σ) FrameId) w₂ := (Run.bind_ok root).trans (Run.bind_ok child)
  have asked : c.tableFor o type w = c.memberTable type w₂ := by rw [tableFor, framed]
  have kept := c.memberTable_objects type w₂
  rw [asked, begins]
  refine ⟨?_, kept.trans objects, fun t ht => ?_⟩
  · rcases found : c.memberTable type w₂ with ⟨e | t, w₃⟩ <;> rw [found] at kept
    · exact Run.bind_error found
    · have linked : w₃.link? o = some l := by
        rw [World.link?, kept.trans objects]
        exact h
      exact (Run.bind_ok found).trans (Run.bind_error (World.bind_of_link linked _))
  · have ht : (w₂.session c.session).tables.get? type = some t := by
      rw [← ht, ← tables]
      rfl
    rw [memberTable_of_kept ht]

/-- The error is the one of the member table where there is none to be had, and otherwise that the
object is bound. -/
theorem bind_of_link {o : ObjectRef} {l : Link σ} (h : w.link? o = some l) (type : ClosedType) :
    ∃ e w', c.bind o type w = (.error e, w') ∧ w'.objects = w.objects ∧
      (e = .failed (.of (.alreadyBound o.type.text)) ∨
        (w.session c.session).tables.get? type = none ∧
          ∃ w₁, (c.memberTable type w₁).1 = .error e) := by
  obtain ⟨refused, objects, has⟩ := bind_eq_refusal (c := c) h type
  refine ⟨_, _, refused, objects, ?_⟩
  rcases asked : (c.tableFor o type w).1 with e | t
  · refine .inr ⟨?_, _, asked⟩
    cases ht : (w.session c.session).tables.get? type with
    | none => rfl
    | some t =>
      rw [has t ht] at asked
      cases asked
  · exact .inl rfl

end Context

theorem World.register_issued (s : SessionId) (entry : RegistryEntry) (w : World σ) :
    ∃ id w', World.register s entry w = (.ok id, w') ∧
      (w'.session s).registry.get? id = some entry := by
  refine ⟨_, _, rfl, ?_⟩
  rw [session_mapSession_self]
  simp [Registry.get?]

/-- **Caches are written once.** Whatever any sessions do from some world on, and however
it ends: registries have grown at their ends, and decisions, member tables, class frames
and links are what they were. So a number that was issued stands for its body ever after; a
decision, a table or a class frame that was asked for once is answered again, and nothing
changes by asking; and an object that has a link cannot be bound again. -/
theorem caches_writtenOnce (w : World σ) (history : List (Session σ × Step σ)) :
    w.Remembers (Step.afterAll w history) ∧
    (∀ s id entry, (w.session s).registry.get? id = some entry →
      ((Step.afterAll w history).session s).registry.get? id = some entry) ∧
    (∀ s entry, ∃ id w₁, World.register s entry w = (.ok id, w₁) ∧
      ((Step.afterAll w₁ history).session s).registry.get? id = some entry) ∧
    (∀ (s : Session σ) m t w₁, s.context.target m w = (.ok t, w₁) →
      s.context.target m (Step.afterAll w₁ history) = (.ok t, Step.afterAll w₁ history)) ∧
    (∀ (s : Session σ) type t w₁, s.memberTable type w = (.ok t, w₁) →
      s.memberTable type (Step.afterAll w₁ history) = (.ok t, Step.afterAll w₁ history)) ∧
    (∀ (s : Session σ) type, ∃ f w₁, s.classFrame type w = (.ok f, w₁) ∧
      s.classFrame type (Step.afterAll w₁ history) = (.ok f, Step.afterAll w₁ history)) ∧
    ∀ o l, w.link? o = some l →
      let w' := Step.afterAll w history
      w'.link? o = some l ∧
      (∀ l', World.bind o l' w' = (.error (.failed (.of (.alreadyBound o.type.text))), w')) ∧
      ∀ (s : Session σ) type, ∃ e w'', s.context.bind o type w' = (.error e, w'') ∧
        w''.objects = w'.objects ∧ (e = .failed (.of (.alreadyBound o.type.text)) ∨
          (w'.session s.id).tables.get? type = none ∧ ∃ w₁, (s.memberTable type w₁).1 = .error e) := by
  have kept (w : World σ) := Step.remembers_all history w
  refine ⟨kept w, fun s id entry h => ?_, fun s entry => ?_, fun s m t w₁ h => ?_,
    fun s type t w₁ h => ?_, fun s type => ?_, fun o l h => ?_⟩
  · exact Registry.get?_append ((kept w).sessions s).registry h
  · obtain ⟨id, w₁, issued, found⟩ := World.register_issued s entry w
    exact ⟨id, w₁, issued, Registry.get?_append ((kept w₁).sessions s).registry found⟩
  · exact Context.target_of_cached _ (((kept w₁).sessions s.id).targets (Context.target_recorded h))
  · exact Context.memberTable_of_kept
      (((kept w₁).sessions s.id).tables (Context.memberTable_kept h))
  · obtain ⟨f, w₁, made, found, -⟩ := World.classFrame_made s.id type w
    exact ⟨f, w₁, made, World.classFrame_of_made (((kept w₁).sessions s.id).classFrames found)⟩
  · have linked := (kept w).links h
    exact ⟨linked, World.bind_of_link linked, fun s type => Context.bind_of_link linked type⟩

end

/-- An object is made; then a member is called that it does not have, the object is bound
once more, and another one is made. -/
theorem secondBinding_fails :
    let s : Session Scripted.State := ⟨assigning.host, ⟨0⟩, 6⟩
    let type : ClosedType := .named ⟨1⟩ []
    let o : ObjectRef := ⟨0, type⟩
    let w := ((Request.create type [] false).run s (World.initial .initial)).2
    let history : List (Session Scripted.State × Step Scripted.State) :=
      [(s, .request (.dispatch o ⟨99⟩ [] [])), (s, .bind o type), (s, .request (.create type [] false))]
    let w' := Step.afterAll w history
    let table : MemberTable := ⟨type, ⟨[(⟨30⟩, ⟨0⟩)]⟩⟩
    w.link? o = some (.session ⟨0⟩ ⟨1⟩ table) ∧ w'.link? o = some (.session ⟨0⟩ ⟨1⟩ table) ∧
      w'.objects.size = 2 ∧ s.memberTable type w' = (.ok table, w') ∧
      ((w'.session ⟨0⟩).registry.get? ⟨0⟩).map RegistryEntry.symbol = some ⟨30⟩ ∧
      ∀ l, World.bind o l w' = (.error (.failed (.of (.alreadyBound "type#1"))), w') := by
  intro s type o w history w' table
  obtain ⟨-, -, -, -, tables, -, links⟩ := caches_writtenOnce w history
  obtain ⟨linked, again, -⟩ := links o _ rfl
  have two : w'.objects.size = 2 := by decide +kernel
  have first : ((w'.session ⟨0⟩).registry.get? ⟨0⟩).map RegistryEntry.symbol = some ⟨30⟩ := by
    decide +kernel
  exact ⟨rfl, linked, two, tables s type table w rfl, first, again⟩

end OpTree
