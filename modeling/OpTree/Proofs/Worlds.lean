/-
The steps that the library takes on a world, each once. `WorldTerms` is what two
runs over worlds are held to together with what has to be shown of every such step:
that what is read off tied worlds is the same, and that worlds that were tied can be
tied again after a change. Frames are the one thing that may go by different
identities in the two worlds; `WorldTerms.sights` says which stand for each other,
`WorldTerms.frames` which of them also supply the same arguments, and `WorldTerms.roots` and
`WorldTerms.holders` which stand for each other as class frames and as the frames of
objects.

Nothing above this module looks into a world, so a property of worlds that all
evaluation keeps is shown by showing it of these steps.

When less is known of worlds in which runs have stopped, the plans of the host have to be
asked for something: they get the errors of what they call, and might go on. Plans that
relay those errors do not (`HostAction.Relays`).
-/
import OpTree.Eval.MemberTable
import OpTree.Proofs.Runs

namespace OpTree

/-- Two links of one object that differ in the frame only. -/
inductive Link.Tied {σ : Type} (frames : FrameId → FrameId → Prop) :
    Option (Link σ) → Option (Link σ) → Prop where
  | none : Tied frames none none
  | session {f f'} (s : SessionId) (table : MemberTable) : frames f f' →
      Tied frames (some (.session s f table)) (some (.session s f' table))
  | foreign (serve) : Tied frames (some (.foreign serve)) (some (.foreign serve))

theorem Link.Tied.refl {σ : Type} {frames : FrameId → FrameId → Prop} (h : ∀ f, frames f f) :
    ∀ l : Option (Link σ), Link.Tied frames l l
  | .none => .none
  | .some (.session s f table) => .session s table (h f)
  | .some (.foreign serve) => .foreign serve

theorem Link.Tied.strengthen {σ : Type} {R S : FrameId → FrameId → Prop}
    {l l' : Option (Link σ)}
    (h : Link.Tied R l l') (hi : ∀ {s f f' table}, l = some (.session s f table) →
      l' = some (.session s f' table) → R f f' → S f f') : Link.Tied S l l' := by
  cases h with
  | none => exact .none
  | session s table hf => exact .session s table (hi rfl rfl hf)
  | foreign serve => exact .foreign serve

namespace World

variable {σ : Type}

/-- Keep a body in the registry of a session. -/
def register (s : SessionId) (entry : RegistryEntry) : Run (World σ) OperationId :=
  Run.modifyGet fun w =>
    let (id, registry) := (w.session s).registry.register entry
    (id, w.mapSession s fun state => { state with registry := registry })

theorem session_mapSession (w : World σ) (s s' : SessionId) (f : SessionState σ → SessionState σ) :
    (w.mapSession s f).session s' = if s = s' then f (w.session s) else w.session s' := by
  by_cases h : s = s'
  · subst h; simp [mapSession, session]
  · simp [mapSession, session, h, Table.get?_insert_other]

@[simp] theorem session_mapSession_self (w : World σ) (s : SessionId)
    (f : SessionState σ → SessionState σ) : (w.mapSession s f).session s = f (w.session s) := by
  simp [session_mapSession]

theorem noting_eq_ok {α : Type} {call : HostCall} {m : Run (World σ) α} {w w' : World σ} {a : α} :
    noting call m w = (.ok a, w') ↔ m w = (.ok a, w') := by
  simp only [noting]
  rcases m w with ⟨(e | _) | a', t⟩
  · constructor <;> intro h <;> cases h
  · exact Iff.rfl
  · exact Iff.rfl

/-- Keep the member table of a type. -/
def keepTable (w : World σ) (s : SessionId) (type : ClosedType) (table : MemberTable) : World σ :=
  w.mapSession s fun state => { state with tables := state.tables.insert type table }

/-- A walk of the session has just made the table of a type. -/
def Walked (host : Host σ) (s : SessionId) (type : ClosedType) (table : MemberTable) (w : World σ) :
    Prop :=
  ∃ (c : Context σ) (v : World σ), c.host = host ∧ c.session = s ∧
    c.registerLevels c.fuel type true (.empty type) v = (.ok table, w)

/-- Store into static storage. -/
def storeStatic (w : World σ) (s : SessionId) (place : ClosedType × SymbolId) (v : Value) : World σ :=
  w.mapSession s fun state => { state with statics := state.statics.insert place v }

end World

/-! ## Plans that relay errors -/

namespace HostAction

variable {σ α : Type}

/-- The plan ends with the error. It may see to the host's own state before, and make
objects, but it calls none. -/
def EndsWith (e : EvalError) : HostAction σ α → Prop
  | .done result => result = .error e
  | .read next => ∀ state, (next state).EndsWith e
  | .write _ next => next.EndsWith e
  | .allocate _ next => ∀ o, (next o).EndsWith e
  | .dispatch .. => False

/-- Every error that the plan gets from a call is the one that it ends with. -/
def Relays : HostAction σ α → Prop
  | .done _ => True
  | .read next => ∀ state, (next state).Relays
  | .write _ next => next.Relays
  | .allocate _ next => ∀ o, (next o).Relays
  | .dispatch _ _ _ _ next => (∀ e, (next (.error e)).EndsWith e) ∧ ∀ v, (next (.ok v)).Relays

end HostAction

/-- Whatever is asked of the handle, errors are relayed. -/
structure Handle.Relays {σ : Type} (handle : Handle σ) : Prop where
  invoke : ∀ call, (handle.invoke call).Relays
  load : ∀ receiver, (handle.load receiver).Relays
  store : ∀ receiver v, (handle.store receiver v).Relays

/-- If the member is reached through the host, errors are relayed there. -/
def Target.Relays {σ : Type} : Target σ → Prop
  | .physical handle => handle.Relays
  | _ => True

/-- Whoever serves the object, errors are relayed there. -/
def Link.Relays {σ : Type} : Link σ → Prop
  | .foreign serve => ∀ o m typeArgs args, (serve o m typeArgs args).Relays
  | .session .. => True

namespace Terms

variable {σ : Type}

/-- Nothing less is known of the states in which runs have stopped. -/
def Resumes (T : Terms σ) : Prop := ∀ b e s s', T.stops b e s s' → T.ties b s s'

/-- What is known of worlds in which runs have stopped is known of them still when the host
has seen to its own state and made objects; and it relays the errors that it gets. -/
structure Relays (T : Terms (World σ)) (host : Host σ) : Prop where
  same : ∀ {b e w w'}, T.stops b e w w' → w = w'
  write : ∀ {b e w} state, T.stops b e w w →
    T.stops b e { w with host := state } { w with host := state }
  newObject : ∀ {b e w} type, T.stops b e w w → T.stops b e (w.newObject type).2 (w.newObject type).2
  backing : ∀ {type backing} args, host.synthesize type = .ok backing → (backing args).Relays
  target : ∀ {b w w' t u} {c : Context σ} {m}, c.host = host → T.ties b w w' →
    c.target m w = (.ok t, u) → t.Relays
  link : ∀ {b w w' o l}, T.ties b w w' → w.link? o = some l → l.Relays

end Terms

/-! ## What steps keep to -/

/-- What two runs over worlds are held to, and that every step keeps to it. -/
structure WorldTerms {σ : Type} (host : Host σ) extends Terms (World σ) where
  /-- The frames that stand for each other: names are looked up and assigned in
  them. -/
  sights : Bond → FrameId → FrameId → Prop
  /-- Those in which names may be bound, and which supply the same generic arguments. -/
  frames : Bond → FrameId → FrameId → Prop
  /-- The class frames that stand for each other. -/
  roots : Bond → FrameId → FrameId → Prop
  /-- The instance frames that do, which an object may be bound to. -/
  holders : Bond → ObjectRef → FrameId → FrameId → Prop
  seen : ∀ {b f f'}, frames b f f' → sights b f f'
  holds : ∀ {b o f f'}, holders b o f f' → sights b f f'
  laterSights : ∀ {b b' f f'}, le b b' → sights b f f' → sights b' f f'
  later : ∀ {b b' f f'}, le b b' → frames b f f' → frames b' f f'
  laterRoots : ∀ {b b' f f'}, le b b' → roots b f f' → roots b' f f'
  laterHolders : ∀ {b b' o f f'}, le b b' → holders b o f f' → holders b' o f f'
  -- what is read
  names : ∀ {b w w' f f'}, ties b w w' → sights b f f' → ∀ name, w.readName f name = w'.readName f' name
  arguments : ∀ {b w w' f f'}, ties b w w' → frames b f f' →
    w.frames.genericArgument f = w'.frames.genericArgument f'
  instances : ∀ {b w w' f f'}, ties b w w' → sights b f f' →
    w.frames.currentInstance? f = w'.frames.currentInstance? f'
  links : ∀ {b w w'}, ties b w w' → ∀ o, Link.Tied (holders b o) (w.link? o) (w'.link? o)
  slots : ∀ {b w w'}, ties b w w' → ∀ o field, w.loadSlot? o field = w'.loadSlot? o field
  statics : ∀ {b w w'}, ties b w w' → ∀ s place,
    (w.session s).statics.get? place = (w'.session s).statics.get? place
  entries : ∀ {b w w'}, ties b w w' → ∀ s id,
    (w.session s).registry.get? id = (w'.session s).registry.get? id
  tables : ∀ {b w w'}, ties b w w' → ∀ s type,
    (w.session s).tables.get? type = (w'.session s).tables.get? type
  isOpen : ∀ {b w w'}, ties b w w' → ∀ s, (w.session s).isOpen = (w'.session s).isOpen
  cells : ∀ {b w w'}, ties b w w' → ∀ a, w.cell? a = w'.cell? a
  state : ∀ {b w w'}, ties b w w' → w.host = w'.host
  -- what is changed
  classFrame : ∀ b s type,
    Run.AgreesBy toTerms b roots (World.classFrame s type) (World.classFrame s type)
  methodFrame : ∀ {b f f'} m typeArgs, roots b f f' → Run.AgreesBy toTerms b frames
    (World.childFrame f (.ofMethod m typeArgs)) (World.childFrame f' (.ofMethod m typeArgs))
  instanceFrame : ∀ {b f f'} o, roots b f f' →
    Run.AgreesBy toTerms b (fun b g g' => holders b o g g' ∧ frames b g g')
      (World.childFrame f (.ofInstance (some o))) (World.childFrame f' (.ofInstance (some o)))
  scopeFrame : ∀ {b f f'}, frames b f f' → Run.AgreesBy toTerms b frames
    (World.childFrame f .scope) (World.childFrame f' .scope)
  declare : ∀ {b f f'} name, frames b f f' →
    Run.AgreesBy toTerms b (fun _ => Eq) (World.declare f name) (World.declare f' name)
  define : ∀ {b f f'} name v, frames b f f' →
    Run.AgreesBy toTerms b (fun _ => Eq) (World.define f name v) (World.define f' name v)
  assign : ∀ {b f f'} name v, sights b f f' →
    Run.AgreesBy toTerms b (fun _ => Eq) (World.assign f name v) (World.assign f' name v)
  target : ∀ (c : Context σ) m, c.host = host → Run.Agrees toTerms (c.target m) (c.target m)
  register : ∀ s entry, Run.Agrees toTerms (World.register s entry) (World.register s entry)
  keepTable : ∀ {b w w'} s type table, ties b w w' → (w.session s).tables.get? type = none →
    w.Walked host s type table →
    ∃ b', le b b' ∧ ties b' (w.keepTable s type table) (w'.keepTable s type table)
  storeStatic : ∀ {b w w'} s place v, ties b w w' →
    ∃ b', le b b' ∧ ties b' (w.storeStatic s place v) (w'.storeStatic s place v)
  storeSlot : ∀ {b w w'} o field v, ties b w w' →
    ∃ b', le b b' ∧ ties b' (w.storeSlot o field v) (w'.storeSlot o field v)
  bindLink : ∀ {b w w' f f'} o s type table, ties b w w' → holders b o f f' →
    (w.session s).tables.get? type = some table → Run.Ends toTerms b (fun _ => Eq)
      (World.bind o (.session s f table) w) (World.bind o (.session s f' table) w')
  newObject : ∀ type, Run.Agrees toTerms (Run.modifyGet fun w => w.newObject type)
    (Run.modifyGet fun w => w.newObject type)
  newArray : ∀ element cell, Run.Agrees toTerms (Run.modifyGet fun w => w.newArray element cell)
    (Run.modifyGet fun w => w.newArray element cell)
  setElement : ∀ a indices v,
    Run.Agrees toTerms (World.setElement a indices v) (World.setElement a indices v)
  record : ∀ {b w w'} call, ties b w w' → ∃ b', le b b' ∧ ties b' (w.record call) (w'.record call)
  write : ∀ {b w w'} state, ties b w w' →
    ∃ b', le b b' ∧ ties b' { w with host := state } { w' with host := state }
  -- what becomes of errors
  noteFailure : ∀ {b w w'} call e, stops b (.failed e) w w' →
    ∃ b', le b b' ∧ stops b' (.failed e) (w.noteFailure call e) (w'.noteFailure call e)
  errors : toTerms.Resumes ∨ toTerms.Relays host := by exact .inl fun _ _ _ _ h => h

namespace WorldTerms

variable {σ : Type} {host : Host σ} (W : WorldTerms host) {b : W.Bond} {w w' : World σ}

include W

/-- A plan need only relay errors when the host has to. -/
theorem planned {p : Prop} (h : W.toTerms.Relays host → p) : W.toTerms.Resumes ∨ p :=
  W.errors.imp_right h

theorem noting {α : Type} {m m' : Run (World σ) α} (call : HostCall)
    (h : Run.Agrees W.toTerms m m') :
    Run.Agrees W.toTerms (World.noting call m) (World.noting call m') := by
  refine .of_ends fun b w w' hw => ?_
  have he := h.apply hw
  simp only [World.noting]
  generalize m w = x at he
  generalize m' w' = x' at he
  cases he with
  | short hl => exact .short hl
  | @short' x _ hl => exact .short' hl
  | ok hle ht hq => exact .ok hle ht hq
  | @error b' e _ _ hle ht =>
    cases e with
    | failed e =>
      obtain ⟨b₁, hb, hn⟩ := W.noteFailure call e ht
      exact .error (W.trans hle hb) hn
    | exhausted => exact .error hle ht

/-- An object of a session is one in both worlds, with frames that stand for each
other and with one table. -/
theorem bindingOf? (h : W.ties b w w') (s : SessionId) (o : ObjectRef) :
    Option.Rel (fun x y => W.holders b o x.1 y.1 ∧ x.2 = y.2) (w.bindingOf? s o) (w'.bindingOf? s o) := by
  have hl := W.links h o
  simp only [World.bindingOf?]
  generalize w.link? o = l at hl
  generalize w'.link? o = l' at hl
  cases hl with
  | none => exact .none
  | foreign serve => exact .none
  | session s' table hf =>
    dsimp only
    split
    · exact .some ⟨hf, rfl⟩
    · exact .none

theorem instanceFrame? (h : W.ties b w w') (s : SessionId) (o : ObjectRef) :
    Option.Rel (W.holders b o) (w.instanceFrame? s o) (w'.instanceFrame? s o) := by
  have hb := W.bindingOf? h s o
  simp only [World.instanceFrame?]
  generalize w.bindingOf? s o = x at hb
  generalize w'.bindingOf? s o = x' at hb
  cases hb with
  | none => exact .none
  | some h => exact .some h.1

theorem overrideOf (h : W.ties b w w') (c : Context σ) (receiver : Option Value) (m : SymbolId) :
    c.overrideOf w receiver m = c.overrideOf w' receiver m := by
  simp only [Context.overrideOf]
  cases receiver with
  | none => rfl
  | some v =>
    cases v
    case object o =>
      have hb := W.bindingOf? h c.session o
      dsimp only
      generalize w.bindingOf? c.session o = x at hb
      generalize w'.bindingOf? c.session o = x' at hb
      cases hb with
      | none => rfl
      | @some x y h' =>
        obtain ⟨f, table⟩ := x
        obtain ⟨f', table'⟩ := y
        obtain ⟨-, rfl⟩ := h'
        have he : (w.session c.session).registry.get? = (w'.session c.session).registry.get? :=
          funext (W.entries h c.session)
        simp only [he]
    all_goals rfl

theorem elements (h : W.ties b w w') (a : ArrayRef) : w.elements a = w'.elements a := by
  simp only [World.elements, W.cells h a]

theorem getElement (h : W.ties b w w') (a : ArrayRef) (is : List Int) :
    w.getElement a is = w'.getElement a is := by
  simp only [World.getElement, W.cells h a]

end WorldTerms

end OpTree
