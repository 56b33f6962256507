/-
Everything that changes while trees run: the heap of objects and arrays, the
frames, what each session has decided and stored, the host's own state, and
the calls made to the host, with those that failed. Handles stay valid for good;
a session's decisions are made once and kept.
-/
import OpTree.Host
import OpTree.Registry
import OpTree.Run
import OpTree.Storage.ArrayCell
import OpTree.Storage.Frame

namespace OpTree

structure SessionId where
  index : Nat
deriving DecidableEq, Repr

/-- How a member is reached. -/
inductive Target (σ : Type) where
  /-- By interpreting its tree. -/
  | interpreted (tree : Node)
  /-- By calling the host. -/
  | physical (handle : Handle σ)
  /-- In a slot of the object. -/
  | slot
  /-- In the session's storage for the containing type. -/
  | staticSlot
  /-- In the object's instance frame, under a name. -/
  | frameSlot (name : String)
  /-- By calling its accessors. -/
  | accessors (getter setter : Option SymbolId)
  /-- Only through an override. -/
  | bodiless
  /-- There is nothing to run. -/
  | empty

namespace Target

variable {σ : Type}

/-- The name of the way in messages. -/
def name : Target σ → String
  | interpreted _ => "interpreted"
  | physical _ => "physical"
  | slot => "slot"
  | staticSlot => "static slot"
  | frameSlot _ => "frame slot"
  | accessors .. => "accessors"
  | bodiless => "abstract"
  | empty => "empty"

def isBodiless : Target σ → Bool
  | bodiless => true
  | _ => false

end Target

/-- What serves the members of an object when they are called from outside. -/
inductive Link (σ : Type) where
  /-- A session: the object's instance frame and member table in it. -/
  | session (session : SessionId) (frame : FrameId) (table : MemberTable)
  /-- Something else. -/
  | foreign (serve : ObjectRef → SymbolId → List ClosedType → List Value → HostAction σ Value)

/-- What an object holds. A slot that was never stored is absent. -/
structure ObjectCell (σ : Type) where
  slots : Table SymbolId Value
  link : Option (Link σ)

/-- What a session has decided and stored. -/
structure SessionState (σ : Type) where
  classFrames : Table ClosedType FrameId
  targets : Table SymbolId (Target σ)
  statics : Table (ClosedType × SymbolId) Value
  registry : Registry
  tables : Table ClosedType MemberTable
  isOpen : Bool

def SessionState.fresh {σ : Type} : SessionState σ := ⟨.empty, .empty, .empty, .empty, .empty, true⟩

structure World (σ : Type) where
  objects : Array (ObjectCell σ)
  arrays : Array ArrayCell
  frames : FrameStore
  sessions : Table SessionId (SessionState σ)
  host : σ
  /-- The calls made to the host, the latest first. -/
  trace : List HostCall
  /-- Those that failed, the latest first. -/
  failures : List HostFailure

namespace World

variable {σ : Type}

/-- Nothing has happened yet. -/
def initial (host : σ) : World σ := ⟨#[], #[], .empty, .empty, host, [], []⟩

/-- The state of a session; one that nothing happened in is fresh. -/
def session (w : World σ) (s : SessionId) : SessionState σ := (w.sessions.get? s).getD .fresh

def mapSession (w : World σ) (s : SessionId) (f : SessionState σ → SessionState σ) : World σ :=
  { w with sessions := w.sessions.insert s (f (w.session s)) }

def record (w : World σ) (call : HostCall) : World σ := { w with trace := call :: w.trace }

def noteFailure (w : World σ) (call : HostCall) (e : EvalError) : World σ :=
  { w with failures := ⟨call, e, w.trace.length⟩ :: w.failures }

/-- Carry out a call to the host, and note it when it fails. -/
def noting {α : Type} (call : HostCall) (m : Run (World σ) α) : Run (World σ) α := fun w =>
  match m w with
  | (.error (.failed e), w') => (.error (.failed e), w'.noteFailure call e)
  | r => r

/-- A new object without slots and without a link. -/
def newObject (w : World σ) (type : ClosedType) : ObjectRef × World σ :=
  (⟨w.objects.size, type⟩, { w with objects := w.objects.push ⟨.empty, none⟩ })

def newArray (w : World σ) (element : ClosedType) (cell : ArrayCell) : ArrayRef × World σ :=
  (⟨w.arrays.size, element, cell.lengths.length⟩, { w with arrays := w.arrays.push cell })

def loadSlot? (w : World σ) (o : ObjectRef) (field : SymbolId) : Option Value :=
  (w.objects[o.id]?).bind fun cell => cell.slots.get? field

def storeSlot (w : World σ) (o : ObjectRef) (field : SymbolId) (v : Value) : World σ :=
  { w with objects := w.objects.modify o.id fun cell =>
      { cell with slots := cell.slots.insert field v } }

def link? (w : World σ) (o : ObjectRef) : Option (Link σ) :=
  (w.objects[o.id]?).bind ObjectCell.link

def isBound (w : World σ) (o : ObjectRef) : Bool := (w.link? o).isSome

/-- Attach a link to an object that has none. -/
def bind (o : ObjectRef) (link : Link σ) : Run (World σ) Unit := fun w =>
  if w.isBound o then (.error (.failed (.of (.alreadyBound o.type.text))), w)
  else (.ok (), { w with objects := w.objects.modify o.id fun cell => { cell with link := some link } })

/-- The link of an object to a session, if that is what it is bound to. -/
def bindingOf? (w : World σ) (s : SessionId) (o : ObjectRef) : Option (FrameId × MemberTable) :=
  match w.link? o with
  | some (.session s' frame table) => if s' = s then some (frame, table) else none
  | _ => none

def instanceFrame? (w : World σ) (s : SessionId) (o : ObjectRef) : Option FrameId :=
  (w.bindingOf? s o).map Prod.fst

def cell? (w : World σ) (a : ArrayRef) : Option ArrayCell := w.arrays[a.id]?

def elements (w : World σ) (a : ArrayRef) : List Value :=
  match w.cell? a with
  | some cell => cell.data.toList
  | none => []

def getElement (w : World σ) (a : ArrayRef) (indices : List Int) : Except EvalError Value :=
  match w.cell? a with
  | some cell => cell.get indices
  | none => .ok .void

/-- Store an element, or fail and change nothing. -/
def setElement (a : ArrayRef) (indices : List Int) (v : Value) : Run (World σ) Unit := fun w =>
  match w.cell? a with
  | some cell =>
    match cell.set indices v with
    | .ok cell' => (.ok (), { w with arrays := w.arrays.setIfInBounds a.id cell' })
    | .error e => (.error (.failed e), w)
  | none => (.ok (), w)

/-- The class frame of a type in a session, made on the first request. -/
def classFrame (s : SessionId) (type : ClosedType) : Run (World σ) FrameId :=
  Run.modifyGet fun w =>
    match (w.session s).classFrames.get? type with
    | some f => (f, w)
    | none =>
      let (f, frames) := w.frames.addClass type
      (f, { w with frames := frames }.mapSession s fun state =>
        { state with classFrames := state.classFrames.insert type f })

def childFrame (parent : FrameId) (kind : FrameKind) : Run (World σ) FrameId :=
  Run.modifyGet fun w =>
    let (f, frames) := w.frames.addChild parent kind
    (f, { w with frames := frames })

/-- Change the frames, or fail on account of a name and change nothing. -/
def changeFrames (name : String) (change : FrameStore → Except FrameError FrameStore) :
    Run (World σ) Unit := fun w =>
  match change w.frames with
  | .ok frames => (.ok (), { w with frames := frames })
  | .error e => (.error (.failed (.of (e.cause name))), w)

def declare (f : FrameId) (name : String) : Run (World σ) Unit :=
  changeFrames name fun frames => frames.declare f name

def define (f : FrameId) (name : String) (v : Value) : Run (World σ) Unit :=
  changeFrames name fun frames => frames.define f name v

def assign (f : FrameId) (name : String) (v : Value) : Run (World σ) Unit :=
  changeFrames name fun frames => frames.assign f name v

def readName (w : World σ) (f : FrameId) (name : String) : Except EvalError Value :=
  match w.frames.read f name with
  | .ok v => .ok v
  | .error e => .error (.of (e.cause name))

end World

end OpTree
