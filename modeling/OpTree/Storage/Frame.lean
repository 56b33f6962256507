/-
Frames: where names are bound. Every frame but a class frame stands on another,
so the frames below a frame form a chain that ends in a class frame; a name is
looked up along the chain, and bound at most once in it. Frames are never
removed, and a frame knows its chain.

`FrameStore.lookup?` is the nearest binding; reading, assigning and declaring
are defined by it. `FrameStore.genericArgument` resolves generic parameters: a
method frame answers for a method's, the class frame for the type's.
-/
import OpTree.Table
import OpTree.Value

namespace OpTree

structure FrameId where
  index : Nat
deriving DecidableEq, Repr

/-- What a name stands for in a frame. -/
inductive Binding where
  /-- Declared, and nothing assigned yet. -/
  | unassigned
  | assigned (v : Value)

/-- Why a name could not be used. -/
inductive FrameError where
  | undefined | redeclared | unassigned
deriving DecidableEq, Repr

def FrameError.cause (e : FrameError) (name : String) : Cause :=
  match e with
  | undefined => .undefinedName name
  | redeclared => .redeclaration name
  | unassigned => .unassignedUse name

inductive FrameKind where
  /-- The root of a chain: one closed type. -/
  | ofClass (type : ClosedType)
  /-- One object; none once the object is gone. -/
  | ofInstance (object : Option ObjectRef)
  /-- One call of a member. -/
  | ofMethod (member : SymbolId) (typeArgs : List ClosedType)
  /-- A block or a loop. -/
  | scope

/-- The arguments a frame holds for the parameters of a level. -/
def FrameKind.arguments? : FrameKind → GenericLevel → Option (List ClosedType)
  | .ofClass type, .type => some type.typeArgs
  | .ofMethod _ typeArgs, .method => some typeArgs
  | _, _ => none

structure Frame where
  kind : FrameKind
  /-- The frames it stands on, the nearest first. -/
  ancestors : List FrameId
  bindings : Table String Binding

/-- All frames that were ever made. -/
structure FrameStore where
  frames : Array Frame

namespace FrameStore

def empty : FrameStore := ⟨#[]⟩

def frame? (s : FrameStore) (f : FrameId) : Option Frame := s.frames[f.index]?

/-- The frame and the frames it stands on, the nearest first. -/
def chain (s : FrameStore) (f : FrameId) : List FrameId :=
  f :: match s.frame? f with
    | some frame => frame.ancestors
    | none => []

def add (s : FrameStore) (kind : FrameKind) (ancestors : List FrameId) : FrameId × FrameStore :=
  (⟨s.frames.size⟩, ⟨s.frames.push ⟨kind, ancestors, .empty⟩⟩)

/-- A class frame, at the root of a new chain. -/
def addClass (s : FrameStore) (type : ClosedType) : FrameId × FrameStore :=
  s.add (.ofClass type) []

/-- A frame of any other kind, on top of `parent`. -/
def addChild (s : FrameStore) (parent : FrameId) (kind : FrameKind) : FrameId × FrameStore :=
  s.add kind (s.chain parent)

def bindings (s : FrameStore) (f : FrameId) : Table String Binding :=
  match s.frame? f with
  | some frame => frame.bindings
  | none => .empty

/-- What a name is bound to in a frame itself. -/
def bindingAt? (s : FrameStore) (f : FrameId) (name : String) : Option Binding :=
  (s.bindings f).get? name

/-- The first frame among some that binds a name. -/
def owner? (s : FrameStore) (name : String) : List FrameId → Option (FrameId × Binding)
  | [] => none
  | f :: fs =>
    match s.bindingAt? f name with
    | some b => some (f, b)
    | none => s.owner? name fs

/-- The nearest binding of a name, and the frame it is in. -/
def lookup? (s : FrameStore) (f : FrameId) (name : String) : Option (FrameId × Binding) :=
  s.owner? name (s.chain f)

def isBound (s : FrameStore) (f : FrameId) (name : String) : Bool := (s.lookup? f name).isSome

def bindAt (s : FrameStore) (f : FrameId) (name : String) (b : Binding) : FrameStore :=
  ⟨s.frames.modify f.index fun frame => { frame with bindings := frame.bindings.insert name b }⟩

/-- Bind a name that is not bound anywhere in the chain. -/
def insert (s : FrameStore) (f : FrameId) (name : String) (b : Binding) :
    Except FrameError FrameStore :=
  if s.isBound f name then .error .redeclared else .ok (s.bindAt f name b)

def declare (s : FrameStore) (f : FrameId) (name : String) : Except FrameError FrameStore :=
  s.insert f name .unassigned

def define (s : FrameStore) (f : FrameId) (name : String) (v : Value) :
    Except FrameError FrameStore :=
  s.insert f name (.assigned v)

/-- Overwrite the nearest binding of a name. -/
def assign (s : FrameStore) (f : FrameId) (name : String) (v : Value) :
    Except FrameError FrameStore :=
  match s.lookup? f name with
  | some (f', _) => .ok (s.bindAt f' name (.assigned v))
  | none => .error .undefined

/-- Assign where the name is bound, and define it here where it is not. -/
def defineOrAssign (s : FrameStore) (f : FrameId) (name : String) (v : Value) : FrameStore :=
  match s.lookup? f name with
  | some (f', _) => s.bindAt f' name (.assigned v)
  | none => s.bindAt f name (.assigned v)

def read (s : FrameStore) (f : FrameId) (name : String) : Except FrameError Value :=
  match s.lookup? f name with
  | none => .error .undefined
  | some (_, .unassigned) => .error .unassigned
  | some (_, .assigned v) => .ok v

def kind? (s : FrameStore) (f : FrameId) : Option FrameKind := (s.frame? f).map Frame.kind

def parent? (s : FrameStore) (f : FrameId) : Option FrameId :=
  (s.frame? f).bind fun frame => frame.ancestors.head?

def classFrame (s : FrameStore) (f : FrameId) : FrameId := (s.chain f).getLastD f

def classType? (s : FrameStore) (f : FrameId) : Option ClosedType :=
  match s.kind? (s.classFrame f) with
  | some (.ofClass type) => some type
  | _ => none

/-- The object of the first instance frame among some; a class frame ends the
search. -/
def instanceOf? (s : FrameStore) : List FrameId → Option ObjectRef
  | [] => none
  | f :: fs =>
    match s.kind? f with
    | some (.ofInstance object) => object
    | some (.ofClass _) | none => none
    | some (.ofMethod ..) | some .scope => s.instanceOf? fs

def currentInstance? (s : FrameStore) (f : FrameId) : Option ObjectRef :=
  s.instanceOf? (s.chain f)

/-- The arguments of the first frame among some that holds any for a level. -/
def argumentsOf? (s : FrameStore) (level : GenericLevel) : List FrameId → Option (List ClosedType)
  | [] => none
  | f :: fs =>
    match (s.kind? f).bind fun kind => kind.arguments? level with
    | some args => some args
    | none => s.argumentsOf? level fs

/-- What stands for a generic parameter in the chain of a frame. -/
def genericArgument (s : FrameStore) (f : FrameId) : Resolver := fun p =>
  match s.argumentsOf? p.level (s.chain f) with
  | some args => p.argument args
  | none => .error p.unbound

/-- The object is gone: no frame has it as its instance any more. -/
def forget (s : FrameStore) (object : ObjectRef) : FrameStore :=
  ⟨s.frames.map fun frame =>
    match frame.kind with
    | .ofInstance (some o) => if o.id = object.id then { frame with kind := .ofInstance none } else frame
    | _ => frame⟩

end FrameStore

end OpTree
