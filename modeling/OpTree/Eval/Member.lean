/-
Reaching members. How a member is reached is decided by its description, its
handle and its tree, once for a session; calls, reads and writes then go that
way. A virtual call on an object of the session first asks the object's member
table, so that the most derived body runs.

A body runs on a new method frame over the class frame of the type that
contains it, and beside the instance frame of its receiver.
-/
import OpTree.Eval.Machine

namespace OpTree

def Host.decide {σ : Type} (host : Host σ) (symbol : SymbolId) : Except EvalError (Target σ) := do
  let member ← host.member symbol
  match ← host.handle symbol with
  | some handle => return .physical handle
  | none =>
    if member.origin = .loaded then
      .error (.of (.unresolvedMember member.name (host.typeName member.declaringType)
        "loaded member has no physical implementation"))
    else
      match member.kind with
      | .field _ => return if member.isStatic then .staticSlot else .slot
      | .property _ _ getter setter =>
        let declaring ← host.typeDescriptor member.declaringType
        if declaring.kind = .anonymous then return .frameSlot member.name
        else if getter.isSome || setter.isSome then return .accessors getter setter
        else return if member.isStatic then .staticSlot else .slot
      | .method .. =>
        match host.tree symbol with
        | some tree => return .interpreted tree
        | none => return if member.origin = .source then .bodiless else .empty
      | .constructor _ =>
        match host.tree symbol with
        | some tree => return .interpreted tree
        | none => return .empty

/-- The value of storage before anything is stored: the default of the declared
type, closed by the arguments of the containing type. -/
def Host.storageDefault {σ : Type} (host : Host σ) (m : ResolvedMember) : Except EvalError Value := do
  let member ← host.member m.symbol
  match member.kind.storedType? with
  | some type =>
    let closed ← type.close (Substitution.ofType m.containing.typeArgs).resolver
    return closed.defaultValue
  | none => return .void

def Host.objectReceiver {σ : Type} (host : Host σ) (m : ResolvedMember) :
    Option Value → Except EvalError (Option ObjectRef)
  | none => .ok none
  | some (.object o) => .ok (some o)
  | some .null => .error (.of (.nullReference (host.memberName m.symbol)))
  | some v => .error (.of (.typeMismatch m.containing.text v.typeName))

def Host.requireObject {σ : Type} (host : Host σ) (m : ResolvedMember) (receiver : Option Value) :
    Except EvalError ObjectRef := do
  match ← host.objectReceiver m receiver with
  | some o => return o
  | none => .error (.of (.nullReference (host.memberName m.symbol)))

namespace Context

variable {σ : Type} (c : Context σ)

/-- How a member is reached: what was decided before, or is decided now. -/
def target (symbol : SymbolId) : Run (World σ) (Target σ) := do
  match ← Run.gets fun w => (w.session c.session).targets.get? symbol with
  | some t => return t
  | none =>
    let t ← c.host.decide symbol
    Run.modify fun w => w.mapSession c.session fun state =>
      { state with targets := state.targets.insert symbol t }
    return t

/-- The start of a member's body: parameters are bound to arguments in a new
method frame over the class frame of the containing type. -/
def prepare (symbol : SymbolId) (containing : ClosedType) (typeArgs : List ClosedType)
    (receiver : Option ObjectRef) (args : List Value) : Run (World σ) Activation := do
  let member ← c.host.member symbol
  if member.arity ≠ args.length then
    Run.fail (.arityMismatch member.name member.arity args.length)
  else
    let classFrame ← World.classFrame c.session containing
    let methodFrame ← World.childFrame classFrame (.ofMethod symbol typeArgs)
    Run.forList (fun (p : Parameter × Value) => World.define methodFrame p.1.name p.2)
      (member.parameters.zip args)
    match receiver with
    | none => return .start methodFrame none
    | some o =>
      match ← Run.gets fun w => w.instanceFrame? c.session o with
      | some frame => return .start methodFrame (some frame)
      | none =>
        let frame ← World.childFrame classFrame (.ofInstance (some o))
        return .start methodFrame (some frame)

def runInterpreted (tree : Node) (symbol : SymbolId) (containing : ClosedType)
    (typeArgs : List ClosedType) (receiver : Option ObjectRef) (args : List Value) :
    Run (World σ) Value := do
  let activation ← c.prepare symbol containing typeArgs receiver args
  c.runBody activation tree

/-- The most derived body of a member for a receiver that is an object of the
session. -/
def overrideOf (w : World σ) (receiver : Option Value) (symbol : SymbolId) :
    Option (ObjectRef × RegistryEntry) :=
  match receiver with
  | some (.object o) =>
    match w.bindingOf? c.session o with
    | some (_, table) =>
      ((table.lookup symbol).bind (w.session c.session).registry.get?).map fun entry => (o, entry)
    | none => none
  | _ => none

def notReachable (m : ResolvedMember) (reason : String) : Cause :=
  .unresolvedMember (c.host.memberName m.symbol) m.containing.text reason

/-- Call a loaded member. A null receiver fails before the host is asked. -/
def invokeHandle (m : ResolvedMember) (handle : Handle σ) (receiver : Option Value)
    (args : List Value) (typeArgs : List ClosedType) : Run (World σ) Value :=
  match receiver with
  | some .null => Run.fail (.nullReference (c.host.memberName m.symbol))
  | _ =>
    let call : PhysicalCall := ⟨receiver, args, typeArgs, m.containing⟩
    c.callHost (.invoke m.symbol call) (handle.invoke call)

/-- Call a method, an accessor or the body of a constructor the way it is
reached, overrides left aside. -/
def callTarget (m : ResolvedMember) (target : Target σ) (receiver : Option Value)
    (args : List Value) : Run (World σ) Value :=
  match target with
  | .interpreted tree => do
    let o ← c.host.objectReceiver m receiver
    c.runInterpreted tree m.symbol m.containing m.typeArgs o args
  | .physical handle => c.invokeHandle m handle receiver args m.typeArgs
  | .empty => pure .void
  | .bodiless =>
    Run.fail (c.notReachable m "member has no body and the receiver has no override")
  | other => Run.fail (c.notReachable m (other.name ++ " member is not invocable"))

/-- Call a member. A virtual call, and a call of a member without a body, runs
the receiver's most derived body if there is one. -/
def callMember (m : ResolvedMember) (receiver : Option Value) (args : List Value)
    (isVirtual : Bool) : Run (World σ) Value := do
  let target ← c.target m.symbol
  let derived ← Run.gets fun w =>
    if isVirtual || target.isBodiless then c.overrideOf w receiver m.symbol else none
  match derived with
  | some (o, entry) =>
    c.runInterpreted entry.tree entry.symbol entry.context m.typeArgs (some o) args
  | none => c.callTarget m target receiver args

def boundFrame (o : ObjectRef) : Run (World σ) FrameId := fun w =>
  match w.instanceFrame? c.session o with
  | some frame => (.ok frame, w)
  | none => (.error (.failed (.of (.notBound o.type.text))), w)

def getMember (m : ResolvedMember) (receiver : Option Value) (index : List Value)
    (isVirtual : Bool) : Run (World σ) Value := do
  match ← c.target m.symbol with
  | .physical handle =>
    if receiver.any Value.isNull then Run.fail (.nullReference (c.host.memberName m.symbol))
    else
      let member ← c.host.member m.symbol
      if member.kind.isField then c.callHost (.load m.symbol receiver) (handle.load receiver)
      else c.invokeHandle m handle receiver index []
  | .slot =>
    let o ← c.host.requireObject m receiver
    match ← Run.gets fun w => w.loadSlot? o m.symbol with
    | some v => return v
    | none => Run.ofExcept (c.host.storageDefault m)
  | .staticSlot =>
    match ← Run.gets fun w => (w.session c.session).statics.get? (m.containing, m.symbol) with
    | some v => return v
    | none => Run.ofExcept (c.host.storageDefault m)
  | .frameSlot name =>
    let o ← c.host.requireObject m receiver
    let frame ← c.boundFrame o
    Run.ofExcept (← Run.gets fun w => w.readName frame name)
  | .accessors (some getter) _ => c.callMember ⟨getter, m.containing, []⟩ receiver index isVirtual
  | other => Run.fail (c.notReachable m (other.name ++ " member is not readable"))

def setMember (m : ResolvedMember) (receiver : Option Value) (index : List Value) (v : Value)
    (isVirtual : Bool) : Run (World σ) Unit := do
  match ← c.target m.symbol with
  | .physical handle =>
    if receiver.any Value.isNull then Run.fail (.nullReference (c.host.memberName m.symbol))
    else
      let member ← c.host.member m.symbol
      if member.kind.isField then
        c.callHost (.store m.symbol receiver v) (handle.store receiver v)
      else
        let _ ← c.invokeHandle m handle receiver (index ++ [v]) []
        return ()
  | .slot =>
    let o ← c.host.requireObject m receiver
    Run.modify fun w => w.storeSlot o m.symbol v
  | .staticSlot =>
    Run.modify fun w => w.mapSession c.session fun state =>
      { state with statics := state.statics.insert (m.containing, m.symbol) v }
  | .frameSlot name =>
    let o ← c.host.requireObject m receiver
    let frame ← c.boundFrame o
    World.assign frame name v
  | .accessors _ (some setter) =>
    let _ ← c.callMember ⟨setter, m.containing, []⟩ receiver (index ++ [v]) isVirtual
    return ()
  | other => Run.fail (c.notReachable m (other.name ++ " member is not writable"))

end Context

end OpTree
