/-
Statements. A statement that returns or branches leaves a signal in the
activation; a block stops at the first statement after which there is one, and
a loop takes back the branches of its body. Blocks, arms and loops have a scope
of their own; the iterations of a loop over a collection have one each.
-/
import OpTree.Eval.Machine

namespace OpTree

namespace Run

variable {σ α : Type}

/-- Repeat a round while it answers that there is another, in at most some
number of rounds. -/
def repeatWhile (round : Run σ Bool) : Nat → Run σ Unit
  | 0 => exhausted
  | n + 1 => do
    if ← round then repeatWhile round n

/-- After a body: whether its loop ends here. A branch is taken back; a pending
return stays for the statements around the loop. -/
def loopExit : Run (Machine σ) Bool := Run.modifyGet fun s =>
  if s.activation.pendingReturn.isSome then (true, s)
  else
    (s.activation.branch = some .breakLoop,
      { s with activation := { s.activation with branch := none } })

def defineLocal (name : String) (v : Value) : Run (Machine σ) Unit := do
  let frame ← currentFrame
  onWorld (World.define frame name v)

def declareLocal (name : String) : Run (Machine σ) Unit := do
  let frame ← currentFrame
  onWorld (World.declare frame name)

end Run

namespace Context

variable {σ : Type} (c : Context σ)

def exec (node : Node) : Run (Machine σ) Unit := do
  let _ ← c.eval node
  return ()

/-- Evaluate statements until one leaves a signal. -/
def execStatements : List Node → Run (Machine σ) Unit
  | [] => pure ()
  | statement :: rest => do
    c.exec statement
    if ← Run.gets fun s => s.activation.interrupted then return ()
    else execStatements rest

def runBlock (statements : List Node) : Run (Machine σ) Value :=
  Run.withScope do
    c.execStatements statements
    return .void

def test (condition : Node) : Run (Machine σ) Bool := do
  let v ← c.eval condition
  Run.ofExcept v.asBool

def declareVariable (name : String) (initializer : Option Node) : Run (Machine σ) Value := do
  match initializer with
  | some node =>
    let v ← c.eval node
    Run.defineLocal name v
    return .void
  | none =>
    Run.declareLocal name
    return .void

/-- Evaluate the arm that a condition selects; an absent one is void. -/
def choose (condition whenTrue : Node) (whenFalse : Option Node) : Run (Machine σ) Value := do
  if ← c.test condition then Run.withScope (c.eval whenTrue)
  else
    match whenFalse with
    | some node => Run.withScope (c.eval node)
    | none => return .void

/-- Evaluate a loop's body, and whether the loop goes on. -/
def execBody (body : Node) : Run (Machine σ) Bool := do
  c.exec body
  return !(← Run.loopExit)

def guardedRound (condition body : Node) : Run (Machine σ) Bool := do
  if ← c.test condition then c.execBody body else return false

def runWhile (condition body : Node) (testFirst : Bool) : Run (Machine σ) Value :=
  Run.withScope do
    if testFirst then Run.repeatWhile (c.guardedRound condition body) c.fuel
    else if ← c.execBody body then Run.repeatWhile (c.guardedRound condition body) c.fuel
    return .void

/-- One round of a loop with steps: the steps follow a body that the loop goes
on after. -/
def steppedRound (condition : Option Node) (after : List Node) (body : Node) :
    Run (Machine σ) Bool := do
  let goes ← match condition with
    | some node => c.test node
    | none => pure true
  if goes then
    if ← c.execBody body then
      Run.forList c.exec after
      return true
    else return false
  else return false

def runFor (before : List Node) (condition : Option Node) (after : List Node) (body : Node) :
    Run (Machine σ) Value :=
  Run.withScope do
    Run.forList c.exec before
    Run.repeatWhile (c.steppedRound condition after body) c.fuel
    return .void

/-- The members of a collection: an array's elements or a text's characters, as
they are when the loop begins. -/
def itemsOf (w : World σ) : Value → Except EvalError (List Value)
  | .array a => .ok (w.elements a)
  | .text s => .ok (s.toList.map Value.char)
  | .null => .error (.of (.nullReference "foreach"))
  | v => .error (.of (.unsupportedOperand "foreach" v.typeName))

/-- Run a body for each item, in a scope where the item has a name. -/
def execItems (name : String) (body : Node) : List Value → Run (Machine σ) Unit
  | [] => pure ()
  | item :: rest => do
    let goes ← Run.withScope do
      Run.defineLocal name item
      c.execBody body
    if goes then execItems name body rest

def runForEach (name : String) (collection body : Node) : Run (Machine σ) Value := do
  let v ← c.eval collection
  let items ← Run.ofExcept (← Run.gets fun s => itemsOf s.world v)
  c.execItems name body items
  return .void

end Context

end OpTree
