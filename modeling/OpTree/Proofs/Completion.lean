/-
What statements mean without signals. Each statement completes: normally with a
value, by a break or a continue of the loop around it, or by a return. A block
stops at the first of its statements that completes abruptly; a loop takes the
breaks and continues of its own body and of nothing else; a return goes through
everything up to the end of the body.

No completion is kept in a state. What an expression does is what evaluation
makes of it, so this is a semantics of statements alone. `Node.Plain` are the
nodes that are expressions in this sense and `Node.Statement` those in which
blocks, loops, branches and returns stand only where statements do.
-/
import OpTree.Eval.Engine
import OpTree.Proofs.TypeMap

namespace OpTree

/-- Nothing that is evaluated below leaves a signal or takes one back. -/
inductive Node.Plain : Node → Prop where
  | mk {span op} : op.signals = false → (∀ y ∈ op.operands, Node.Plain y) → Node.Plain (.mk span op)

/-- Loops, branches and returns stand only where statements do: at the root, as
items of blocks, as bodies of loops and as arms of conditionals that do. -/
inductive Node.Statement : Node → Prop where
  | plain {x} : x.Plain → Node.Statement x
  | block {span statements} : (∀ x ∈ statements, Node.Statement x) →
      Node.Statement (.mk span (.block statements))
  | conditional {span condition whenTrue whenFalse} : condition.Plain → Node.Statement whenTrue →
      (∀ x ∈ whenFalse.toList, Node.Statement x) →
      Node.Statement (.mk span (.conditional condition whenTrue whenFalse))
  | whileLoop {span condition body testFirst} : condition.Plain → Node.Statement body →
      Node.Statement (.mk span (.whileLoop condition body testFirst))
  | forLoop {span before condition after body} : (∀ x ∈ before, x.Plain) →
      (∀ x ∈ condition.toList, x.Plain) → (∀ x ∈ after, x.Plain) → Node.Statement body →
      Node.Statement (.mk span (.forLoop before condition after body))
  | forEachLoop {span item collection body} : collection.Plain → Node.Statement body →
      Node.Statement (.mk span (.forEachLoop item collection body))
  | branch {span kind} : Node.Statement (.mk span (.branch kind))
  | returnWith {span value} : (∀ x ∈ value.toList, x.Plain) →
      Node.Statement (.mk span (.returnWith value))

/-- How a statement completes. -/
inductive Completion where
  | normal (v : Value)
  | broke
  | continued
  | returned (v : Value)

/-- What a round of a loop comes to. -/
inductive Round where
  | again
  | ends
  | returns (v : Value)

namespace Completion

/-- What the completion of its body is to a loop. -/
def round : Completion → Round
  | normal _ | continued => .again
  | broke => .ends
  | returned v => .returns v

/-- The answer of a body that completes so. -/
def answer : Completion → Except EvalError Value
  | normal v | returned v => .ok v
  | broke | continued => .error (.of (.missingContext "enclosing loop"))

end Completion

namespace Run

variable {σ : Type}

/-- Rounds until one does not ask for another, in at most some number. -/
def rounds (round : Run σ Round) : Nat → Run σ Completion
  | 0 => exhausted
  | n + 1 => do
    match ← round with
    | .again => rounds round n
    | .ends => return .normal .void
    | .returns v => return .returned v

end Run

namespace Context

variable {σ : Type} (c : Context σ) (run : Node → Run (Machine σ) Completion)

/-- Statements up to the first that completes abruptly. -/
def completeAll : List Node → Run (Machine σ) Completion
  | [] => pure (.normal .void)
  | statement :: rest => do
    match ← run statement with
    | .normal _ => completeAll rest
    | abrupt => return abrupt

def completeArm (condition whenTrue : Node) (whenFalse : Option Node) : Run (Machine σ) Completion := do
  if ← c.test condition then Run.withScope (run whenTrue)
  else
    match whenFalse with
    | some node => Run.withScope (run node)
    | none => return .normal .void

/-- A body, for the loop around it. -/
def completeBody (body : Node) : Run (Machine σ) Round := do
  return (← run body).round

def whileRound (condition body : Node) : Run (Machine σ) Round := do
  if ← c.test condition then completeBody run body else return .ends

def completeWhile (condition body : Node) (testFirst : Bool) : Run (Machine σ) Completion :=
  Run.withScope do
    if testFirst then Run.rounds (c.whileRound run condition body) c.fuel
    else
      match ← completeBody run body with
      | .again => Run.rounds (c.whileRound run condition body) c.fuel
      | .ends => return .normal .void
      | .returns v => return .returned v

/-- A round of a loop with steps: they follow a body that was completed normally
or continued. -/
def forRound (condition : Option Node) (after : List Node) (body : Node) :
    Run (Machine σ) Round := do
  let goes ← match condition with
    | some node => c.test node
    | none => pure true
  if goes then
    match ← completeBody run body with
    | .again =>
      Run.forList c.exec after
      return .again
    | ended => return ended
  else return .ends

def completeFor (before : List Node) (condition : Option Node) (after : List Node) (body : Node) :
    Run (Machine σ) Completion :=
  Run.withScope do
    Run.forList c.exec before
    Run.rounds (c.forRound run condition after body) c.fuel

/-- A body for each item, in a scope where the item has a name. -/
def completeItems (name : String) (body : Node) : List Value → Run (Machine σ) Completion
  | [] => pure (.normal .void)
  | item :: rest => do
    let round ← Run.withScope do
      Run.defineLocal name item
      completeBody run body
    match round with
    | .again => completeItems name body rest
    | .ends => return .normal .void
    | .returns v => return .returned v

def completeForEach (name : String) (collection body : Node) : Run (Machine σ) Completion := do
  let v ← c.eval collection
  let items ← Run.ofExcept (← Run.gets fun s => itemsOf s.world v)
  completeItems run name body items

/-- How one operation completes. -/
def completeOp (op : Op) : Run (Machine σ) Completion :=
  match op with
  | .block statements => Run.withScope (completeAll run statements)
  | .conditional condition whenTrue whenFalse => c.completeArm run condition whenTrue whenFalse
  | .whileLoop condition body testFirst => c.completeWhile run condition body testFirst
  | .forLoop before condition after body => c.completeFor run before condition after body
  | .forEachLoop name collection body => c.completeForEach run name collection body
  | .branch .breakLoop => pure .broke
  | .branch .continueLoop => pure .continued
  | .returnWith none => pure (.returned .void)
  | .returnWith (some value) => do return .returned (← c.eval value)
  | expression => do return .normal (← c.evalOp expression)

end Context

/-- How a node of a session completes, in at most some number of nested steps. -/
def completeWithin {σ : Type} (host : Host σ) : Nat → SessionId → Node → Run (Machine σ) Completion
  | 0, _, _ => Run.exhausted
  | n + 1, session, node =>
    Run.orSpan node.span
      ((Context.within host n session).completeOp (completeWithin host n session) node.op)

/-- A body run from a world to its end: its root is completed in an activation of
its own, and a break or a continue that is left is an error. -/
def completeBodyWithin {σ : Type} (host : Host σ) (fuel : Nat) (session : SessionId) (a : Activation)
    (body : Node) : Run (World σ) Value :=
  Run.within a do
    let completion ← completeWithin host fuel session body
    Run.ofExcept completion.answer

end OpTree
