/-
What can be asked of a session from outside: objects are made, members and bodies
of constructors are interpreted in a frame that the caller holds, and members of
objects are called through their links. `Request.run` is each of these; what has no
value is answered as void.

A request does nothing of its own to the world. So what contexts agree on, requests
agree on (`Request.agrees`), wherever a run is held against itself.
-/
import OpTree.Proofs.Growth
import OpTree.Session

namespace OpTree

/-- What is asked of a session. Each but a call of an object's member carries the
caller's wish to cancel. -/
inductive Request where
  /-- Make an object, by the constructor that the arguments select. -/
  | create (type : ClosedType) (args : List Value) (cancelled : Bool)
  /-- Make an object through a given constructor. -/
  | createWith (constructor : SymbolId) (type : ClosedType) (args : List Value) (cancelled : Bool)
  | interpret (member : SymbolId) (frame : FrameId) (args : List Value) (cancelled : Bool)
  | interpretGeneric (member : SymbolId) (frame : FrameId) (typeArgs : List ClosedType)
      (args : List Value) (cancelled : Bool)
  /-- Run the body of a constructor against the instance of a frame. -/
  | interpretConstructor (constructor : SymbolId) (frame : FrameId) (args : List Value)
      (cancelled : Bool)
  /-- Call a member of an object through the object's link. -/
  | dispatch (o : ObjectRef) (member : SymbolId) (typeArgs : List ClosedType) (args : List Value)

namespace Request

variable {σ : Type}

/-- Carry out a request. -/
def run (s : Session σ) : Request → Run (World σ) Value
  | create type args cancelled => do return .object (← s.createInstance type args cancelled)
  | createWith constructor type args cancelled => do
    return .object (← s.createInstanceWith constructor type args cancelled)
  | interpret member frame args cancelled => s.interpret member frame args cancelled
  | interpretGeneric member frame typeArgs args cancelled =>
    s.interpretGeneric member frame typeArgs args cancelled
  | interpretConstructor constructor frame args cancelled => do
    s.interpretConstructor constructor frame args cancelled
    return .void
  | dispatch o member typeArgs args => o.dispatch s.host s.fuel member typeArgs args

section

variable {s : Session σ} {W : WorldTerms s.host} (one : ∀ {b w w'}, W.ties b w w' → w = w')

include one

theorem classTypeOf_agrees (frame : FrameId) : Run.Agrees W.toTerms
    (Session.classTypeOf frame) (Session.classTypeOf frame) :=
  .still fun b w w' hw => by
    cases one hw
    simp only [Session.classTypeOf]
    split
    · exact ⟨_, rfl, rfl⟩
    · exact ⟨_, rfl, rfl⟩

theorem interpretGeneric_agrees (h : s.context.Agrees W s.context) (member : SymbolId)
    (frame : FrameId) (typeArgs : List ClosedType) (args : List Value) (cancelled : Bool) :
    Run.Agrees W.toTerms (s.interpretGeneric member frame typeArgs args cancelled)
      (s.interpretGeneric member frame typeArgs args cancelled) := by
  refine .bind (.ite (fun _ => .fail _) fun _ => .pure _) fun _ => ?_
  refine .bind (classTypeOf_agrees one frame) fun containing => ?_
  refine .bind (.gets fun b w w' hw => by cases one hw; rfl) fun receiver => ?_
  exact h.callMember _ _ _ _

theorem interpretConstructor_agrees (h : s.context.Agrees W s.context) (constructor : SymbolId)
    (frame : FrameId) (args : List Value) (cancelled : Bool) :
    Run.Agrees W.toTerms (s.interpretConstructor constructor frame args cancelled)
      (s.interpretConstructor constructor frame args cancelled) := by
  refine .bind (.ite (fun _ => .fail _) fun _ => .pure _) fun _ => ?_
  refine .bind (.gets fun b w w' hw => by cases one hw; rfl) fun found => ?_
  cases found with
  | none => exact .fail _
  | some o =>
    refine .bind (classTypeOf_agrees one frame) fun containing => ?_
    refine .bind (h.target constructor) fun target => ?_
    split
    · exact .bind (h.runInterpreted _ _ _ _ _ _) fun _ => .pure _
    · exact .pure _
    · exact .fail _

theorem agrees (h : s.context.Agrees W s.context) :
    ∀ r : Request, Run.Agrees W.toTerms (r.run s) (r.run s)
  | create type args cancelled => by
    refine .bind (.bind (.ite (fun _ => .fail _) fun _ => .pure _) fun _ => ?_) fun _ => .pure _
    exact h.activate type args
  | createWith constructor type args cancelled => by
    refine .bind (.bind (.ite (fun _ => .fail _) fun _ => .pure _) fun _ => ?_) fun _ => .pure _
    exact .bind (.ofExcept _) fun member => h.activateWith member type args
  | interpret member frame args cancelled =>
    interpretGeneric_agrees one h member frame [] args cancelled
  | interpretGeneric member frame typeArgs args cancelled =>
    interpretGeneric_agrees one h member frame typeArgs args cancelled
  | interpretConstructor constructor frame args cancelled =>
    .bind (interpretConstructor_agrees one h constructor frame args cancelled) fun _ => .pure _
  | dispatch o member typeArgs args => h.dispatch o member typeArgs args

end

theorem grows (s : Session σ) (r : Request) (w : World σ) : w.Grows s.host (r.run s w).2 := by
  have agrees := agrees (W := World.growing s.host False False) (fun h => h.1.symm.trans h.2)
    (Context.within_grows s.host s.fuel s.id) r
  exact agrees.grows rfl

end Request

end OpTree
