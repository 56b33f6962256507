/-
Calls on null. No object means no table, so a virtual call on null goes the way that is
decided for the named member, like every other call (`Context.callMember_null`). Each way
looks at the receiver for itself. The interpreted one and the one through the host do so
before they do anything else, and report a null reference; all that is left in the world is
the decision on the member (`Context.nullReceiver_fails`). The way of a member without a body
is through an override only. It does not look at the receiver, and reports on null what it
reports on an object that overrides nothing: that the member has no body.
-/
import OpTree.Proofs.Decisions

namespace OpTree

theorem Host.memberName_of_member {σ : Type} {host : Host σ} {m : SymbolId} {d : MemberDescriptor}
    (hd : host.member m = .ok d) : host.memberName m = d.name := by
  rw [memberName, hd]

namespace Context

variable {σ : Type} (c : Context σ) {m : ResolvedMember}

/-- The answer to a call on null, by the way in which the member is reached. -/
def answerOnNull (m : ResolvedMember) : Target σ → Except Stop Value
  | .interpreted _ | .physical _ =>
    .error (.failed (.of (.nullReference (c.host.memberName m.symbol))))
  | .empty => .ok .void
  | .bodiless =>
    .error (.failed (.of (c.notReachable m "member has no body and the receiver has no override")))
  | other => .error (.failed (.of (c.notReachable m (other.name ++ " member is not invocable"))))

theorem callTarget_null (t : Target σ) (args : List Value) (w : World σ) :
    c.callTarget m t (some .null) args w = (c.answerOnNull m t, w) := by
  cases t <;> rfl

/-- A call on null is answered by the decision on the member alone. -/
theorem callMember_null (args : List Value) (isVirtual : Bool) (w : World σ) :
    c.callMember m (some .null) args isVirtual w =
      ((c.target m.symbol w).1 >>= c.answerOnNull m, (c.target m.symbol w).2) := by
  have underived (w' : World σ) : c.overrideOf w' (some .null) m.symbol = none := rfl
  simp only [callMember, Run.bind_def, Run.gets_def, underived, ite_self, callTarget_null]
  rcases c.target m.symbol w with ⟨e | t, w₁⟩ <;> rfl

/-- **A call on null is a null reference where there is something to call.** Whether a call is
virtual or not, whatever the arguments and in every state of the world, calling a member on
null leaves the world as it was, but for the decision on the member: no body runs, the host
is not asked, nothing is stored. Where the member is reached by interpreting its body or by
calling the host, the call fails with a null reference that names it. Where it has no body,
the call fails for want of one. -/
theorem nullReceiver_fails {d : MemberDescriptor} (hd : c.host.member m.symbol = .ok d)
    (args : List Value) (isVirtual : Bool) (w : World σ) :
    let call := c.callMember m (some .null) args isVirtual w
    w.SameButTargets call.2 ∧ ∀ t, (c.target m.symbol w).1 = .ok t →
      ((∃ tree, t = .interpreted tree) ∨ (∃ handle, t = .physical handle) →
        call.1 = .error (.failed (.of (.nullReference d.name)))) ∧
      (t = .bodiless → call.1 = .error (.failed (.of (.unresolvedMember d.name m.containing.text
        "member has no body and the receiver has no override")))) := by
  intro call
  have answered : call = _ := c.callMember_null args isVirtual w
  have named : c.host.memberName m.symbol = d.name := Host.memberName_of_member hd
  rw [answered, ← named]
  refine ⟨c.target_sameButTargets m.symbol w, fun t reached => ?_⟩
  rw [reached]
  constructor
  · rintro (⟨tree, rfl⟩ | ⟨handle, rfl⟩) <;> rfl
  · rintro rfl
    rfl

end Context

/-- A type with a method that has no body, one that answers 7, and one that the host serves. -/
def shapes : Scripted.Program :=
  let seven : Node := .mk .dummy (.literal (.int .i32 7))
  let method (m : Nat) (name : String) : MemberDescriptor :=
    ⟨⟨m⟩, name, ⟨1⟩, false, .source, .method [] (.primitive .i32) 0 true none⟩
  ⟨[⟨⟨⟨1⟩, "Shape", .classType, true, 0, none, [], [⟨30⟩, ⟨31⟩, ⟨32⟩]⟩, .fresh⟩],
    [⟨method 30 "Area", none, none⟩,
      ⟨method 31 "Sides", some (.mk .dummy (.block [.mk .dummy (.returnWith (some seven))])), none⟩,
      ⟨method 32 "Width", none, some (.constant (.int .i32 9))⟩]⟩

namespace shapes

def context : Context Scripted.State := .within shapes.host 6 ⟨0⟩

/-- A method of the type. -/
def method (m : Nat) : ResolvedMember := ⟨⟨m⟩, .named ⟨1⟩ [], []⟩

/-- The two methods that there is something to call of are null references on null, and the
host does not hear of the one that it serves. -/
theorem callable_fail :
    let w := World.initial Scripted.State.initial
    let call (m : Nat) := context.callMember (method m) (some .null) [.null] true w
    (∃ d, shapes.host.member ⟨31⟩ = .ok d) ∧ (∃ d, shapes.host.member ⟨32⟩ = .ok d) ∧
      (∃ tree, (context.target ⟨31⟩ w).1 = .ok (.interpreted tree)) ∧
      (∃ handle, (context.target ⟨32⟩ w).1 = .ok (.physical handle)) ∧
      (call 31).1 = .error (.failed (.of (.nullReference "Sides"))) ∧
      (call 32).1 = .error (.failed (.of (.nullReference "Width"))) ∧
      w.SameButTargets (call 31).2 ∧ (call 32).2.trace = [] := by
  intro w call
  obtain ⟨same, interpreted⟩ := context.nullReceiver_fails (m := method 31) rfl [.null] true w
  obtain ⟨same', served⟩ := context.nullReceiver_fails (m := method 32) rfl [.null] true w
  exact ⟨⟨_, rfl⟩, ⟨_, rfl⟩, ⟨_, rfl⟩, ⟨_, rfl⟩, (interpreted _ rfl).1 (.inl ⟨_, rfl⟩),
    (served _ rfl).1 (.inr ⟨_, rfl⟩), same, same'.trace.symm⟩

/-- The method without a body is no null reference on null, virtually or not. -/
theorem bodiless_unresolved :
    let w := World.initial Scripted.State.initial
    ∀ isVirtual, (context.callMember (method 30) (some .null) [] isVirtual w).1 =
      .error (.failed (.of (.unresolvedMember "Area" "type#1"
        "member has no body and the receiver has no override"))) := by
  rintro w (_ | _) <;> rfl

end shapes

end OpTree
