/-
Evaluation tied together, in two runs. The bounds on nested steps are what the
induction is on: contexts that are bounded by `n` and by `n'` evaluate alike as soon
as contexts with bounds below do, since a node only evaluates what it evaluates
through its context.

So whatever the steps on worlds keep (`WorldTerms`), all evaluation keeps:
`Context.within_agrees` says it of whatever a session runs, and
`NodeTerms.evalWithin` of trees with other types in them, of runs from frames of
some kind, and of nodes that leave no signal.
-/
import OpTree.Proofs.Nodes

namespace OpTree

open Run (Enough)

variable {σ : Type} {host : Host σ}

theorem Context.Agrees.onAll {W : WorldTerms host} {c c' : Context σ} (h : c.Agrees W c') :
    c.AgreesOn (.all W) c' :=
  { h with
    node := fun {x} _ => by
      have hid : x.mapTypes (NodeTerms.all W).types = x := x.mapTypes_id
      rw [hid]
      exact h.eval x }

theorem Context.Agrees.evalNode {W : WorldTerms host} {c c' : Context σ} (h : c.Agrees W c')
    (x : Node) : Run.Agrees (NodeTerms.all W).machine (c.evalNode x) (c'.evalNode x) := by
  have hx := h.onAll.evalNode (x := x) trivial
  have hid : x.mapTypes (NodeTerms.all W).types = x := x.mapTypes_id
  rwa [hid] at hx

/-- An object is called through its link alike by those who serve alike. -/
theorem dispatchWithin_agrees {W : WorldTerms host} {n n' : Nat}
    (ih : ∀ session, (Context.within host n session).Agrees W (Context.within host n' session))
    (o : ObjectRef) (m : SymbolId) (typeArgs : List ClosedType) (args : List Value) :
    Run.Agrees W.toTerms (dispatchWithin host (n + 1) o m typeArgs args)
      (dispatchWithin host (n' + 1) o m typeArgs args) := by
  refine .of_ends fun b w w' hs => ?_
  have hl := W.links hs o
  simp only [dispatchWithin]
  generalize found : w.link? o = l at hl
  generalize w'.link? o = l' at hl
  cases hl with
  | none => exact .stay hs
  | foreign serve =>
    have planned := W.planned fun trust => trust.link hs found o m typeArgs args
    exact (Run.Agrees.hostAction (ih ⟨0⟩).dispatch (serve o m typeArgs args) planned).apply hs
  | session session table _ =>
    dsimp only
    rw [← W.isOpen hs session]
    split
    · exact ((ih session).serve table o m typeArgs args).apply hs
    · exact .stay hs

/-- Contexts that are bounded by enough steps evaluate and dispatch alike. -/
theorem Context.within_agrees (W : WorldTerms host) : ∀ n n', Enough W.lax W.lax' n n' →
    ∀ session, (Context.within host n session).Agrees W (Context.within host n' session) := by
  refine Enough.induction (fun n n' hn h0 session => ?_) fun n n' hn ih session => ?_
  · refine ⟨rfl, rfl, rfl, hn, fun x => ?_, fun o m ts vs => ?_⟩
    · exact Enough.exhausted (T := (NodeTerms.all W).machine) hn h0 (by rintro rfl; rfl)
        (by rintro rfl; rfl)
    · exact hn.exhausted h0 (by rintro rfl; rfl) (by rintro rfl; rfl)
  · exact ⟨rfl, rfl, rfl, hn.succ, (ih session).evalNode, dispatchWithin_agrees ih⟩

theorem Context.within_self (W : WorldTerms host) (n : Nat) (session : SessionId) :
    (Context.within host n session).Agrees W (Context.within host n session) :=
  Context.within_agrees W n n (.same n) session

/-- The nodes of the terms run as their copies with other types do. -/
theorem NodeTerms.evalWithin {W : WorldTerms host} (T : NodeTerms W) (session : SessionId) :
    ∀ n n', Enough W.lax W.lax' n n' → ∀ {x}, T.nodes x → Run.Agrees T.machine
      (evalWithin host n session x) (evalWithin host n' session (x.mapTypes T.types)) := by
  refine Enough.induction (fun n n' hn h0 x _ => ?_) fun n n' hn ih x hx => ?_
  · exact Enough.exhausted (T := T.machine) hn h0 (by rintro rfl; rfl) (by rintro rfl; rfl)
  · have on : (Context.within host n session).AgreesOn T (Context.within host n' session) :=
      { Context.within_agrees W n n' hn session with node := fun hx => ih hx }
    exact on.evalNode hx

end OpTree
