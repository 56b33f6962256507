/-
Evaluation tied together. Evaluating a node and calling a member of an object
refer to each other through whatever they run; a bound on the number of nested
such steps makes both total. A bound that was enough gives an answer that every
greater bound gives too.
-/
import OpTree.Eval.Step

namespace OpTree

variable {σ : Type}

mutual

/-- Evaluate a node of a session in at most some number of nested steps. -/
def evalWithin (host : Host σ) : Nat → SessionId → Node → Run (Machine σ) Value
  | 0, _, _ => Run.exhausted
  | n + 1, session, node =>
    Context.evalNode ⟨host, session, n, evalWithin host n session, dispatchWithin host n⟩ node

/-- Call a member of an object through its link in at most some number of nested
steps. An object of a session that is closed cannot be called. -/
def dispatchWithin (host : Host σ) :
    Nat → ObjectRef → SymbolId → List ClosedType → List Value → Run (World σ) Value
  | 0, _, _, _, _ => Run.exhausted
  | n + 1, o, symbol, typeArgs, args => fun w =>
    match w.link? o with
    | none => (.error (.failed (.of (.notBound o.type.text))), w)
    | some (.foreign serve) => (serve o symbol typeArgs args).run (dispatchWithin host n) w
    | some (.session session _ table) =>
      if (w.session session).isOpen then
        Context.serve ⟨host, session, n, evalWithin host n session, dispatchWithin host n⟩
          table o symbol typeArgs args w
      else (.error (.failed (.of (.host "proxy outlived its interpreter session"))), w)

end

def Context.within (host : Host σ) (fuel : Nat) (session : SessionId) : Context σ :=
  ⟨host, session, fuel, evalWithin host fuel session, dispatchWithin host fuel⟩

end OpTree
