/-
Questions about types, asked with fewer steps and with more. Walks over the
hierarchy have a bound on their steps; an answer that one bound was enough for
is the answer under every greater bound. So the bound can be read as
termination: a question has at most one answer.
-/
import OpTree.Eval.Activate
import OpTree.Proofs.Runs

namespace OpTree

open Run (Enough)

namespace Stop.Agrees

variable {α β : Type} {lax lax' : Prop}

theorem refl (r : Except Stop α) : Stop.Agrees lax lax' r r := .inl rfl

theorem bind {r r' : Except Stop α} {f f' : α → Except Stop β} (h : Stop.Agrees lax lax' r r')
    (hf : ∀ a, Stop.Agrees lax lax' (f a) (f' a)) : Stop.Agrees lax lax' (r >>= f) (r' >>= f') := by
  rcases h with rfl | ⟨hl, rfl⟩ | ⟨hl, rfl⟩
  · cases r with
    | ok a => exact hf a
    | error e => exact .refl _
  · exact .inr (.inl ⟨hl, rfl⟩)
  · exact .inr (.inr ⟨hl, rfl⟩)

theorem ite {c : Prop} [Decidable c] {r r' q q' : Except Stop α} (h : Stop.Agrees lax lax' r r')
    (h' : Stop.Agrees lax lax' q q') : Stop.Agrees lax lax' (if c then r else q) (if c then r' else q') := by
  split
  · exact h
  · exact h'

theorem allPairs {γ : Type} {test test' : α → γ → Except Stop Bool}
    (h : ∀ a b, Stop.Agrees lax lax' (test a b) (test' a b)) :
    ∀ as bs, Stop.Agrees lax lax' (OpTree.allPairs test as bs) (OpTree.allPairs test' as bs)
  | a :: as, b :: bs => by
    simp only [OpTree.allPairs]
    refine .bind (h a b) fun ok => ?_
    exact .ite (allPairs h as bs) (.refl _)
  | [], [] => .refl _
  | [], _ :: _ => .refl _
  | _ :: _, [] => .refl _

theorem anyOf {test test' : α → Except Stop Bool} (h : ∀ a, Stop.Agrees lax lax' (test a) (test' a))
    (as : List α) : Stop.Agrees lax lax' (OpTree.anyOf test as) (OpTree.anyOf test' as) := by
  induction as with
  | nil => exact .refl _
  | cons a as ih => exact .bind (h a) fun ok => .ite (.refl _) ih

end Stop.Agrees

namespace Host

variable {σ : Type} (host : Host σ) {lax lax' : Prop}

theorem isAssignable_agrees : ∀ n n', Enough lax lax' n n' →
    ∀ a b, Stop.Agrees lax lax' (host.isAssignable n a b) (host.isAssignable n' a b) := by
  refine Enough.induction (fun n n' hn h0 a b => ?_) fun n n' _ ih a b => ?_
  · exact hn.stop h0 (by rintro rfl; rfl) (by rintro rfl; rfl)
  · simp only [isAssignable]
    refine .ite (.refl _) ?_
    split
    · exact ih _ _
    · exact ih _ _
    · exact .ite (ih _ _) (.refl _)
    · exact .ite (.allPairs ih _ _) (.refl _)
    · refine .bind (.refl _) fun descriptor => .anyOf (fun supertype => ?_) _
      exact .bind (.refl _) fun _ => ih _ _
    · exact .refl _

theorem accepts_agrees {n n' : Nat} (hn : Enough lax lax' n n') (v : Value) (target : ClosedType) :
    Stop.Agrees lax lax' (host.accepts n v target) (host.accepts n' v target) := by
  simp only [accepts]
  split
  · exact .refl _
  · exact host.isAssignable_agrees _ _ hn _ _

theorem convert_agrees {n n' : Nat} (hn : Enough lax lax' n n') (v : Value) (kind : ConversionKind)
    (target : ClosedType) :
    Stop.Agrees lax lax' (host.convert n v target kind) (host.convert n' v target kind) := by
  rw [convert.eq_def, convert.eq_def]
  refine .ite (.ite (.refl _) (.refl _)) ?_
  split
  · exact convert_agrees hn v kind _
  · exact .refl _
  · split
    · exact .refl _
    · exact .bind (host.accepts_agrees hn v _) fun _ => .refl _

theorem acceptsArguments_agrees {n n' : Nat} (hn : Enough lax lax' n n') (type : ClosedType)
    (parameters : List Parameter) (args : List Value) :
    Stop.Agrees lax lax' (host.acceptsArguments n type parameters args)
      (host.acceptsArguments n' type parameters args) :=
  .allPairs (fun _ arg => .bind (.refl _) fun _ => host.accepts_agrees hn arg _) _ _

theorem constructorsFor_agrees {n n' : Nat} (hn : Enough lax lax' n n') (type : ClosedType)
    (args : List Value) (members : List SymbolId) :
    Stop.Agrees lax lax' (host.constructorsFor n type args members)
      (host.constructorsFor n' type args members) := by
  induction members with
  | nil => exact .refl _
  | cons m rest ih =>
    simp only [constructorsFor]
    refine .bind (.refl _) fun member => .ite ?_ ih
    have counted (fits : Bool) : Stop.Agrees lax lax' _ _ :=
      .bind ih fun found => .refl (pure (found.1 + 1, if fits then member :: found.2 else found.2))
    exact .ite (.bind (host.acceptsArguments_agrees hn type _ args) counted)
      (.bind (.refl _) counted)

theorem resolveConstructor_agrees {n n' : Nat} (hn : Enough lax lax' n n') (descriptor : TypeDescriptor)
    (type : ClosedType) (args : List Value) :
    Stop.Agrees lax lax' (host.resolveConstructor n descriptor type args)
      (host.resolveConstructor n' descriptor type args) :=
  .bind (host.constructorsFor_agrees hn type args _) fun _ => .refl _

end Host

end OpTree
