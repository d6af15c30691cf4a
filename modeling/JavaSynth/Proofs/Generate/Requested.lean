import JavaSynth.Proofs.Shape.Targets

set_option autoImplicit false

/-!
# Requested types

Each layer gives expressions of the type that was asked for. Unlike the grammar this needs no valid
settings: a run may end with any fault, and its result still has the type.
-/
namespace JavaSynth

namespace ExprContext

variable {σ : Type} [Source σ] {x : ExprContext} {deeper : Deeper σ} {scope : Scope} {t : Ty}

/-- Every result has the type, and any fault may end the run. -/
def Types (g : Gen σ Expr) (t : Ty) : Prop := Gen.Ensures (fun _ => True) g (·.ty = t)

theorem types_literal (t : Ty) : Types (literal t : Gen σ Expr) t :=
  (ensures_literal t).mono fun _ h => h.ty_eq

theorem chain_ty (links : Nat) (target : Expr) :
    Gen.Ensures (fun _ => True) (x.chain deeper scope t links target)
      (fun r => ∀ e, r = some e → e.ty = t) := by
  induction links generalizing target with
  | zero =>
    refine Gen.ensures_pure fun e he => ?_
    split at he
    · rename_i ht
      cases he
      exact ht
    · cases he
  | succ links ih =>
    unfold chain
    split
    · rename_i ht
      refine Gen.ensures_pure fun e he => ?_
      cases he
      exact ht
    · refine Gen.ensures_bind (Gen.ensures_any _) fun r _ => ?_
      split
      · exact Gen.ensures_pure (by simp)
      · exact ih _

theorem types_postfixed : Types (x.postfixed deeper scope t) t := by
  unfold postfixed
  split
  · exact types_literal t
  · refine Gen.ensures_bind (Gen.ensures_any _) fun r _ => ?_
    split
    · exact types_literal t
    · rename_i e
      split_ifs with ht
      · exact Gen.ensures_pure ht
      · exact types_literal t
      · refine Gen.ensures_bind (Gen.ensures_any _) fun inner _ => ?_
        refine Gen.ensures_bind (chain_ty _ e) fun r hr => ?_
        split
        · exact Gen.ensures_pure (hr _ rfl)
        · exact types_literal t

theorem types_unary : Types (x.unary deeper scope t) t := by
  unfold unary
  split
  · exact types_postfixed
  · refine Gen.ensures_bind (Gen.ensures_any _) fun opens _ => ?_
    split
    · refine Gen.ensures_bind (Gen.ensures_any _) fun inner _ => ?_
      refine Gen.ensures_bind (Gen.ensures_any _) fun operand _ => ?_
      exact Gen.ensures_pure rfl
    · exact types_postfixed

theorem types_binary {own : Ty} {p : Double} {operator : Gen σ (BinaryOp × Ty)}
    {left right : Layer} {next : Scope → Ty → Gen σ Expr}
    (ho : Gen.Ensures (fun _ => True) operator (fun r => r.1.resultTy = own))
    (hn : Types (next scope t) t) :
    Types (if t = own then x.binary deeper p operator left right next scope t else next scope t)
      t := by
  split
  · rename_i ht
    subst ht
    refine Gen.ensures_bind (Gen.ensures_any _) fun opens _ => ?_
    split
    · refine Gen.ensures_bind ho fun r hr => ?_
      refine Gen.ensures_bind (Gen.ensures_any _) fun inner _ => ?_
      refine Gen.ensures_bind (Gen.ensures_any _) fun l _ => ?_
      refine Gen.ensures_bind (Gen.ensures_any _) fun r' _ => ?_
      exact Gen.ensures_pure hr
    · exact hn
  · exact hn

theorem types_multiplicative : Types (x.multiplicative deeper scope t) t :=
  types_binary (ensures_intOperator (by decide) (by decide)) types_unary

theorem types_additive : Types (x.additive deeper scope t) t :=
  types_binary (ensures_intOperator (by decide) (by decide)) types_multiplicative

theorem types_relational : Types (x.relational deeper scope t) t :=
  types_binary (ensures_intOperator (by decide) (by decide)) types_additive

theorem types_equality : Types (x.equality deeper scope t) t := by
  refine types_binary ?_ types_relational
  refine Gen.ensures_bind (Gen.ensures_any _) fun base _ => ?_
  refine Gen.ensures_bind (Gen.ensures_any _) fun wrapped _ => ?_
  refine Gen.ensures_bind (Gen.ensures_pick (by decide)) fun op hop => ?_
  exact Gen.ensures_pure (resultTy_comparison op (List.mem_append_left _ hop))

theorem types_logicalAnd : Types (x.logicalAnd deeper scope t) t :=
  types_binary (Gen.ensures_pure rfl) types_equality

theorem types_logicalOr : Types (x.logicalOr deeper scope t) t :=
  types_binary (Gen.ensures_pure rfl) types_logicalAnd

theorem types_assignment : Types (x.assignment deeper scope t) t := by
  refine Gen.ensures_bind types_logicalOr fun e he => ?_
  split
  · refine Gen.ensures_bind (Gen.ensures_any _) fun draw _ => ?_
    refine Gen.ensures_bind (Gen.ensures_any _) fun share _ => ?_
    split
    · refine Gen.ensures_bind (Gen.ensures_any _) fun inner _ => ?_
      refine Gen.ensures_bind (Gen.ensures_any _) fun value _ => ?_
      exact Gen.ensures_pure he
    · exact Gen.ensures_pure he
  · exact Gen.ensures_pure he

/-- Whatever the settings and the deeper levels are, a level gives expressions of the requested
type. -/
theorem types_level (n : Nat) (which : Layer) (scope : Scope) (t : Ty) :
    Types (level x n which scope t : Gen σ Expr) t := by
  cases n with
  | zero => exact types_literal t
  | succ n =>
    cases which with
    | assignment => exact types_assignment
    | logicalOr => exact types_logicalOr
    | logicalAnd => exact types_logicalAnd
    | equality => exact types_equality
    | relational => exact types_relational
    | additive => exact types_additive
    | multiplicative => exact types_multiplicative
    | unary => exact types_unary

end ExprContext

end JavaSynth
