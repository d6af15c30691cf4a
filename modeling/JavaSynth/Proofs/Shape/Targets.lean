import JavaSynth.Proofs.Generate.Filling
import JavaSynth.Proofs.Shape.Nodes
import JavaSynth.Proofs.Typing.Expression

set_option autoImplicit false

/-!
# Targets of accesses

An access starts at something that refers to a value that is already there: a variable, a member or
the receiver. A chain of accesses repairs a primary expression of another type than the requested
one, and only expressions of that kind have another type.
-/
namespace JavaSynth

namespace Expr

/-- Neither a new value nor the result of an operator. -/
def isReference : Expr → Bool
  | var _ _ _ | ownField _ _ | field _ _ _ | index _ _ _ | ownCall _ _ _ | call _ _ _ _
  | this _ => true
  | _ => false

/-- What is accessed is a reference, and what is assigned to is a location. -/
def hasTarget : Expr → Bool
  | field target _ _ | index target _ _ | call target _ _ _ => target.isReference
  | assign target _ _ => target.isLocation
  | _ => true

def Rooted (e : Expr) : Prop := ∀ n ∈ e.nodes, n.hasTarget = true

theorem rooted_assign {target value : Expr} (t : Ty) (hl : target.isLocation = true)
    (ht : target.Rooted) (hv : value.Rooted) : (assign target value t).Rooted :=
  List.forall_mem_cons.2 ⟨hl, List.forall_mem_append.2 ⟨ht, hv⟩⟩

end Expr

theorem Variable.read_target (v : Variable) :
    v.read.isReference = true ∧ v.read.isLocation = true ∧ v.read.Rooted := by
  unfold Variable.read
  split <;> exact ⟨rfl, rfl, List.forall_mem_singleton.2 rfl⟩

namespace ExprContext

variable {x : ExprContext} {s : Scope} {t : Ty} {e : Expr}

theorem LiteralOf.ty_eq (h : LiteralOf t e) : e.ty = t := by
  cases h <;> rfl

theorem Operation.resultTy_eq {which left right : Layer} {p : Double} {op : BinaryOp}
    {operandTy : Ty} (h : x.Operation which t p op operandTy left right) : op.resultTy = t := by
  cases h with
  | or => rfl
  | and => rfl
  | equality hop => exact resultTy_comparison op (List.mem_append_left _ hop)
  | relational hop => exact resultTy_comparison op (List.mem_append_right _ hop)
  | additive hop => exact resultTy_arithmetic op (List.mem_append_left _ hop)
  | multiplicative hop => exact resultTy_arithmetic op (List.mem_append_right _ hop)

/-- The stages that end at the requested type. -/
def Stage.Exact (stage : Stage) (t : Ty) (e : Expr) : Prop :=
  match stage with
  | .layer _ | .postfixed | .chain _ _ => e.ty = t
  | .primary | .ownCall | .access _ => True

theorem Makes.exact {stage : Stage} (h : x.Makes stage s t e) : stage.Exact t e := by
  induction h with
  | fallback h => exact h.ty_eq
  | arrived h => exact h
  | link _ _ _ _ ihr => exact ihr
  | fitting _ _ ht => exact ht
  | repaired _ _ _ _ _ _ _ ihr => exact ihr
  | postfixed _ ih => exact ih
  | unary => rfl
  | binary ho => exact ho.resultTy_eq
  | next _ _ ih => exact ih
  | assign _ _ _ ih => exact ih
  | _ => trivial

/-- What is rooted at each stage. A primary expression of another type than the requested one is
where a chain starts, and an access hands on what the next one starts from. -/
def Stage.Rooted (stage : Stage) (t : Ty) (e : Expr) : Prop :=
  match stage with
  | .layer _ | .postfixed => e.Rooted
  | .primary => e.Rooted ∧ (e.ty ≠ t → e.isReference = true)
  | .ownCall => e.Rooted ∧ e.isReference = true
  | .access target => target.Rooted → target.isReference = true →
      e.Rooted ∧ e.isReference = true
  | .chain _ target => target.Rooted → target.isReference = true → e.Rooted

theorem Makes.rooted {stage : Stage} (h : x.Makes stage s t e) : stage.Rooted t e := by
  induction h with
  | fallback h => cases h <;> exact List.forall_mem_singleton.2 rfl
  | literal h =>
    refine ⟨?_, fun hne => absurd h.ty_eq hne⟩
    cases h <;> exact List.forall_mem_singleton.2 rfl
  | newObject => exact ⟨List.forall_mem_singleton.2 rfl, fun hne => absurd rfl hne⟩
  | newArray _ _ ih => exact ⟨List.forall_mem_cons.2 ⟨rfl, ih⟩, fun hne => absurd rfl hne⟩
  | @«variable» s t v => exact ⟨v.read_target.2.2, fun _ => v.read_target.1⟩
  | ownCall _ _ hl _ ih => exact ⟨List.forall_mem_cons.2 ⟨rfl, Expr.forall_nodesOf hl ih⟩, rfl⟩
  | called _ ih => exact ⟨ih.1, fun _ => ih.2⟩
  | this => exact ⟨List.forall_mem_singleton.2 rfl, fun _ => rfl⟩
  -- a nested expression may be a new value or an operation, but it has the requested type
  | nested h ih => exact ⟨ih, fun hne => absurd h.exact hne⟩
  | index _ _ _ ih =>
    intro htarget href
    exact ⟨List.forall_mem_cons.2 ⟨href, List.forall_mem_append.2 ⟨htarget, ih⟩⟩, rfl⟩
  | field => exact fun htarget href => ⟨List.forall_mem_cons.2 ⟨href, htarget⟩, rfl⟩
  | call _ _ _ _ hl _ ih =>
    intro htarget href
    have hargs := Expr.forall_nodesOf hl ih
    exact ⟨List.forall_mem_cons.2 ⟨href, List.forall_mem_append.2 ⟨htarget, hargs⟩⟩, rfl⟩
  | arrived => exact fun htarget _ => htarget
  | link _ _ _ iha ihr =>
    intro htarget href
    obtain ⟨hnext, hnextRef⟩ := iha htarget href
    exact ihr hnext hnextRef
  | fitting _ _ _ ih => exact ih.1
  | repaired _ _ hne _ _ _ ihp ihr => exact ihr ihp.1 (ihp.2 hne)
  | postfixed _ ih => exact ih
  | unary _ _ _ ih => exact List.forall_mem_cons.2 ⟨rfl, ih⟩
  | binary _ _ _ _ ihl ihr =>
    exact List.forall_mem_cons.2 ⟨rfl, List.forall_mem_append.2 ⟨ihl, ihr⟩⟩
  | next _ _ ih => exact ih
  | assign _ hl _ ih ihv => exact Expr.rooted_assign _ hl ih ihv

end ExprContext

theorem StmtContext.Makes.rooted {x : StmtContext} {stage : Stage} {s s' : Scope}
    {stmts : List Stmt} (h : x.Makes stage s stmts s') :
    ∀ n ∈ Stmt.nodesOf stmts, n.hasTarget = true := by
  induction h with
  | @declaration s name t init _ _ _ _ hi =>
    rw [Stmt.nodesOf_singleton]
    cases init with
    | none => simp [Stmt.nodes, Stmt.valueNodes]
    | some e => exact (hi e rfl).2.rooted
  | @assignment p s v value _ _ he =>
    rw [Stmt.nodesOf_singleton]
    obtain ⟨-, hl, hread⟩ := v.read_target
    exact Expr.rooted_assign _ hl hread he.rooted
  | call _ _ he =>
    rw [Stmt.nodesOf_singleton]
    exact he.rooted.1
  | ret _ _ he =>
    rw [Stmt.nodesOf_singleton]
    exact he.rooted
  | conditional _ hc _ _ iht ihe =>
    rw [Stmt.nodesOf_singleton] at iht ihe ⊢
    rw [Stmt.nodes_ofBranches]
    exact List.forall_mem_append.2 ⟨List.forall_mem_append.2 ⟨hc.rooted, iht⟩, ihe⟩
  | loop _ hc _ ih =>
    rw [Stmt.nodesOf_singleton] at ih ⊢
    exact List.forall_mem_append.2 ⟨hc.rooted, ih⟩
  | block _ _ ih =>
    rw [Stmt.nodesOf_singleton]
    exact ih
  | next _ _ iha ihr =>
    rw [Stmt.nodesOf_singleton] at iha
    exact List.forall_mem_append.2 ⟨iha, ihr⟩
  | plain _ _ _ ih => exact ih
  | returning _ _ _ he ih =>
    rw [Stmt.nodesOf_append, Stmt.nodesOf_singleton]
    exact List.forall_mem_append.2 ⟨ih, he.rooted⟩
  | _ => exact List.forall_mem_nil _

/-- In every body, what is accessed is a variable, a member or the receiver, and what is assigned to
is a location. -/
theorem synthesize_rooted {σ : Type} [Source σ] {s : Settings} (h : s.validate = .ok ()) :
    ∃ g : Gen σ Program, synthesize s = .ok g ∧ Gen.Ensures s.Exhausts g (fun p =>
      ∀ c ∈ p.classes, ∀ m ∈ c.methods, ∀ n ∈ m.nodes, n.hasTarget = true) := by
  obtain ⟨g, hg, hprogram⟩ := synthesize_of_validate (σ := σ) h
  refine ⟨g, hg, hprogram.mono fun p hp c hc m hm => ?_⟩
  obtain ⟨plan, kinds, -, -, hfilled⟩ := hp.filled
  obtain ⟨planned, -, hclass⟩ := exists_of_forall₂ hfilled.finished hc
  obtain ⟨scope, body, s', hbody, hmade⟩ := hclass.made hm
  rw [Method.nodes, hbody]
  exact hmade.rooted

theorem synthesize_rooted_words : ∃ g : Gen WordStream Program,
    synthesize { words := ["river", "stone"] } = .ok g ∧ Gen.Yields g (fun p =>
      ∀ c ∈ p.classes, ∀ m ∈ c.methods, ∀ n ∈ m.nodes, n.hasTarget = true) := by
  have hvalid : Settings.validate { words := ["river", "stone"] } = .ok () := by rfl
  obtain ⟨g, hg, hprogram⟩ := synthesize_rooted (σ := WordStream) hvalid
  exact ⟨g, hg, hprogram.yields (Settings.not_exhausts (by decide) (by decide) (by decide))⟩

end JavaSynth
