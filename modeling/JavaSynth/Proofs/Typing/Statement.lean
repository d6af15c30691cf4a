import JavaSynth.Proofs.Generate.StmtGrammar
import JavaSynth.Proofs.Typing.Expression

set_option autoImplicit false

/-!
# Generated statements are well typed

Statements are typed from the back: `Continues` says that whatever is well typed after them is well
typed with them in front. A block starts from nothing, so its statements are well typed.
-/
namespace JavaSynth

theorem Ty.Returnable.known {classes : List ClassDecl} {t : Ty} (h : t.Returnable classes)
    (hv : t.isVoid = false) : t.Known classes := by
  rcases h with rfl | h
  · cases hv
  · exact h

theorem Scope.Sound.declare {classes : List ClassDecl} {s : Scope} (hs : s.Sound classes)
    {name : String} {t : Ty} (hn : s.isTaken name = false) (ht : t.Known classes) :
    (s.declare { name := name, ty := t }).Sound classes ∧ (s.env classes).Fresh name := by
  have hfree : (∀ b ∈ s.locals, b.name ≠ name) ∧ ∀ b ∈ s.params, b.name ≠ name := by
    simpa [Scope.isTaken] using hn
  refine ⟨⟨?_, hs.params_nodup, ?_, hs.params_known, hs.receiver_mem⟩, hfree⟩
  · exact nodup_map_concat hs.locals_nodup hfree.1
  · exact forall_mem_concat hs.locals_known ht

theorem Scope.Sound.inner {classes : List ClassDecl} {s : Scope} (hs : s.Sound classes)
    (p : Position) : (p.inner s).Sound classes := by
  cases p with
  | inBlock => exact hs
  | branch => exact hs.deeper

theorem Position.inner_env (p : Position) (s : Scope) (classes : List ClassDecl) :
    (p.inner s).env classes = s.env classes := by
  cases p <;> rfl

theorem Position.inner_returns (p : Position) (s : Scope) : (p.inner s).returns = s.returns := by
  cases p <;> rfl

namespace StmtContext

variable {x : StmtContext} {s s' : Scope} {stmts : List Stmt}

/-- What is well typed after these statements is well typed with them in front. -/
def Continues (returns : Ty) (Γ : Env) (stmts : List Stmt) (Γ' : Env) : Prop :=
  ∀ rest, Body returns Γ' rest → Body returns Γ (stmts ++ rest)

theorem Continues.nil {returns : Ty} {Γ Γ' : Env} (h : Continues returns Γ stmts Γ') :
    Body returns Γ stmts := by
  have hend := h [] .nil
  rwa [List.append_nil] at hend

/-- What is typed at each stage. The scope after statements is sound again, and a branch is a bare
statement. -/
def Stage.Typed (x : StmtContext) (stage : Stage) (s : Scope) (stmts : List Stmt) (s' : Scope) :
    Prop :=
  match stage with
  | .statement p =>
    Continues s.returns (s.env x.classes) stmts (s'.env x.classes) ∧ s'.Sound x.classes ∧
      (p = .branch → ∀ a ∈ stmts, a.isBare = true)
  | .sequence _ =>
    Continues s.returns (s.env x.classes) stmts (s'.env x.classes) ∧ s'.Sound x.classes
  | .block => Body s.returns (s.env x.classes) stmts

/-- A branch is one bare statement, well typed where its statement stands. -/
theorem branch_typed {p : Position} {a : Stmt}
    (h : (Stage.statement .branch).Typed x (p.inner s) [a] s') :
    a.isBare = true ∧ Body s.returns (s.env x.classes) [a] := by
  obtain ⟨hcont, -, hbare⟩ := h
  refine ⟨hbare rfl a (List.mem_singleton_self a), ?_⟩
  rw [← p.inner_returns s, ← p.inner_env s x.classes]
  exact hcont.nil

/-- A conditional is typed as the form that its first branch gives it. -/
theorem continues_ofBranches {returns : Ty} {Γ : Env} {condition : Expr}
    {thenBranch elseBranch : Stmt} (hc : HasType Γ condition .boolean)
    (hbt : thenBranch.isBare = true) (ht : Body returns Γ [thenBranch])
    (hbe : elseBranch.isBare = true) (he : Body returns Γ [elseBranch]) :
    Continues returns Γ [.ofBranches condition thenBranch elseBranch] Γ ∧
      (Stmt.ofBranches condition thenBranch elseBranch).isBare = true := by
  unfold Stmt.ofBranches
  split
  · exact ⟨fun _ => .elseOnly hc hbe he, rfl⟩
  · rename_i hne
    exact ⟨fun _ => .ifElse hc hne hbt ht hbe he, rfl⟩

theorem Makes.typed (hx : x.exprs.Declared) {stage : Stage} (h : x.Makes stage s stmts s')
    (hs : s.Sound x.classes) (hr : s.returns.Returnable x.classes) :
    stage.Typed x s stmts s' := by
  induction h with
  | nothing =>
    exact ⟨fun _ => .empty, hs, fun _ => List.forall_mem_singleton.2 rfl⟩
  | declaration hk hn hfresh ht hi =>
    have hknown := ht.known hx.types_known
    obtain ⟨hs', hfree⟩ := hs.declare hfresh hknown
    refine ⟨fun _ => .declare hfree hknown fun e he => ?_, hs', fun h => by cases h⟩
    exact (hi e he).2.typed hx hs hknown
  | assignment hk hv he =>
    obtain ⟨hread, hknown, hloc⟩ := hs.read_hasType hx.table hv
    have hvalue := he.typed hx hs.deeper hknown
    refine ⟨fun _ => .eval (.inr rfl) (.assign hloc hknown hread hvalue), hs, fun _ => ?_⟩
    exact List.forall_mem_singleton.2 rfl
  | call hk hp he =>
    have hcall := he.ownCall_typed hx hs.deeper
    refine ⟨fun _ => .eval (.inl ?_) hcall, hs, fun _ => List.forall_mem_singleton.2 rfl⟩
    cases he
    rfl
  | @retNothing s hk hv =>
    have hvoid : s.returns = .void := by
      cases h : s.returns <;> rw [h] at hv <;> first | rfl | cases hv
    exact ⟨fun _ => .retNothing hvoid, hs, fun h => by cases h⟩
  | ret hk hv he =>
    have hvalue := he.typed hx hs (hr.known hv)
    exact ⟨fun _ => .ret hvalue, hs, fun h => by cases h⟩
  | @conditional p s _ _ _ _ _ hk hc _ _ iht ihe =>
    have hin := hs.inner p
    have hcond : HasType (s.env x.classes) _ .boolean :=
      p.inner_env s x.classes ▸ hc.typed hx hin trivial
    obtain ⟨hbt, ht⟩ := branch_typed (iht hin (p.inner_returns s ▸ hr))
    obtain ⟨hbe, he⟩ := branch_typed (ihe hin (p.inner_returns s ▸ hr))
    obtain ⟨hcont, hbare⟩ := continues_ofBranches hcond hbt ht hbe he
    exact ⟨hcont, hs, fun _ => List.forall_mem_singleton.2 hbare⟩
  | @loop p s _ _ _ hk hc _ ih =>
    have hin := hs.inner p
    have hcond : HasType (s.env x.classes) _ .boolean :=
      p.inner_env s x.classes ▸ hc.typed hx hin trivial
    obtain ⟨hbb, hb⟩ := branch_typed (ih hin (p.inner_returns s ▸ hr))
    exact ⟨fun _ => .loop hcond hbb hb, hs, fun _ => List.forall_mem_singleton.2 rfl⟩
  | @block p s _ _ hk _ ih =>
    have hb : Body (p.inner s).returns ((p.inner s).env x.classes) _ :=
      ih (hs.inner p) (p.inner_returns s ▸ hr)
    rw [p.inner_returns, p.inner_env] at hb
    exact ⟨fun _ => .block hb, hs, fun _ => List.forall_mem_singleton.2 rfl⟩
  | done => exact ⟨fun _ h => h, hs⟩
  | next ha hrest iha ihr =>
    obtain ⟨hhead, hsNext, -⟩ := iha hs hr
    have htail := ihr hsNext (ha.returns_eq ▸ hr)
    rw [Stage.Typed, ha.returns_eq] at htail
    exact ⟨fun rest h => hhead _ (htail.1 rest h), htail.2⟩
  | plain _ _ _ ih => exact Continues.nil (ih hs.deeper hr).1
  | returning hret _ hb he ih =>
    obtain ⟨hcont, hsLast⟩ := ih hs.deeper hr
    have hsame := hb.returns_eq
    have hvalue := he.typed hx hsLast (hsame ▸ hr.known hret.2)
    exact hcont _ (.ret (hsame ▸ hvalue) .nil)

end StmtContext
end JavaSynth
