import JavaSynth.Proofs.Shape.Places
import JavaSynth.Proofs.Shape.Targets
import JavaSynth.Proofs.Typing.Indexing

set_option autoImplicit false

/-!
# Enabled productions

A production that asks a coin is only taken where heads are possible. So every operator in a body
has a probability, and arrays, which enter by two coins only, stand nowhere unless one of them can
come up. Whether it can is a proposition here, so the facts about arrays are the case in which it is
false.
-/
namespace JavaSynth

/-- The chance that the layer of the operator builds one. -/
def ExprSettings.probabilityOf (s : ExprSettings) : BinaryOp → Double
  | .or => s.logicalOrProbability
  | .and => s.logicalAndProbability
  | .eq | .ne => s.equalityProbability
  | .lt | .le | .gt | .ge => s.relationalProbability
  | .add | .sub => s.additiveProbability
  | .mul | .div | .rem => s.multiplicativeProbability

section Predicates

variable (s : Settings) (arrays : Prop)

/-- The type is an array only where there may be arrays. -/
def Ty.Within (t : Ty) : Prop := t.isArray = true → arrays

/-- The node may stand in a body. -/
structure Expr.Enabled (e : Expr) : Prop where
  ty : e.ty.Within arrays
  production : match e with
    | .unary _ _ _ => s.expr.unaryProbability.Possible
    | .binary op _ _ _ => (s.expr.probabilityOf op).Possible
    | .newArray _ _ | .index _ _ _ => arrays
    | _ => True

def Expr.AllEnabled (e : Expr) : Prop := ∀ n ∈ e.nodes, n.Enabled s arrays

/-- The statement may stand in a body, whatever its expressions are. -/
def Stmt.Enabled : Stmt → Prop
  | declare _ t init =>
    t.Within arrays ∧ (init.isSome = true → s.stmt.initializerProbability.Possible)
  | eval e => e.isCall = true → s.stmt.invocationProbability.Possible
  | _ => True

/-- What other classes can see of a class. -/
structure ClassDecl.Within (c : ClassDecl) : Prop where
  fields : ∀ f ∈ c.fields, f.ty.Within arrays
  returns : ∀ m ∈ c.instanceMethods, m.returns.Within arrays
  params : ∀ m ∈ c.instanceMethods, ∀ p ∈ m.params, p.ty.Within arrays

structure Scope.Within (scope : Scope) : Prop where
  locals : ∀ b ∈ scope.locals, b.ty.Within arrays
  params : ∀ b ∈ scope.params, b.ty.Within arrays
  receiver : ∀ c, scope.receiver = some c → c.Within arrays
  returns : scope.returns.Within arrays

/-- There may be arrays if one of the two coins can give them. -/
structure StmtContext.Admits (x : StmtContext) : Prop where
  declared : x.settings.arrayTypePercentage.Possible → arrays
  operands : x.settings.expr.equalityArrayProbability.Possible → arrays
  bases : ∀ b ∈ x.types.fieldTypes, b.isArray = false
  classes : ∀ c ∈ x.classes, c.Within arrays

end Predicates

namespace Ty

variable {arrays : Prop} {t : Ty}

theorem within_of_not_isArray (h : t.isArray = false) : t.Within arrays :=
  fun harr => absurd (h.symm.trans harr) Bool.false_ne_true

/-- An array may be among the wrapped types if the coin that wraps can come up heads. -/
theorem Wrapped.within {bases : List Ty} {p : Double} {limit : Nat} (h : t.Wrapped bases p limit)
    (hb : ∀ b ∈ bases, b.isArray = false) (hp : p.Possible → arrays) : t.Within arrays := by
  obtain ⟨b, hmem, d, -, rfl, hpos⟩ := h
  by_cases hd : d = 0
  · subst hd
    exact within_of_not_isArray (hb b hmem)
  · exact fun _ => hp (hpos hd).1

theorem Within.component {component : Ty} (h : t.Within arrays)
    (hc : t.component = some component) : component.Within arrays := by
  cases t with
  | array => exact fun _ => h rfl
  | int | boolean | void | named => cases hc

/-- Where an index is taken there is an array. -/
theorem Within.of_indexesTo {wanted : Ty} (h : t.Within arrays)
    (hi : t.indexesTo wanted = true) : arrays := by
  rw [(exists_array_of_indexesTo hi).1] at h
  exact h rfl

end Ty

namespace Scope

variable {arrays : Prop} {scope : Scope}

theorem Within.deeper (h : scope.Within arrays) : scope.deeper.Within arrays :=
  ⟨h.locals, h.params, h.receiver, h.returns⟩

theorem Within.declare (h : scope.Within arrays) {b : Binding} (hb : b.ty.Within arrays) :
    (scope.declare b).Within arrays :=
  ⟨forall_mem_concat h.locals hb, h.params, h.receiver, h.returns⟩

theorem Within.inner (h : scope.Within arrays) (p : Position) : (p.inner scope).Within arrays := by
  cases p with
  | inBlock => exact h
  | branch => exact h.deeper

theorem Within.visible (h : scope.Within arrays) {v : Variable} (hv : v ∈ scope.visible) :
    v.ty.Within arrays := by
  simp only [Scope.visible, List.mem_append, List.mem_map] at hv
  obtain (⟨b, hb, rfl⟩ | ⟨b, hb, rfl⟩) | ⟨b, hb, rfl⟩ := hv
  · exact h.locals b hb
  · exact h.params b hb
  · cases hc : scope.receiver with
    | none => rw [hc] at hb; cases hb
    | some c =>
      rw [hc] at hb
      exact (h.receiver c hc).fields b hb

end Scope

namespace Expr

variable {s : Settings} {arrays : Prop}

theorem enabled_leaf {e : Expr} (he : e.nodes = [e]) (h : e.Enabled s arrays) :
    e.AllEnabled s arrays := by
  unfold AllEnabled
  rw [he]
  exact List.forall_mem_singleton.2 h

theorem AllEnabled.ty {e : Expr} (h : e.AllEnabled s arrays) : e.ty.Within arrays :=
  (h e e.self_mem_nodes).ty

theorem enabled_assign {target value : Expr} (ht : target.AllEnabled s arrays)
    (hv : value.AllEnabled s arrays) : (assign target value target.ty).AllEnabled s arrays :=
  List.forall_mem_cons.2 ⟨⟨ht.ty, trivial⟩, List.forall_mem_append.2 ⟨ht, hv⟩⟩

end Expr

theorem Variable.enabled_read {s : Settings} {arrays : Prop} {v : Variable}
    (h : v.ty.Within arrays) : v.read.AllEnabled s arrays := by
  unfold Variable.read
  split <;> exact Expr.enabled_leaf rfl ⟨h, trivial⟩

theorem Stmt.enabled_ofBranches {s : Settings} {arrays : Prop} (condition : Expr)
    (thenBranch elseBranch : Stmt) :
    (ofBranches condition thenBranch elseBranch).Enabled s arrays := by
  unfold ofBranches
  split <;> exact trivial

namespace StmtContext

variable {x : StmtContext} {arrays : Prop} {s : Scope} {t : Ty} {e : Expr}

/-- What is enabled at each stage of an expression. What follows a target is enabled if the target
is. -/
def EnabledStage (x : StmtContext) (arrays : Prop) (stage : ExprContext.Stage) (e : Expr) : Prop :=
  match stage with
  | .access target | .chain _ target =>
    target.AllEnabled x.settings arrays → e.AllEnabled x.settings arrays
  | .layer _ | .postfixed | .primary | .ownCall => e.AllEnabled x.settings arrays

theorem enabled_literal (h : ExprContext.LiteralOf t e) (ht : t.Within arrays) :
    e.AllEnabled x.settings arrays := by
  cases h <;> exact Expr.enabled_leaf rfl ⟨ht, trivial⟩

/-- The coin of the layer is the one of its operators, and an equality alone may compare arrays. -/
theorem enabled_operation (hx : x.Admits arrays) {which left right : Layer} {p : Double}
    {op : BinaryOp} {operandTy : Ty} (h : x.exprs.Operation which t p op operandTy left right) :
    p = x.settings.expr.probabilityOf op ∧ operandTy.Within arrays := by
  refine ⟨?_, ?_⟩
  · cases h with
    | or | and => rfl
    | equality hop | relational hop | additive hop | multiplicative hop =>
      cases op <;> first | rfl | exact absurd hop (by decide)
  · cases h with
    | equality _ ht => exact ht.within hx.bases hx.operands
    | or | and | relational | additive | multiplicative => exact Ty.within_of_not_isArray rfl

theorem enabled_ownCall (hs : s.Within arrays) {c : ClassDecl} {m : Method} {args : List Expr}
    (hc : s.receiver = some c) (hm : m ∈ ExprContext.callable c t)
    (hl : args.length = m.params.length) (ha : ∀ pa ∈ m.params.zip args,
      pa.1.ty.Within arrays → pa.2.AllEnabled x.settings arrays) :
    (Expr.ownCall m.name args m.returns).AllEnabled x.settings arrays := by
  have hclass := hs.receiver c hc
  have hinst := mem_callable hm
  refine List.forall_mem_cons.2 ⟨⟨hclass.returns m hinst, trivial⟩, Expr.forall_nodesOf hl ?_⟩
  exact fun pa hpa => ha pa hpa (hclass.params m hinst _ (List.of_mem_zip hpa).1)

theorem enabled_of_makes (hx : x.Admits arrays) {stage : ExprContext.Stage}
    (h : x.exprs.Makes stage s t e) (hs : s.Within arrays) (ht : t.Within arrays) :
    x.EnabledStage arrays stage e := by
  have hint : Ty.int.Within arrays := Ty.within_of_not_isArray rfl
  induction h with
  | fallback h => exact enabled_literal h ht
  | literal h => exact enabled_literal h ht
  | newObject => exact Expr.enabled_leaf rfl ⟨ht, trivial⟩
  | newArray h _ ih => exact List.forall_mem_cons.2 ⟨⟨ht, ht h⟩, ih hs.deeper hint⟩
  | «variable» hv => exact Variable.enabled_read (hs.visible (mem_candidates hv))
  | ownCall hc hm hl _ ih =>
    exact enabled_ownCall hs hc hm hl fun pa hpa hp => ih pa hpa hs.deeper hp
  | called _ ih => exact ih hs ht
  | this => exact Expr.enabled_leaf rfl ⟨Ty.within_of_not_isArray rfl, trivial⟩
  | nested _ ih => exact ih hs.deeper ht
  | index hi hc _ ih =>
    intro htarget
    refine List.forall_mem_cons.2 ⟨⟨htarget.ty.component hc, htarget.ty.of_indexesTo hi⟩, ?_⟩
    exact List.forall_mem_append.2 ⟨htarget, ih hs hint⟩
  | field _ _ hc hm =>
    intro htarget
    have hclass := hx.classes _ (mem_of_find? hc)
    have hf := hclass.fields _ (mem_membersFor.1 hm).1
    exact List.forall_mem_cons.2 ⟨⟨hf, trivial⟩, htarget⟩
  | call _ _ hc hm hl _ ih =>
    intro htarget
    have hclass := hx.classes _ (mem_of_find? hc)
    have hinst := mem_instanceMethods.2 (mem_membersFor.1 hm).1
    refine List.forall_mem_cons.2 ⟨⟨hclass.returns _ hinst, trivial⟩, ?_⟩
    refine List.forall_mem_append.2 ⟨htarget, Expr.forall_nodesOf hl fun pa hpa => ?_⟩
    exact ih pa hpa hs.deeper (hclass.params _ hinst _ (List.of_mem_zip hpa).1)
  | arrived => exact fun htarget => htarget
  | link _ _ _ iha ihr => exact fun htarget => ihr hs ht (iha hs ht htarget)
  | fitting _ _ _ ih => exact ih hs ht
  | repaired _ _ _ _ _ _ ihp ihr => exact ihr hs.deeper ht (ihp hs ht)
  | postfixed _ ih => exact ih hs ht
  | unary _ hg _ ih => exact List.forall_mem_cons.2 ⟨⟨ht, hg.2⟩, ih hs.deeper ht⟩
  | binary ho hg _ _ ihl ihr =>
    obtain ⟨rfl, hoperand⟩ := enabled_operation hx ho
    have hresult := ho.resultTy_eq
    refine List.forall_mem_cons.2 ⟨⟨hresult ▸ ht, hg.2⟩, ?_⟩
    exact List.forall_mem_append.2 ⟨ihl hs.deeper hoperand, ihr hs.deeper hoperand⟩
  | next _ _ ih => exact ih hs ht
  | assign _ _ _ ih ihv =>
    have htarget := ih hs ht
    exact Expr.enabled_assign htarget (ihv hs.deeper htarget.ty)

theorem Makes.enabled (hx : x.Admits arrays) {stage : Stage} {s s' : Scope} {body : List Stmt}
    (h : x.Makes stage s body s') (hs : s.Within arrays) :
    (∀ n ∈ Stmt.nodesOf body, n.Enabled x.settings arrays) ∧ s'.Within arrays := by
  have hbool : Ty.boolean.Within arrays := Ty.within_of_not_isArray rfl
  -- the scope after a statement is carried along, as later statements may read what it declares
  induction h with
  | nothing => exact ⟨List.forall_mem_nil _, hs⟩
  | @declaration s name t init _ _ _ ht hi =>
    have hlocal := ht.within hx.bases hx.declared
    refine ⟨?_, hs.declare hlocal⟩
    rw [Stmt.nodesOf_singleton]
    cases init with
    | none => exact List.forall_mem_nil _
    | some e => exact enabled_of_makes hx (hi e rfl).2 hs hlocal
  | @assignment p s v value _ hv he =>
    have hvar := hs.visible hv
    have hread := Variable.enabled_read (s := x.settings) hvar
    refine ⟨?_, hs⟩
    rw [Stmt.nodesOf_singleton]
    exact List.forall_mem_cons.2 ⟨⟨hvar, trivial⟩,
      List.forall_mem_append.2 ⟨hread, enabled_of_makes hx he hs.deeper hvar⟩⟩
  | call _ _ he =>
    refine ⟨?_, hs⟩
    rw [Stmt.nodesOf_singleton]
    cases he with
    | ownCall hc hm hl ha =>
      exact enabled_ownCall hs.deeper hc hm hl fun pa hpa hp =>
        enabled_of_makes hx (ha pa hpa) hs.deeper.deeper hp
  | retNothing => exact ⟨List.forall_mem_nil _, hs⟩
  | ret _ _ he =>
    rw [Stmt.nodesOf_singleton]
    exact ⟨enabled_of_makes hx he hs hs.returns, hs⟩
  | @conditional p _ _ _ _ _ _ _ hc _ _ iht ihe =>
    rw [Stmt.nodesOf_singleton] at iht ihe ⊢
    rw [Stmt.nodes_ofBranches]
    have hcondition := enabled_of_makes hx hc (hs.inner p) hbool
    have hbranches := List.forall_mem_append.2 ⟨hcondition, (iht (hs.inner p)).1⟩
    exact ⟨List.forall_mem_append.2 ⟨hbranches, (ihe (hs.inner p)).1⟩, hs⟩
  | @loop p _ _ _ _ _ hc _ ih =>
    rw [Stmt.nodesOf_singleton] at ih ⊢
    have hcondition := enabled_of_makes hx hc (hs.inner p) hbool
    exact ⟨List.forall_mem_append.2 ⟨hcondition, (ih (hs.inner p)).1⟩, hs⟩
  | @block p _ _ _ _ _ ih =>
    rw [Stmt.nodesOf_singleton]
    exact ⟨(ih (hs.inner p)).1, hs⟩
  | done => exact ⟨List.forall_mem_nil _, hs⟩
  | next _ _ iha ihr =>
    obtain ⟨hfirst, hnext⟩ := iha hs
    rw [Stmt.nodesOf_singleton] at hfirst
    obtain ⟨hrest, hlast⟩ := ihr hnext
    exact ⟨List.forall_mem_append.2 ⟨hfirst, hrest⟩, hlast⟩
  | plain _ _ _ ih => exact ih hs.deeper
  | returning _ _ _ he ih =>
    obtain ⟨hdrawn, hlast⟩ := ih hs.deeper
    rw [Stmt.nodesOf_append, Stmt.nodesOf_singleton]
    exact ⟨List.forall_mem_append.2 ⟨hdrawn, enabled_of_makes hx he hlast hlast.returns⟩, hlast⟩

/-- The coins of a statement, whatever its expressions ask. -/
theorem Makes.enabled_own (hx : x.Admits arrays) {p : Position} {s s' : Scope} {body : List Stmt}
    (h : x.Makes (.statement p) s body s') : ∀ a ∈ body, a.Enabled x.settings arrays := by
  cases h with
  | declaration _ _ _ ht hi =>
    refine List.forall_mem_singleton.2 ⟨ht.within hx.bases hx.declared, fun hsome => ?_⟩
    obtain ⟨e, he⟩ := Option.isSome_iff_exists.1 hsome
    exact (hi e he).1
  | assignment => exact List.forall_mem_singleton.2 nofun
  | call _ hp => exact List.forall_mem_singleton.2 fun _ => hp
  | conditional => exact List.forall_mem_singleton.2 (Stmt.enabled_ofBranches _ _ _)
  | nothing | retNothing | ret | loop | block => exact List.forall_mem_singleton.2 trivial

end StmtContext

end JavaSynth
