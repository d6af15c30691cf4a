import JavaSynth.Syntax.Program

set_option autoImplicit false

/-!
# Nodes

All expressions that a tree contains, at any depth. A property of every node of a tree is a
property of its root and of every node below.
-/
namespace JavaSynth

mutual

/-- An expression and all expressions in it. -/
def Expr.nodes : Expr → List Expr
  | .field target name ty => .field target name ty :: target.nodes
  | .index target position ty => .index target position ty :: (target.nodes ++ position.nodes)
  | .ownCall name args ty => .ownCall name args ty :: Expr.nodesOf args
  | .call target name args ty => .call target name args ty :: (target.nodes ++ Expr.nodesOf args)
  | .newArray size ty => .newArray size ty :: size.nodes
  | .unary op operand ty => .unary op operand ty :: operand.nodes
  | .binary op left right ty => .binary op left right ty :: (left.nodes ++ right.nodes)
  | .assign target value ty => .assign target value ty :: (target.nodes ++ value.nodes)
  | e => [e]

def Expr.nodesOf : List Expr → List Expr
  | [] => []
  | e :: rest => e.nodes ++ Expr.nodesOf rest

end

theorem Expr.self_mem_nodes (e : Expr) : e ∈ e.nodes := by
  cases e <;> exact List.mem_cons_self

theorem Expr.mem_nodesOf {args : List Expr} {n : Expr} :
    n ∈ nodesOf args ↔ ∃ e ∈ args, n ∈ e.nodes := by
  induction args with
  | nil => simp [nodesOf]
  | cons e rest ih => simp [nodesOf, ih]

/-- What holds of every argument beside its parameter holds of every argument. -/
theorem Expr.forall_args {params : List Binding} {args : List Expr} {post : Expr → Prop}
    (hl : args.length = params.length) (ha : ∀ pa ∈ params.zip args, post pa.2) :
    ∀ e ∈ args, post e := by
  intro e he
  have hall : e ∈ (params.zip args).map Prod.snd := by
    rwa [List.map_snd_zip (Nat.le_of_eq hl)]
  obtain ⟨pa, hpa, rfl⟩ := List.mem_map.1 hall
  exact ha pa hpa

/-- What holds of every node of every argument beside its parameter holds of all nodes in them. -/
theorem Expr.forall_nodesOf {params : List Binding} {args : List Expr} {post : Expr → Prop}
    (hl : args.length = params.length)
    (ha : ∀ pa ∈ params.zip args, ∀ n ∈ pa.2.nodes, post n) : ∀ n ∈ nodesOf args, post n := by
  have hargs : ∀ e ∈ args, ∀ n ∈ e.nodes, post n := forall_args hl ha
  intro n hn
  obtain ⟨e, he, hn⟩ := mem_nodesOf.1 hn
  exact hargs e he n hn

namespace Stmt

def valueNodes (value : Option Expr) : List Expr := (value.map Expr.nodes).getD []

mutual

def nodes : Stmt → List Expr
  | empty => []
  | declare _ _ init => valueNodes init
  | ifElse condition thenBranch elseBranch =>
    condition.nodes ++ thenBranch.nodes ++ elseBranch.nodes
  | elseOnly condition elseBranch => condition.nodes ++ elseBranch.nodes
  | loop condition body => condition.nodes ++ body.nodes
  | eval e => e.nodes
  | ret value => valueNodes value
  | block body => nodesOf body

def nodesOf : List Stmt → List Expr
  | [] => []
  | a :: rest => a.nodes ++ nodesOf rest

end

@[simp] theorem nodesOf_singleton (a : Stmt) : nodesOf [a] = a.nodes :=
  List.append_nil a.nodes

@[simp] theorem nodesOf_append (body rest : List Stmt) :
    nodesOf (body ++ rest) = nodesOf body ++ nodesOf rest := by
  induction body with
  | nil => rfl
  | cons a body ih => simp [nodesOf, ih]

theorem nodes_ofBranches (condition : Expr) (thenBranch elseBranch : Stmt) :
    (ofBranches condition thenBranch elseBranch).nodes =
      condition.nodes ++ thenBranch.nodes ++ elseBranch.nodes := by
  unfold ofBranches
  split
  · -- an empty branch is left out, and has no nodes
    simp [nodes, nodesOf]
  · rfl

end Stmt

def Method.nodes (m : Method) : List Expr := (m.body.map Stmt.nodesOf).getD []

end JavaSynth
