import JavaSynth.Proofs.Shape.Targets

set_option autoImplicit false

/-!
# Depth of expressions

How deep a generated expression is nested follows from the complexity of its scope. A complexity
adds one operator or primary expression, a chain of accesses and one assignment to what lies deeper,
and beyond the greatest complexity there are only literals.
-/
namespace JavaSynth

mutual

/-- A node is one deeper than the deepest expression in it, and a leaf has depth one. -/
def Expr.depth : Expr → Nat
  | .field target _ _ => target.depth + 1
  | .index target position _ => max target.depth position.depth + 1
  | .ownCall _ args _ => Expr.depthOf args + 1
  | .call target _ args _ => max target.depth (Expr.depthOf args) + 1
  | .newArray size _ => size.depth + 1
  | .unary _ operand _ => operand.depth + 1
  | .binary _ left right _ => max left.depth right.depth + 1
  | .assign target value _ => max target.depth value.depth + 1
  | .literal _ _ | .var _ _ _ | .ownField _ _ | .this _ | .newObject _ => 1

def Expr.depthOf : List Expr → Nat
  | [] => 0
  | e :: rest => max e.depth (Expr.depthOf rest)

end

theorem Expr.depthOf_le {args : List Expr} {n : Nat} (h : ∀ e ∈ args, e.depth ≤ n) :
    depthOf args ≤ n := by
  induction args with
  | nil => exact Nat.zero_le n
  | cons e rest ih =>
    obtain ⟨hfirst, hrest⟩ := List.forall_mem_cons.1 h
    exact Nat.max_le.2 ⟨hfirst, ih hrest⟩

theorem Expr.isLocation_of_isLiteral {e : Expr} (h : e.isLiteral = true) :
    e.isLocation = false := by
  cases e <;> first | rfl | cases h

theorem Variable.depth_read (v : Variable) : v.read.depth = 1 := by
  unfold Variable.read
  split <;> rfl

namespace ExprContext

variable (x : ExprContext)

/-- What one complexity adds to the depth: a node, a chain of accesses and an assignment. -/
def depthStep : Nat := x.settings.maxPostfixChain + 2

/-- The depth of expressions at a complexity. -/
def depthBound (complexity : Nat) : Nat :=
  1 + (x.settings.maxComplexity + 1 - complexity) * x.depthStep

variable {x} {s : Scope} {t : Ty} {e : Expr}

theorem depthBound_eq {c : Nat} (h : c ≤ x.settings.maxComplexity) :
    x.depthBound c = x.depthBound (c + 1) + x.depthStep := by
  have hleft : x.settings.maxComplexity + 1 - c = (x.settings.maxComplexity + 1 - (c + 1)) + 1 := by
    omega
  unfold depthBound
  rw [hleft, Nat.succ_mul, Nat.add_assoc]

theorem depthBound_pos (c : Nat) : 1 ≤ x.depthBound c := Nat.le_add_right 1 _

theorem depthBound_succ_le (c : Nat) : x.depthBound (c + 1) ≤ x.depthBound c := by
  apply Nat.add_le_add_left
  apply Nat.mul_le_mul_right
  omega

theorem LiteralOf.leaf (h : LiteralOf t e) : e.isLiteral = true ∧ e.depth = 1 := by
  cases h <;> exact ⟨rfl, rfl⟩

/-- At most `extra` deeper than what lies deeper than the scope, and beyond the greatest complexity
a literal. -/
def Adds (x : ExprContext) (s : Scope) (extra : Nat) (e : Expr) : Prop :=
  if s.complexity ≤ x.settings.maxComplexity then
    e.depth ≤ x.depthBound (s.complexity + 1) + extra
  else e.isLiteral = true

theorem Adds.of_le {extra : Nat} (hc : s.complexity ≤ x.settings.maxComplexity)
    (h : e.depth ≤ x.depthBound (s.complexity + 1) + extra) : x.Adds s extra e := by
  rwa [Adds, if_pos hc]

theorem Adds.mono {extra extra' : Nat} (hle : extra ≤ extra') (h : x.Adds s extra e) :
    x.Adds s extra' e := by
  unfold Adds at h ⊢
  split
  · rename_i hc
    rw [if_pos hc] at h
    omega
  · rename_i hc
    rwa [if_neg hc] at h

theorem LiteralOf.adds (h : LiteralOf t e) (extra : Nat) : x.Adds s extra e := by
  obtain ⟨hliteral, hdepth⟩ := h.leaf
  have hpos := depthBound_pos (x := x) (s.complexity + 1)
  unfold Adds
  split
  · omega
  · exact hliteral

theorem Adds.depth_le {extra : Nat} (hle : extra ≤ x.depthStep) (h : x.Adds s extra e) :
    e.depth ≤ x.depthBound s.complexity := by
  unfold Adds at h
  split at h
  · rename_i hc
    rw [depthBound_eq hc]
    omega
  · cases e <;> first | exact depthBound_pos _ | cases h

/-- What a layer adds. Only an assignment adds a node above a chain. -/
def layerStep (x : ExprContext) : Layer → Nat
  | .assignment => x.settings.maxPostfixChain + 2
  | _ => x.settings.maxPostfixChain + 1

theorem layerStep_le (which : Layer) : x.layerStep which ≤ x.depthStep := by
  cases which <;> simp [layerStep, depthStep]

theorem layerStep_pos (which : Layer) : 1 ≤ x.layerStep which := by
  cases which <;> simp [layerStep]

theorem layerStep_next {which below : Layer} (h : which.next = some below) :
    x.layerStep below ≤ x.layerStep which := by
  cases which <;> cases h <;> simp [layerStep]

/-- The depth at each stage. Accesses are counted from their target. -/
def Stage.DepthAt (x : ExprContext) (stage : Stage) (s : Scope) (e : Expr) : Prop :=
  match stage with
  | .layer which => x.Adds s (x.layerStep which) e
  | .postfixed => x.Adds s (x.settings.maxPostfixChain + 1) e
  | .primary | .ownCall => e.depth ≤ x.depthBound (s.complexity + 1) + 1
  | .access target => e.depth ≤ max target.depth (x.depthBound s.complexity) + 1
  | .chain links target => e.depth ≤ max target.depth (x.depthBound s.complexity) + links

theorem Stage.DepthAt.le {which : Layer} (h : Stage.DepthAt x (.layer which) s e) :
    e.depth ≤ x.depthBound s.complexity :=
  Adds.depth_le (layerStep_le which) h

theorem Makes.depthAt {stage : Stage} (h : x.Makes stage s t e) : stage.DepthAt x s e := by
  induction h with
  | fallback h => exact h.adds _
  | literal h =>
    have hleaf := h.leaf.2
    change _ ≤ _
    omega
  | newObject => exact Nat.le_add_left 1 _
  | newArray _ _ ih => exact Nat.succ_le_succ ih.le
  | @«variable» s t v =>
    have hleaf := v.depth_read
    change _ ≤ _
    omega
  | ownCall _ _ hl _ ih =>
    exact Nat.succ_le_succ (Expr.depthOf_le (Expr.forall_args hl fun pa hpa => (ih pa hpa).le))
  | called _ ih => exact ih
  | this => exact Nat.le_add_left 1 _
  | nested _ ih => exact Nat.le_succ_of_le ih.le
  | @index s t component target position _ _ _ ih =>
    have hposition := ih.le
    change max target.depth position.depth + 1 ≤ _
    omega
  | @field s t target name c f =>
    change target.depth + 1 ≤ _
    omega
  | @call s t target name c m args _ _ _ _ hl _ ih =>
    have hargs := Expr.depthOf_le (Expr.forall_args hl fun pa hpa => (ih pa hpa).le)
    have hdeeper := depthBound_succ_le (x := x) s.complexity
    change max target.depth (Expr.depthOf args) + 1 ≤ _
    change Expr.depthOf args ≤ x.depthBound (s.complexity + 1) at hargs
    omega
  | arrived =>
    change _ ≤ _
    omega
  | link _ _ _ iha ihr =>
    change _ ≤ _ at iha ihr ⊢
    omega
  | fitting hc _ _ ih =>
    apply Adds.of_le hc
    change _ ≤ _ at ih
    omega
  | @repaired s t e e' hc _ _ _ _ _ ihp ihr =>
    -- the chain is one complexity deeper, where its indices are
    apply Adds.of_le hc
    change e'.depth ≤ max e.depth (x.depthBound (s.complexity + 1)) + _ at ihr
    change _ ≤ _ at ihp
    omega
  | postfixed _ ih => exact ih
  | @unary s t op operand _ hg _ ih =>
    apply Adds.of_le hg.1
    have hoperand : operand.depth ≤ x.depthBound (s.complexity + 1) := ih.le
    have hstep := x.layerStep_pos .unary
    change operand.depth + 1 ≤ _
    omega
  | @binary s t operandTy which left right p op l r _ hg _ _ ihl ihr =>
    apply Adds.of_le hg.1
    have hleft : l.depth ≤ x.depthBound (s.complexity + 1) := ihl.le
    have hright : r.depth ≤ x.depthBound (s.complexity + 1) := ihr.le
    have hstep := x.layerStep_pos which
    change max l.depth r.depth + 1 ≤ _
    omega
  | next hn _ ih => exact ih.mono (layerStep_next hn)
  | @assign s t target value _ hl _ ih ihv =>
    have hvalue : value.depth ≤ x.depthBound (s.complexity + 1) := ihv.le
    change x.Adds s (x.settings.maxPostfixChain + 1) target at ih
    unfold Adds at ih
    split at ih
    · rename_i hc
      apply Adds.of_le hc
      change max target.depth value.depth + 1 ≤ _ + (x.settings.maxPostfixChain + 2)
      omega
    · have hno := Expr.isLocation_of_isLiteral ih
      rw [hl] at hno
      cases hno

variable {σ : Type} [Source σ]

/-- The depth of an expression is bounded by its settings and the complexity of its scope alone:
whatever the classes, the variables and the draws are, an expression beyond the greatest complexity
is a literal. -/
theorem generated_depth {names : List String} (hv : x.settings.validate = .ok ())
    (htypes : x.types = Universe.ofNames names) (s : Scope) (t : Ty) :
    Gen.Yields (x.generate s t : Gen σ Expr) (fun e =>
      (x.settings.maxComplexity < s.complexity → ∃ v, e = .literal v t) ∧
      (s.complexity ≤ x.settings.maxComplexity → e.depth ≤
        1 + (x.settings.maxComplexity + 1 - s.complexity) * (x.settings.maxPostfixChain + 2))) := by
  have hx : x.Valid := ⟨ExprSettings.valid_of_validate hv, htypes ▸ Universe.simple_ofNames names⟩
  have hmade : Gen.Ensures (fun _ => False) (x.generate s t : Gen σ Expr) _ :=
    ensures_generateAt hx .assignment s t
  refine (hmade.mono fun e he => ⟨fun hc => ?_, fun _ => he.depthAt.le⟩).yields fun _ => id
  have hliteral : x.Adds s _ e := he.depthAt
  rw [Adds, if_neg (Nat.not_le_of_lt hc)] at hliteral
  have hty : e.ty = t := he.exact
  cases e with
  | literal v ty => exact ⟨v, congrArg (Expr.literal v) hty⟩
  | _ => cases hliteral

/-- Every operator is built where it can be. -/
def eagerSettings : ExprSettings :=
  { logicalOrProbability := 1
    logicalAndProbability := 1
    equalityProbability := 1
    equalityArrayProbability := 1
    relationalProbability := 1
    additiveProbability := 1
    multiplicativeProbability := 1
    unaryProbability := 1
    maxComplexity := 2
    primaryLiteralComplexity := 2
    maxPostfixChain := 3 }

theorem generated_depth_eager : eagerSettings.validate = .ok () ∧
    Gen.Yields ({ nodeContext with settings := eagerSettings }.generate
      (.ofMethod nodeClass [] .void) .boolean : Gen WordStream Expr) (·.depth ≤ 16) ∧
    Gen.Yields ({ nodeContext with settings := eagerSettings }.generate
      (.ofStatic nodeClass .void 3) .boolean : Gen WordStream Expr) (·.isLiteral = true) := by
  have hvalid : eagerSettings.validate = .ok () := by rfl
  refine ⟨hvalid, fun stream => ?_, fun stream => ?_⟩
  · obtain ⟨e, rest, hrun, -, hdepth⟩ := generated_depth (σ := WordStream)
      (x := { nodeContext with settings := eagerSettings }) hvalid rfl
      (.ofMethod nodeClass [] .void) .boolean stream
    exact ⟨e, rest, hrun, hdepth (by decide)⟩
  · obtain ⟨e, rest, hrun, hliteral, -⟩ := generated_depth (σ := WordStream)
      (x := { nodeContext with settings := eagerSettings }) hvalid rfl
      (.ofStatic nodeClass .void 3) .boolean stream
    obtain ⟨v, rfl⟩ := hliteral (by decide)
    exact ⟨_, rest, hrun, rfl⟩

end ExprContext
end JavaSynth
