import JavaSynth.Proofs.Generate.StmtGrammar

set_option autoImplicit false

/-!
# The recursion of the generators

The generators recurse over the number of complexities that are left. That number never cuts
anything off: a layer asks for expressions at greater complexities only, and where none is left it
asks for nothing. So each generator is the layer on top of itself, and likewise for statements.
-/
namespace JavaSynth

theorem Gen.bind_congr {σ α β : Type} {g : Gen σ α} {f f' : α → Gen σ β} {post : α → Prop}
    (hg : Gen.Ensures (fun _ => True) g post) (h : ∀ a, post a → f a = f' a) :
    (g >>= f) = (g >>= f') := by
  funext s
  cases hrun : g s with
  | error e => rw [Gen.bind_of_error hrun, Gen.bind_of_error hrun]
  | ok r =>
    rw [Gen.bind_of_ok hrun, Gen.bind_of_ok hrun, h r.1 (hg.of_ok hrun)]

namespace ExprContext

variable {σ : Type} [Source σ]

/-- Two generators that do the same from a complexity on. -/
def AgreeFrom (n : Nat) (deeper deeper' : Deeper σ) : Prop :=
  ∀ which scope t, n ≤ scope.complexity → deeper which scope t = deeper' which scope t

variable {x : ExprContext} {deeper deeper' : Deeper σ} {scope : Scope} {n : Nat}

omit [Source σ] in
theorem AgreeFrom.mono {m : Nat} (h : AgreeFrom n deeper deeper') (hle : n ≤ m) :
    AgreeFrom m deeper deeper' :=
  fun which scope t hm => h which scope t (Nat.le_trans hle hm)

omit [Source σ] in
theorem ensures_descend_complexity (scope : Scope) :
    Gen.Ensures (fun _ => True) (descend scope : Gen σ Scope)
      (fun inner => inner.complexity = scope.complexity + 1) := by
  refine Gen.ensures_ofExcept (fun inner h => ?_) fun _ _ => trivial
  unfold Scope.descend sizeAdd at h
  split at h
  · cases h
    rfl
  · cases h

section Congruence

variable (h : AgreeFrom (scope.complexity + 1) deeper deeper')
include h

omit [Source σ] in
theorem arguments_congr (params : List Binding) :
    arguments deeper scope params = arguments deeper' scope params := by
  refine Gen.bind_congr (ensures_descend_complexity scope) fun inner hinner => ?_
  congr 1
  funext p
  exact h .assignment inner p.ty (by omega)

theorem ownCall_congr (t : Ty) : ownCall deeper scope t = ownCall deeper' scope t := by
  unfold ownCall
  simp only [arguments_congr h]

theorem primary_congr (t : Ty) : x.primary deeper scope t = x.primary deeper' scope t := by
  refine Gen.bind_congr (Gen.ensures_any _) fun r _ => ?_
  rw [ownCall_congr h]
  split_ifs
  · rfl
  · rfl
  · refine Gen.bind_congr (ensures_descend_complexity scope) fun inner hinner => ?_
    rw [h .assignment inner .int (by omega)]
  · rfl
  · rfl
  · rfl
  · refine Gen.bind_congr (ensures_descend_complexity scope) fun inner hinner => ?_
    rw [h .assignment inner t (by omega)]

theorem memberAccess_congr (t : Ty) (target : Expr) (className : String) :
    x.memberAccess deeper scope t target className =
      x.memberAccess deeper' scope t target className := by
  unfold memberAccess
  simp only [arguments_congr h]

end Congruence

section Chains

-- a chain asks for its positions at its own complexity
variable (h : AgreeFrom scope.complexity deeper deeper')
include h

theorem access_congr (t : Ty) (target : Expr) :
    x.access deeper scope t target = x.access deeper' scope t target := by
  have harguments : AgreeFrom (scope.complexity + 1) deeper deeper' := h.mono (Nat.le_succ _)
  unfold access
  simp only [h .assignment scope .int (Nat.le_refl _), memberAccess_congr harguments]

theorem chain_congr (t : Ty) (links : Nat) (target : Expr) :
    x.chain deeper scope t links target = x.chain deeper' scope t links target := by
  induction links generalizing target with
  | zero => rfl
  | succ links ih =>
    unfold chain
    simp only [access_congr h, ih]

end Chains

section Layers

variable (h : AgreeFrom (scope.complexity + 1) deeper deeper')
include h

theorem postfixed_congr (t : Ty) : x.postfixed deeper scope t = x.postfixed deeper' scope t := by
  unfold postfixed
  rw [primary_congr h]
  split_ifs
  · rfl
  refine Gen.bind_congr (Gen.ensures_any _) fun r _ => ?_
  cases r with
  | none => rfl
  | some e =>
    dsimp only
    split_ifs
    · rfl
    · rfl
    refine Gen.bind_congr (ensures_descend_complexity scope) fun inner hinner => ?_
    rw [chain_congr (hinner ▸ h)]

theorem unary_congr (t : Ty) : x.unary deeper scope t = x.unary deeper' scope t := by
  unfold unary
  rw [postfixed_congr h]
  cases unaryOp? t with
  | none => rfl
  | some op =>
    refine Gen.bind_congr (Gen.ensures_any _) fun opens _ => ?_
    cases opens with
    | false => rfl
    | true =>
      refine Gen.bind_congr (ensures_descend_complexity scope) fun inner hinner => ?_
      rw [h .unary inner t (by omega)]

theorem binary_congr {p : Double} {operator : Gen σ (BinaryOp × Ty)} {left right : Layer}
    {next next' : Scope → Ty → Gen σ Expr} {t own : Ty} (hnext : next scope t = next' scope t) :
    (if t = own then x.binary deeper p operator left right next scope t else next scope t) =
      if t = own then x.binary deeper' p operator left right next' scope t else next' scope t := by
  rw [hnext]
  split_ifs
  · unfold binary
    refine Gen.bind_congr (Gen.ensures_any _) fun opens _ => ?_
    cases opens with
    | false => exact hnext
    | true =>
      refine Gen.bind_congr (Gen.ensures_any _) fun r _ => ?_
      refine Gen.bind_congr (ensures_descend_complexity scope) fun inner hinner => ?_
      rw [h left inner r.2 (by omega), h right inner r.2 (by omega)]
  · rfl

theorem multiplicative_congr (t : Ty) :
    x.multiplicative deeper scope t = x.multiplicative deeper' scope t :=
  binary_congr h (unary_congr h t)

theorem additive_congr (t : Ty) : x.additive deeper scope t = x.additive deeper' scope t :=
  binary_congr h (multiplicative_congr h t)

theorem relational_congr (t : Ty) : x.relational deeper scope t = x.relational deeper' scope t :=
  binary_congr h (additive_congr h t)

theorem equality_congr (t : Ty) : x.equality deeper scope t = x.equality deeper' scope t :=
  binary_congr h (relational_congr h t)

theorem logicalAnd_congr (t : Ty) : x.logicalAnd deeper scope t = x.logicalAnd deeper' scope t :=
  binary_congr h (equality_congr h t)

theorem logicalOr_congr (t : Ty) : x.logicalOr deeper scope t = x.logicalOr deeper' scope t :=
  binary_congr h (logicalAnd_congr h t)

theorem assignment_congr (t : Ty) : x.assignment deeper scope t = x.assignment deeper' scope t := by
  unfold assignment
  rw [logicalOr_congr h]
  refine Gen.bind_congr (Gen.ensures_any _) fun e _ => ?_
  split_ifs
  · refine Gen.bind_congr (Gen.ensures_any _) fun draw _ => ?_
    refine Gen.bind_congr (Gen.ensures_any _) fun share _ => ?_
    split_ifs
    · refine Gen.bind_congr (ensures_descend_complexity scope) fun inner hinner => ?_
      rw [h .assignment inner e.ty (by omega)]
    · rfl
  · rfl

/-- A layer asks for expressions at greater complexities only. -/
theorem layer_congr (which : Layer) (t : Ty) :
    x.layer deeper which scope t = x.layer deeper' which scope t := by
  cases which with
  | assignment => exact assignment_congr h t
  | logicalOr => exact logicalOr_congr h t
  | logicalAnd => exact logicalAnd_congr h t
  | equality => exact equality_congr h t
  | relational => exact relational_congr h t
  | additive => exact additive_congr h t
  | multiplicative => exact multiplicative_congr h t
  | unary => exact unary_congr h t

end Layers

section Exhausted

variable (h : x.settings.maxComplexity < scope.complexity)
include h

theorem gate_eq_false (p : Double) : (x.gate scope p : Gen σ Bool) = pure false :=
  if_neg (by omega)

theorem unary_eq_literal (t : Ty) : x.unary deeper scope t = literal t := by
  have hpostfixed : x.postfixed deeper scope t = literal t := if_pos h
  unfold unary
  rw [hpostfixed]
  cases unaryOp? t with
  | none => rfl
  | some op =>
    dsimp only
    rw [gate_eq_false h]
    rfl

theorem binary_eq_literal {p : Double} {operator : Gen σ (BinaryOp × Ty)} {left right : Layer}
    {next : Scope → Ty → Gen σ Expr} {t own : Ty} (hnext : next scope t = literal t) :
    (if t = own then x.binary deeper p operator left right next scope t else next scope t) =
      literal t := by
  split_ifs
  · unfold binary
    rw [gate_eq_false h]
    exact hnext
  · exact hnext

/-- Beyond the greatest complexity every layer gives a literal. -/
theorem layer_eq_literal (which : Layer) (t : Ty) :
    x.layer deeper which scope t = literal t := by
  have hunary : x.unary deeper scope t = literal t := unary_eq_literal h t
  have hmultiplicative : x.multiplicative deeper scope t = literal t := binary_eq_literal h hunary
  have hadditive : x.additive deeper scope t = literal t := binary_eq_literal h hmultiplicative
  have hrelational : x.relational deeper scope t = literal t := binary_eq_literal h hadditive
  have hequality : x.equality deeper scope t = literal t := binary_eq_literal h hrelational
  have hand : x.logicalAnd deeper scope t = literal t := binary_eq_literal h hequality
  have hor : x.logicalOr deeper scope t = literal t := binary_eq_literal h hand
  cases which with
  | assignment =>
    change x.logicalOr deeper scope t >>= _ = _
    rw [hor]
    unfold literal
    split <;> rfl
  | logicalOr => exact hor
  | logicalAnd => exact hand
  | equality => exact hequality
  | relational => exact hrelational
  | additive => exact hadditive
  | multiplicative => exact hmultiplicative
  | unary => exact hunary

end Exhausted

/-- More levels than a scope leaves make no difference. -/
theorem level_eq_generateAt (x : ExprContext) (n : Nat) (which : Layer) (scope : Scope) (t : Ty)
    (h : x.levelsAt scope ≤ n) :
    (x.level n which scope t : Gen σ Expr) = x.generateAt which scope t := by
  induction n using Nat.strongRecOn generalizing which scope t with
  | ind n ih =>
    by_cases hc : x.settings.maxComplexity < scope.complexity
    · have hzero : x.levelsAt scope = 0 := by
        unfold levelsAt
        omega
      rw [generateAt, hzero]
      cases n with
      | zero => rfl
      | succ n => exact layer_eq_literal hc which t
    · obtain ⟨left, hleft⟩ : ∃ left, x.levelsAt scope = left + 1 :=
        ⟨x.settings.maxComplexity - scope.complexity, by unfold levelsAt; omega⟩
      obtain ⟨n, rfl⟩ : ∃ m, n = m + 1 := ⟨n - 1, by omega⟩
      rw [generateAt, hleft]
      refine layer_congr (fun which inner t hinner => ?_) which t
      have hlevels : x.levelsAt inner ≤ left := by
        unfold levelsAt at hleft ⊢
        omega
      rw [ih n (by omega) which inner t (by omega), ih left (by omega) which inner t hlevels]

/-- The generator is the layers on top of itself. -/
theorem generateAt_eq (x : ExprContext) (which : Layer) (scope : Scope) (t : Ty) :
    (x.generateAt which scope t : Gen σ Expr) = x.layer x.generateAt which scope t := by
  rw [← level_eq_generateAt x (x.levelsAt scope + 1) which scope t (Nat.le_succ _)]
  refine layer_congr (fun which inner t hinner => ?_) which t
  refine level_eq_generateAt x _ which inner t ?_
  unfold levelsAt
  omega

theorem below_agrees (x : ExprContext) (scope : Scope) :
    AgreeFrom (scope.complexity + 1) (x.below scope : Deeper σ) x.generateAt := by
  intro which inner t hinner
  refine level_eq_generateAt x _ which inner t ?_
  unfold levelsAt
  omega

theorem postfixed_below (x : ExprContext) (scope : Scope) (t : Ty) :
    (x.postfixed (x.below scope) scope t : Gen σ Expr) = x.postfixed x.generateAt scope t :=
  postfixed_congr (below_agrees x scope) t

theorem ownCall_below (x : ExprContext) (scope : Scope) (t : Ty) :
    (ownCall (x.below scope) scope t : Gen σ (Option Expr)) = ownCall x.generateAt scope t :=
  ownCall_congr (below_agrees x scope) t

end ExprContext

namespace StmtContext

variable {σ : Type} [Source σ]

/-- A statement in its place, and the scope after it. -/
def placed (x : StmtContext) : Nested σ := fun p scope => x.level (x.levelsAt scope) p scope

/-- Two generators that do the same from a complexity on. A statement in a block leaves the
complexity as it was, so the next one is asked for at the same. -/
structure AgreeFrom (n : Nat) (nested nested' : Nested σ) : Prop where
  same : ∀ p scope, n ≤ scope.complexity → nested p scope = nested' p scope
  keeps : ∀ scope, Gen.Ensures (fun _ => True) (nested .inBlock scope)
    (fun r => r.2.complexity = scope.complexity)

variable {x : StmtContext} {nested nested' : Nested σ} {scope : Scope}

omit [Source σ] in
theorem AgreeFrom.mono {n m : Nat} (h : AgreeFrom n nested nested') (hle : n ≤ m) :
    AgreeFrom m nested nested' :=
  ⟨fun p scope hm => h.same p scope (Nat.le_trans hle hm), h.keeps⟩

theorem keeps_declaration (scope : Scope) :
    Gen.Ensures (fun _ => True) (x.declaration scope : Gen σ (Stmt × Scope))
      (fun r => r.2.complexity = scope.complexity) := by
  refine Gen.ensures_bind (Gen.ensures_any _) fun t _ => ?_
  refine Gen.ensures_bind (Gen.ensures_any _) fun found _ => ?_
  cases found with
  | none => exact Gen.ensures_pure rfl
  | some name =>
    refine Gen.ensures_bind (Gen.ensures_any _) fun hasInit _ => ?_
    split
    · exact Gen.ensures_bind (Gen.ensures_any _) fun init _ => Gen.ensures_pure rfl
    · exact Gen.ensures_pure rfl

theorem keeps_inBlock (nested : Nested σ) (scope : Scope) :
    Gen.Ensures (fun _ => True) (x.inBlock nested scope)
      (fun r => r.2.complexity = scope.complexity) := by
  have hunchanged : ∀ g : Gen σ Stmt, Gen.Ensures (fun _ => True)
      ((fun s => (s, scope)) <$> g) (fun r : Stmt × Scope => r.2.complexity = scope.complexity) :=
    fun g => Gen.ensures_map (Gen.ensures_any g) fun _ _ => rfl
  refine Gen.ensures_bind (Gen.ensures_any _) fun kind _ => ?_
  split
  · exact keeps_declaration scope
  · exact hunchanged _
  · exact hunchanged _
  · exact hunchanged _
  · exact hunchanged _
  · exact Gen.ensures_map (Gen.ensures_any _) fun _ _ => rfl
  · exact Gen.ensures_pure rfl

theorem keeps_level (n : Nat) (scope : Scope) :
    Gen.Ensures (fun _ => True) (x.level n .inBlock scope : Gen σ (Stmt × Scope))
      (fun r => r.2.complexity = scope.complexity) := by
  cases n with
  | zero => exact Gen.ensures_pure rfl
  | succ n => exact keeps_inBlock _ scope

omit [Source σ] in
theorem sequence_congr {n : Nat} (h : AgreeFrom n nested nested') (count : Nat)
    (hs : n ≤ scope.complexity) :
    sequence (nested .inBlock) count scope = sequence (nested' .inBlock) count scope := by
  induction count generalizing scope with
  | zero => rfl
  | succ count ih =>
    unfold sequence
    rw [← h.same .inBlock scope hs]
    refine Gen.bind_congr (h.keeps scope) fun r hr => ?_
    obtain ⟨a, next⟩ := r
    dsimp only at hr ⊢
    rw [ih (by omega)]

theorem blockOf_congr (h : AgreeFrom (scope.complexity + 1) nested nested') :
    x.blockOf (nested .inBlock) scope = x.blockOf (nested' .inBlock) scope := by
  refine Gen.bind_congr (ExprContext.ensures_descend_complexity scope) fun inner hinner => ?_
  simp only [sequence_congr h _ (Nat.le_of_eq hinner.symm)]

theorem drawKind_compound (p : Position) (scope : Scope) :
    Gen.Ensures (fun _ => True) (x.drawKind p scope : Gen σ (Option StmtKind))
      (fun r => ∀ k, r = some k → k.isCompound = true →
        scope.complexity < x.settings.stmt.maxStatementComplexity) :=
  (Gen.ensures_firstAccepted (Gen.ensures_any _) _).mono fun _ hr k hk hcompound =>
    Position.lt_of_allows (hr k hk).2 hcompound

theorem conditional_congr {branch branch' : Scope → Gen σ Stmt}
    (h : branch scope = branch' scope) :
    x.conditional branch scope = x.conditional branch' scope := by
  unfold conditional
  rw [h]

theorem loop_congr {branch branch' : Scope → Gen σ Stmt} (h : branch scope = branch' scope) :
    x.loop branch scope = x.loop branch' scope := by
  unfold loop
  rw [h]

section Nesting

-- where no compound statement is allowed, nothing is nested
variable (h : scope.complexity < x.settings.stmt.maxStatementComplexity →
  AgreeFrom (scope.complexity + 1) nested nested')
include h

theorem branch_congr : x.branch nested scope = x.branch nested' scope := by
  refine Gen.bind_congr (drawKind_compound .branch scope) fun kind hkind => ?_
  split
  · rfl
  · have hagree := h (hkind _ rfl rfl)
    refine Gen.bind_congr (ExprContext.ensures_descend_complexity scope) fun inner hinner => ?_
    exact conditional_congr (congrArg _ (hagree.same .branch inner (by omega)))
  · have hagree := h (hkind _ rfl rfl)
    refine Gen.bind_congr (ExprContext.ensures_descend_complexity scope) fun inner hinner => ?_
    exact loop_congr (congrArg _ (hagree.same .branch inner (by omega)))
  · have hagree := h (hkind _ rfl rfl)
    refine Gen.bind_congr (ExprContext.ensures_descend_complexity scope) fun inner hinner => ?_
    rw [blockOf_congr (hagree.mono (by omega))]
  · rfl

theorem inBlock_congr : x.inBlock nested scope = x.inBlock nested' scope := by
  have hbranch : x.branch nested scope = x.branch nested' scope := branch_congr h
  refine Gen.bind_congr (drawKind_compound .inBlock scope) fun kind hkind => ?_
  split
  · rfl
  · rfl
  · rw [conditional_congr hbranch]
  · rw [loop_congr hbranch]
  · rfl
  · rw [blockOf_congr (h (hkind _ rfl rfl))]
  · rfl

end Nesting

/-- More levels than a scope leaves make no difference. -/
theorem level_eq_placed (x : StmtContext) (n : Nat) (p : Position) (scope : Scope)
    (h : x.levelsAt scope ≤ n) :
    (x.level n p scope : Gen σ (Stmt × Scope)) = x.placed p scope := by
  induction n using Nat.strongRecOn generalizing p scope with
  | ind n ih =>
    obtain ⟨n, rfl⟩ : ∃ m, n = m + 1 := ⟨n - 1, by unfold levelsAt at h; omega⟩
    have hagree : scope.complexity < x.settings.stmt.maxStatementComplexity →
        AgreeFrom (scope.complexity + 1) (x.level n : Nested σ)
          (x.level (x.settings.stmt.maxStatementComplexity - scope.complexity)) := by
      intro hlt
      refine ⟨fun p inner hinner => ?_, keeps_level n⟩
      have hlevels : x.levelsAt inner ≤
          x.settings.stmt.maxStatementComplexity - scope.complexity := by
        unfold levelsAt
        omega
      unfold levelsAt at h
      rw [ih n (by omega) p inner (by omega), ih _ (by omega) p inner hlevels]
    cases p with
    | inBlock => exact inBlock_congr hagree
    | branch =>
      change (x.branch _ scope >>= _) = (x.branch _ scope >>= _)
      rw [branch_congr hagree]

theorem level_agrees (x : StmtContext) (scope : Scope) :
    AgreeFrom (scope.complexity + 1) (x.level (x.levelsAt scope) : Nested σ) x.placed := by
  refine ⟨fun p inner hinner => level_eq_placed x _ p inner ?_, keeps_level _⟩
  unfold levelsAt
  omega

/-- A statement in a block is made from statements in their places. -/
theorem blockStatement_eq (x : StmtContext) (scope : Scope) :
    (x.blockStatement scope : Gen σ (Stmt × Scope)) = x.inBlock x.placed scope := by
  change x.placed .inBlock scope = _
  rw [← level_eq_placed x (x.levelsAt scope + 1) .inBlock scope (Nat.le_succ _)]
  exact inBlock_congr fun _ => level_agrees x scope

theorem statement_eq (x : StmtContext) (scope : Scope) :
    (x.statement scope : Gen σ Stmt) = x.branch x.placed scope := by
  change Prod.fst <$> x.placed .branch scope = _
  rw [← level_eq_placed x (x.levelsAt scope + 1) .branch scope (Nat.le_succ _)]
  change Prod.fst <$> (x.branch (x.level (x.levelsAt scope)) scope >>= fun s => pure (s, scope)) = _
  rw [branch_congr fun _ => level_agrees x scope]
  simp only [map_bind, map_pure, bind_pure]

theorem block_eq (x : StmtContext) (scope : Scope) :
    (x.block scope : Gen σ (List Stmt)) = x.blockOf x.blockStatement scope :=
  blockOf_congr (level_agrees x scope)

end StmtContext
end JavaSynth
