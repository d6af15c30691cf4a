import JavaSynth.Generate.Expression
import JavaSynth.Proofs.Generate.DrawnTypes
import JavaSynth.Proofs.Settings.Guarantees

set_option autoImplicit false

/-!
# The grammar of generated expressions

`Makes` lists the productions that a generator of expressions can choose from, with the guards
that it tests and without the draws. Each generator is bounded by it, whatever the source answers,
and stops with no fault. Facts about generated expressions are inductions over `Makes`; only how far
a chain gets and how the levels fit together is read off the generators.
-/
namespace JavaSynth

/-- The layer that passes on to which a request. -/
def Layer.next : Layer → Option Layer
  | .assignment => some .logicalOr
  | .logicalOr => some .logicalAnd
  | .logicalAnd => some .equality
  | .equality => some .relational
  | .relational => some .additive
  | .additive => some .multiplicative
  | .multiplicative => some .unary
  | .unary => none

namespace ExprContext

/-- What is being made. A chain counts the links that are left. -/
inductive Stage where
  | layer (which : Layer)
  | postfixed
  | primary
  | ownCall
  | access (target : Expr)
  | chain (links : Nat) (target : Expr)

inductive LiteralOf : Ty → Expr → Prop where
  | int (v : Int) : LiteralOf .int (.literal (.int v) .int)
  | boolean (b : Bool) : LiteralOf .boolean (.literal (.boolean b) .boolean)
  | null {t : Ty} (hint : t ≠ .int) (hbool : t ≠ .boolean) : LiteralOf t (.literal .null t)

variable (x : ExprContext)

/-- An operator may be built here. -/
def Opens (scope : Scope) (p : Double) : Prop :=
  scope.complexity ≤ x.settings.maxComplexity ∧ p.Possible

/-- The greatest number of dimensions that the operands of an equality gain. -/
def operandDims : Nat := x.settings.maxEqualityArrayWraps * maxDims

/-- The binary operators of a layer, for a requested type: their probability, the type of their
operands and the layers that the operands come from. -/
inductive Operation : Layer → Ty → Double → BinaryOp → Ty → Layer → Layer → Prop where
  | or : Operation .logicalOr .boolean x.settings.logicalOrProbability .or .boolean
      .logicalOr .logicalAnd
  | and : Operation .logicalAnd .boolean x.settings.logicalAndProbability .and .boolean
      .logicalAnd .equality
  | equality {op : BinaryOp} {operandTy : Ty} (hop : op ∈ BinaryOp.equality)
      (ht : operandTy.Wrapped x.types.fieldTypes x.settings.equalityArrayProbability
        x.operandDims) :
      Operation .equality .boolean x.settings.equalityProbability op operandTy
        .equality .relational
  | relational {op : BinaryOp} (hop : op ∈ BinaryOp.relational) :
      Operation .relational .boolean x.settings.relationalProbability op .int
        .relational .additive
  | additive {op : BinaryOp} (hop : op ∈ BinaryOp.additive) :
      Operation .additive .int x.settings.additiveProbability op .int
        .additive .multiplicative
  | multiplicative {op : BinaryOp} (hop : op ∈ BinaryOp.multiplicative) :
      Operation .multiplicative .int x.settings.multiplicativeProbability op .int
        .multiplicative .unary

inductive Makes : Stage → Scope → Ty → Expr → Prop where
  | fallback {scope : Scope} {t : Ty} {e : Expr} (h : LiteralOf t e) :
      Makes .postfixed scope t e
  | literal {scope : Scope} {t : Ty} {e : Expr} (h : LiteralOf t e) : Makes .primary scope t e
  | newObject {scope : Scope} {t : Ty} (h : t.isNamed = true) :
      Makes .primary scope t (.newObject t)
  | newArray {scope : Scope} {t : Ty} {size : Expr} (h : t.isArray = true)
      (hs : Makes (.layer .assignment) scope.deeper .int size) :
      Makes .primary scope t (.newArray size t)
  | variable {scope : Scope} {t : Ty} {v : Variable} (hv : v ∈ scope.candidates t) :
      Makes .primary scope t v.read
  | ownCall {scope : Scope} {t : Ty} {c : ClassDecl} {m : Method} {args : List Expr}
      (hc : scope.receiver = some c) (hm : m ∈ callable c t)
      (hl : args.length = m.params.length)
      (ha : ∀ pa ∈ m.params.zip args, Makes (.layer .assignment) scope.deeper pa.1.ty pa.2) :
      Makes .ownCall scope t (.ownCall m.name args m.returns)
  | called {scope : Scope} {t : Ty} {e : Expr} (h : Makes .ownCall scope t e) :
      Makes .primary scope t e
  | this {scope : Scope} {t : Ty} {c : ClassDecl} (hc : scope.receiver = some c) :
      Makes .primary scope t (.this c.reference)
  | nested {scope : Scope} {t : Ty} {e : Expr}
      (h : Makes (.layer .assignment) scope.deeper t e) : Makes .primary scope t e
  | index {scope : Scope} {t component : Ty} {target position : Expr}
      (hi : target.ty.indexesTo t = true) (hc : target.ty.component = some component)
      (hp : Makes (.layer .assignment) scope .int position) :
      Makes (.access target) scope t (.index target position component)
  | field {scope : Scope} {t : Ty} {target : Expr} {name : String} {c : ClassDecl} {f : Binding}
      (hi : target.ty.indexesTo t = false) (ht : target.ty = .named name)
      (hc : ClassDecl.find? x.classes name = some c) (hm : .field f ∈ c.membersFor t) :
      Makes (.access target) scope t (.field target f.name f.ty)
  | call {scope : Scope} {t : Ty} {target : Expr} {name : String} {c : ClassDecl} {m : Method}
      {args : List Expr} (hi : target.ty.indexesTo t = false) (ht : target.ty = .named name)
      (hc : ClassDecl.find? x.classes name = some c) (hm : .method m ∈ c.membersFor t)
      (hl : args.length = m.params.length)
      (ha : ∀ pa ∈ m.params.zip args, Makes (.layer .assignment) scope.deeper pa.1.ty pa.2) :
      Makes (.access target) scope t (.call target m.name args m.returns)
  | arrived {scope : Scope} {t : Ty} {target : Expr} {links : Nat} (h : target.ty = t) :
      Makes (.chain links target) scope t target
  | link {scope : Scope} {t : Ty} {target next e : Expr} {links : Nat} (h : target.ty ≠ t)
      (ha : Makes (.access target) scope t next) (hr : Makes (.chain links next) scope t e) :
      Makes (.chain (links + 1) target) scope t e
  | fitting {scope : Scope} {t : Ty} {e : Expr}
      (hc : scope.complexity ≤ x.settings.maxComplexity) (hp : Makes .primary scope t e)
      (ht : e.ty = t) : Makes .postfixed scope t e
  | repaired {scope : Scope} {t : Ty} {e e' : Expr}
      (hc : scope.complexity ≤ x.settings.maxComplexity) (hp : Makes .primary scope t e)
      (hne : e.ty ≠ t) (hv : e.ty.isVoid = false) (hprim : e.ty.isPrimitive = false)
      (hr : Makes (.chain x.settings.maxPostfixChain e) scope.deeper t e') :
      Makes .postfixed scope t e'
  | postfixed {scope : Scope} {t : Ty} {e : Expr} (h : Makes .postfixed scope t e) :
      Makes (.layer .unary) scope t e
  | unary {scope : Scope} {t : Ty} {op : UnaryOp} {operand : Expr}
      (hop : unaryOp? t = some op) (hg : x.Opens scope x.settings.unaryProbability)
      (ho : Makes (.layer .unary) scope.deeper t operand) :
      Makes (.layer .unary) scope t (.unary op operand t)
  | binary {scope : Scope} {t operandTy : Ty} {which left right : Layer} {p : Double}
      {op : BinaryOp} {l r : Expr} (ho : x.Operation which t p op operandTy left right)
      (hg : x.Opens scope p) (hl : Makes (.layer left) scope.deeper operandTy l)
      (hr : Makes (.layer right) scope.deeper operandTy r) :
      Makes (.layer which) scope t (.ofBinary op l r)
  | next {scope : Scope} {t : Ty} {which below : Layer} {e : Expr}
      (hn : which.next = some below) (h : Makes (.layer below) scope t e) :
      Makes (.layer which) scope t e
  | assign {scope : Scope} {t : Ty} {target value : Expr}
      (h : Makes (.layer .logicalOr) scope t target) (hl : target.isLocation = true)
      (hv : Makes (.layer .assignment) scope.deeper target.ty value) :
      Makes (.layer .assignment) scope t (.assign target value target.ty)

/-- What the generators rely on. -/
structure Valid : Prop where
  settings : x.settings.Valid
  types : x.types.Simple

variable {x}

theorem Valid.operandDims_lt (hx : x.Valid) : x.operandDims < sizeLimit := by
  have hcap := hx.settings.wraps_le
  have hlimit : ExprSettings.arrayWrapsCap * maxDims < sizeLimit := by decide
  exact Nat.lt_of_le_of_lt (Nat.mul_le_mul_right maxDims hcap) hlimit

section Bounds

variable {σ : Type} [Source σ] {allowed : Fault → Prop}

/-- A generator for deeper levels keeps to the grammar in the scopes that it is used in. -/
def Serves (x : ExprContext) (allowed : Fault → Prop) (deeper : Deeper σ) (bound : Nat) : Prop :=
  ∀ which scope t, scope.complexity ≤ bound →
    Gen.Ensures allowed (deeper which scope t) (x.Makes (.layer which) scope t)

omit [Source σ] in
theorem ensures_descend {scope : Scope} (h : scope.complexity + 1 < sizeLimit) :
    Gen.Ensures allowed (descend scope : Gen σ Scope) (· = scope.deeper) :=
  Gen.ensures_ofExcept_ok (Scope.descend_eq_ok h) rfl

theorem ensures_literal (t : Ty) : Gen.Ensures allowed (literal t : Gen σ Expr) (LiteralOf t) := by
  unfold literal
  split
  · exact Gen.ensures_bind Gen.ensures_int32 fun v _ => Gen.ensures_pure (.int v)
  · exact Gen.ensures_bind (Gen.ensures_coin Double.proper_half) fun b _ =>
      Gen.ensures_pure (.boolean b)
  · rename_i hint hbool
    exact Gen.ensures_pure (.null hint hbool)

theorem ensures_gate (scope : Scope) {p : Double} (hp : p.Proper) :
    Gen.Ensures allowed (x.gate scope p : Gen σ Bool) (fun b => b = true → x.Opens scope p) := by
  unfold gate
  split
  · rename_i hc
    exact (Gen.ensures_coin hp).mono fun b hb htrue => ⟨hc, hb.1 htrue⟩
  · exact Gen.ensures_pure (fun h => absurd h (by decide))

variable {deeper : Deeper σ} {scope : Scope} {bound : Nat}

omit [Source σ] in
theorem ensures_arguments (hd : x.Serves allowed deeper bound) (hs : scope.complexity + 1 ≤ bound)
    (hb : bound < sizeLimit) (params : List Binding) :
    Gen.Ensures allowed (arguments deeper scope params) (fun args =>
      args.length = params.length ∧
        ∀ pa ∈ params.zip args, x.Makes (.layer .assignment) scope.deeper pa.1.ty pa.2) := by
  refine Gen.ensures_bind (ensures_descend (by omega)) fun inner hinner => ?_
  subst hinner
  have hall : ∀ p ∈ params, Gen.Ensures allowed (deeper .assignment scope.deeper p.ty)
      (x.Makes (.layer .assignment) scope.deeper p.ty) :=
    fun p _ => hd .assignment scope.deeper p.ty hs
  refine (Gen.ensures_forEach hall).mono fun args h => ?_
  obtain ⟨hl, hz⟩ := List.forall₂_iff_zip.1 h
  exact ⟨hl.symm, fun pa hpa => hz hpa⟩

theorem ensures_variableRead (t : Ty) :
    Gen.Ensures allowed (variableRead scope t : Gen σ (Option Expr))
      (fun r => ∀ e, r = some e → x.Makes .primary scope t e) := by
  unfold variableRead
  split
  · exact Gen.ensures_pure (by simp)
  · rename_i hne
    refine Gen.ensures_bind (Gen.ensures_pick hne) fun v hv => ?_
    refine Gen.ensures_pure fun e he => ?_
    cases he
    exact .variable hv

theorem ensures_ownCall (hd : x.Serves allowed deeper bound) (hs : scope.complexity + 1 ≤ bound)
    (hb : bound < sizeLimit) (t : Ty) :
    Gen.Ensures allowed (ownCall deeper scope t)
      (fun r => ∀ e, r = some e → x.Makes .ownCall scope t e) := by
  unfold ownCall
  split
  · exact Gen.ensures_pure (by simp)
  · rename_i c hc
    split
    · exact Gen.ensures_pure (by simp)
    · rename_i hne
      refine Gen.ensures_bind (Gen.ensures_pick hne) fun m hm => ?_
      refine Gen.ensures_bind (ensures_arguments hd hs hb m.params) fun args hargs => ?_
      refine Gen.ensures_pure fun e he => ?_
      cases he
      exact .ownCall hc hm hargs.1 hargs.2

theorem ensures_primary (hd : x.Serves allowed deeper bound) (hs : scope.complexity + 1 ≤ bound)
    (hb : bound < sizeLimit) (t : Ty) :
    Gen.Ensures allowed (x.primary deeper scope t)
      (fun r => ∀ e, r = some e → x.Makes .primary scope t e) := by
  have hdown : Gen.Ensures allowed (descend scope : Gen σ Scope) (· = scope.deeper) :=
    ensures_descend (by omega)
  refine Gen.ensures_bind (Gen.ensures_real zero_lt_one_float isFinite_one_float) fun r _ => ?_
  split_ifs with hlit hobj harr hvar hcall hthis
  · refine Gen.ensures_map (ensures_literal t) fun e he e' h => ?_
    cases h
    exact .literal he
  · refine Gen.ensures_pure fun e h => ?_
    cases h
    exact .newObject hobj.2
  · refine Gen.ensures_bind hdown fun inner hinner => ?_
    subst hinner
    refine Gen.ensures_bind (hd .assignment scope.deeper .int hs) fun size hsize => ?_
    refine Gen.ensures_pure fun e h => ?_
    cases h
    exact .newArray harr.2 hsize
  · exact ensures_variableRead t
  · exact (ensures_ownCall hd hs hb t).mono fun r hr e he => .called (hr e he)
  · refine Gen.ensures_pure fun e h => ?_
    obtain ⟨c, hc, rfl⟩ := Option.map_eq_some_iff.1 h
    exact .this hc
  · refine Gen.ensures_bind hdown fun inner hinner => ?_
    subst hinner
    refine Gen.ensures_map (hd .assignment scope.deeper t hs) fun e he e' h => ?_
    cases h
    exact .nested he

theorem ensures_memberAccess (hd : x.Serves allowed deeper bound)
    (hs : scope.complexity + 1 ≤ bound) (hb : bound < sizeLimit) {t : Ty} {target : Expr}
    {name : String} (hi : target.ty.indexesTo t = false) (ht : target.ty = .named name) :
    Gen.Ensures allowed (x.memberAccess deeper scope t target name)
      (fun r => ∀ e, r = some e → x.Makes (.access target) scope t e) := by
  unfold memberAccess
  split
  · exact Gen.ensures_pure (by simp)
  · rename_i c hc
    split
    · exact Gen.ensures_pure (by simp)
    · rename_i hne
      refine Gen.ensures_bind (Gen.ensures_pick hne) fun member hm => ?_
      split
      · refine Gen.ensures_pure fun e h => ?_
        cases h
        exact .field hi ht hc hm
      · rename_i m
        refine Gen.ensures_bind (ensures_arguments hd hs hb m.params) fun args hargs => ?_
        refine Gen.ensures_pure fun e h => ?_
        cases h
        exact .call hi ht hc hm hargs.1 hargs.2

theorem ensures_access (hd : x.Serves allowed deeper bound) (hs : scope.complexity + 1 ≤ bound)
    (hb : bound < sizeLimit) (t : Ty) (target : Expr) :
    Gen.Ensures allowed (x.access deeper scope t target)
      (fun r => ∀ e, r = some e → x.Makes (.access target) scope t e) := by
  unfold access
  split
  · rename_i hi
    have hcomponent : Gen.Ensures allowed (Gen.ofExcept target.ty.component? : Gen σ _)
        (· = target.ty.component) :=
      Gen.ensures_ofExcept_ok (Ty.component?_of_indexesTo hi) rfl
    refine Gen.ensures_bind hcomponent fun r hr => ?_
    split
    · exact Gen.ensures_pure (by simp)
    · rename_i component
      refine Gen.ensures_bind (hd .assignment scope .int (by omega)) fun position hp => ?_
      refine Gen.ensures_pure fun e h => ?_
      cases h
      exact .index hi hr.symm hp
  · rename_i hi
    split
    · rename_i name ht
      exact ensures_memberAccess hd hs hb (Bool.eq_false_iff.2 hi) ht
    · exact Gen.ensures_pure (by simp)

theorem ensures_chain (hd : x.Serves allowed deeper bound) (hs : scope.complexity + 1 ≤ bound)
    (hb : bound < sizeLimit) (t : Ty) (links : Nat) (target : Expr) :
    Gen.Ensures allowed (x.chain deeper scope t links target)
      (fun r => ∀ e, r = some e → x.Makes (.chain links target) scope t e) := by
  induction links generalizing target with
  | zero =>
    refine Gen.ensures_pure fun e h => ?_
    split at h
    · rename_i ht
      cases h
      exact .arrived ht
    · cases h
  | succ links ih =>
    unfold chain
    split
    · rename_i ht
      refine Gen.ensures_pure fun e h => ?_
      cases h
      exact .arrived ht
    · rename_i ht
      refine Gen.ensures_bind (ensures_access hd hs hb t target) fun r hr => ?_
      split
      · exact Gen.ensures_pure (by simp)
      · rename_i next
        exact (ih next).mono fun r' hr' e he => .link ht (hr next rfl) (hr' e he)

theorem ensures_postfixed (hd : x.Serves allowed deeper bound) (hs : scope.complexity + 2 ≤ bound)
    (hb : bound < sizeLimit) (t : Ty) :
    Gen.Ensures allowed (x.postfixed deeper scope t) (x.Makes .postfixed scope t) := by
  have hfallback : Gen.Ensures allowed (literal t : Gen σ Expr) (x.Makes .postfixed scope t) :=
    (ensures_literal t).mono fun e he => .fallback he
  unfold postfixed
  split
  · exact hfallback
  · rename_i hc
    have hle : scope.complexity ≤ x.settings.maxComplexity := Nat.le_of_not_lt hc
    refine Gen.ensures_bind (ensures_primary hd (by omega) hb t) fun r hr => ?_
    split
    · exact hfallback
    · rename_i e
      have hp := hr e rfl
      split_ifs with ht hbase
      · exact Gen.ensures_pure (.fitting hle hp ht)
      · exact hfallback
      · obtain ⟨hv, hprim⟩ : e.ty.isVoid = false ∧ e.ty.isPrimitive = false := by
          simpa using hbase
        refine Gen.ensures_bind (ensures_descend (by omega)) fun inner hinner => ?_
        subst hinner
        refine Gen.ensures_bind (ensures_chain hd hs hb t _ e) fun r' hr' => ?_
        split
        · rename_i e'
          exact Gen.ensures_pure (.repaired hle hp ht hv hprim (hr' e' rfl))
        · exact hfallback

theorem ensures_unary (hx : x.Valid) (hd : x.Serves allowed deeper bound)
    (hs : scope.complexity + 2 ≤ bound) (hb : bound < sizeLimit) (t : Ty) :
    Gen.Ensures allowed (x.unary deeper scope t) (x.Makes (.layer .unary) scope t) := by
  have hpost : Gen.Ensures allowed (x.postfixed deeper scope t)
      (x.Makes (.layer .unary) scope t) :=
    (ensures_postfixed hd hs hb t).mono fun e he => .postfixed he
  unfold unary
  split
  · exact hpost
  · rename_i op hop
    refine Gen.ensures_bind (ensures_gate scope hx.settings.unary) fun opens hopens => ?_
    split
    · rename_i hopen
      refine Gen.ensures_bind (ensures_descend (by omega)) fun inner hinner => ?_
      subst hinner
      have hinner : scope.deeper.complexity ≤ bound := by
        change scope.complexity + 1 ≤ bound
        omega
      refine Gen.ensures_bind (hd .unary scope.deeper t hinner) fun operand ho => ?_
      exact Gen.ensures_pure (.unary hop (hopens hopen) ho)
    · exact hpost

/-- A layer that builds an operator for one type and else passes on keeps to the grammar if its
operator and the layer below do. -/
theorem ensures_binary (hd : x.Serves allowed deeper bound) (hs : scope.complexity + 1 ≤ bound)
    (hb : bound < sizeLimit) {which below left right : Layer} {t own : Ty} {p : Double}
    {operator : Gen σ (BinaryOp × Ty)} {next : Scope → Ty → Gen σ Expr}
    (hw : which.next = some below) (hp : p.Proper)
    (ho : Gen.Ensures allowed operator (fun r => x.Operation which own p r.1 r.2 left right))
    (hn : Gen.Ensures allowed (next scope t) (x.Makes (.layer below) scope t)) :
    Gen.Ensures allowed
      (if t = own then x.binary deeper p operator left right next scope t else next scope t)
      (x.Makes (.layer which) scope t) := by
  have hnext : Gen.Ensures allowed (next scope t) (x.Makes (.layer which) scope t) :=
    hn.mono fun e he => .next hw he
  split
  · rename_i ht
    subst ht
    refine Gen.ensures_bind (ensures_gate scope hp) fun opens hopens => ?_
    split
    · rename_i hopen
      refine Gen.ensures_bind ho fun r hr => ?_
      refine Gen.ensures_bind (ensures_descend (by omega)) fun inner hinner => ?_
      subst hinner
      refine Gen.ensures_bind (hd left scope.deeper r.2 hs) fun l hl => ?_
      refine Gen.ensures_bind (hd right scope.deeper r.2 hs) fun rhs hrhs => ?_
      exact Gen.ensures_pure (.binary hr (hopens hopen) hl hrhs)
    · exact hnext
  · exact hnext

theorem ensures_intOperator {family : List BinaryOp} (hne : family ≠ [])
    {post : BinaryOp × Ty → Prop} (h : ∀ op ∈ family, post (op, .int)) :
    Gen.Ensures allowed (intOperator family : Gen σ (BinaryOp × Ty)) post := by
  refine Gen.ensures_bind (Gen.ensures_pick hne) fun op hop => ?_
  exact Gen.ensures_pure (h op hop)

theorem ensures_wrapOperand {bases : List Ty} {p : Double} (hp : p.Proper)
    (hbase : ∀ b ∈ bases, b.isArray = false ∧ b.isVoid = false) (wraps : Nat) {limit : Nat} {t : Ty}
    (ht : t.Wrapped bases p limit) (hsize : limit + wraps * maxDims < sizeLimit) :
    Gen.Ensures allowed (wrapOperand p wraps t : Gen σ Ty)
      (Ty.Wrapped bases p (limit + wraps * maxDims)) := by
  induction wraps generalizing limit t with
  | zero =>
    rw [Nat.zero_mul]
    exact Gen.ensures_pure ht
  | succ wraps ih =>
    rw [Nat.succ_mul] at hsize ⊢
    refine Gen.ensures_bind (Gen.ensures_coin hp) fun heads hcoin => ?_
    split
    · rename_i hheads
      refine Gen.ensures_bind ensures_arrayDims fun n hn => ?_
      have hnow : limit + n < sizeLimit := by omega
      refine Gen.ensures_bind (ensures_arrayOf? hbase (hcoin.1 hheads) ht hnow) fun t' ht' => ?_
      refine (ih ht' (by omega)).mono fun t'' => ?_
      exact Ty.Wrapped.mono (by omega)
    · exact Gen.ensures_pure (ht.mono (by omega))

theorem ensures_equalityOperator (hx : x.Valid) :
    Gen.Ensures allowed (x.equalityOperator : Gen σ (BinaryOp × Ty)) (fun r =>
      x.Operation .equality .boolean x.settings.equalityProbability r.1 r.2
        .equality .relational) := by
  refine Gen.ensures_bind (Universe.ensures_randomFieldType hx.types) fun b hb => ?_
  have hsize : 0 + x.settings.maxEqualityArrayWraps * maxDims < sizeLimit := by
    rw [Nat.zero_add]
    exact hx.operandDims_lt
  refine Gen.ensures_bind (ensures_wrapOperand hx.settings.equalityArray hx.types.field_base _
    (Ty.wrapped_self hb _ 0) hsize) fun t ht => ?_
  refine Gen.ensures_bind (Gen.ensures_pick (by decide)) fun op hop => ?_
  rw [Nat.zero_add] at ht
  exact Gen.ensures_pure (.equality hop ht)

section Layers

variable (hx : x.Valid) (hd : x.Serves allowed deeper bound) (hs : scope.complexity + 2 ≤ bound)
  (hb : bound < sizeLimit) (t : Ty)
include hx hd hs hb

theorem ensures_multiplicative : Gen.Ensures allowed (x.multiplicative deeper scope t)
    (x.Makes (.layer .multiplicative) scope t) :=
  ensures_binary hd (by omega) hb rfl hx.settings.multiplicative
    (ensures_intOperator (by decide) fun _ hop => .multiplicative hop)
    (ensures_unary hx hd hs hb t)

theorem ensures_additive : Gen.Ensures allowed (x.additive deeper scope t)
    (x.Makes (.layer .additive) scope t) :=
  ensures_binary hd (by omega) hb rfl hx.settings.additive
    (ensures_intOperator (by decide) fun _ hop => .additive hop)
    (ensures_multiplicative hx hd hs hb t)

theorem ensures_relational : Gen.Ensures allowed (x.relational deeper scope t)
    (x.Makes (.layer .relational) scope t) :=
  ensures_binary hd (by omega) hb rfl hx.settings.relational
    (ensures_intOperator (by decide) fun _ hop => .relational hop)
    (ensures_additive hx hd hs hb t)

theorem ensures_equality : Gen.Ensures allowed (x.equality deeper scope t)
    (x.Makes (.layer .equality) scope t) :=
  ensures_binary hd (by omega) hb rfl hx.settings.equality
    (ensures_equalityOperator hx) (ensures_relational hx hd hs hb t)

theorem ensures_logicalAnd : Gen.Ensures allowed (x.logicalAnd deeper scope t)
    (x.Makes (.layer .logicalAnd) scope t) :=
  ensures_binary hd (by omega) hb rfl hx.settings.logicalAnd
    (Gen.ensures_pure .and) (ensures_equality hx hd hs hb t)

theorem ensures_logicalOr : Gen.Ensures allowed (x.logicalOr deeper scope t)
    (x.Makes (.layer .logicalOr) scope t) :=
  ensures_binary hd (by omega) hb rfl hx.settings.logicalOr
    (Gen.ensures_pure .or) (ensures_logicalAnd hx hd hs hb t)

theorem ensures_assignment : Gen.Ensures allowed (x.assignment deeper scope t)
    (x.Makes (.layer .assignment) scope t) := by
  refine Gen.ensures_bind (ensures_logicalOr hx hd hs hb t) fun e he => ?_
  split
  · rename_i hl
    refine Gen.ensures_bind (Gen.ensures_index (by omega)) fun draw _ => ?_
    have hshare : Gen.Ensures allowed
        (Gen.ofExcept (sizeAdd .assignmentShare (scope.complexity / 3) 1) : Gen σ Nat)
        (fun _ => True) :=
      Gen.ensures_ofExcept_ok (sizeAdd_eq_ok (by omega)) trivial
    refine Gen.ensures_bind hshare fun share _ => ?_
    split
    · refine Gen.ensures_bind (ensures_descend (by omega)) fun inner hinner => ?_
      subst hinner
      have hinner : scope.deeper.complexity ≤ bound := by
        change scope.complexity + 1 ≤ bound
        omega
      refine Gen.ensures_bind (hd .assignment scope.deeper e.ty hinner) fun value hv => ?_
      exact Gen.ensures_pure (.assign he hl hv)
    · exact Gen.ensures_pure (.next rfl he)
  · exact Gen.ensures_pure (.next rfl he)

theorem ensures_layer (which : Layer) : Gen.Ensures allowed (layer x deeper which scope t)
    (x.Makes (.layer which) scope t) := by
  cases which with
  | assignment => exact ensures_assignment hx hd hs hb t
  | logicalOr => exact ensures_logicalOr hx hd hs hb t
  | logicalAnd => exact ensures_logicalAnd hx hd hs hb t
  | equality => exact ensures_equality hx hd hs hb t
  | relational => exact ensures_relational hx hd hs hb t
  | additive => exact ensures_additive hx hd hs hb t
  | multiplicative => exact ensures_multiplicative hx hd hs hb t
  | unary => exact ensures_unary hx hd hs hb t

end Layers

omit [Source σ] in
theorem makes_of_unary {t : Ty} {e : Expr} (h : x.Makes (.layer .unary) scope t e)
    (which : Layer) : x.Makes (.layer which) scope t e := by
  have hmul : x.Makes (.layer .multiplicative) scope t e := .next rfl h
  have hrel : x.Makes (.layer .relational) scope t e := .next rfl (.next rfl hmul)
  have hand : x.Makes (.layer .logicalAnd) scope t e := .next rfl (.next rfl hrel)
  cases which with
  | assignment => exact .next rfl (.next rfl hand)
  | logicalOr => exact .next rfl hand
  | logicalAnd => exact hand
  | equality => exact .next rfl hrel
  | relational => exact hrel
  | additive => exact .next rfl hmul
  | multiplicative => exact hmul
  | unary => exact h

/-- Each level of the recursion may be two complexities deeper than the one before, as the
arguments in a chain are. -/
theorem serves_level (hx : x.Valid) (hb : bound < sizeLimit) (n b : Nat)
    (h : b + 2 * n ≤ bound) : x.Serves allowed (level x n : Deeper σ) b := by
  induction n generalizing b with
  | zero =>
    intro which scope t _
    exact (ensures_literal t).mono fun e he => makes_of_unary (.postfixed (.fallback he)) which
  | succ n ih =>
    intro which scope t hs
    have hd : x.Serves allowed (level x n : Deeper σ) (b + 2) := ih (b + 2) (by omega)
    exact ensures_layer hx hd (by omega) (by omega) t which

theorem Valid.depth_lt (hx : x.Valid) : 2 * (x.settings.maxComplexity + 1) < sizeLimit := by
  have hcap := hx.settings.complexity_le
  have hlimit : 2 * (ExprSettings.complexityCap + 1) < sizeLimit := by decide
  omega

theorem ensures_generateAt (hx : x.Valid) (which : Layer) (scope : Scope) (t : Ty) :
    Gen.Ensures allowed (x.generateAt which scope t : Gen σ Expr)
      (x.Makes (.layer which) scope t) := by
  unfold generateAt levelsAt
  by_cases hc : scope.complexity ≤ x.settings.maxComplexity
  · exact serves_level hx hx.depth_lt _ scope.complexity (by omega) which scope t (Nat.le_refl _)
  · have hzero : x.settings.maxComplexity + 1 - scope.complexity = 0 := by omega
    rw [hzero]
    exact (ensures_literal t).mono fun e he => makes_of_unary (.postfixed (.fallback he)) which

/-- What lies deeper than a scope keeps to the grammar, also in the arguments of a chain. -/
theorem serves_below (hx : x.Valid) (scope : Scope) :
    x.Serves allowed (x.below scope : Deeper σ) (scope.complexity + 2) := by
  unfold below
  by_cases hc : scope.complexity ≤ x.settings.maxComplexity
  · exact serves_level hx hx.depth_lt _ _ (by omega)
  · have hzero : x.settings.maxComplexity - scope.complexity = 0 := by omega
    rw [hzero]
    intro which inner t _
    exact (ensures_literal t).mono fun e he => makes_of_unary (.postfixed (.fallback he)) which

theorem ensures_postfixed_below (hx : x.Valid) (scope : Scope) (t : Ty) :
    Gen.Ensures allowed (x.postfixed (x.below scope) scope t : Gen σ Expr)
      (x.Makes .postfixed scope t) := by
  by_cases hc : scope.complexity ≤ x.settings.maxComplexity
  · have hlt := hx.depth_lt
    exact ensures_postfixed (serves_below hx scope) (Nat.le_refl _) (by omega) t
  · unfold postfixed
    rw [if_pos (by omega)]
    exact (ensures_literal t).mono fun e he => .fallback he

theorem ensures_ownCall_below (hx : x.Valid) {scope : Scope}
    (hs : scope.complexity + 2 < sizeLimit) (t : Ty) :
    Gen.Ensures allowed (ownCall (x.below scope) scope t : Gen σ (Option Expr))
      (fun r => ∀ e, r = some e → x.Makes .ownCall scope t e) :=
  ensures_ownCall (serves_below hx scope) (by omega) hs t

end Bounds
end ExprContext
end JavaSynth
