import JavaSynth.Proofs.Generate.ExprGrammar
import JavaSynth.Proofs.Generate.Room
import JavaSynth.Proofs.Naming.Spelling

set_option autoImplicit false

/-!
# The grammar of generated statements

`Makes` lists what a generator of statements can choose from, with the scope after each statement.
A sequence hands the scope from one statement to the next; what is nested in a statement leaves
the scope as it was. Every generator of statements is bounded by `Makes`.
-/
namespace JavaSynth

/-- The scope of what is nested in a statement: a branch is a level deeper than a block. -/
def Position.inner : Position → Scope → Scope
  | .inBlock, s => s
  | .branch, s => s.deeper

/-- A compound statement is allowed below the greatest complexity only. -/
theorem Position.lt_of_allows {p : Position} {settings : StmtSettings} {complexity : Nat}
    {k : StmtKind} (h : p.allows settings complexity k = true) (hk : k.isCompound = true) :
    complexity < settings.maxStatementComplexity := by
  simp only [Position.allows, hk, Bool.true_and, Bool.and_eq_true, Bool.not_eq_true',
    decide_eq_false_iff_not] at h
  exact Nat.lt_of_not_le h.1

namespace StmtContext

/-- What is being made: one statement in its place, a number of statements, or the statements of a
block that stands in the scope. -/
inductive Stage where
  | statement (p : Position)
  | sequence (count : Nat)
  | block

variable (x : StmtContext)

/-- The kind has weight, and the place allows it. -/
def Draws (p : Position) (s : Scope) (k : StmtKind) : Prop :=
  k ∈ x.kinds.items ∧ p.allows x.settings.stmt s.complexity k = true

theorem Draws.compound_lt {x : StmtContext} {p : Position} {s : Scope} {k : StmtKind}
    (h : x.Draws p s k) (hk : k.isCompound = true) :
    s.complexity < x.settings.stmt.maxStatementComplexity :=
  Position.lt_of_allows h.2 hk

/-- The outermost block of a method that gives a value. -/
def Returning (s : Scope) : Prop := s.complexity = 0 ∧ s.returns.isVoid = false

inductive Makes : Stage → Scope → List Stmt → Scope → Prop where
  | nothing {p : Position} {s : Scope} : Makes (.statement p) s [.empty] s
  | declaration {s : Scope} {name : String} {t : Ty} {init : Option Expr}
      (hk : x.Draws .inBlock s .declaration) (hn : x.namer.Lower name)
      (hfresh : s.isTaken name = false)
      (ht : t.Wrapped x.types.fieldTypes x.settings.arrayTypePercentage maxDims)
      (hi : ∀ e, init = some e → x.settings.stmt.initializerProbability.Possible ∧
        x.exprs.Makes (.layer .assignment) s t e) :
      Makes (.statement .inBlock) s [.declare name t init] (s.declare { name := name, ty := t })
  | assignment {p : Position} {s : Scope} {v : Variable} {value : Expr}
      (hk : x.Draws p s .expression) (hv : v ∈ s.visible)
      (he : x.exprs.Makes (.layer .assignment) s.deeper v.ty value) :
      Makes (.statement p) s [.eval (.assign v.read value v.ty)] s
  | call {p : Position} {s : Scope} {t : Ty} {e : Expr} (hk : x.Draws p s .expression)
      (hp : x.settings.stmt.invocationProbability.Possible)
      (he : x.exprs.Makes .ownCall s.deeper t e) : Makes (.statement p) s [.eval e] s
  | retNothing {s : Scope} (hk : x.Draws .inBlock s .ret) (hv : s.returns.isVoid = true) :
      Makes (.statement .inBlock) s [.ret none] s
  | ret {s : Scope} {e : Expr} (hk : x.Draws .inBlock s .ret) (hv : s.returns.isVoid = false)
      (he : x.exprs.Makes (.layer .logicalOr) s s.returns e) :
      Makes (.statement .inBlock) s [.ret (some e)] s
  | conditional {p : Position} {s sThen sElse : Scope} {condition : Expr}
      {thenBranch elseBranch : Stmt} (hk : x.Draws p s .conditional)
      (hc : x.exprs.Makes (.layer .assignment) (p.inner s) .boolean condition)
      (ht : Makes (.statement .branch) (p.inner s) [thenBranch] sThen)
      (he : Makes (.statement .branch) (p.inner s) [elseBranch] sElse) :
      Makes (.statement p) s [.ofBranches condition thenBranch elseBranch] s
  | loop {p : Position} {s sBody : Scope} {condition : Expr} {body : Stmt}
      (hk : x.Draws p s .loop)
      (hc : x.exprs.Makes (.layer .assignment) (p.inner s) .boolean condition)
      (hb : Makes (.statement .branch) (p.inner s) [body] sBody) :
      Makes (.statement p) s [.loop condition body] s
  | block {p : Position} {s sBody : Scope} {body : List Stmt} (hk : x.Draws p s .block)
      (hb : Makes .block (p.inner s) body sBody) : Makes (.statement p) s [.block body] s
  | done {s : Scope} : Makes (.sequence 0) s [] s
  | next {s sNext sLast : Scope} {a : Stmt} {rest : List Stmt} {count : Nat}
      (ha : Makes (.statement .inBlock) s [a] sNext)
      (hr : Makes (.sequence count) sNext rest sLast) :
      Makes (.sequence (count + 1)) s (a :: rest) sLast
  | plain {s sLast : Scope} {body : List Stmt} {count : Nat} (hn : ¬ Returning s)
      (hc : count ≤ x.settings.maxStatementsPerBlock)
      (hb : Makes (.sequence count) s.deeper body sLast) : Makes .block s body sLast
  | returning {s sLast : Scope} {body : List Stmt} {count : Nat} {e : Expr} (hr : Returning s)
      (hc : count ≤ x.settings.maxStatementsPerBlock)
      (hb : Makes (.sequence count) s.deeper body sLast)
      (he : x.exprs.Makes (.layer .logicalOr) sLast sLast.returns e) :
      Makes .block s (body ++ [.ret (some e)]) sLast

/-- What the generators rely on. -/
structure Valid : Prop where
  settings : x.settings.Valid
  kinds : x.kinds.Drawable
  types : x.types.Simple

variable {x}

theorem Valid.exprs (hx : x.Valid) : x.exprs.Valid := ⟨hx.settings.expr, hx.types⟩

/-- The locals may grow along a sequence, and nothing else of a scope changes. -/
theorem Makes.returns_eq {stage : Stage} {s s' : Scope} {body : List Stmt}
    (h : x.Makes stage s body s') : s'.returns = s.returns := by
  induction h with
  | next _ _ iha ihr => exact ihr.trans iha
  | plain _ _ _ ih => exact ih
  | returning _ _ _ _ ih => exact ih
  | _ => rfl

section Bounds

variable {σ : Type} [Source σ]

/-- A generator of nested statements keeps to the grammar in the scopes that it is used in. -/
def Serves (x : StmtContext) (nested : Nested σ) (bound : Nat) : Prop :=
  ∀ p s, s.complexity ≤ bound → Gen.Ensures x.settings.Exhausts (nested p s)
    (fun r => x.Makes (.statement p) s [r.1] r.2)

variable {s : Scope} {bound : Nat}

omit [Source σ] in
theorem ensures_descend (hs : s.complexity + 1 < sizeLimit) :
    Gen.Ensures x.settings.Exhausts (ExprContext.descend s : Gen σ Scope) (· = s.deeper) :=
  ExprContext.ensures_descend hs

theorem ensures_drawKind (hx : x.Valid) (p : Position) (s : Scope) :
    Gen.Ensures x.settings.Exhausts (x.drawKind p s : Gen σ (Option StmtKind))
      (fun r => ∀ k, r = some k → x.Draws p s k) :=
  Gen.ensures_firstAccepted (Weighted.ensures_draw hx.kinds) _

theorem ensures_freshName (hx : x.Valid) (s : Scope) :
    Gen.Ensures x.settings.Exhausts (x.freshName s : Gen σ (Option String))
      (fun r => ∀ name, r = some name → x.namer.Lower name ∧ s.isTaken name = false) := by
  have hdraw : Gen.Ensures x.settings.Exhausts (x.namer.lowerCamel : Gen σ String)
      x.namer.Lower := Namer.ensures_lowerCamel hx.settings.words_ne_nil
  refine (Gen.ensures_firstAccepted hdraw _).mono fun r hr name hname => ?_
  obtain ⟨hlower, hfree⟩ := hr name hname
  exact ⟨hlower, by simpa using hfree⟩

theorem ensures_declaration (hx : x.Valid) (hk : x.Draws .inBlock s .declaration) :
    Gen.Ensures x.settings.Exhausts (x.declaration s : Gen σ (Stmt × Scope))
      (fun r => x.Makes (.statement .inBlock) s [r.1] r.2) := by
  refine Gen.ensures_bind
    (Universe.ensures_pickFieldType hx.types hx.settings.arrayType) fun t ht => ?_
  refine Gen.ensures_bind (ensures_freshName hx s) fun found hfound => ?_
  split
  · exact Gen.ensures_pure .nothing
  · rename_i name
    obtain ⟨hlower, hfree⟩ := hfound name rfl
    refine Gen.ensures_bind (Gen.ensures_coin hx.settings.stmt.initializer) fun hasInit hcoin => ?_
    split
    · rename_i h
      have hinit : Gen.Ensures x.settings.Exhausts (some <$> x.exprs.generate s t : Gen σ _)
          (fun init => ∀ e, init = some e → x.exprs.Makes (.layer .assignment) s t e) := by
        refine Gen.ensures_map (ExprContext.ensures_generateAt hx.exprs .assignment s t)
          fun e he e' heq => ?_
        cases heq
        exact he
      refine Gen.ensures_bind hinit fun init hi => ?_
      exact Gen.ensures_pure
        (.declaration hk hlower hfree ht fun e he => ⟨hcoin.1 h, hi e he⟩)
    · exact Gen.ensures_pure (.declaration hk hlower hfree ht (by simp))

theorem ensures_assignment (hx : x.Valid) {p : Position} (hk : x.Draws p s .expression) :
    Gen.Ensures x.settings.Exhausts (x.assignment s s.deeper : Gen σ Stmt)
      (fun a => x.Makes (.statement p) s [a] s) := by
  unfold assignment
  split
  · exact Gen.ensures_pure .nothing
  · rename_i hne
    refine Gen.ensures_bind (Gen.ensures_pick hne) fun v hv => ?_
    refine Gen.ensures_bind (ExprContext.ensures_generateAt hx.exprs .assignment s.deeper v.ty)
      fun value he => ?_
    exact Gen.ensures_pure (.assignment hk hv he)

theorem ensures_expression (hx : x.Valid) {p : Position} (hk : x.Draws p s .expression)
    (hs : s.complexity + 3 < sizeLimit) :
    Gen.Ensures x.settings.Exhausts (x.expression s : Gen σ Stmt)
      (fun a => x.Makes (.statement p) s [a] s) := by
  refine Gen.ensures_bind (ensures_descend (by omega)) fun inner hinner => ?_
  subst hinner
  refine Gen.ensures_bind (Gen.ensures_coin hx.settings.stmt.invocation) fun calls hcalls => ?_
  split
  · rename_i h
    refine Gen.ensures_bind (Universe.ensures_randomReturnType hx.types) fun t _ => ?_
    have hdepth : s.deeper.complexity + 2 < sizeLimit := hs
    refine Gen.ensures_bind (ExprContext.ensures_ownCall_below hx.exprs hdepth t) fun r hr => ?_
    split
    · rename_i e
      exact Gen.ensures_pure (.call hk (hcalls.1 h) (hr e rfl))
    · exact ensures_assignment hx hk
  · exact ensures_assignment hx hk

theorem ensures_returnValue (hx : x.Valid) (s : Scope) :
    Gen.Ensures x.settings.Exhausts (x.ret s : Gen σ Stmt) (fun a =>
      (s.returns.isVoid = true ∧ a = .ret none) ∨ (s.returns.isVoid = false ∧
        ∃ e, a = .ret (some e) ∧ x.exprs.Makes (.layer .logicalOr) s s.returns e)) := by
  unfold ret
  split
  · rename_i hv
    exact Gen.ensures_pure (.inl ⟨hv, rfl⟩)
  · rename_i hv
    refine Gen.ensures_bind (ExprContext.ensures_generateAt hx.exprs .logicalOr s s.returns)
      fun e he => ?_
    exact Gen.ensures_pure (.inr ⟨Bool.eq_false_iff.2 hv, e, rfl, he⟩)

theorem ensures_ret (hx : x.Valid) (hk : x.Draws .inBlock s .ret) :
    Gen.Ensures x.settings.Exhausts (x.ret s : Gen σ Stmt)
      (fun a => x.Makes (.statement .inBlock) s [a] s) := by
  refine (ensures_returnValue hx s).mono fun a ha => ?_
  obtain ⟨hv, rfl⟩ | ⟨hv, e, rfl, he⟩ := ha
  · exact .retNothing hk hv
  · exact .ret hk hv he

/-- A generator of branches keeps to the grammar in one scope. -/
def ServesBranch (x : StmtContext) (branch : Scope → Gen σ Stmt) (s : Scope) : Prop :=
  Gen.Ensures x.settings.Exhausts (branch s) (fun a => ∃ s', x.Makes (.statement .branch) s [a] s')

theorem ensures_conditional (hx : x.Valid) {p : Position} (hk : x.Draws p s .conditional)
    {branch : Scope → Gen σ Stmt} (hb : x.ServesBranch branch (p.inner s)) :
    Gen.Ensures x.settings.Exhausts (x.conditional branch (p.inner s))
      (fun a => x.Makes (.statement p) s [a] s) := by
  refine Gen.ensures_bind (ExprContext.ensures_generateAt hx.exprs .assignment _ .boolean)
    fun condition hc => ?_
  refine Gen.ensures_bind hb fun thenBranch ht => ?_
  refine Gen.ensures_bind hb fun elseBranch he => ?_
  obtain ⟨sThen, ht⟩ := ht
  obtain ⟨sElse, he⟩ := he
  exact Gen.ensures_pure (.conditional hk hc ht he)

theorem ensures_loop (hx : x.Valid) {p : Position} (hk : x.Draws p s .loop)
    {branch : Scope → Gen σ Stmt} (hb : x.ServesBranch branch (p.inner s)) :
    Gen.Ensures x.settings.Exhausts (x.loop branch (p.inner s))
      (fun a => x.Makes (.statement p) s [a] s) := by
  refine Gen.ensures_bind (ExprContext.ensures_generateAt hx.exprs .assignment _ .boolean)
    fun condition hc => ?_
  refine Gen.ensures_bind hb fun body hbody => ?_
  obtain ⟨sBody, hbody⟩ := hbody
  exact Gen.ensures_pure (.loop hk hc hbody)

/-- The sequence stays below the bound, since a statement leaves the complexity as it was. -/
theorem Makes.complexity_eq {p : Position} {s s' : Scope} {body : List Stmt}
    (h : x.Makes (.statement p) s body s') : s'.complexity = s.complexity := by
  cases h <;> rfl

variable {nested : Nested σ}

omit [Source σ] in
theorem ensures_sequence (hn : x.Serves nested bound) (count : Nat) (hs : s.complexity ≤ bound) :
    Gen.Ensures x.settings.Exhausts (sequence (nested .inBlock) count s)
      (fun r => x.Makes (.sequence count) s r.1 r.2) := by
  induction count generalizing s with
  | zero => exact Gen.ensures_pure .done
  | succ count ih =>
    refine Gen.ensures_bind (hn .inBlock s hs) fun r hr => ?_
    obtain ⟨a, sNext⟩ := r
    have hnext : sNext.complexity ≤ bound := by
      have heq : sNext.complexity = s.complexity := hr.complexity_eq
      omega
    refine Gen.ensures_bind (ih hnext) fun r' hr' => ?_
    obtain ⟨rest, sLast⟩ := r'
    exact Gen.ensures_pure (.next hr hr')

theorem ensures_blockOf (hx : x.Valid) (hn : x.Serves nested bound)
    (hs : s.complexity + 1 ≤ bound) (hb : bound < sizeLimit) :
    Gen.Ensures x.settings.Exhausts (x.blockOf (nested .inBlock) s)
      (fun body => ∃ s', x.Makes .block s body s') := by
  refine Gen.ensures_bind (ensures_descend (by omega)) fun inner hinner => ?_
  subst hinner
  refine Gen.ensures_bind (Gen.ensures_upTo _) fun count hcount => ?_
  refine Gen.ensures_bind (Gen.ensures_sizeAdd hcount fun h => .inr ⟨rfl, h⟩) fun room hroom => ?_
  subst hroom
  refine Gen.ensures_bind (Gen.ensures_checkRoom (Nat.succ_le_succ hcount)
    fun h => .inl ⟨rfl, .inr (.inr h)⟩) fun _ _ => ?_
  refine Gen.ensures_bind (ensures_sequence (s := s.deeper) hn count hs) fun r hr => ?_
  obtain ⟨body, sLast⟩ := r
  dsimp only
  split
  · rename_i hret
    have hreturning : Returning s := ⟨hret.1, by simpa using hret.2⟩
    refine Gen.ensures_bind (ensures_returnValue hx sLast) fun last hlast => ?_
    obtain ⟨hv, rfl⟩ | ⟨-, e, rfl, he⟩ := hlast
    · have heq : sLast.returns = s.returns := hr.returns_eq
      rw [heq, hreturning.2] at hv
      cases hv
    · exact Gen.ensures_pure ⟨sLast, .returning hreturning hcount hr he⟩
  · rename_i hret
    refine Gen.ensures_pure ⟨sLast, .plain (fun h => hret ⟨h.1, ?_⟩) hcount hr⟩
    rw [h.2]
    rfl

theorem ensures_branch (hx : x.Valid) (hn : x.Serves nested bound) (hs : s.complexity ≤ bound)
    (hmax : x.settings.stmt.maxStatementComplexity + 1 ≤ bound) (hb : bound + 3 < sizeLimit) :
    Gen.Ensures x.settings.Exhausts (x.branch nested s)
      (fun a => x.Makes (.statement .branch) s [a] s) := by
  have hdown : Gen.Ensures x.settings.Exhausts (ExprContext.descend s : Gen σ Scope)
      (· = s.deeper) := ensures_descend (by omega)
  have hinside : s.complexity + 1 ≤ bound → x.ServesBranch (Prod.fst <$> nested .branch ·)
      s.deeper := fun h =>
    Gen.ensures_map (hn .branch s.deeper h) fun r hr => ⟨r.2, hr⟩
  refine Gen.ensures_bind (ensures_drawKind hx .branch s) fun r hr => ?_
  split
  · exact ensures_expression hx (hr _ rfl) (by omega)
  · have hk := hr _ rfl
    refine Gen.ensures_bind hdown fun inner hinner => ?_
    subst hinner
    have hlt := hk.compound_lt rfl
    exact ensures_conditional (p := .branch) hx hk (hinside (by omega))
  · have hk := hr _ rfl
    refine Gen.ensures_bind hdown fun inner hinner => ?_
    subst hinner
    have hlt := hk.compound_lt rfl
    exact ensures_loop (p := .branch) hx hk (hinside (by omega))
  · have hk := hr _ rfl
    refine Gen.ensures_bind hdown fun inner hinner => ?_
    subst hinner
    have hlt := hk.compound_lt rfl
    have hin : s.deeper.complexity + 1 ≤ bound := by
      change s.complexity + 1 + 1 ≤ bound
      omega
    refine Gen.ensures_map (ensures_blockOf hx hn hin (by omega)) fun body hbody => ?_
    obtain ⟨sBody, hbody⟩ := hbody
    exact .block (p := .branch) hk hbody
  · exact Gen.ensures_pure .nothing

theorem ensures_inBlock (hx : x.Valid) (hn : x.Serves nested bound) (hs : s.complexity ≤ bound)
    (hmax : x.settings.stmt.maxStatementComplexity + 1 ≤ bound) (hb : bound + 3 < sizeLimit) :
    Gen.Ensures x.settings.Exhausts (x.inBlock nested s)
      (fun r => x.Makes (.statement .inBlock) s [r.1] r.2) := by
  have hbranch : x.ServesBranch (x.branch nested) s :=
    (ensures_branch hx hn hs hmax hb).mono fun a ha => ⟨s, ha⟩
  refine Gen.ensures_bind (ensures_drawKind hx .inBlock s) fun r hr => ?_
  split
  · exact ensures_declaration hx (hr _ rfl)
  · exact Gen.ensures_map (ensures_expression hx (hr _ rfl) (by omega)) fun a ha => ha
  · exact Gen.ensures_map (ensures_conditional (p := .inBlock) hx (hr _ rfl) hbranch)
      fun a ha => ha
  · exact Gen.ensures_map (ensures_loop (p := .inBlock) hx (hr _ rfl) hbranch) fun a ha => ha
  · exact Gen.ensures_map (ensures_ret hx (hr _ rfl)) fun a ha => ha
  · have hk := hr _ rfl
    have hlt := hk.compound_lt rfl
    refine Gen.ensures_map (ensures_blockOf hx hn (by omega) (by omega)) fun body hbody => ?_
    obtain ⟨sBody, hbody⟩ := hbody
    exact .block (p := .inBlock) hk hbody
  · exact Gen.ensures_pure .nothing

theorem serves_level (hx : x.Valid)
    (hmax : x.settings.stmt.maxStatementComplexity + 1 ≤ bound) (hb : bound + 3 < sizeLimit)
    (n : Nat) : x.Serves (level x n : Nested σ) bound := by
  induction n with
  | zero => exact fun _ _ _ => Gen.ensures_pure .nothing
  | succ n ih =>
    intro p s hs
    cases p with
    | inBlock => exact ensures_inBlock hx ih hs hmax hb
    | branch =>
      refine Gen.ensures_bind (ensures_branch hx ih hs hmax hb) fun a ha => ?_
      exact Gen.ensures_pure ha

/-- The statements of a block keep to the grammar at any complexity with room above it. -/
theorem ensures_block (hx : x.Valid) (hs : s.complexity + 4 < sizeLimit) :
    Gen.Ensures x.settings.Exhausts (x.block s : Gen σ (List Stmt))
      (fun body => ∃ s', x.Makes .block s body s') := by
  have hcap := hx.settings.stmt.complexity_le
  have hlimit : StmtSettings.complexityCap + 1 + 3 < sizeLimit := by decide
  have hn : x.Serves (level x (levelsAt x s) : Nested σ)
      (max (x.settings.stmt.maxStatementComplexity + 1) (s.complexity + 1)) :=
    serves_level hx (Nat.le_max_left _ _) (by omega) _
  exact ensures_blockOf hx hn (Nat.le_max_right _ _) (by omega)

end Bounds
end StmtContext
end JavaSynth
