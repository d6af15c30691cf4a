import JavaSynth.Proofs.Generate.EntryPoint

set_option autoImplicit false

/-!
# Places of statements

A statement stands directly in a block or is the branch of another one. Every statement of a
generated body comes from a production for its place, so what each production keeps to holds
everywhere in a body. The outermost block differs from a nested one by the value that it may return.
-/
namespace JavaSynth

namespace Stmt

def isReturn : Stmt → Bool
  | ret _ => true
  | _ => false

mutual

/-- A statement in a place and all statements in it, each with its own place. -/
def parts : Position → Stmt → List (Position × Stmt)
  | p, ifElse condition thenBranch elseBranch =>
    (p, ifElse condition thenBranch elseBranch) ::
      (parts .branch thenBranch ++ parts .branch elseBranch)
  | p, elseOnly condition elseBranch => (p, elseOnly condition elseBranch) :: parts .branch elseBranch
  | p, loop condition body => (p, loop condition body) :: parts .branch body
  | p, block body => (p, block body) :: partsOf body
  | p, a => [(p, a)]

/-- The statements of a block and all statements in them. -/
def partsOf : List Stmt → List (Position × Stmt)
  | [] => []
  | a :: rest => parts .inBlock a ++ partsOf rest

end

theorem mem_partsOf {body : List Stmt} {part : Position × Stmt} :
    part ∈ partsOf body ↔ ∃ a ∈ body, part ∈ parts .inBlock a := by
  induction body with
  | nil => simp [partsOf]
  | cons a rest ih => simp [partsOf, ih]

theorem mem_parts_ofBranches {p : Position} {condition : Expr} {thenBranch elseBranch : Stmt}
    {part : Position × Stmt} (h : part ∈ parts p (ofBranches condition thenBranch elseBranch)) :
    part = (p, ofBranches condition thenBranch elseBranch) ∨ part ∈ parts .branch thenBranch ∨
      part ∈ parts .branch elseBranch := by
  unfold ofBranches at h ⊢
  split at h
  · exact (List.mem_cons.1 h).imp_right .inr
  · exact (List.mem_cons.1 h).imp_right List.mem_append.1

theorem isReturn_ofBranches (condition : Expr) (thenBranch elseBranch : Stmt) :
    (ofBranches condition thenBranch elseBranch).isReturn = false := by
  unfold ofBranches
  split <;> rfl

theorem isBlock_ofBranches (condition : Expr) (thenBranch elseBranch : Stmt) :
    (ofBranches condition thenBranch elseBranch).isBlock = false := by
  unfold ofBranches
  split <;> rfl

end Stmt

theorem Position.le_inner (p : Position) (s : Scope) : s.complexity ≤ (p.inner s).complexity := by
  cases p with
  | inBlock => exact Nat.le_refl _
  | branch => exact Nat.le_succ _

namespace StmtContext

variable {x : StmtContext} {s s' : Scope} {body : List Stmt}

/-- The statement comes from a production for its place, at this complexity or a greater one. -/
def MadeAt (x : StmtContext) (complexity : Nat) (part : Position × Stmt) : Prop :=
  ∃ s s', complexity ≤ s.complexity ∧ x.Makes (.statement part.1) s [part.2] s'

theorem MadeAt.of_le {c c' : Nat} {part : Position × Stmt} (hle : c ≤ c')
    (h : x.MadeAt c' part) : x.MadeAt c part := by
  obtain ⟨s, s', hs, hmade⟩ := h
  exact ⟨s, s', Nat.le_trans hle hs, hmade⟩

/-- The place of the statements that a stage makes. -/
def Stage.place : Stage → Position
  | .statement p => p
  | .sequence _ | .block => .inBlock

/-- Where a statement has no other in it, there is only its own production. -/
theorem madeAt_leaf {p : Position} {a : Stmt} (h : x.Makes (.statement p) s [a] s')
    (ha : Stmt.parts p a = [(p, a)]) :
    ∀ b ∈ [a], ∀ part ∈ Stmt.parts p b, x.MadeAt s.complexity part := by
  refine List.forall_mem_singleton.2 ?_
  rw [ha]
  exact List.forall_mem_singleton.2 ⟨s, s', Nat.le_refl _, h⟩

/-- Beyond the outermost complexity everything is made in its place. The outermost block is left out,
since no production for a statement gives the value at its end. -/
theorem Makes.madeAt {stage : Stage} (h : x.Makes stage s body s') (hs : 0 < s.complexity) :
    ∀ a ∈ body, ∀ part ∈ Stmt.parts stage.place a, x.MadeAt s.complexity part := by
  induction h with
  | nothing => exact madeAt_leaf .nothing rfl
  | declaration hk hn hfresh ht hi => exact madeAt_leaf (.declaration hk hn hfresh ht hi) rfl
  | assignment hk hv he => exact madeAt_leaf (.assignment hk hv he) rfl
  | call hk hp he => exact madeAt_leaf (.call hk hp he) rfl
  | retNothing hk hv => exact madeAt_leaf (.retNothing hk hv) rfl
  | ret hk hv he => exact madeAt_leaf (.ret hk hv he) rfl
  | @conditional p s _ _ _ thenBranch elseBranch hk hc ht he iht ihe =>
    have hle := p.le_inner s
    have hinner := Nat.lt_of_lt_of_le hs hle
    refine List.forall_mem_singleton.2 fun part hpart => ?_
    rcases Stmt.mem_parts_ofBranches hpart with rfl | hthen | helse
    · exact ⟨s, s, Nat.le_refl _, .conditional hk hc ht he⟩
    · exact (iht hinner thenBranch (List.mem_singleton_self _) part hthen).of_le hle
    · exact (ihe hinner elseBranch (List.mem_singleton_self _) part helse).of_le hle
  | @loop p s _ _ branch hk hc hb ih =>
    have hle := p.le_inner s
    have hinner := Nat.lt_of_lt_of_le hs hle
    refine List.forall_mem_singleton.2 fun part hpart => ?_
    rcases List.mem_cons.1 hpart with rfl | hbranch
    · exact ⟨s, s, Nat.le_refl _, .loop hk hc hb⟩
    · exact (ih hinner branch (List.mem_singleton_self _) part hbranch).of_le hle
  | @block p s _ _ hk hb ih =>
    have hle := p.le_inner s
    have hinner := Nat.lt_of_lt_of_le hs hle
    refine List.forall_mem_singleton.2 fun part hpart => ?_
    rcases List.mem_cons.1 hpart with rfl | hbody
    · exact ⟨s, s, Nat.le_refl _, .block hk hb⟩
    · obtain ⟨a, ha, hpart⟩ := Stmt.mem_partsOf.1 hbody
      exact (ih hinner a ha part hpart).of_le hle
  | done => exact List.forall_mem_nil _
  | @next s sNext _ a rest _ ha _ iha ihr =>
    have hsame : sNext.complexity = s.complexity := ha.complexity_eq
    rw [hsame] at ihr
    exact List.forall_mem_cons.2 ⟨iha hs a (List.mem_singleton_self a), ihr hs⟩
  | plain _ _ _ ih =>
    intro a ha part hpart
    exact (ih (Nat.succ_pos _) a ha part hpart).of_le (Nat.le_succ _)
  | returning hr => exact absurd hr.1 (Nat.ne_of_gt hs)

/-- The statements in a row are as many as told, and each is made at the complexity of the row. -/
theorem Makes.row {count : Nat} (h : x.Makes (.sequence count) s body s') :
    body.length = count ∧ ∀ a ∈ body, ∃ sBefore sAfter, sBefore.complexity = s.complexity ∧
      x.Makes (.statement .inBlock) sBefore [a] sAfter := by
  induction count generalizing s body with
  | zero =>
    cases h with
    | done => exact ⟨rfl, List.forall_mem_nil _⟩
  | succ count ih =>
    cases h with
    | @next _ sNext _ a rest _ ha hr =>
      have hsame : sNext.complexity = s.complexity := ha.complexity_eq
      obtain ⟨hlength, hrest⟩ := ih hr
      rw [hsame] at hrest
      exact ⟨congrArg Nat.succ hlength, List.forall_mem_cons.2 ⟨⟨s, sNext, rfl, ha⟩, hrest⟩⟩

/-- A block holds the statements that were drawn for it, and the value that is returned at the end
of a method that gives one. -/
theorem Makes.drawn (h : x.Makes .block s body s') : ∃ drawn last, body = drawn ++ last ∧
    drawn.length ≤ x.settings.maxStatementsPerBlock ∧
    x.Makes (.sequence drawn.length) s.deeper drawn s' ∧
    ((¬ Returning s ∧ last = []) ∨ (Returning s ∧ ∃ e, last = [.ret (some e)])) := by
  cases h with
  | plain hn hc hb =>
    obtain ⟨rfl, -⟩ := hb.row
    exact ⟨body, [], (List.append_nil body).symm, hc, hb, .inl ⟨hn, rfl⟩⟩
  | returning hr hc hb he =>
    obtain ⟨rfl, -⟩ := hb.row
    exact ⟨_, [_], rfl, hc, hb, .inr ⟨hr, _, rfl⟩⟩

/-- All statements in a block are made inside it, but for the value that is returned at the end of a
method that gives one. -/
theorem Makes.part_cases (h : x.Makes .block s body s') : ∀ part ∈ Stmt.partsOf body,
    x.MadeAt (s.complexity + 1) part ∨ (Returning s ∧ ∃ e, part = (.inBlock, .ret (some e))) := by
  intro part hpart
  obtain ⟨drawn, last, rfl, -, hdrawn, hlast⟩ := h.drawn
  obtain ⟨a, ha, hin⟩ := Stmt.mem_partsOf.1 hpart
  rcases List.mem_append.1 ha with hmem | hmem
  · exact .inl (hdrawn.madeAt (Nat.succ_pos _) a hmem part hin)
  · obtain ⟨-, rfl⟩ | ⟨hr, e, rfl⟩ := hlast
    · cases hmem
    · rw [List.mem_singleton.1 hmem] at hin
      exact .inr ⟨hr, e, List.mem_singleton.1 hin⟩

end StmtContext

namespace Synthesis

/-- The body of a method is made as an outermost block, or as the block of the entry point. -/
structure Bodied (x : StmtContext) (m : Method) (body : List Stmt) : Prop where
  body_eq : m.body = some body
  made : ∃ s s', x.Makes .block s body s' ∧
    (StmtContext.Returning s ↔ m.returns.isVoid = false) ∧
    (m.isStatic = false → s.complexity = 0)

theorem FinishedClass.bodied {x : StmtContext} {c c' : ClassDecl} {m : Method}
    (h : FinishedClass x c c') (hm : m ∈ c'.methods) : ∃ body, Bodied x m body := by
  obtain ⟨methods, mains, rfl, hmethods, hmains, -⟩ := h.methods
  rcases List.mem_append.1 hm with hplanned | hentry
  · obtain ⟨planned, -, hfill⟩ := exists_of_forall₂ hmethods hplanned
    obtain ⟨body, s', rfl, hbody⟩ := hfill.body
    have hreturning : StmtContext.Returning (.ofMethod c planned.params planned.returns) ↔
        planned.returns.isVoid = false := ⟨fun hr => hr.2, fun hv => ⟨rfl, hv⟩⟩
    exact ⟨body, rfl, _, s', hbody, hreturning, fun _ => rfl⟩
  · obtain ⟨thrown, body, s', -, hbody, rfl⟩ := (hmains m hentry).method
    refine ⟨body, rfl, _, s', hbody, ⟨fun hr => ?_, fun hv => ?_⟩, fun hs => ?_⟩
    · cases hr.1
    · cases hv
    · cases hs

end Synthesis

/-- What holds of a body of the grammar, for any context with the settings, holds of every method of
a synthesized program. -/
theorem synthesize_methods {σ : Type} [Source σ] {s : Settings} {post : Method → Prop}
    (h : s.validate = .ok ()) (hpost : ∀ (x : StmtContext) (m : Method) (body : List Stmt),
      x.settings = s → Synthesis.Bodied x m body → post m) :
    ∃ g : Gen σ Program, synthesize s = .ok g ∧ Gen.Ensures s.Exhausts g (fun p =>
      ∀ c ∈ p.classes, ∀ m ∈ c.methods, post m) := by
  obtain ⟨g, hg, hprogram⟩ := synthesize_of_validate (σ := σ) h
  refine ⟨g, hg, hprogram.mono fun p hp c hc m hm => ?_⟩
  obtain ⟨plan, kinds, -, planned, -, hclass⟩ := hp.exists_planned hc
  obtain ⟨body, hbody⟩ := hclass.bodied hm
  exact hpost _ m body rfl hbody

end JavaSynth
