import JavaSynth.Draw.Stream
import JavaSynth.Proofs.Shape.Places

set_option autoImplicit false

/-!
# Nesting of statements

Compound statements are drawn below the greatest complexity only. In a block they leave the
complexity as it is to their branches, and a branch that is compound is one complexity deeper, so a
body nests one deeper than the settings say, its outermost block included.
-/
namespace JavaSynth

namespace Stmt

mutual

/-- How many compound statements stand in each other. -/
def nesting : Stmt → Nat
  | ifElse _ thenBranch elseBranch => max thenBranch.nesting elseBranch.nesting + 1
  | elseOnly _ elseBranch => elseBranch.nesting + 1
  | loop _ body => body.nesting + 1
  | block body => nestingOf body + 1
  | empty | declare _ _ _ | eval _ | ret _ => 0

def nestingOf : List Stmt → Nat
  | [] => 0
  | a :: rest => max a.nesting (nestingOf rest)

end

@[simp] theorem nestingOf_singleton (a : Stmt) : nestingOf [a] = a.nesting :=
  Nat.max_eq_left (Nat.zero_le _)

theorem nestingOf_append (body rest : List Stmt) :
    nestingOf (body ++ rest) = max (nestingOf body) (nestingOf rest) := by
  induction body with
  | nil => exact (Nat.max_eq_right (Nat.zero_le _)).symm
  | cons a body ih =>
    change max a.nesting (nestingOf (body ++ rest)) = max (max a.nesting (nestingOf body)) _
    rw [ih, Nat.max_assoc]

theorem nesting_ofBranches_le (condition : Expr) (thenBranch elseBranch : Stmt) :
    (ofBranches condition thenBranch elseBranch).nesting ≤
      max thenBranch.nesting elseBranch.nesting + 1 := by
  unfold ofBranches
  split
  · exact Nat.succ_le_succ (Nat.le_max_right _ _)
  · exact Nat.le_refl _

end Stmt

namespace StmtContext

variable {x : StmtContext} {s s' : Scope} {body : List Stmt}

/-- How deep the statements of a stage may nest, where compound statements end at a complexity. -/
def Stage.nestingLimit (stage : Stage) (greatest complexity : Nat) : Nat :=
  match stage with
  | .statement .inBlock | .sequence _ => greatest + 1 - complexity
  | .statement .branch | .block => greatest - complexity

/-- A branch nests less deep than the statement that it belongs to. -/
theorem nestingLimit_branch (p : Position) {greatest : Nat} (h : s.complexity < greatest) :
    Stage.nestingLimit (.statement .branch) greatest (p.inner s).complexity + 1 ≤
      Stage.nestingLimit (.statement p) greatest s.complexity := by
  cases p with
  | inBlock =>
    change greatest - s.complexity + 1 ≤ greatest + 1 - s.complexity
    omega
  | branch =>
    change greatest - (s.complexity + 1) + 1 ≤ greatest - s.complexity
    omega

theorem Makes.nestingOf_le {stage : Stage} (h : x.Makes stage s body s') :
    Stmt.nestingOf body ≤
      stage.nestingLimit x.settings.stmt.maxStatementComplexity s.complexity := by
  induction h with
  | @conditional p s _ _ condition thenBranch elseBranch hk _ _ _ iht ihe =>
    have hlimit := nestingLimit_branch p (hk.compound_lt rfl)
    have hbranches := Stmt.nesting_ofBranches_le condition thenBranch elseBranch
    rw [Stmt.nestingOf_singleton] at iht ihe ⊢
    omega
  | @loop p s _ condition branch hk _ _ ih =>
    have hlimit := nestingLimit_branch p (hk.compound_lt rfl)
    rw [Stmt.nestingOf_singleton] at ih ⊢
    change branch.nesting + 1 ≤ _
    omega
  | @block p s _ body hk _ ih =>
    -- a block has the same limit as a branch in its place
    have hlimit := nestingLimit_branch p (hk.compound_lt rfl)
    rw [Stmt.nestingOf_singleton]
    exact Nat.le_trans (Nat.succ_le_succ ih) hlimit
  | @next s sNext _ a rest _ ha _ iha ihr =>
    have hsame : sNext.complexity = s.complexity := ha.complexity_eq
    rw [hsame] at ihr
    rw [Stmt.nestingOf_singleton] at iha
    exact Nat.max_le.2 ⟨iha, ihr⟩
  | @plain s _ _ _ _ _ _ ih =>
    change _ ≤ x.settings.stmt.maxStatementComplexity + 1 - (s.complexity + 1) at ih
    change _ ≤ x.settings.stmt.maxStatementComplexity - s.complexity
    omega
  | @returning s _ body _ e _ _ _ _ ih =>
    change _ ≤ x.settings.stmt.maxStatementComplexity + 1 - (s.complexity + 1) at ih
    change _ ≤ x.settings.stmt.maxStatementComplexity - s.complexity
    rw [Stmt.nestingOf_append, Stmt.nestingOf_singleton]
    change max _ 0 ≤ _
    omega
  | _ => exact Nat.zero_le _

theorem Makes.of_block {p : Position} {inner : List Stmt}
    (h : x.Makes (.statement p) s [.block inner] s') :
    ∃ sInner, x.Makes .block (p.inner s) inner sInner := by
  generalize ha : Stmt.block inner = a at h
  cases h with
  | block _ hb =>
    cases ha
    exact ⟨_, hb⟩
  | conditional =>
    have hblock := congrArg Stmt.isBlock ha
    rw [Stmt.isBlock_ofBranches] at hblock
    cases hblock
  | _ => cases ha

/-- A nested block holds what was drawn for it and no more. -/
theorem MadeAt.block_length_le {c : Nat} {part : Position × Stmt} {inner : List Stmt}
    (h : x.MadeAt (c + 1) part) (hb : part.2 = .block inner) :
    inner.length ≤ x.settings.maxStatementsPerBlock := by
  obtain ⟨s, s', hs, hmade⟩ := h
  rw [hb] at hmade
  obtain ⟨sInner, hblock⟩ := hmade.of_block
  obtain ⟨drawn, last, rfl, hlength, -, ⟨-, rfl⟩ | ⟨hr, -⟩⟩ := hblock.drawn
  · rwa [List.append_nil]
  · have hle := part.1.le_inner s
    have hzero := hr.1
    omega

end StmtContext

/-- The body nests no deeper and its blocks are no longer than the settings allow. A method that gives
a value has the return at its end besides. -/
structure Method.WithinLimits (s : Settings) (m : Method) (body : List Stmt) : Prop where
  nesting : (Stmt.block body).nesting ≤ s.stmt.maxStatementComplexity + 1
  nested : ∀ part ∈ Stmt.partsOf body, ∀ inner, part.2 = .block inner →
    inner.length ≤ s.maxStatementsPerBlock
  outermost : ∃ drawn last, body = drawn ++ last ∧ drawn.length ≤ s.maxStatementsPerBlock ∧
    if m.returns.isVoid then last = [] else ∃ e, last = [.ret (some e)]

theorem Synthesis.Bodied.withinLimits {x : StmtContext} {m : Method} {body : List Stmt}
    (h : Bodied x m body) : m.WithinLimits x.settings body := by
  obtain ⟨s, s', hmade, hreturning, -⟩ := h.made
  have hnesting : Stmt.nestingOf body ≤ x.settings.stmt.maxStatementComplexity - s.complexity :=
    hmade.nestingOf_le
  obtain ⟨drawn, last, rfl, hlength, -, hlast⟩ := hmade.drawn
  refine ⟨?_, fun part hpart inner hblock => ?_, drawn, last, rfl, hlength, ?_⟩
  · change Stmt.nestingOf (drawn ++ last) + 1 ≤ _
    omega
  · rcases hmade.part_cases part hpart with hinside | ⟨-, e, rfl⟩
    · exact hinside.block_length_le hblock
    · cases hblock
  · rcases hlast with ⟨hnot, rfl⟩ | ⟨hr, hvalue⟩
    · rw [hreturning] at hnot
      rw [if_pos (Bool.ne_false_iff.1 hnot)]
    · rw [if_neg (by simp [hreturning.1 hr])]
      exact hvalue

/-- Every body nests at most one deeper than the greatest complexity, its own block included, and
no block in it holds more statements than the settings allow, but for a value that is returned at
the end of the outermost one. -/
theorem synthesize_withinLimits {σ : Type} [Source σ] {s : Settings} (h : s.validate = .ok ()) :
    ∃ g : Gen σ Program, synthesize s = .ok g ∧ Gen.Ensures s.Exhausts g (fun p =>
      ∀ c ∈ p.classes, ∀ m ∈ c.methods, ∃ body, m.body = some body ∧ m.WithinLimits s body) :=
  synthesize_methods h fun _ _ body hx hbody =>
    ⟨body, hbody.body_eq, hx ▸ hbody.withinLimits⟩

theorem synthesize_withinLimits_words : ∃ g : Gen WordStream Program,
    synthesize { words := ["river", "stone"], maxStatementsPerBlock := 3 } = .ok g ∧
      Gen.Yields g (fun p => ∀ c ∈ p.classes, ∀ m ∈ c.methods, ∃ body, m.body = some body ∧
        (Stmt.block body).nesting ≤ 7 ∧ body.length ≤ 4) := by
  have hvalid : Settings.validate { words := ["river", "stone"], maxStatementsPerBlock := 3 } =
      .ok () := by rfl
  obtain ⟨g, hg, hprogram⟩ := synthesize_withinLimits (σ := WordStream) hvalid
  refine ⟨g, hg, (hprogram.mono fun p hp c hc m hm => ?_).yields
    (Settings.not_exhausts (by decide) (by decide) (by decide))⟩
  obtain ⟨body, hbody, hnesting, -, drawn, last, rfl, hlength, hlast⟩ := hp c hc m hm
  refine ⟨_, hbody, hnesting, ?_⟩
  have hone : last.length ≤ 1 := by
    split at hlast
    · rw [hlast]
      exact Nat.zero_le 1
    · obtain ⟨e, rfl⟩ := hlast
      exact Nat.le_refl 1
  rw [List.length_append]
  change drawn.length ≤ 3 at hlength
  omega

end JavaSynth
