import JavaSynth.Proofs.Generate.Skeleton
import JavaSynth.Proofs.Shape.Places

set_option autoImplicit false

/-!
# Kinds of statements

The statements of a body are drawn by weight, so each is of a kind that has weight, or is empty
where the draw came to nothing. Entries without weight leave no trace: settings that differ in them
synthesize the same.
-/
namespace JavaSynth

def Stmt.kind : Stmt → StmtKind
  | empty => .empty
  | declare _ _ _ => .declaration
  | ifElse _ _ _ | elseOnly _ _ => .conditional
  | loop _ _ => .loop
  | eval _ => .expression
  | ret _ => .ret
  | block _ => .block

theorem Stmt.kind_ofBranches (condition : Expr) (thenBranch elseBranch : Stmt) :
    (ofBranches condition thenBranch elseBranch).kind = .conditional := by
  unfold ofBranches
  split <;> rfl

/-- Some entry gives the kind a positive weight. -/
def Settings.Weighs (s : Settings) (k : StmtKind) : Prop :=
  ∃ w, (w, k) ∈ s.statementWeights ∧ 0 < w.toFloat

/-- All that stands in a body has a kind with weight or is empty, apart from the value that a method
returns at its end if it gives one. -/
structure Method.Weighed (s : Settings) (m : Method) : Prop where
  drawn : ∃ drawn last, m.body = some (drawn ++ last) ∧
    (if m.returns.isVoid then last = [] else ∃ e, last = [.ret (some e)]) ∧
    ∀ part ∈ Stmt.partsOf drawn, part.2.kind ≠ .empty → s.Weighs part.2.kind

section Weights

variable {s : Settings} {kinds : Weighted Float StmtKind}

theorem Settings.weighs_of_mem (h : s.statementChoice = .ok kinds) {k : StmtKind}
    (hk : k ∈ kinds.items) : s.Weighs k := by
  rw [Weighted.items_of_ofEntries (ofEntries_of_choice h)] at hk
  obtain ⟨⟨weight, kind⟩, hmem, rfl⟩ := List.mem_map.1 hk
  obtain ⟨hentry, hpos⟩ := List.mem_filter.1 hmem
  obtain ⟨⟨w, kind'⟩, hw, heq⟩ := List.mem_map.1 hentry
  cases heq
  exact ⟨w, hw, of_decide_eq_true hpos⟩

end Weights

namespace StmtContext

variable {x : StmtContext} {s s' : Scope}

/-- A statement comes from a draw of its kind, unless it is empty. -/
theorem Makes.draws {p : Position} {body : List Stmt} (h : x.Makes (.statement p) s body s') :
    ∀ a ∈ body, a.kind = .empty ∨ x.Draws p s a.kind := by
  cases h with
  | nothing => exact List.forall_mem_singleton.2 (.inl rfl)
  | conditional hk =>
    refine List.forall_mem_singleton.2 (.inr ?_)
    rw [Stmt.kind_ofBranches]
    exact hk
  | declaration hk | assignment hk | call hk | retNothing hk | ret hk | loop hk
  | block hk => exact List.forall_mem_singleton.2 (.inr hk)

theorem MadeAt.kind_mem {complexity : Nat} {part : Position × Stmt}
    (h : x.MadeAt complexity part) (hk : part.2.kind ≠ .empty) :
    part.2.kind ∈ x.kinds.items := by
  obtain ⟨s, s', -, hmade⟩ := h
  exact ((hmade.draws part.2 (List.mem_singleton_self _)).resolve_left hk).1

end StmtContext

theorem Synthesis.Bodied.weighed {x : StmtContext} {m : Method} {body : List Stmt}
    (h : Bodied x m body) (hk : x.settings.statementChoice = .ok x.kinds) :
    m.Weighed x.settings := by
  obtain ⟨s, s', hmade, hreturning, -⟩ := h.made
  obtain ⟨drawn, last, rfl, -, hdrawn, hlast⟩ := hmade.drawn
  refine ⟨drawn, last, h.body_eq, ?_, fun part hpart hkind => ?_⟩
  · obtain ⟨hr, rfl⟩ | ⟨hr, e, rfl⟩ := hlast
    · have hvoid : m.returns.isVoid = true := by simpa using mt hreturning.2 hr
      rw [if_pos hvoid]
    · rw [hreturning.1 hr]
      exact ⟨e, rfl⟩
  · obtain ⟨a, ha, hin⟩ := Stmt.mem_partsOf.1 hpart
    have hplace := hdrawn.madeAt (Nat.succ_pos _) a ha part hin
    exact Settings.weighs_of_mem hk (hplace.kind_mem hkind)

theorem Weighted.counts_of_beq_zero {w : Float} (h : w == 0) : counts w = false := by
  have hfinite : Weight.isFinite w = true := isFinite_of_beq_zero h
  have hneg : Weight.lt w Weight.zero = false := decide_eq_false (not_neg_of_beq_zero h)
  have hpos : Weight.lt Weight.zero w = false := decide_eq_false (not_pos_of_beq_zero h)
  simp [counts, isInvalid, hfinite, hneg, hpos]

namespace Settings

variable {s : Settings} {weights : List (Double × StmtKind)}

/-- The entries whose weight is not zero. Entries of weight zero, put anywhere into a list, leave this
as it is. -/
def nonzero (weights : List (Double × StmtKind)) : List (Double × StmtKind) :=
  weights.filter fun e => !e.1.toFloat == 0

theorem filter_nonzero (weights : List (Double × StmtKind)) :
    (((nonzero weights).map fun (w, k) => (w.toFloat, k)).filter fun e => Weighted.counts e.1) =
      (weights.map fun (w, k) => (w.toFloat, k)).filter fun e => Weighted.counts e.1 := by
  unfold nonzero
  rw [List.filter_map, List.filter_map, List.filter_filter]
  refine congrArg (List.map _) (List.filter_congr fun e _ => ?_)
  by_cases hzero : e.1.toFloat == 0
  · simp [hzero, Weighted.counts_of_beq_zero hzero]
  · simp [hzero]

/-- What a choice can be made from, it is made from in the same way without the entries of no
weight. -/
theorem statementChoice_congr {kinds : Weighted Float StmtKind}
    (h : s.statementChoice = .ok kinds) (hw : nonzero weights = nonzero s.statementWeights) :
    { s with statementWeights := weights }.statementChoice = s.statementChoice := by
  have hof : Weighted.ofEntries (weights.map fun (w, k) => (w.toFloat, k)) = .ok kinds := by
    rw [← ofEntries_of_choice h]
    refine Weighted.ofEntries_congr ?_
    rw [← filter_nonzero weights, hw, filter_nonzero]
  have hne : weights.isEmpty = false := by
    cases weights with
    | nil => cases hof
    | cons => rfl
  rw [h]
  unfold statementChoice
  rw [hne, hof]
  rfl

/-- The weights are looked at through the choice only. -/
theorem validate_congr
    (h : { s with statementWeights := weights }.statementChoice = s.statementChoice) :
    Settings.validate { s with statementWeights := weights } = s.validate := by
  unfold validate
  rw [h]

end Settings

section Runs

variable {σ : Type} [Source σ] (x : StmtContext) (weights : List (Double × StmtKind))

namespace StmtContext

/-- The kinds are kept, and the settings forget what they were chosen from. -/
def withWeights : StmtContext :=
  { x with settings := { x.settings with statementWeights := weights } }

theorem level_withWeights (n : Nat) :
    (level (x.withWeights weights) n : Nested σ) = level x n := by
  induction n with
  | zero => rfl
  | succ n ih =>
    simp only [level]
    rw [ih]
    rfl

theorem block_withWeights (scope : Scope) :
    ((x.withWeights weights).block scope : Gen σ (List Stmt)) = x.block scope := by
  unfold block
  rw [level_withWeights]
  rfl

end StmtContext

namespace Synthesis

theorem fillClass_withWeights (c : ClassDecl) :
    (fillClass (x.withWeights weights) c : Gen σ ClassDecl) = fillClass x c := by
  have hmethod : (fillMethod (x.withWeights weights) c : Method → Gen σ Method) =
      fillMethod x c := by
    funext m
    unfold fillMethod
    rw [StmtContext.block_withWeights]
  unfold fillClass
  rw [hmethod]

theorem entryPoint_withWeights (c : ClassDecl) :
    (entryPoint (x.withWeights weights) c : Gen σ Method) = entryPoint x c := by
  have hthrown : (Plan.thrownTypes (x.withWeights weights).settings : Gen σ (List String)) =
      Plan.thrownTypes x.settings :=
    Plan.addThrown_congr ⟨rfl, rfl, rfl, rfl, rfl, rfl, rfl, rfl⟩ _ _
  unfold entryPoint
  rw [hthrown, StmtContext.block_withWeights]

theorem fillClasses_withWeights (wanted : Bool) (remaining : Nat) (classes : List ClassDecl) :
    (fillClasses (x.withWeights weights) wanted remaining classes : Gen σ (List ClassDecl)) =
      fillClasses x wanted remaining classes := by
  unfold fillClasses
  induction classes generalizing wanted remaining with
  | nil => rfl
  | cons c rest ih =>
    simp only [fillClassesBy, fillClass_withWeights, entryPoint_withWeights, ih]

/-- A run looks at the kinds, and not at the weights that they were chosen by. -/
theorem run_withWeights (s : Settings) (kinds : Weighted Float StmtKind) :
    (run { s with statementWeights := weights } kinds : Gen σ Program) = run s kinds := by
  have hplan : (Plan.draw { s with statementWeights := weights } : Gen σ Plan) = Plan.draw s :=
    Plan.draw_congr ⟨rfl, rfl, rfl, rfl, rfl, rfl, rfl, rfl⟩
  have hfill (plan : Plan) :=
    fillClasses_withWeights (σ := σ) (plan.context s kinds) weights s.entryPoint
      plan.classes.length plan.classes
  unfold run
  rw [hplan]
  exact congrArg (Plan.draw s >>= ·) (funext fun plan => congrArg (· >>= _) (hfill plan))

end Synthesis
end Runs

/-- A statement is of a kind with weight, or it is empty, at any depth of any body; and entries
without weight may be put anywhere among the weights without a change to any program. -/
theorem synthesize_weighed {σ : Type} [Source σ] {s : Settings} (h : s.validate = .ok ()) :
    ∃ g : Gen σ Program, synthesize s = .ok g ∧
      Gen.Ensures s.Exhausts g (fun p => ∀ c ∈ p.classes, ∀ m ∈ c.methods, m.Weighed s) ∧
      ∀ weights, Settings.nonzero weights = Settings.nonzero s.statementWeights →
        synthesize { s with statementWeights := weights } = .ok g := by
  obtain ⟨kinds, hk, hrun⟩ := synthesize_eq_run (σ := σ) h
  have hmade := Synthesis.ensures_run (σ := σ) (Settings.valid_of_validate h) hk
  refine ⟨_, hrun, hmade.mono fun p hp c hc m hm => ?_, fun weights hw => ?_⟩
  · obtain ⟨plan, kinds', -, hk', hfilled⟩ := hp.filled
    obtain ⟨planned, -, hclass⟩ := exists_of_forall₂ hfilled.finished hc
    obtain ⟨body, hbody⟩ := hclass.bodied hm
    exact hbody.weighed hk'
  · have hchoice := Settings.statementChoice_congr hk hw
    obtain ⟨kinds', hk', hrun'⟩ :=
      synthesize_eq_run (σ := σ) ((Settings.validate_congr hchoice).trans h)
    rw [hchoice, hk] at hk'
    cases hk'
    rw [hrun', Synthesis.run_withWeights]

/-- Declarations only; the entries of a loop stand without weight on both sides. -/
theorem synthesize_weighed_declarations : ∃ g : Gen WordStream Program,
    synthesize { words := ["river", "stone"], statementWeights := [(1, .declaration)] } = .ok g ∧
      synthesize
        { words := ["river", "stone"]
          statementWeights := [(0, .loop), (1, .declaration), (0, .loop)] } = .ok g ∧
      Gen.Yields g (fun p => ∀ c ∈ p.classes, ∀ m ∈ c.methods, ∃ drawn last,
        m.body = some (drawn ++ last) ∧ last.length ≤ 1 ∧
        ∀ part ∈ Stmt.partsOf drawn, part.2.kind = .empty ∨ part.2.kind = .declaration) := by
  have hvalid : Settings.validate
      { words := ["river", "stone"], statementWeights := [(1, .declaration)] } = .ok () := by rfl
  have hroom := Settings.not_exhausts
    (s := { words := ["river", "stone"], statementWeights := [(1, .declaration)] })
    (by decide) (by decide) (by decide)
  obtain ⟨g, hg, hweighed, hsame⟩ := synthesize_weighed (σ := WordStream) hvalid
  refine ⟨g, hg, hsame [(0, .loop), (1, .declaration), (0, .loop)] (by decide),
    (hweighed.mono fun p hp c hc m hm => ?_).yields hroom⟩
  obtain ⟨drawn, last, hbody, hlast, hparts⟩ := (hp c hc m hm).drawn
  refine ⟨drawn, last, hbody, ?_, fun part hpart => ?_⟩
  · split at hlast
    · rw [hlast]
      exact Nat.zero_le 1
    · obtain ⟨e, rfl⟩ := hlast
      exact Nat.le_refl 1
  · refine or_iff_not_imp_left.2 fun hkind => ?_
    obtain ⟨w, hw, -⟩ := hparts part hpart hkind
    exact congrArg Prod.snd (List.mem_singleton.1 hw)

end JavaSynth
