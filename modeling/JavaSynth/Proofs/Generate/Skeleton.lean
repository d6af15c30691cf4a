import JavaSynth.Proofs.Generate.EntryPoint

set_option autoImplicit false

/-!
# Skeletons

The declarations of a program are drawn before its first body, by settings that say nothing about
bodies. So two runs on one stream whose settings differ in the rest declare the same, however
differently they go on, and both declare what the plan of that stream declares.
-/
namespace JavaSynth

/-- A method as it is declared, without its body. -/
def Method.signature (m : Method) : Method := { m with body := none }

/-- A class without bodies and without an entry point. -/
def ClassDecl.skeleton (c : ClassDecl) : ClassDecl :=
  { c with methods := c.instanceMethods.map Method.signature }

def Program.skeleton (p : Program) : List ClassDecl := p.classes.map ClassDecl.skeleton

/-- The settings agree in what declarations are drawn by. -/
structure Settings.DeclareAlike (s₁ s₂ : Settings) : Prop where
  fieldToMethodRatio : s₁.fieldToMethodRatio = s₂.fieldToMethodRatio
  arrayTypePercentage : s₁.arrayTypePercentage = s₂.arrayTypePercentage
  approximateNameLength : s₁.approximateNameLength = s₂.approximateNameLength
  maxTypeMembers : s₁.maxTypeMembers = s₂.maxTypeMembers
  maxTypes : s₁.maxTypes = s₂.maxTypes
  maxParameters : s₁.maxParameters = s₂.maxParameters
  thrownTypeProbability : s₁.thrownTypeProbability = s₂.thrownTypeProbability
  words : s₁.words = s₂.words

namespace Plan

variable {σ : Type} [Source σ] {s₁ s₂ : Settings}

section Congruence

variable (h : s₁.DeclareAlike s₂)
include h

theorem namer_congr : namer s₁ = namer s₂ := by
  simp only [namer, h.words, h.approximateNameLength]

theorem addClassName_congr : (addClassName s₁ : _ → Gen σ _) = addClassName s₂ := by
  funext names
  simp only [addClassName, namer_congr h]

theorem addParameter_congr (types : Universe) :
    (addParameter s₁ types : _ → Gen σ _) = addParameter s₂ types := by
  funext params
  simp only [addParameter, namer_congr h, h.arrayTypePercentage]

theorem addThrown_congr (coins : Nat) (thrown : List String) :
    (addThrown s₁ coins thrown : Gen σ _) = addThrown s₂ coins thrown := by
  induction coins generalizing thrown with
  | zero => rfl
  | succ coins ih => simp only [addThrown, namer_congr h, h.thrownTypeProbability, ih]

theorem addField_congr (types : Universe) :
    (addField s₁ types : _ → Gen σ _) = addField s₂ types := by
  funext c
  simp only [addField, namer_congr h, h.arrayTypePercentage]

theorem addMethod_congr (types : Universe) :
    (addMethod s₁ types : _ → Gen σ _) = addMethod s₂ types := by
  funext c
  simp only [addMethod, thrownTypes, namer_congr h, addParameter_congr h, addThrown_congr h,
    h.arrayTypePercentage, h.maxParameters]

theorem addMember_congr (types : Universe) :
    (addMember s₁ types : _ → Gen σ _) = addMember s₂ types := by
  funext c
  simp only [addMember, addField_congr h, addMethod_congr h, h.fieldToMethodRatio]

/-- A plan is drawn without a look at what the settings say about bodies. -/
theorem draw_congr : (draw s₁ : Gen σ Plan) = draw s₂ := by
  unfold draw planClass
  simp only [addClassName_congr h, addMember_congr h, h.maxTypes, h.maxTypeMembers]

end Congruence

/-- How a run ends that draws the plan: with a program that declares what the plan declares, or
with a fault that the settings allow. -/
def Underlies (plan : Plan) (s : Settings) : Except Fault (Program × σ) → Prop
  | .ok (p, _) => p.skeleton = plan.classes
  | .error f => s.Exhausts f

omit [Source σ] in
theorem Underlies.exists_program {plan : Plan} {s : Settings} {r : Except Fault (Program × σ)}
    (h : plan.Underlies s r) (hroom : ∀ f, ¬ s.Exhausts f) :
    ∃ p rest, r = .ok (p, rest) ∧ p.skeleton = plan.classes := by
  cases r with
  | ok r => exact ⟨r.1, r.2, rfl, h⟩
  | error f => exact absurd h (hroom f)

end Plan

section Filled

variable {c c' : ClassDecl}

theorem ClassDecl.Fills.skeleton (h : c.Fills c') (hb : ∀ m ∈ c.methods, m.body = none) :
    c'.skeleton = c := by
  have hplanned := (List.forall₂_and_left _ _).2 ⟨hb, h.planned⟩
  have hmethods : c'.instanceMethods.map Method.signature = c.methods.map id := by
    refine map_eq_of_forall₂ hplanned fun m m' hm => ?_
    obtain ⟨hnone, -, body, rfl⟩ := hm
    change { m with body := none } = m
    rw [← hnone]
  rw [List.map_id] at hmethods
  unfold ClassDecl.skeleton
  rw [hmethods, h.fields]
  cases c with
  | mk name fields methods =>
    have hname : c'.name = name := h.name
    rw [hname]

theorem skeleton_of_fills {classes : List ClassDecl} {p : Program}
    (h : List.Forall₂ ClassDecl.Fills classes p.classes)
    (hb : ∀ c ∈ classes, ∀ m ∈ c.methods, m.body = none) : p.skeleton = classes := by
  have hboth := (List.forall₂_and_left _ _).2 ⟨hb, h⟩
  have hmap := map_eq_of_forall₂ (f := id) hboth fun c c' hc => hc.2.skeleton hc.1
  rwa [List.map_id] at hmap

end Filled

namespace Synthesis

variable {σ : Type} [Source σ] {s : Settings} {kinds : Weighted Float StmtKind} {stream : σ}

/-- A run draws its plan before all else, and keeps to it. -/
theorem underlies_run (hs : s.Valid) (hk : s.statementChoice = .ok kinds) {plan : Plan} {mid : σ}
    (hplan : Plan.draw s stream = .ok (plan, mid)) : plan.Underlies s (run s kinds stream) := by
  rcases run_cases hs hk stream with ⟨f, hf, hexhausts⟩ | ⟨plan', mid', p, rest, hplan', hp, hdrawn,
    hfilled⟩
  · rw [hf]
    exact hexhausts
  · rw [hplan] at hplan'
    cases hplan'
    rw [hp]
    refine skeleton_of_fills (hfilled.fills fun c hc m hm => ?_) fun c hc m hm => ?_
    · have hplanned := (hdrawn.classes c hc).methods m hm
      exact ⟨hplanned.isStatic, hplanned.name_ne⟩
    · exact ((hdrawn.classes c hc).methods m hm).body

/-- A plan that cannot be drawn ends the run. -/
theorem run_of_draw_error {f : Fault} (h : Plan.draw s stream = .error f) :
    run s kinds stream = .error f :=
  Gen.bind_of_error h

end Synthesis

/-- Two runs on one stream, by settings that agree in what declarations are drawn by, draw the same
plan and declare what it declares, whatever their bodies draw. A fault of the plan ends both. -/
theorem synthesize_skeletons {σ : Type} [Source σ] {s₁ s₂ : Settings}
    (h₁ : s₁.validate = .ok ()) (h₂ : s₂.validate = .ok ()) (h : s₁.DeclareAlike s₂) :
    ∃ g₁ g₂ : Gen σ Program, synthesize s₁ = .ok g₁ ∧ synthesize s₂ = .ok g₂ ∧ ∀ stream,
      (∃ f, Plan.draw s₁ stream = .error f ∧ s₁.Exhausts f ∧ s₂.Exhausts f ∧
        g₁ stream = .error f ∧ g₂ stream = .error f) ∨
      ∃ plan rest, Plan.draw s₁ stream = .ok (plan, rest) ∧ Plan.draw s₂ stream = .ok (plan, rest) ∧
        plan.Underlies s₁ (g₁ stream) ∧ plan.Underlies s₂ (g₂ stream) := by
  have hs₁ := Settings.valid_of_validate h₁
  have hs₂ := Settings.valid_of_validate h₂
  obtain ⟨kinds₁, hk₁, hrun₁⟩ := synthesize_eq_run (σ := σ) h₁
  obtain ⟨kinds₂, hk₂, hrun₂⟩ := synthesize_eq_run (σ := σ) h₂
  refine ⟨_, _, hrun₁, hrun₂, fun stream => ?_⟩
  have hsame : Plan.draw s₁ stream = Plan.draw s₂ stream := by rw [Plan.draw_congr h]
  have hdrawn₁ := Plan.ensures_draw hs₁ stream
  have hdrawn₂ := Plan.ensures_draw hs₂ stream
  cases hplan : Plan.draw s₁ stream with
  | error f =>
    have hplan₂ := hsame.symm.trans hplan
    rw [hplan] at hdrawn₁
    rw [hplan₂] at hdrawn₂
    exact .inl ⟨f, rfl, hdrawn₁, hdrawn₂, Synthesis.run_of_draw_error hplan,
      Synthesis.run_of_draw_error hplan₂⟩
  | ok r =>
    obtain ⟨plan, rest⟩ := r
    have hplan₂ := hsame.symm.trans hplan
    exact .inr ⟨plan, rest, rfl, hplan₂, Synthesis.underlies_run hs₁ hk₁ hplan,
      Synthesis.underlies_run hs₂ hk₂ hplan₂⟩

/-- Empty bodies and no entry point, but the declarations of the default settings. -/
def bareSettings (words : List String) : Settings :=
  { words
    entryPoint := false
    statementWeights := [(1, .empty)]
    maxStatementsPerBlock := 0
    expr := { maxComplexity := 0, primaryLiteralComplexity := 0 }
    stmt := { maxStatementComplexity := 0, maxResampleAttempts := 0 } }

theorem synthesize_skeletons_bare : ∃ g₁ g₂ : Gen WordStream Program,
    synthesize { words := ["river", "stone"] } = .ok g₁ ∧
      synthesize (bareSettings ["river", "stone"]) = .ok g₂ ∧
      ∀ stream, ∃ p₁ p₂ rest₁ rest₂, g₁ stream = .ok (p₁, rest₁) ∧ g₂ stream = .ok (p₂, rest₂) ∧
        p₁.skeleton = p₂.skeleton := by
  have hvalid₁ : Settings.validate { words := ["river", "stone"] } = .ok () := by rfl
  have hvalid₂ : (bareSettings ["river", "stone"]).validate = .ok () := by rfl
  have halike : Settings.DeclareAlike { words := ["river", "stone"] }
      (bareSettings ["river", "stone"]) := ⟨rfl, rfl, rfl, rfl, rfl, rfl, rfl, rfl⟩
  have hroom₁ := Settings.not_exhausts (s := { words := ["river", "stone"] })
    (by decide) (by decide) (by decide)
  have hroom₂ := Settings.not_exhausts (s := bareSettings ["river", "stone"])
    (by decide) (by decide) (by decide)
  obtain ⟨g₁, g₂, hg₁, hg₂, hruns⟩ :=
    synthesize_skeletons (σ := WordStream) hvalid₁ hvalid₂ halike
  refine ⟨g₁, g₂, hg₁, hg₂, fun stream => ?_⟩
  rcases hruns stream with ⟨f, -, hf, -⟩ | ⟨plan, rest, -, -, hplan₁, hplan₂⟩
  · exact absurd hf (hroom₁ f)
  · obtain ⟨p₁, rest₁, hp₁, hsame₁⟩ := hplan₁.exists_program hroom₁
    obtain ⟨p₂, rest₂, hp₂, hsame₂⟩ := hplan₂.exists_program hroom₂
    exact ⟨p₁, p₂, rest₁, rest₂, hp₁, hp₂, hsame₁.trans hsame₂.symm⟩

end JavaSynth
