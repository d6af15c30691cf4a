import JavaSynth.Generate.Program
import JavaSynth.Proofs.Generate.Declarations
import JavaSynth.Proofs.Generate.StmtGrammar

set_option autoImplicit false

/-!
# Filled programs

A program is a plan with bodies, and one of its classes has the entry point besides if the settings
ask for it. `Synthesized` bounds what can come out of valid settings; facts about generated programs
are read off it.
-/
namespace JavaSynth

/-- Where the bodies of a plan are made. -/
abbrev Plan.context (plan : Plan) (s : Settings) (kinds : Weighted Float StmtKind) : StmtContext :=
  { settings := s, kinds, types := plan.types, classes := plan.classes }

namespace Synthesis

variable (x : StmtContext)

structure FilledMethod (c : ClassDecl) (m m' : Method) : Prop where
  body : ∃ body s', m' = { m with body := some body } ∧
    x.Makes .block (.ofMethod c m.params m.returns) body s'

structure FilledClass (c c' : ClassDecl) : Prop where
  methods : ∃ methods, c' = { c with methods } ∧ List.Forall₂ (FilledMethod x c) c.methods methods

/-- The static `main` of a class. -/
structure EntryPoint (c : ClassDecl) (m : Method) : Prop where
  method : ∃ thrown body s', Plan.Thrown x.settings thrown ∧
    x.Makes .block (.ofStatic c .void entryPointComplexity) body s' ∧
    m =
      { name := Plan.entryPointName
        returns := .void
        params := [entryPointParam]
        thrown
        isStatic := true
        body := some body }

/-- Classes with bodies, of which one has the entry point if it is still wanted. -/
inductive FilledClasses : Bool → List ClassDecl → List ClassDecl → Prop where
  | done : FilledClasses false [] []
  | plain {wanted : Bool} {c c' : ClassDecl} {rest rest' : List ClassDecl}
      (h : FilledClass x c c') (hr : FilledClasses wanted rest rest') :
      FilledClasses wanted (c :: rest) (c' :: rest')
  | entry {c c' : ClassDecl} {m : Method} {rest rest' : List ClassDecl} (h : FilledClass x c c')
      (hm : EntryPoint x c m) (hr : FilledClasses false rest rest') :
      FilledClasses true (c :: rest) ({ c' with methods := c'.methods ++ [m] } :: rest')

/-- What can be synthesized from settings. -/
structure Synthesized (s : Settings) (p : Program) : Prop where
  filled : ∃ plan kinds, Plan.Drawn s plan ∧ s.statementChoice = .ok kinds ∧
    FilledClasses (plan.context s kinds) s.entryPoint plan.classes p.classes

variable {x}

/-- A class at the end: its methods with their bodies, and no more than one entry point after
them. -/
structure FinishedClass (x : StmtContext) (c c' : ClassDecl) : Prop where
  methods : ∃ methods mains, c' = { c with methods := methods ++ mains } ∧
    List.Forall₂ (FilledMethod x c) c.methods methods ∧ (∀ m ∈ mains, EntryPoint x c m) ∧
    mains.length ≤ 1

theorem FilledClasses.finished {wanted : Bool} {classes classes' : List ClassDecl}
    (h : FilledClasses x wanted classes classes') :
    List.Forall₂ (FinishedClass x) classes classes' := by
  induction h with
  | done => exact .nil
  | plain h _ ih =>
    obtain ⟨methods, rfl, hm⟩ := h.methods
    refine .cons ⟨methods, [], ?_, hm, List.forall_mem_nil _, Nat.zero_le 1⟩ ih
    rw [List.append_nil]
  | @entry _ _ main _ _ h hmain _ ih =>
    obtain ⟨methods, rfl, hm⟩ := h.methods
    exact .cons ⟨methods, [main], rfl, hm, List.forall_mem_singleton.2 hmain, Nat.le_refl 1⟩ ih

theorem Synthesized.exists_planned {s : Settings} {p : Program} {c' : ClassDecl}
    (h : Synthesized s p) (hc : c' ∈ p.classes) : ∃ plan kinds, Plan.Drawn s plan ∧
      ∃ c ∈ plan.classes, FinishedClass (plan.context s kinds) c c' := by
  obtain ⟨plan, kinds, hplan, -, hfilled⟩ := h.filled
  exact ⟨plan, kinds, hplan, exists_of_forall₂ hfilled.finished hc⟩

/-- Every method of a finished class has a body of the grammar. -/
theorem FinishedClass.made {c c' : ClassDecl} {m : Method} (h : FinishedClass x c c')
    (hm : m ∈ c'.methods) : ∃ scope body s', m.body = some body ∧ x.Makes .block scope body s' := by
  obtain ⟨methods, mains, rfl, hmethods, hmains, -⟩ := h.methods
  rcases List.mem_append.1 hm with hplanned | hentry
  · obtain ⟨planned, -, hfill⟩ := exists_of_forall₂ hmethods hplanned
    obtain ⟨body, s', rfl, hbody⟩ := hfill.body
    exact ⟨_, body, s', rfl, hbody⟩
  · obtain ⟨thrown, body, s', -, hbody, rfl⟩ := (hmains m hentry).method
    exact ⟨_, body, s', rfl, hbody⟩

theorem FilledClass.isStatic {c c' : ClassDecl} (h : FilledClass x c c')
    (hc : ∀ m ∈ c.methods, m.isStatic = false) : ∀ m ∈ c'.methods, m.isStatic = false := by
  obtain ⟨methods, rfl, hm⟩ := h.methods
  intro m' hm'
  obtain ⟨m, hmem, hfill⟩ := exists_of_forall₂ hm hm'
  obtain ⟨body, s', rfl, -⟩ := hfill.body
  exact hc m hmem

/-- A static method shows that the entry point was wanted. -/
theorem FilledClasses.wanted_of_static {wanted : Bool} {classes classes' : List ClassDecl}
    (h : FilledClasses x wanted classes classes')
    (hp : ∀ c ∈ classes, ∀ m ∈ c.methods, m.isStatic = false) {c' : ClassDecl} {m : Method}
    (hc : c' ∈ classes') (hm : m ∈ c'.methods) (hs : m.isStatic = true) : wanted = true := by
  induction h with
  | done => cases hc
  | plain h _ ih =>
    obtain ⟨hfirst, hrest⟩ := List.forall_mem_cons.1 hp
    rcases List.mem_cons.1 hc with rfl | hc
    · exact absurd (h.isStatic hfirst m hm) (by rw [hs]; decide)
    · exact ih hrest hc
  | entry => rfl

variable {σ : Type} [Source σ]

theorem ensures_fillMethod (hx : x.Valid) (c : ClassDecl) (m : Method) :
    Gen.Ensures x.settings.Exhausts (fillMethod x c m : Gen σ Method) (FilledMethod x c m) := by
  have hsize : (Scope.ofMethod c m.params m.returns).complexity + 4 < sizeLimit := by
    change 0 + 4 < sizeLimit
    decide
  refine Gen.ensures_bind (StmtContext.ensures_block hx hsize) fun body hbody => ?_
  obtain ⟨s', hbody⟩ := hbody
  exact Gen.ensures_pure ⟨body, s', rfl, hbody⟩

theorem ensures_fillClass (hx : x.Valid) (c : ClassDecl) :
    Gen.Ensures x.settings.Exhausts (fillClass x c : Gen σ ClassDecl) (FilledClass x c) := by
  refine Gen.ensures_bind (Gen.ensures_forEach fun m _ => ensures_fillMethod hx c m)
    fun methods hmethods => ?_
  exact Gen.ensures_pure ⟨methods, rfl, hmethods⟩

theorem ensures_entryPoint (hx : x.Valid) (c : ClassDecl) :
    Gen.Ensures x.settings.Exhausts (entryPoint x c : Gen σ Method) (EntryPoint x c) := by
  have hsize : (Scope.ofStatic c .void entryPointComplexity).complexity + 4 < sizeLimit := by
    change 2 + 4 < sizeLimit
    decide
  refine Gen.ensures_bind (Plan.ensures_thrownTypes hx.settings) fun thrown hthrown => ?_
  refine Gen.ensures_bind (StmtContext.ensures_block hx hsize) fun body hbody => ?_
  obtain ⟨s', hbody⟩ := hbody
  exact Gen.ensures_pure ⟨thrown, body, s', hthrown, hbody, rfl⟩

/-- While the entry point is wanted, as many classes are left to ask as `remaining` says, so the
last of them cannot refuse it. -/
theorem ensures_fillClasses (hx : x.Valid) (classes : List ClassDecl) {wanted : Bool}
    {remaining : Nat} (hr : wanted = true → remaining = classes.length ∧ 0 < remaining) :
    Gen.Ensures x.settings.Exhausts (fillClasses x wanted remaining classes : Gen σ _)
      (FilledClasses x wanted classes) := by
  induction classes generalizing wanted remaining with
  | nil =>
    cases wanted with
    | false => exact Gen.ensures_pure .done
    | true =>
      obtain ⟨hzero, hpos⟩ := hr rfl
      rw [hzero] at hpos
      cases hpos
  | cons c rest ih =>
    have hunwanted (remaining : Nat) : Gen.Ensures x.settings.Exhausts
        (fillClasses x false remaining rest : Gen σ _) (FilledClasses x false rest) :=
      ih fun h => by cases h
    refine Gen.ensures_bind (ensures_fillClass hx c) fun c' hc' => ?_
    cases wanted with
    | false =>
      refine Gen.ensures_bind (hunwanted remaining) fun rest' hrest => ?_
      exact Gen.ensures_pure (.plain hc' hrest)
    | true =>
      obtain ⟨hlen, hpos⟩ := hr rfl
      rw [List.length_cons] at hlen
      refine Gen.ensures_bind (Gen.ensures_index hpos) fun draw hdraw => ?_
      have hleft : Gen.Ensures x.settings.Exhausts
          (Gen.ofExcept (sizeSub .classesLeft remaining 1) : Gen σ Nat) (· = rest.length) := by
        rw [sizeSub_eq_ok hpos, hlen, Nat.add_sub_cancel]
        exact Gen.ensures_ofExcept_ok rfl rfl
      refine Gen.ensures_bind hleft fun left hleft => ?_
      subst hleft
      split
      · refine Gen.ensures_bind (ensures_entryPoint hx c) fun main hmain => ?_
        refine Gen.ensures_bind (hunwanted rest.length) fun rest' hrest => ?_
        exact Gen.ensures_pure (.entry hc' hmain hrest)
      · refine Gen.ensures_bind (ih fun _ => ⟨rfl, by omega⟩) fun rest' hrest => ?_
        exact Gen.ensures_pure (.plain hc' hrest)

theorem ensures_fill {s : Settings} {kinds : Weighted Float StmtKind} {plan : Plan} (hs : s.Valid)
    (hk : s.statementChoice = .ok kinds) (hplan : Plan.Drawn s plan) :
    Gen.Ensures s.Exhausts
      (fillClasses (plan.context s kinds) s.entryPoint plan.classes.length plan.classes : Gen σ _)
      (FilledClasses (plan.context s kinds) s.entryPoint plan.classes) := by
  have hx : (plan.context s kinds).Valid := ⟨hs, Settings.drawable_of_choice hk, hplan.simple⟩
  have hpos : 0 < plan.classes.length := by
    refine List.length_pos_iff.2 fun hnil => hplan.names.ne_nil hs.types_pos ?_
    rw [hnil, List.map_nil]
  exact ensures_fillClasses hx plan.classes fun _ => ⟨rfl, hpos⟩

theorem ensures_run {s : Settings} {kinds : Weighted Float StmtKind} (hs : s.Valid)
    (hk : s.statementChoice = .ok kinds) :
    Gen.Ensures s.Exhausts (run s kinds : Gen σ Program) (Synthesized s) := by
  refine Gen.ensures_bind (Plan.ensures_draw hs) fun plan hplan => ?_
  refine Gen.ensures_bind (ensures_fill hs hk hplan) fun classes hclasses => ?_
  exact Gen.ensures_pure ⟨plan, kinds, hplan, hk, hclasses⟩

end Synthesis

variable {σ : Type} [Source σ]

theorem synthesize_eq_run {s : Settings} (h : s.validate = .ok ()) :
    ∃ kinds, s.statementChoice = .ok kinds ∧
      synthesize s = .ok (Synthesis.run s kinds : Gen σ Program) := by
  obtain ⟨kinds, hk, -⟩ := (Settings.valid_of_validate h).choice
  refine ⟨kinds, hk, ?_⟩
  simp only [synthesize, h, hk, bind, Except.bind]

/-- Valid settings synthesize, and nothing but a program of the grammar comes out. -/
theorem synthesize_of_validate {s : Settings} (h : s.validate = .ok ()) :
    ∃ g : Gen σ Program, synthesize s = .ok g ∧
      Gen.Ensures s.Exhausts g (Synthesis.Synthesized s) := by
  obtain ⟨kinds, hk, hrun⟩ := synthesize_eq_run (σ := σ) h
  exact ⟨Synthesis.run s kinds, hrun, Synthesis.ensures_run (Settings.valid_of_validate h) hk⟩

end JavaSynth
