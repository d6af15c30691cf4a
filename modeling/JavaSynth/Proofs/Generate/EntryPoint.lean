import JavaSynth.Draw.Stream
import JavaSynth.Proofs.Generate.Filling

set_option autoImplicit false

/-!
# The entry point

A program is the plan that the same run drew, with a body for every planned method. One class has a
static `main` after its planned methods if the settings ask for an entry point, and nothing else is
static or has that name.
-/
namespace JavaSynth

/-- There is one entry point if it is wanted, and otherwise none. -/
structure Program.HasEntryPoint (p : Program) (wanted : Bool) : Prop where
  count : p.methods.countP (·.2.isStatic) = if wanted then 1 else 0
  named : ∀ c ∈ p.classes, ∀ m ∈ c.methods, m.name = "main" ↔ m.isStatic = true
  last : ∀ c ∈ p.classes, ∀ m ∈ c.methods, m.isStatic = true → c.methods.getLast? = some m
  signature : ∀ c ∈ p.classes, ∀ m ∈ c.methods, m.isStatic = true → m.returns = .void ∧
    m.params = [{ name := "args", ty := .array (.named "java.lang.String") 1 }]

/-- The second class is the first one with bodies, and with entry points besides. -/
structure ClassDecl.Fills (c c' : ClassDecl) : Prop where
  name : c'.name = c.name
  fields : c'.fields = c.fields
  planned : List.Forall₂ (fun m m' : Method => m.isStatic = false ∧
    ∃ body, m' = { m with body := some body }) c.methods c'.instanceMethods
  length : c'.methods.length = c.methods.length + c'.methods.countP (·.isStatic)

namespace Synthesis

section Finished

variable {x : StmtContext} {c c' : ClassDecl} {m m' : Method}

/-- Nothing in a plan is an entry point or has its name. -/
def Plain (c : ClassDecl) : Prop :=
  ∀ m ∈ c.methods, m.isStatic = false ∧ m.name ≠ Plan.entryPointName

theorem FilledClass.plain (h : FilledClass x c c') (hc : Plain c) : Plain c' := by
  obtain ⟨methods, rfl, hm⟩ := h.methods
  intro m' hm'
  obtain ⟨m, hmem, hfill⟩ := exists_of_forall₂ hm hm'
  obtain ⟨body, s', rfl, -⟩ := hfill.body
  exact hc m hmem

theorem countP_static (h : Plain c) : c.methods.countP (·.isStatic) = 0 := by
  rw [List.countP_eq_zero]
  intro m hm
  simp [(h m hm).1]

theorem instanceMethods_eq (h : Plain c) : c.instanceMethods = c.methods := by
  unfold ClassDecl.instanceMethods
  rw [List.filter_eq_self]
  intro m hm
  simp [(h m hm).1]

theorem FilledClass.fills (h : FilledClass x c c') (hc : Plain c) : c.Fills c' := by
  have hplain := h.plain hc
  obtain ⟨methods, rfl, hm⟩ := h.methods
  refine ⟨rfl, rfl, ?_, ?_⟩
  · rw [instanceMethods_eq hplain]
    have hboth := (List.forall₂_and_left _ _).2 ⟨fun m hm => (hc m hm).1, hm⟩
    apply hboth.imp
    rintro m m' ⟨hstatic, hfill⟩
    obtain ⟨body, s', heq, -⟩ := hfill.body
    exact ⟨hstatic, body, heq⟩
  · rw [countP_static hplain]
    exact hm.length_eq.symm

theorem fills_concat (h : c.Fills c') (hm : m.isStatic = true) :
    c.Fills { c' with methods := c'.methods ++ [m] } := by
  refine ⟨h.name, h.fields, ?_, ?_⟩
  · have hsame : ClassDecl.instanceMethods { c' with methods := c'.methods ++ [m] } =
        c'.instanceMethods := by
      simp [ClassDecl.instanceMethods, hm]
    rw [hsame]
    exact h.planned
  · have hlen := h.length
    simp [hm]
    omega

theorem EntryPoint.isStatic (h : EntryPoint x c m) : m.isStatic = true := by
  obtain ⟨thrown, body, s', -, -, rfl⟩ := h.method
  rfl

theorem FilledClasses.fills {wanted : Bool} {classes classes' : List ClassDecl}
    (h : FilledClasses x wanted classes classes') (hc : ∀ c ∈ classes, Plain c) :
    List.Forall₂ ClassDecl.Fills classes classes' := by
  induction h with
  | done => exact .nil
  | plain h _ ih =>
    obtain ⟨hfirst, hrest⟩ := List.forall_mem_cons.1 hc
    exact .cons (h.fills hfirst) (ih hrest)
  | entry h hm _ ih =>
    obtain ⟨hfirst, hrest⟩ := List.forall_mem_cons.1 hc
    exact .cons (fills_concat (h.fills hfirst) hm.isStatic) (ih hrest)

theorem methods_cons (c : ClassDecl) (rest : List ClassDecl) :
    Program.methods { classes := c :: rest } =
      c.methods.map (fun m => (c, m)) ++ Program.methods { classes := rest } := by
  rw [Program.methods, List.flatMap_cons]
  rfl

theorem countP_methods_cons (c : ClassDecl) (rest : List ClassDecl) :
    (Program.methods { classes := c :: rest }).countP (·.2.isStatic) =
      c.methods.countP (·.isStatic) +
        (Program.methods { classes := rest }).countP (·.2.isStatic) := by
  rw [methods_cons, List.countP_append, List.countP_map]
  rfl

theorem FilledClasses.count {wanted : Bool} {classes classes' : List ClassDecl}
    (h : FilledClasses x wanted classes classes') (hc : ∀ c ∈ classes, Plain c) :
    (Program.methods { classes := classes' }).countP (·.2.isStatic) =
      if wanted then 1 else 0 := by
  induction h with
  | done => rfl
  | plain h _ ih =>
    obtain ⟨hfirst, hrest⟩ := List.forall_mem_cons.1 hc
    rw [countP_methods_cons, countP_static (h.plain hfirst), ih hrest, Nat.zero_add]
  | entry h hm _ ih =>
    obtain ⟨hfirst, hrest⟩ := List.forall_mem_cons.1 hc
    -- the classes after this one are filled without the wish for an entry point
    have hzero := countP_static (h.plain hfirst)
    rw [countP_methods_cons, ih hrest, List.countP_append, hzero]
    simp [hm.isStatic]

/-- A method of a finished class is planned, or it is the entry point at the end. -/
theorem FinishedClass.method_cases (h : FinishedClass x c c') (hc : Plain c)
    (hm : m ∈ c'.methods) : (m.isStatic = false ∧ m.name ≠ Plan.entryPointName) ∨
      (EntryPoint x c m ∧ c'.methods.getLast? = some m) := by
  obtain ⟨methods, mains, rfl, hmethods, hmains, hone⟩ := h.methods
  rcases List.mem_append.1 hm with hplanned | hmain
  · have hfilled : FilledClass x c { c with methods } := ⟨methods, rfl, hmethods⟩
    exact .inl (hfilled.plain hc m hplanned)
  · right
    refine ⟨hmains m hmain, ?_⟩
    cases mains with
    | nil => cases hmain
    | cons main others =>
      obtain rfl : others = [] := by simpa using hone
      rw [List.mem_singleton.1 hmain, List.getLast?_concat]

end Finished

theorem FilledClasses.hasEntryPoint {x : StmtContext} {wanted : Bool}
    {classes classes' : List ClassDecl} (h : FilledClasses x wanted classes classes')
    (hc : ∀ c ∈ classes, Plain c) : Program.HasEntryPoint { classes := classes' } wanted := by
  have hcases : ∀ c' ∈ classes', ∀ m ∈ c'.methods,
      (m.isStatic = false ∧ m.name ≠ Plan.entryPointName) ∨
        (∃ c, EntryPoint x c m) ∧ c'.methods.getLast? = some m := by
    intro c' hmem m hm
    obtain ⟨c, hin, hclass⟩ := exists_of_forall₂ h.finished hmem
    rcases hclass.method_cases (hc c hin) hm with hplain | ⟨hmain, hlast⟩
    · exact .inl hplain
    · exact .inr ⟨⟨c, hmain⟩, hlast⟩
  refine ⟨h.count hc, ?_, ?_, ?_⟩
  · intro c' hmem m hm
    rcases hcases c' hmem m hm with ⟨hstatic, hname⟩ | ⟨⟨c, hmain⟩, -⟩
    · exact iff_of_false hname (by simp [hstatic])
    · obtain ⟨thrown, body, s', -, -, rfl⟩ := hmain.method
      exact ⟨fun _ => rfl, fun _ => rfl⟩
  · intro c' hmem m hm hs
    rcases hcases c' hmem m hm with ⟨hstatic, -⟩ | ⟨-, hlast⟩
    · simp [hstatic] at hs
    · exact hlast
  · intro c' hmem m hm hs
    rcases hcases c' hmem m hm with ⟨hstatic, -⟩ | ⟨⟨c, hmain⟩, -⟩
    · simp [hstatic] at hs
    · obtain ⟨thrown, body, s', -, -, rfl⟩ := hmain.method
      exact ⟨rfl, rfl⟩

variable {σ : Type} [Source σ]

/-- A run draws a plan and fills it, or it exhausts the limits. -/
theorem run_cases {s : Settings} {kinds : Weighted Float StmtKind} (hs : s.Valid)
    (hk : s.statementChoice = .ok kinds) (stream : σ) :
    (∃ f, run s kinds stream = .error f ∧ s.Exhausts f) ∨
      ∃ plan mid p rest, Plan.draw s stream = .ok (plan, mid) ∧
        run s kinds stream = .ok (p, rest) ∧ Plan.Drawn s plan ∧
        FilledClasses (plan.context s kinds) s.entryPoint plan.classes p.classes := by
  have hdrawn := Plan.ensures_draw hs stream
  cases hplan : Plan.draw s stream with
  | error f =>
    rw [hplan] at hdrawn
    exact .inl ⟨f, Gen.bind_of_error hplan, hdrawn⟩
  | ok r =>
    obtain ⟨plan, mid⟩ := r
    rw [hplan] at hdrawn
    have hfill := ensures_fill hs hk hdrawn mid
    have hrun := Gen.bind_of_ok (f := fun plan : Plan => do
      let classes ← fillClasses (plan.context s kinds) s.entryPoint plan.classes.length plan.classes
      pure ({ classes } : Program)) hplan
    cases hclasses : fillClasses (plan.context s kinds) s.entryPoint plan.classes.length
        plan.classes mid with
    | error f =>
      rw [hclasses] at hfill
      exact .inl ⟨f, hrun.trans (Gen.bind_of_error hclasses), hfill⟩
    | ok r =>
      obtain ⟨classes, rest⟩ := r
      rw [hclasses] at hfill
      exact .inr ⟨plan, mid, { classes }, rest, rfl, hrun.trans (Gen.bind_of_ok hclasses),
        hdrawn, hfill⟩

end Synthesis

/-- A program has one entry point if the settings ask for it and none otherwise, and besides it
just the methods of the plan that was drawn. -/
theorem synthesize_hasEntryPoint {σ : Type} [Source σ] {s : Settings} (h : s.validate = .ok ()) :
    ∃ g : Gen σ Program, synthesize s = .ok g ∧ ∀ stream,
      (∃ f, g stream = .error f ∧ s.Exhausts f) ∨
        ∃ plan mid p rest, Plan.draw s stream = .ok (plan, mid) ∧ g stream = .ok (p, rest) ∧
          p.HasEntryPoint s.entryPoint ∧ List.Forall₂ ClassDecl.Fills plan.classes p.classes := by
  have hs := Settings.valid_of_validate h
  obtain ⟨kinds, hk, hrun⟩ := synthesize_eq_run (σ := σ) h
  refine ⟨Synthesis.run s kinds, hrun, fun stream => ?_⟩
  apply (Synthesis.run_cases hs hk stream).imp_right
  rintro ⟨plan, mid, p, rest, hplan, hok, hdrawn, hfilled⟩
  have hplain : ∀ c ∈ plan.classes, Synthesis.Plain c := by
    intro c hc m hm
    have hplanned := (hdrawn.classes c hc).methods m hm
    exact ⟨hplanned.isStatic, hplanned.name_ne⟩
  exact ⟨plan, mid, p, rest, hplan, hok, hfilled.hasEntryPoint hplain, hfilled.fills hplain⟩

theorem synthesize_hasEntryPoint_words : ∃ g : Gen WordStream Program,
    synthesize { words := ["river", "stone"] } = .ok g ∧
      Gen.Yields g (·.HasEntryPoint true) := by
  have hvalid : Settings.validate { words := ["river", "stone"] } = .ok () := by rfl
  obtain ⟨g, hg, hrun⟩ := synthesize_hasEntryPoint (σ := WordStream) hvalid
  refine ⟨g, hg, fun stream => ?_⟩
  rcases hrun stream with ⟨f, -, hf⟩ | ⟨plan, mid, p, rest, -, hok, hentry, -⟩
  · exact absurd hf (Settings.not_exhausts (by decide) (by decide) (by decide) f)
  · exact ⟨p, rest, hok, hentry⟩

end JavaSynth
