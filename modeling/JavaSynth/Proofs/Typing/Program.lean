import JavaSynth.Draw.Stream
import JavaSynth.Proofs.Typing.Extension
import JavaSynth.Proofs.Typing.Statement

set_option autoImplicit false

/-!
# Generated programs are well typed

A plan is a table that its bodies are typed against. The program finishes the table, so its bodies
are typed against the program itself.
-/
namespace JavaSynth

theorem Ty.Wrapped.returnable {classes : List ClassDecl} {bases : List Ty} {p : Double}
    {limit : Nat} {t : Ty} (hb : ∀ b ∈ bases, b.isArray = false ∧ b.Returnable classes)
    (h : t.Wrapped bases p limit) : t.Returnable classes := by
  obtain ⟨b, hmem, d, -, rfl, hd⟩ := h
  obtain ⟨harr, hret⟩ := hb b hmem
  by_cases hzero : d = 0
  · subst hzero
    exact hret
  · exact .inr ((hret.known (hd hzero).2).arrayOf harr d)

namespace Plan

variable {s : Settings} {plan : Plan}

theorem Drawn.known (h : Drawn s plan) {name : String}
    (hn : name ∈ plan.classes.map (·.name)) : (Ty.named name).Known plan.classes := by
  obtain ⟨c, hc, rfl⟩ := List.mem_map.1 hn
  exact Option.isSome_iff_exists.2
    ⟨c, find?_eq_some_of_nodup ClassDecl.name h.names.nodup hc⟩

theorem Drawn.field_base (h : Drawn s plan) :
    ∀ b ∈ plan.types.fieldTypes, b.isArray = false ∧ b.Known plan.classes := by
  intro b hb
  rw [h.types] at hb
  obtain rfl | rfl | ⟨n, hn, rfl⟩ := Universe.mem_fieldTypes_ofNames.1 hb
  · exact ⟨rfl, trivial⟩
  · exact ⟨rfl, trivial⟩
  · exact ⟨rfl, h.known hn⟩

theorem Drawn.return_base (h : Drawn s plan) :
    ∀ b ∈ plan.types.returnTypes, b.isArray = false ∧ b.Returnable plan.classes := by
  intro b hb
  rw [h.types] at hb
  obtain rfl | rfl | rfl | ⟨n, hn, rfl⟩ := Universe.mem_returnTypes_ofNames.1 hb
  · exact ⟨rfl, .inr trivial⟩
  · exact ⟨rfl, .inr trivial⟩
  · exact ⟨rfl, .inl rfl⟩
  · exact ⟨rfl, .inr (h.known hn)⟩

theorem Drawn.table (h : Drawn s plan) : Table plan.classes where
  names_nodup := h.names.nodup
  fields_nodup c hc := (h.classes c hc).fields.nodup
  methods_nodup c hc := (h.classes c hc).methods_nodup
  fields_known c hc f hf := ((h.classes c hc).fields.types f hf).known h.field_base
  returns_known c hc m hm := ((h.classes c hc).methods m hm).returns.returnable h.return_base
  params_known c hc m hm p hp :=
    (((h.classes c hc).methods m (mem_instanceMethods.1 hm).1).params.types p hp).known h.field_base

theorem Drawn.declared (h : Drawn s plan) (kinds : Weighted Float StmtKind) :
    (plan.context s kinds).exprs.Declared :=
  ⟨h.table, h.field_base⟩

end Plan

namespace Synthesis

variable {x : StmtContext} {c c' : ClassDecl} {m m' : Method}

theorem FilledMethod.keeps (h : FilledMethod x c m m') : m.Keeps m' := by
  obtain ⟨body, s', rfl, -⟩ := h.body
  exact ⟨rfl, rfl, rfl, rfl⟩

theorem FinishedClass.keeps (h : FinishedClass x c c') : c.Keeps c' := by
  obtain ⟨methods, mains, rfl, hm, -, -⟩ := h.methods
  exact ⟨rfl, rfl, methods, mains, rfl, hm.imp fun _ _ => FilledMethod.keeps⟩

/-- The outermost block of a method with a value ends by returning one. -/
theorem ends_with_return {s s' : Scope} {body : List Stmt} (h : x.Makes .block s body s')
    (hc : s.complexity = 0) (hr : s.returns ≠ .void) :
    ∃ before e, body = before ++ [.ret (some e)] := by
  cases h with
  | plain hn =>
    refine absurd ⟨hc, ?_⟩ hn
    cases hty : s.returns <;> first | rfl | exact absurd hty hr
  | returning _ _ _ _ => exact ⟨_, _, rfl⟩

section Finished

variable {s : Settings} {plan : Plan} {kinds : Weighted Float StmtKind} {classes : List ClassDecl}

/-- No planned method has the name of the entry point, and there is at most one entry point. -/
theorem methods_nodup {limit : Nat} {methods mains : List Method}
    (hc : Plan.PlannedClass s plan.types limit c)
    (hm : List.Forall₂ (FilledMethod x c) c.methods methods)
    (hmains : ∀ m ∈ mains, EntryPoint x c m) (hone : mains.length ≤ 1) :
    ((methods ++ mains).map (·.name)).Nodup := by
  have hnames : methods.map (·.name) = c.methods.map (·.name) :=
    map_eq_of_forall₂ hm fun _ _ h => h.keeps.name
  have hmethods : (methods.map (·.name)).Nodup := hnames ▸ hc.methods_nodup
  match mains, hone with
  | [], _ => rwa [List.append_nil]
  | [main], _ =>
    refine nodup_map_concat hmethods fun m hmem heq => ?_
    obtain ⟨planned, hin, hfill⟩ := exists_of_forall₂ hm hmem
    obtain ⟨_, _, _, -, -, rfl⟩ := (hmains main (List.mem_singleton_self main)).method
    exact (hc.methods planned hin).name_ne (hfill.keeps.name.symm.trans heq)

/-- A method with its body is typed against the finished table. -/
theorem FilledMethod.wellTyped (hplan : Plan.Drawn s plan)
    (h : FilledMethod (plan.context s kinds) c m m')
    (hf : Finishes plan.classes classes) (hc : c ∈ plan.classes) (hm : m ∈ c.methods)
    (hname : c'.name = c.name) : m'.WellTyped classes c' := by
  obtain ⟨body, s', rfl, hbody⟩ := h.body
  have hp := (hplan.classes c hc).methods m hm
  have hknown : ∀ p ∈ m.params, p.ty.Known plan.classes :=
    fun p hmem => (hp.params.types p hmem).known hplan.field_base
  have hreturns := hp.returns.returnable hplan.return_base
  have hsound : (Scope.ofMethod c m.params m.returns).Sound plan.classes :=
    ⟨List.nodup_nil, hp.params.nodup, List.forall_mem_nil _, hknown,
      fun c' heq => by cases heq; exact hc⟩
  have htyped : Body m.returns ((Scope.ofMethod c m.params m.returns).env plan.classes) body :=
    hbody.typed (hplan.declared kinds) hsound hreturns
  refine ⟨hp.params.nodup, fun _ p hmem => (hknown p hmem).finish hf,
    fun hs => absurd (hp.isStatic.symm.trans hs) (by decide), hreturns.finish hf,
    body, rfl, ?_, ends_with_return hbody rfl⟩
  have hstatic : m.isStatic = false := hp.isStatic
  have hfinished := htyped.finish hf
  simpa only [Method.env, hstatic, hname, Scope.env, Scope.ofMethod, Option.map_some,
    Bool.false_eq_true, ↓reduceIte] using hfinished

theorem EntryPoint.wellTyped (hplan : Plan.Drawn s plan)
    (h : EntryPoint (plan.context s kinds) c m)
    (hf : Finishes plan.classes classes) : m.WellTyped classes c' := by
  obtain ⟨thrown, body, s', -, hbody, rfl⟩ := h.method
  have hsound : (Scope.ofStatic c .void entryPointComplexity).Sound plan.classes :=
    ⟨List.nodup_nil, List.nodup_nil, List.forall_mem_nil _, List.forall_mem_nil _,
      fun c' heq => by cases heq⟩
  have htyped : Body .void ((Scope.ofStatic c .void entryPointComplexity).env plan.classes) body :=
    hbody.typed (hplan.declared kinds) hsound (.inl rfl)
  have hparams : ([entryPointParam].map (·.name)).Nodup := by decide
  exact ⟨hparams, nofun, fun _ => rfl, .inl rfl, body, rfl, htyped.finish hf,
    fun hne => absurd rfl hne⟩

theorem FinishedClass.wellTyped (hplan : Plan.Drawn s plan)
    (h : FinishedClass (plan.context s kinds) c c')
    (hf : Finishes plan.classes classes) (hc : c ∈ plan.classes) : c'.WellTyped classes := by
  obtain ⟨methods, mains, rfl, hm, hmains, hone⟩ := h.methods
  have hplanned := hplan.classes c hc
  refine ⟨hplanned.fields.nodup, ?_, fun f hmem => ?_, fun m hmem => ?_⟩
  · exact methods_nodup hplanned hm hmains hone
  · exact ((hplanned.fields.types f hmem).known hplan.field_base).finish hf
  · rcases List.mem_append.1 hmem with hfilled | hentry
    · obtain ⟨planned, hin, hfill⟩ := exists_of_forall₂ hm hfilled
      exact hfill.wellTyped hplan hf hc hin rfl
    · exact (hmains m hentry).wellTyped hplan hf

end Finished

/-- Whatever can be synthesized is well typed. -/
theorem Synthesized.wellTyped {s : Settings} {p : Program} (h : Synthesized s p) :
    p.WellTyped := by
  obtain ⟨plan, kinds, hplan, -, hfilled⟩ := h.filled
  have hfinished := hfilled.finished
  have hf : Finishes plan.classes p.classes := hfinished.imp fun _ _ => FinishedClass.keeps
  refine ⟨?_, fun c' hc' => ?_⟩
  · rw [map_eq_of_forall₂ (g := ClassDecl.name) hf fun _ _ hk => hk.name]
    exact hplan.names.nodup
  · obtain ⟨c, hc, hclass⟩ := exists_of_forall₂ hfinished hc'
    exact hclass.wellTyped hplan hf hc

end Synthesis

/-- Valid settings synthesize well-typed programs only, whatever is drawn. -/
theorem synthesize_wellTyped {σ : Type} [Source σ] {s : Settings} (h : s.validate = .ok ()) :
    ∃ g : Gen σ Program, synthesize s = .ok g ∧
      Gen.Ensures s.Exhausts g Program.WellTyped := by
  obtain ⟨g, hg, hprogram⟩ := synthesize_of_validate (σ := σ) h
  exact ⟨g, hg, hprogram.mono fun _ hp => hp.wellTyped⟩

/-- Limits that memory has room for leave no fault. -/
theorem synthesize_wellTyped_small : ∃ g : Gen WordStream Program,
    synthesize { words := ["river", "stone"] } = .ok g ∧ Gen.Yields g Program.WellTyped := by
  have hvalid : Settings.validate { words := ["river", "stone"] } = .ok () := by rfl
  obtain ⟨g, hg, hprogram⟩ := synthesize_wellTyped (σ := WordStream) hvalid
  exact ⟨g, hg, hprogram.yields (Settings.not_exhausts (by decide) (by decide) (by decide))⟩

end JavaSynth
