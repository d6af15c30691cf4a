import JavaSynth.Proofs.Shape.Enabled

set_option autoImplicit false

/-!
# Switched-off productions

A probability of zero switches its production off in the whole program: in bodies, where an operator
could come from any layer, argument or index, and in declarations. Arrays have two switches, and
with both off the parameter of the entry point is the only array that is left.
-/
namespace JavaSynth

/-- All statements of a method, each with its place. -/
def Method.parts (m : Method) : List (Position × Stmt) := (m.body.map Stmt.partsOf).getD []

section Predicates

variable (s : Settings) (arrays : Prop)

structure Method.Enabled (m : Method) : Prop where
  nodes : ∀ n ∈ m.nodes, n.Enabled s arrays
  parts : ∀ part ∈ m.parts, part.2.Enabled s arrays
  returns : m.returns.Within arrays
  params : (∀ p ∈ m.params, p.ty.Within arrays) ∨
    (m.isStatic = true ∧ m.params = [Synthesis.entryPointParam])
  thrown : m.thrown ≠ [] → s.thrownTypeProbability.Possible

structure ClassDecl.Enabled (c : ClassDecl) : Prop where
  methods : ∀ m ∈ c.methods, m.Enabled s arrays
  fields : ∀ f ∈ c.fields, f.ty.Within arrays
  fields_possible : c.fields ≠ [] → s.fieldToMethodRatio.Possible
  methods_possible : ∀ m ∈ c.methods, (m.name = Plan.entryPointName ∧ m.isStatic = true) ∨
    ¬ s.fieldToMethodRatio.toFloat == 1

end Predicates

/-- Either coin can make a type an array. -/
def Settings.ArraysPossible (s : Settings) : Prop :=
  s.arrayTypePercentage.Possible ∨ s.expr.equalityArrayProbability.Possible

namespace Plan

variable {s : Settings}

theorem PlannedClass.within {types : Universe} {limit : Nat} {c : ClassDecl}
    (h : PlannedClass s types limit c) (hu : types.Simple) : c.Within s.ArraysPossible where
  fields f hf := (h.fields.types f hf).within (fun b hb => (hu.field_base b hb).1) .inl
  returns m hm := (h.methods m (mem_instanceMethods.1 hm).1).returns.within hu.return_base .inl
  params m hm p hp := ((h.methods m (mem_instanceMethods.1 hm).1).params.types p hp).within
    (fun b hb => (hu.field_base b hb).1) .inl

theorem Drawn.admits {plan : Plan} (h : Drawn s plan) (kinds : Weighted Float StmtKind) :
    (plan.context s kinds).Admits s.ArraysPossible where
  declared := .inl
  operands := .inr
  bases b hb := (h.simple.field_base b hb).1
  classes c hc := (h.classes c hc).within h.simple

end Plan

namespace StmtContext

variable {x : StmtContext} {arrays : Prop} {s s' : Scope} {body : List Stmt}

/-- A block is enabled, and the value that it may return is no coin's. -/
theorem Makes.enabled_block (hx : x.Admits arrays) (h : x.Makes .block s body s')
    (hs : s.Within arrays) : (∀ n ∈ Stmt.nodesOf body, n.Enabled x.settings arrays) ∧
      ∀ part ∈ Stmt.partsOf body, part.2.Enabled x.settings arrays := by
  refine ⟨(h.enabled hx hs).1, fun part hpart => ?_⟩
  rcases h.part_cases part hpart with ⟨sBefore, sAfter, -, hmade⟩ | ⟨-, e, rfl⟩
  · exact hmade.enabled_own hx part.2 (List.mem_singleton_self _)
  · exact trivial

end StmtContext

namespace Synthesis

variable {s : Settings} {plan : Plan} {kinds : Weighted Float StmtKind} {c c' : ClassDecl}
  {m m' : Method}

theorem FilledMethod.enabled (hplan : Plan.Drawn s plan) (hc : c ∈ plan.classes)
    (hm : m ∈ c.methods) (h : FilledMethod (plan.context s kinds) c m m') :
    m'.Enabled s s.ArraysPossible := by
  have hplanned := (hplan.classes c hc).methods m hm
  have hclass := (hplan.classes c hc).within hplan.simple
  have hinst : m ∈ c.instanceMethods := mem_instanceMethods.2 ⟨hm, hplanned.isStatic⟩
  obtain ⟨body, s', rfl, hbody⟩ := h.body
  have hscope : (Scope.ofMethod c m.params m.returns).Within s.ArraysPossible := by
    refine ⟨List.forall_mem_nil _, hclass.params m hinst, fun c' hc' => ?_, hclass.returns m hinst⟩
    cases hc'
    exact hclass
  obtain ⟨hnodes, hparts⟩ := hbody.enabled_block (hplan.admits kinds) hscope
  exact ⟨hnodes, hparts, hclass.returns m hinst, .inl (hclass.params m hinst),
    hplanned.thrown.possible⟩

theorem EntryPoint.enabled (hplan : Plan.Drawn s plan) (h : EntryPoint (plan.context s kinds) c m) :
    m.Enabled s s.ArraysPossible := by
  obtain ⟨thrown, body, s', hthrown, hbody, rfl⟩ := h.method
  have hvoid : Ty.void.Within s.ArraysPossible := Ty.within_of_not_isArray rfl
  have hscope : (Scope.ofStatic c .void entryPointComplexity).Within s.ArraysPossible :=
    ⟨List.forall_mem_nil _, List.forall_mem_nil _, nofun, hvoid⟩
  obtain ⟨hnodes, hparts⟩ := hbody.enabled_block (hplan.admits kinds) hscope
  exact ⟨hnodes, hparts, hvoid, .inr ⟨rfl, rfl⟩, hthrown.possible⟩

theorem FinishedClass.enabled (hplan : Plan.Drawn s plan) (hc : c ∈ plan.classes)
    (h : FinishedClass (plan.context s kinds) c c') : c'.Enabled s s.ArraysPossible := by
  have hplanned := hplan.classes c hc
  obtain ⟨methods, mains, rfl, hmethods, hmains, -⟩ := h.methods
  refine ⟨fun m' hm' => ?_, (hplanned.within hplan.simple).fields, hplanned.fields_possible,
    fun m' hm' => ?_⟩
  · rcases List.mem_append.1 hm' with hfilled | hmain
    · obtain ⟨m, hm, hfill⟩ := exists_of_forall₂ hmethods hfilled
      exact hfill.enabled hplan hc hm
    · exact (hmains m' hmain).enabled hplan
  · rcases List.mem_append.1 hm' with hfilled | hmain
    · obtain ⟨m, hm, -⟩ := exists_of_forall₂ hmethods hfilled
      exact .inr (hplanned.methods_possible (List.ne_nil_of_mem hm))
    · obtain ⟨thrown, body, s', -, -, rfl⟩ := (hmains m' hmain).method
      exact .inl ⟨rfl, rfl⟩

theorem Synthesized.enabled {p : Program} (h : Synthesized s p) :
    ∀ c ∈ p.classes, c.Enabled s s.ArraysPossible := by
  intro c' hc'
  obtain ⟨plan, kinds, hplan, c, hc, hclass⟩ := h.exists_planned hc'
  exact hclass.enabled hplan hc

end Synthesis

/-- Both coins that give arrays are switched off. -/
def Settings.NoArrays (s : Settings) : Prop :=
  s.arrayTypePercentage.toFloat == 0 ∧ s.expr.equalityArrayProbability.toFloat == 0

theorem Settings.NoArrays.not_possible {s : Settings} (h : s.NoArrays) : ¬ s.ArraysPossible :=
  not_or.2 ⟨Double.not_possible_of_zero h.1, Double.not_possible_of_zero h.2⟩

theorem Ty.Within.isArray {arrays : Prop} {t : Ty} (h : t.Within arrays) (hno : ¬ arrays) :
    t.isArray = false :=
  Bool.eq_false_iff.2 fun harr => hno (h harr)

/-- A new array or an element of one. -/
def Expr.usesArray : Expr → Bool
  | newArray _ _ | index _ _ _ => true
  | _ => false

/-- No array is left in the method, but for the parameter of the entry point. -/
structure Method.ArrayFree (m : Method) : Prop where
  nodes : ∀ n ∈ m.nodes, n.ty.isArray = false ∧ n.usesArray = false
  locals : ∀ part ∈ m.parts, ∀ name t init, part.2 = .declare name t init → t.isArray = false
  returns : m.returns.isArray = false
  params : (∀ p ∈ m.params, p.ty.isArray = false) ∨
    (m.isStatic = true ∧ m.params = [Synthesis.entryPointParam])

/-- What the settings switch off does not occur in the method. -/
structure Method.Heeds (s : Settings) (m : Method) : Prop where
  binary : ∀ op, (s.expr.probabilityOf op).toFloat == 0 → ∀ l r t, .binary op l r t ∉ m.nodes
  unary : s.expr.unaryProbability.toFloat == 0 → ∀ op e t, .unary op e t ∉ m.nodes
  arrays : s.NoArrays → m.ArrayFree
  initializer : s.stmt.initializerProbability.toFloat == 0 → ∀ part ∈ m.parts,
    ∀ name t init, part.2 = .declare name t init → init = none
  invocation : s.stmt.invocationProbability.toFloat == 0 → ∀ part ∈ m.parts,
    ∀ e, part.2 = .eval e → e.isCall = false
  thrown : s.thrownTypeProbability.toFloat == 0 → m.thrown = []

/-- What the settings switch off does not occur in the program. -/
structure Program.Heeds (s : Settings) (p : Program) : Prop where
  methods : ∀ c ∈ p.classes, ∀ m ∈ c.methods, m.Heeds s
  arrayFields : s.NoArrays → ∀ c ∈ p.classes, ∀ f ∈ c.fields, f.ty.isArray = false
  noFields : s.fieldToMethodRatio.toFloat == 0 → ∀ c ∈ p.classes, c.fields = []
  noMethods : s.fieldToMethodRatio.toFloat == 1 → ∀ c ∈ p.classes, ∀ m ∈ c.methods,
    m.name = Plan.entryPointName ∧ m.isStatic = true

section Heeds

variable {s : Settings} {m : Method}

theorem Method.Enabled.arrayFree (h : m.Enabled s s.ArraysPossible) (hno : s.NoArrays) :
    m.ArrayFree := by
  have hnot := hno.not_possible
  refine ⟨fun n hn => ⟨(h.nodes n hn).ty.isArray hnot, ?_⟩, fun part hpart name t init heq => ?_,
    h.returns.isArray hnot, h.params.imp_left fun hp p hmem => (hp p hmem).isArray hnot⟩
  · have hproduction := (h.nodes n hn).production
    cases n with
    | newArray | index => exact absurd hproduction hnot
    | _ => rfl
  · have henabled : (Stmt.declare name t init).Enabled s _ := heq ▸ h.parts part hpart
    exact henabled.1.isArray hnot

theorem Method.Enabled.heeds (h : m.Enabled s s.ArraysPossible) : m.Heeds s where
  binary op hzero l r t hmem :=
    Double.not_possible_of_zero hzero (h.nodes _ hmem).production
  unary hzero op e t hmem := Double.not_possible_of_zero hzero (h.nodes _ hmem).production
  arrays := h.arrayFree
  initializer hzero part hpart name t init heq := by
    have henabled : (Stmt.declare name t init).Enabled s _ := heq ▸ h.parts part hpart
    exact Option.not_isSome_iff_eq_none.1 (mt henabled.2 (Double.not_possible_of_zero hzero))
  invocation hzero part hpart e heq := by
    have henabled : (Stmt.eval e).Enabled s _ := heq ▸ h.parts part hpart
    exact Bool.eq_false_iff.2 (mt henabled (Double.not_possible_of_zero hzero))
  thrown hzero := not_not.1 (mt h.thrown (Double.not_possible_of_zero hzero))

theorem Synthesis.Synthesized.heeds {p : Program} (h : Synthesized s p) : p.Heeds s where
  methods c hc m hm := ((h.enabled c hc).methods m hm).heeds
  arrayFields hno c hc f hf := ((h.enabled c hc).fields f hf).isArray hno.not_possible
  noFields hzero c hc :=
    not_not.1 (mt (h.enabled c hc).fields_possible (Double.not_possible_of_zero hzero))
  noMethods hone c hc m hm :=
    ((h.enabled c hc).methods_possible m hm).resolve_right (not_not.2 hone)

end Heeds

/-- In every program that valid settings synthesize, a probability of zero leaves nothing of what it
stands for. -/
theorem synthesize_heeds {σ : Type} [Source σ] {s : Settings} (h : s.validate = .ok ()) :
    ∃ g : Gen σ Program, synthesize s = .ok g ∧ Gen.Ensures s.Exhausts g (Program.Heeds s) := by
  obtain ⟨g, hg, hprogram⟩ := synthesize_of_validate (σ := σ) h
  exact ⟨g, hg, hprogram.mono fun p hp => hp.heeds⟩

/-- Every probability is zero. -/
def quietSettings (words : List String) : Settings :=
  { words
    fieldToMethodRatio := 0
    arrayTypePercentage := 0
    thrownTypeProbability := 0
    expr :=
      { logicalOrProbability := 0
        logicalAndProbability := 0
        equalityProbability := 0
        equalityArrayProbability := 0
        relationalProbability := 0
        additiveProbability := 0
        multiplicativeProbability := 0
        unaryProbability := 0 }
    stmt := { initializerProbability := 0, invocationProbability := 0 } }

theorem synthesize_heeds_quiet : ∃ g : Gen WordStream Program,
    synthesize (quietSettings ["river", "stone"]) = .ok g ∧ Gen.Yields g (fun p =>
      ∀ c ∈ p.classes, c.fields = [] ∧ ∀ m ∈ c.methods, m.ArrayFree ∧ m.thrown = [] ∧
        ∀ op l r t, .binary op l r t ∉ m.nodes) := by
  have hvalid : (quietSettings ["river", "stone"]).validate = .ok () := by rfl
  have hroom := Settings.not_exhausts (s := quietSettings ["river", "stone"])
    (by decide) (by decide) (by decide)
  obtain ⟨g, hg, hprogram⟩ := synthesize_heeds (σ := WordStream) hvalid
  refine ⟨g, hg, (hprogram.mono fun p hp c hc => ?_).yields hroom⟩
  refine ⟨hp.noFields (by decide) c hc, fun m hm => ?_⟩
  have hm := hp.methods c hc m hm
  exact ⟨hm.arrays (by constructor <;> decide), hm.thrown (by decide),
    fun op => hm.binary op (by cases op <;> decide)⟩

end JavaSynth
