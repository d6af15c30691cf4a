import Mathlib.Data.List.Nodup
import JavaSynth.Proofs.Generate.Skeleton

set_option autoImplicit false

/-!
# The limits of a plan

A plan holds at least one class and no more of anything than the settings allow, however many names
are drawn in vain. Its types are the primitives and its classes, each of them once, and nothing is
declared of another type but with array dimensions.
-/
namespace JavaSynth

/-- A primitive or a class of the plan, bare or with one to four array dimensions. -/
def Ty.Planned (names : List String) (t : Ty) : Prop :=
  ∃ base : Ty, (base = .int ∨ base = .boolean ∨ ∃ name ∈ names, base = .named name) ∧
    (t = base ∨ ∃ dims, 1 ≤ dims ∧ dims ≤ 4 ∧ t = .array base dims)

namespace Universe

variable {u : Universe} {name : String}

theorem register_new (h : Ty.named name ∉ u.fieldTypes) : u.register name =
    { fieldTypes := u.fieldTypes ++ [.named name]
      returnTypes := u.returnTypes ++ [.named name] } :=
  if_neg (by simpa using h)

/-- Distinct classes that are not in use yet are put at the end, in order. -/
theorem foldl_register_new {names : List String} (hn : names.Nodup) {u : Universe}
    (hnew : ∀ name ∈ names, Ty.named name ∉ u.fieldTypes) : names.foldl register u =
      { fieldTypes := u.fieldTypes ++ names.map .named
        returnTypes := u.returnTypes ++ names.map .named } := by
  induction names generalizing u with
  | nil => simp
  | cons name rest ih =>
    obtain ⟨hfresh, hrest⟩ := List.nodup_cons.1 hn
    obtain ⟨hfirst, hothers⟩ := List.forall_mem_cons.1 hnew
    have hlater : ∀ other ∈ rest, Ty.named other ∉ (u.register name).fieldTypes := by
      intro other hother hmem
      rcases (mem_fieldTypes_register u name _).1 hmem with hold | hsame
      · exact hothers other hother hold
      · cases hsame
        exact hfresh hother
    rw [List.foldl_cons, ih hrest hlater, register_new hfirst]
    simp

theorem ofNames_eq {names : List String} (hn : names.Nodup) : ofNames names =
    { fieldTypes := .int :: .boolean :: names.map .named
      returnTypes := .int :: .boolean :: .void :: names.map .named } := by
  have hnew : ∀ name ∈ names, Ty.named name ∉ primitive.fieldTypes := by
    intro name _ hmem
    simp [primitive] at hmem
  exact foldl_register_new hn hnew

theorem nodup_ofNames {names : List String} (hn : names.Nodup) :
    (ofNames names).fieldTypes.Nodup ∧ (ofNames names).returnTypes.Nodup := by
  have hclasses : (names.map Ty.named).Nodup := hn.map fun _ _ heq => Ty.named.inj heq
  rw [ofNames_eq hn]
  exact ⟨by simpa using hclasses, by simpa using hclasses⟩

end Universe

namespace Ty.Wrapped

variable {names : List String} {p : Double} {t : Ty}

/-- What is drawn with dimensions is the array of a type that is none. -/
theorem planned_of_base {bases : List Ty} (h : t.Wrapped bases p maxDims)
    (hbase : ∀ b ∈ bases, b.isArray = false) (hvalue : t.isVoid = false)
    (hnames : ∀ b ∈ bases, b.isVoid = false →
      b = .int ∨ b = .boolean ∨ ∃ name ∈ names, b = .named name) : t.Planned names := by
  obtain ⟨b, hb, d, hd, rfl, hwrapped⟩ := h
  by_cases hzero : d = 0
  · subst hzero
    exact ⟨b, hnames b hb hvalue, .inl rfl⟩
  · have harray := arrayOf_eq_array (hbase b hb) hzero
    exact ⟨b, hnames b hb (hwrapped hzero).2, .inr ⟨d, Nat.pos_of_ne_zero hzero, hd, harray⟩⟩

theorem planned (h : t.Wrapped (Universe.ofNames names).fieldTypes p maxDims) :
    t.Planned names := by
  have hsimple := Universe.simple_ofNames names
  have hvalue : t.isVoid = false := by
    obtain ⟨b, hb, d, -, rfl, -⟩ := h
    exact isVoid_arrayOf (hsimple.field_base b hb).2 d
  exact h.planned_of_base (fun b hb => (hsimple.field_base b hb).1) hvalue
    fun b hb _ => Universe.mem_fieldTypes_ofNames.1 hb

/-- A method gives nothing or a value of a planned type. -/
theorem void_or_planned (h : t.Wrapped (Universe.ofNames names).returnTypes p maxDims) :
    t = .void ∨ t.Planned names := by
  cases hvoid : t.isVoid with
  | true =>
    cases t with
    | void => exact .inl rfl
    | _ => cases hvoid
  | false =>
    refine .inr (h.planned_of_base (Universe.simple_ofNames names).return_base hvoid ?_)
    intro b hb hvalue
    rcases Universe.mem_returnTypes_ofNames.1 hb with hint | hboolean | rfl | hclass
    · exact .inl hint
    · exact .inr (.inl hboolean)
    · cases hvalue
    · exact .inr (.inr hclass)

end Ty.Wrapped

namespace Plan

structure MethodWithin (s : Settings) (names : List String) (m : Method) : Prop where
  params_le : m.params.length ≤ s.maxParameters
  params : ∀ b ∈ m.params, b.ty.Planned names
  returns : m.returns = .void ∨ m.returns.Planned names
  thrown_le : m.thrown.length ≤ 8
  thrown_nodup : m.thrown.Nodup

structure ClassWithin (s : Settings) (names : List String) (c : ClassDecl) : Prop where
  members_le : c.fields.length + c.methods.length ≤ s.maxTypeMembers
  fields : ∀ b ∈ c.fields, b.ty.Planned names
  methods : ∀ m ∈ c.methods, MethodWithin s names m

/-- The settings allow all that the plan holds, and its types are those of its classes. -/
structure WithinLimits (s : Settings) (plan : Plan) : Prop where
  classes_pos : 1 ≤ plan.classes.length
  classes_le : plan.classes.length ≤ s.maxTypes
  names_nodup : (plan.classes.map (·.name)).Nodup
  classes : ∀ c ∈ plan.classes, ClassWithin s (plan.classes.map (·.name)) c
  fieldTypes : plan.types.fieldTypes =
    .int :: .boolean :: plan.classes.map ClassDecl.reference
  returnTypes : plan.types.returnTypes =
    .int :: .boolean :: .void :: plan.classes.map ClassDecl.reference
  types_nodup : plan.types.fieldTypes.Nodup ∧ plan.types.returnTypes.Nodup

variable {s : Settings} {plan : Plan} {names : List String}

theorem PlannedMethod.within {m : Method} (h : PlannedMethod s (Universe.ofNames names) m) :
    MethodWithin s names m where
  params_le := h.params_le
  params b hb := (h.params.types b hb).planned
  returns := h.returns.void_or_planned
  thrown_le := h.thrown.length_le
  thrown_nodup := h.thrown.nodup

theorem PlannedClass.within_limits {c : ClassDecl}
    (h : PlannedClass s (Universe.ofNames names) s.maxTypeMembers c) : ClassWithin s names c where
  members_le := h.members_le
  fields b hb := (h.fields.types b hb).planned
  methods m hm := (h.methods m hm).within

theorem Drawn.withinLimits (hs : s.Valid) (h : Drawn s plan) : plan.WithinLimits s := by
  have hnodup := h.names.nodup
  have hreference : plan.classes.map ClassDecl.reference =
      (plan.classes.map (·.name)).map Ty.named := by
    rw [List.map_map]
    rfl
  have htypes := h.types.trans (Universe.ofNames_eq hnodup)
  refine ⟨?_, ?_, hnodup, fun c hc => ?_, ?_, ?_, h.types ▸ Universe.nodup_ofNames hnodup⟩
  · have hne := h.names.ne_nil hs.types_pos
    exact List.length_pos_iff.2 fun hnil => hne (by rw [hnil]; rfl)
  · have hle := h.names.length_le
    rwa [List.length_map] at hle
  · exact (h.types ▸ h.classes c hc).within_limits
  · rw [htypes, hreference]
  · rw [htypes, hreference]

/-- Memory has no room for the names of so many classes, or for so many parameters. -/
def Outgrows (s : Settings) (f : Fault) : Prop :=
  f = .noRoom ∧
    (memoryLimit ≤ s.maxTypes * nameBytes ∨ memoryLimit ≤ s.maxParameters * parameterBytes)

theorem outgrows_of_exhausts {f : Fault}
    (h : Settings.Exhausts { s with maxStatementsPerBlock := 0 } f) : Outgrows s f := by
  rcases h with ⟨hf, hclasses | hparams | hblock⟩ | ⟨-, hblock⟩
  · exact ⟨hf, .inl hclasses⟩
  · exact ⟨hf, .inr hparams⟩
  · change memoryLimit ≤ (0 + 1) * StmtContext.statementBytes at hblock
    exact absurd hblock (by decide)
  · change sizeLimit ≤ 0 + 1 at hblock
    exact absurd hblock (by decide)

/-- Blocks have no say in how a plan ends. -/
theorem ensures_draw_room {σ : Type} [Source σ] (hs : s.Valid) :
    Gen.Ensures (Outgrows s) (draw s : Gen σ Plan) (Drawn s) := by
  have hbare : Settings.Valid { s with maxStatementsPerBlock := 0 } :=
    ⟨hs.words_ne_nil, hs.word_ne_empty, hs.types_pos, hs.length_pos, hs.fieldRatio, hs.arrayType,
      hs.thrownType, hs.expr, hs.stmt, hs.choice⟩
  have halike : s.DeclareAlike { s with maxStatementsPerBlock := 0 } :=
    ⟨rfl, rfl, rfl, rfl, rfl, rfl, rfl, rfl⟩
  intro stream
  have hdrawn := ensures_draw hs stream
  have hroom := ensures_draw hbare stream
  rw [← draw_congr halike] at hroom
  cases hplan : draw s stream with
  | ok r =>
    rw [hplan] at hdrawn
    exact hdrawn
  | error f =>
    rw [hplan] at hroom
    exact outgrows_of_exhausts hroom

/-- Accepted settings give a plan within their limits, whatever is drawn, unless memory has no room
for lists as long as they allow. -/
theorem draw_withinLimits {σ : Type} [Source σ] {s : Settings} (h : s.validate = .ok ()) :
    Gen.Ensures (Outgrows s) (draw s : Gen σ Plan) (·.WithinLimits s) := by
  have hs := Settings.valid_of_validate h
  exact (ensures_draw_room hs).mono fun _ hdrawn => hdrawn.withinLimits hs

/-- Three classes are asked for, and one word makes few names. -/
theorem draw_withinLimits_word : Gen.Yields
    (draw { words := ["a"], approximateNameLength := 1, maxTypes := 3 } : Gen WordStream Plan)
    (fun plan => 1 ≤ plan.classes.length ∧ plan.classes.length ≤ 3 ∧
      ∀ c ∈ plan.classes, ∀ m ∈ c.methods, m.params.length ≤ 7 ∧ m.thrown.length ≤ 8) := by
  have hvalid : Settings.validate
      { words := ["a"], approximateNameLength := 1, maxTypes := 3 } = .ok () := by rfl
  refine ((draw_withinLimits hvalid).mono fun plan hplan => ?_).yields ?_
  · refine ⟨hplan.classes_pos, hplan.classes_le, fun c hc m hm => ?_⟩
    have hmethod := (hplan.classes c hc).methods m hm
    exact ⟨hmethod.params_le, hmethod.thrown_le⟩
  · rintro f ⟨-, hclasses | hparams⟩
    · exact absurd hclasses (by decide)
    · exact absurd hparams (by decide)

end Plan
end JavaSynth
