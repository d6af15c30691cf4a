import JavaSynth.Proofs.Generate.DrawnTypes
import JavaSynth.Proofs.Generate.Room
import JavaSynth.Proofs.Naming.Distinct
import JavaSynth.Proofs.Naming.Spelling
import JavaSynth.Proofs.Settings.Guarantees

set_option autoImplicit false

/-!
# Planned declarations

What a plan holds, whatever the source answers: names that are drawn once in their list, types in
use, and no more of anything than the settings allow. A step adds one declaration or none, and the
invariant of the list counts the steps.
-/
namespace JavaSynth

namespace Plan

variable (s : Settings) (types : Universe)

/-- Fields or parameters with distinct names. -/
structure Bindings (bindings : List Binding) : Prop where
  nodup : (bindings.map (·.name)).Nodup
  names : ∀ b ∈ bindings, (namer s).Lower b.name
  types : ∀ b ∈ bindings, b.ty.Wrapped types.fieldTypes s.arrayTypePercentage maxDims

/-- Thrown types, none of them twice. -/
structure Thrown (thrown : List String) : Prop where
  nodup : thrown.Nodup
  names : ∀ name ∈ thrown, (namer s).Upper name
  possible : thrown ≠ [] → s.thrownTypeProbability.Possible
  length_le : thrown.length ≤ maxThrown

structure PlannedMethod (m : Method) : Prop where
  name : (namer s).Lower m.name
  name_ne : m.name ≠ entryPointName
  returns : m.returns.Wrapped types.returnTypes s.arrayTypePercentage maxDims
  params : Bindings s types m.params
  params_le : m.params.length ≤ s.maxParameters
  thrown : Thrown s m.thrown
  isStatic : m.isStatic = false
  body : m.body = none

/-- A class with at most `limit` members. -/
structure PlannedClass (limit : Nat) (c : ClassDecl) : Prop where
  fields : Bindings s types c.fields
  methods_nodup : (c.methods.map (·.name)).Nodup
  methods : ∀ m ∈ c.methods, PlannedMethod s types m
  members_le : c.fields.length + c.methods.length ≤ limit
  fields_possible : c.fields ≠ [] → s.fieldToMethodRatio.Possible
  methods_possible : c.methods ≠ [] → ¬ s.fieldToMethodRatio.toFloat == 1

/-- Class names, of which there is one as soon as one is drawn. -/
structure ClassNames (limit : Nat) (names : List String) : Prop where
  nodup : names.Nodup
  upper : ∀ name ∈ names, (namer s).Upper name
  length_le : names.length ≤ limit
  ne_nil : 0 < limit → names ≠ []

structure Drawn (plan : Plan) : Prop where
  names : ClassNames s s.maxTypes (plan.classes.map (·.name))
  types : plan.types = Universe.ofNames (plan.classes.map (·.name))
  classes : ∀ c ∈ plan.classes, PlannedClass s plan.types s.maxTypeMembers c

variable {s types}

theorem Bindings.concat {bindings : List Binding} {b : Binding} (h : Bindings s types bindings)
    (hfresh : ∀ b' ∈ bindings, b'.name ≠ b.name) (hn : (namer s).Lower b.name)
    (ht : b.ty.Wrapped types.fieldTypes s.arrayTypePercentage maxDims) :
    Bindings s types (bindings ++ [b]) where
  nodup := nodup_map_concat h.nodup hfresh
  names := forall_mem_concat h.names hn
  types := forall_mem_concat h.types ht

theorem bindings_nil : Bindings s types [] where
  nodup := List.nodup_nil
  names _ h := by cases h
  types _ h := by cases h

theorem PlannedClass.mono {limit limit' : Nat} {c : ClassDecl} (h : PlannedClass s types limit c)
    (hl : limit ≤ limit') : PlannedClass s types limit' c :=
  { h with members_le := Nat.le_trans h.members_le hl }

theorem plannedClass_empty (name : String) : PlannedClass s types 0 { name } where
  fields := bindings_nil
  methods_nodup := List.nodup_nil
  methods _ h := by cases h
  members_le := Nat.le_refl 0
  fields_possible h := absurd rfl h
  methods_possible h := absurd rfl h

theorem classNames_nil : ClassNames s 0 [] where
  nodup := List.nodup_nil
  upper _ h := by cases h
  length_le := Nat.le_refl 0
  ne_nil h := absurd h (Nat.lt_irrefl 0)

theorem ClassNames.mono {limit limit' : Nat} {names : List String} (h : ClassNames s limit names)
    (hpos : 0 < limit) (hl : limit ≤ limit') : ClassNames s limit' names :=
  ⟨h.nodup, h.upper, Nat.le_trans h.length_le hl, fun _ => h.ne_nil hpos⟩

theorem Drawn.simple {plan : Plan} (h : Drawn s plan) : plan.types.Simple := by
  rw [h.types]
  exact Universe.simple_ofNames _

section Draws

variable {σ : Type} [Source σ] {allowed : Fault → Prop}

omit [Source σ] in
theorem ensures_freshName {draw : Gen σ String} {taken : String → Bool} {post : String → Prop}
    (hd : Gen.Ensures allowed draw post) :
    Gen.Ensures allowed (freshName draw taken)
      (fun r => ∀ name, r = some name → post name ∧ taken name = false) := by
  refine (Gen.ensures_firstAccepted hd nameAttempts).mono fun r hr name hname => ?_
  obtain ⟨hpost, hfree⟩ := hr name hname
  exact ⟨hpost, by simpa using hfree⟩

omit [Source σ] in
/-- Where no name is taken, the first name drawn is accepted. -/
theorem ensures_freshName_some {draw : Gen σ String} {taken : String → Bool}
    {post : String → Prop} (hd : Gen.Ensures allowed draw post)
    (hfree : ∀ name, taken name = false) :
    Gen.Ensures allowed (freshName draw taken) (fun r => ∃ name, r = some name ∧ post name) := by
  refine Gen.ensures_bind hd fun name hname => ?_
  rw [if_pos (by simp [hfree name])]
  exact Gen.ensures_pure ⟨name, rfl, hname⟩

variable (hs : s.Valid) (hu : types.Simple)
include hs

theorem ensures_lowerCamel :
    Gen.Ensures allowed ((namer s).lowerCamel : Gen σ String) (namer s).Lower :=
  Namer.ensures_lowerCamel hs.words_ne_nil

theorem ensures_upperCamel :
    Gen.Ensures allowed ((namer s).upperCamel : Gen σ String) (namer s).Upper :=
  Namer.ensures_upperCamel hs.words_ne_nil hs.word_ne_empty

theorem ensures_addClassName {limit : Nat} {names : List String} (h : ClassNames s limit names) :
    Gen.Ensures allowed (addClassName s names : Gen σ (List String))
      (ClassNames s (limit + 1)) := by
  have hadd : ∀ name, (namer s).Upper name → name ∉ names →
      ClassNames s (limit + 1) (names ++ [name]) := by
    intro name hupper hfree
    refine ⟨nodup_concat h.nodup hfree, forall_mem_concat h.upper hupper, ?_, fun _ => by simp⟩
    have hle := h.length_le
    rw [List.length_append, List.length_singleton]
    omega
  by_cases hnil : names = []
  · subst hnil
    refine Gen.ensures_bind
      (ensures_freshName_some (ensures_upperCamel hs) fun _ => rfl) fun r hr => ?_
    obtain ⟨name, rfl, hupper⟩ := hr
    exact Gen.ensures_pure (hadd name hupper List.not_mem_nil)
  · refine Gen.ensures_bind (ensures_freshName (ensures_upperCamel hs)) fun r hr => ?_
    split
    · rename_i name
      obtain ⟨hupper, hfree⟩ := hr name rfl
      exact Gen.ensures_pure (hadd name hupper (by simpa using hfree))
    · exact Gen.ensures_pure ⟨h.nodup, h.upper, Nat.le_succ_of_le h.length_le, fun _ => hnil⟩

theorem ensures_addThrown (coins : Nat) {thrown : List String} (h : Thrown s thrown)
    (hl : thrown.length + coins ≤ maxThrown) :
    Gen.Ensures allowed (addThrown s coins thrown : Gen σ (List String)) (Thrown s) := by
  induction coins generalizing thrown with
  | zero => exact Gen.ensures_pure h
  | succ coins ih =>
    refine Gen.ensures_bind (Gen.ensures_coin hs.thrownType) fun heads hcoin => ?_
    split
    · rename_i hheads
      refine Gen.ensures_bind (ensures_upperCamel hs) fun name hupper => ?_
      split
      · exact ih h (by omega)
      · rename_i hfree
        have hadded : Thrown s (thrown ++ [name]) := by
          refine ⟨nodup_concat h.nodup (by simpa using hfree), forall_mem_concat h.names hupper,
            fun _ => hcoin.1 hheads, ?_⟩
          rw [List.length_append, List.length_singleton]
          omega
        refine ih hadded ?_
        rw [List.length_append, List.length_singleton]
        omega
    · exact Gen.ensures_pure h

theorem ensures_thrownTypes :
    Gen.Ensures allowed (thrownTypes s : Gen σ (List String)) (Thrown s) := by
  refine ensures_addThrown hs maxThrown ⟨List.nodup_nil, ?_, fun h => absurd rfl h, ?_⟩ ?_
  · intro _ h
    cases h
  · exact Nat.zero_le _
  · exact Nat.le_of_eq (Nat.zero_add _)

include hu

theorem ensures_addParameter {count : Nat} {params : List Binding}
    (h : Bindings s types params ∧ params.length ≤ count) :
    Gen.Ensures allowed (addParameter s types params : Gen σ (List Binding))
      (fun params' => Bindings s types params' ∧ params'.length ≤ count + 1) := by
  refine Gen.ensures_bind (ensures_freshName (ensures_lowerCamel hs)) fun r hr => ?_
  split
  · rename_i name
    obtain ⟨hlower, hfree⟩ := hr name rfl
    refine Gen.ensures_bind (Universe.ensures_pickFieldType hu hs.arrayType) fun t ht => ?_
    refine Gen.ensures_pure ⟨h.1.concat ?_ hlower ht, ?_⟩
    · simpa using hfree
    · have hle := h.2
      rw [List.length_append, List.length_singleton]
      omega
  · exact Gen.ensures_pure ⟨h.1, Nat.le_succ_of_le h.2⟩

theorem ensures_addField {limit : Nat} {c : ClassDecl} (h : PlannedClass s types limit c)
    (hp : s.fieldToMethodRatio.Possible) :
    Gen.Ensures allowed (addField s types c : Gen σ ClassDecl)
      (fun c' => c'.name = c.name ∧ PlannedClass s types (limit + 1) c') := by
  refine Gen.ensures_bind (ensures_freshName (ensures_lowerCamel hs)) fun r hr => ?_
  split
  · rename_i name
    obtain ⟨hlower, hfree⟩ := hr name rfl
    refine Gen.ensures_bind (Universe.ensures_pickFieldType hu hs.arrayType) fun t ht => ?_
    refine Gen.ensures_pure ⟨rfl, h.fields.concat (ne_of_find?_isSome hfree) hlower ht,
      h.methods_nodup, h.methods, ?_, fun _ => hp, h.methods_possible⟩
    have hle := h.members_le
    change (c.fields ++ [_]).length + c.methods.length ≤ limit + 1
    rw [List.length_append, List.length_singleton]
    omega
  · exact Gen.ensures_pure ⟨rfl, h.mono (Nat.le_succ limit)⟩

theorem ensures_addMethod {limit : Nat} {c : ClassDecl} (h : PlannedClass s types limit c)
    (hp : ¬ s.fieldToMethodRatio.toFloat == 1) :
    Gen.Ensures s.Exhausts (addMethod s types c : Gen σ ClassDecl)
      (fun c' => c'.name = c.name ∧ PlannedClass s types (limit + 1) c') := by
  refine Gen.ensures_bind (ensures_freshName (ensures_lowerCamel hs)) fun r hr => ?_
  split
  · rename_i name
    obtain ⟨hlower, hfree⟩ := hr name rfl
    obtain ⟨hne, hnew⟩ : name ≠ entryPointName ∧ (c.method? name).isSome = false := by
      simpa using hfree
    refine Gen.ensures_bind (Universe.ensures_pickReturnType hu hs.arrayType) fun returns hret => ?_
    refine Gen.ensures_bind (Gen.ensures_upTo _) fun count hcount => ?_
    refine Gen.ensures_bind
      (Gen.ensures_checkRoom hcount fun h => .inl ⟨rfl, .inr (.inl h)⟩) fun _ _ => ?_
    refine Gen.ensures_bind (Gen.ensures_iterate
      (fun n params => Bindings s types params ∧ params.length ≤ n)
      (fun _ _ => ensures_addParameter hs hu) count 0 ⟨bindings_nil, Nat.le_refl 0⟩)
      fun params hparams => ?_
    have hle : params.length ≤ s.maxParameters := by
      have hcounted := hparams.2
      omega
    refine Gen.ensures_bind (ensures_thrownTypes hs) fun thrown hthrown => ?_
    have hm : PlannedMethod s types { name, returns, params, thrown } :=
      ⟨hlower, hne, hret, hparams.1, hle, hthrown, rfl, rfl⟩
    refine Gen.ensures_pure ⟨rfl, h.fields, nodup_map_concat h.methods_nodup
      (ne_of_find?_isSome hnew), forall_mem_concat h.methods hm, ?_, h.fields_possible,
      fun _ => hp⟩
    have hle := h.members_le
    change c.fields.length + (c.methods ++ [_]).length ≤ limit + 1
    rw [List.length_append, List.length_singleton]
    omega
  · exact Gen.ensures_pure ⟨rfl, h.mono (Nat.le_succ limit)⟩

theorem ensures_addMember {limit : Nat} {name : String} {c : ClassDecl}
    (h : c.name = name ∧ PlannedClass s types limit c) :
    Gen.Ensures s.Exhausts (addMember s types c : Gen σ ClassDecl)
      (fun c' => c'.name = name ∧ PlannedClass s types (limit + 1) c') := by
  refine Gen.ensures_bind (Gen.ensures_coin hs.fieldRatio) fun field hcoin => ?_
  obtain ⟨rfl, h⟩ := h
  split
  · rename_i hfield
    exact ensures_addField hs hu h (hcoin.1 hfield)
  · rename_i hmethod
    exact ensures_addMethod hs hu h (hcoin.2 (Bool.eq_false_iff.2 hmethod))

theorem ensures_planClass (name : String) :
    Gen.Ensures s.Exhausts (planClass s types name : Gen σ ClassDecl)
      (fun c => c.name = name ∧ PlannedClass s types s.maxTypeMembers c) := by
  refine Gen.ensures_bind (Gen.ensures_upTo _) fun count hcount => ?_
  refine (Gen.ensures_iterate (fun n c => c.name = name ∧ PlannedClass s types n c)
    (fun _ _ => ensures_addMember hs hu) count 0 ⟨rfl, plannedClass_empty name⟩).mono
    fun c hc => ?_
  exact ⟨hc.1, hc.2.mono (by omega)⟩

omit hu in
/-- A plan is drawn from valid settings, unless memory has no room for its lists. -/
theorem ensures_draw : Gen.Ensures s.Exhausts (draw s : Gen σ Plan) (Drawn s) := by
  refine Gen.ensures_bind (Gen.ensures_fromOneTo hs.types_pos) fun count hcount => ?_
  refine Gen.ensures_bind
    (Gen.ensures_checkRoom hcount.2 fun h => .inl ⟨rfl, .inl h⟩) fun _ _ => ?_
  refine Gen.ensures_bind (Gen.ensures_iterate (ClassNames s)
    (fun _ _ => ensures_addClassName hs) count 0 classNames_nil) fun names hnames => ?_
  have hu := Universe.simple_ofNames names
  refine Gen.ensures_bind (Gen.ensures_forEach fun name _ => ensures_planClass hs hu name)
    fun classes hclasses => ?_
  have hmap : classes.map (·.name) = names := by
    rw [map_eq_of_forall₂ (f := id) hclasses fun _ _ h => h.1, List.map_id]
  refine Gen.ensures_pure ⟨?_, congrArg Universe.ofNames hmap.symm, fun c hc => ?_⟩
  · rw [hmap]
    exact hnames.mono (by omega) (by omega)
  · obtain ⟨_, -, h⟩ := exists_of_forall₂ hclasses hc
    exact h.2

end Draws
end Plan
end JavaSynth
