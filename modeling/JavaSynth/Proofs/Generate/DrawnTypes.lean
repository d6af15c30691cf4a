import JavaSynth.Proofs.Draw.Outcome
import JavaSynth.Proofs.Typing.Indexing
import JavaSynth.Universe

set_option autoImplicit false

/-!
# Drawn types

A drawn type is one of the types in use with up to four array dimensions; the operands of an
equality are wrapped several times. `Wrapped` says which types that are, and that dimensions only
appear where the probability allows them.
-/
namespace JavaSynth

namespace Ty

variable {t : Ty}

/-- One of the bases with at most `limit` dimensions more, and with any only if `p` is possible. -/
def Wrapped (bases : List Ty) (p : Double) (limit : Nat) (t : Ty) : Prop :=
  ∃ b ∈ bases, ∃ d, d ≤ limit ∧ t = b.arrayOf d ∧ (d ≠ 0 → p.Possible ∧ b.isVoid = false)

theorem wrapped_self {bases : List Ty} {b : Ty} (h : b ∈ bases) (p : Double) (limit : Nat) :
    Wrapped bases p limit b :=
  ⟨b, h, 0, Nat.zero_le _, rfl, fun h => absurd rfl h⟩

theorem Wrapped.mono {bases : List Ty} {p : Double} {limit limit' : Nat} (hl : limit ≤ limit')
    (h : t.Wrapped bases p limit) : t.Wrapped bases p limit' := by
  obtain ⟨b, hb, d, hd, ht, hpos⟩ := h
  exact ⟨b, hb, d, Nat.le_trans hd hl, ht, hpos⟩

end Ty

namespace Universe

/-- There are types to draw from, none is an array, and only a return type is `void`. -/
structure Simple (u : Universe) : Prop where
  field_ne_nil : u.fieldTypes ≠ []
  return_ne_nil : u.returnTypes ≠ []
  field_base : ∀ b ∈ u.fieldTypes, b.isArray = false ∧ b.isVoid = false
  return_base : ∀ b ∈ u.returnTypes, b.isArray = false

theorem mem_fieldTypes_register (u : Universe) (name : String) (t : Ty) :
    t ∈ (u.register name).fieldTypes ↔ t ∈ u.fieldTypes ∨ t = .named name := by
  unfold register
  split
  · rename_i h
    have hmem : Ty.named name ∈ u.fieldTypes := by simpa using h
    constructor
    · exact .inl
    · rintro (h | rfl)
      · exact h
      · exact hmem
  · simp

/-- A class is in use as the type of a method once it is in use as the type of a field. -/
def Registered (u : Universe) : Prop :=
  ∀ name, Ty.named name ∈ u.fieldTypes → Ty.named name ∈ u.returnTypes

theorem mem_returnTypes_register {u : Universe} (hu : u.Registered) (name : String) (t : Ty) :
    t ∈ (u.register name).returnTypes ↔ t ∈ u.returnTypes ∨ t = .named name := by
  unfold register
  split
  · rename_i h
    have hmem : Ty.named name ∈ u.fieldTypes := by simpa using h
    constructor
    · exact .inl
    · rintro (h | rfl)
      · exact h
      · exact hu name hmem
  · simp

theorem registered_register {u : Universe} (hu : u.Registered) (name : String) :
    (u.register name).Registered := by
  intro other h
  rw [mem_returnTypes_register hu]
  rw [mem_fieldTypes_register] at h
  exact h.imp_left (hu other)

theorem mem_foldl_register (names : List String) {u : Universe} (hu : u.Registered) (t : Ty) :
    (t ∈ (names.foldl register u).fieldTypes ↔ t ∈ u.fieldTypes ∨ ∃ n ∈ names, t = .named n) ∧
      (t ∈ (names.foldl register u).returnTypes ↔
        t ∈ u.returnTypes ∨ ∃ n ∈ names, t = .named n) := by
  induction names generalizing u with
  | nil => simp
  | cons name rest ih =>
    have h := ih (registered_register hu name)
    rw [mem_fieldTypes_register, mem_returnTypes_register hu] at h
    simpa only [List.foldl_cons, List.exists_mem_cons_iff, or_assoc] using h

theorem registered_primitive : primitive.Registered := by
  intro name h
  simp [primitive] at h

@[simp] theorem mem_fieldTypes_ofNames {names : List String} {t : Ty} :
    t ∈ (ofNames names).fieldTypes ↔ t = .int ∨ t = .boolean ∨ ∃ n ∈ names, t = .named n := by
  unfold ofNames
  rw [(mem_foldl_register names registered_primitive t).1]
  simp only [primitive, List.mem_cons, List.not_mem_nil, or_false, or_assoc]

@[simp] theorem mem_returnTypes_ofNames {names : List String} {t : Ty} :
    t ∈ (ofNames names).returnTypes ↔
      t = .int ∨ t = .boolean ∨ t = .void ∨ ∃ n ∈ names, t = .named n := by
  unfold ofNames
  rw [(mem_foldl_register names registered_primitive t).2]
  simp only [primitive, List.mem_cons, List.not_mem_nil, or_false, or_assoc]

theorem simple_ofNames (names : List String) : (ofNames names).Simple where
  field_ne_nil h := by
    have hint : Ty.int ∈ (ofNames names).fieldTypes := mem_fieldTypes_ofNames.2 (.inl rfl)
    rw [h] at hint
    cases hint
  return_ne_nil h := by
    have hint : Ty.int ∈ (ofNames names).returnTypes := mem_returnTypes_ofNames.2 (.inl rfl)
    rw [h] at hint
    cases hint
  field_base b hb := by
    obtain rfl | rfl | ⟨n, -, rfl⟩ := mem_fieldTypes_ofNames.1 hb <;> exact ⟨rfl, rfl⟩
  return_base b hb := by
    obtain rfl | rfl | rfl | ⟨n, -, rfl⟩ := mem_returnTypes_ofNames.1 hb <;> rfl

end Universe

variable {σ : Type} [Source σ] {allowed : Fault → Prop}

theorem rootOf_bounds (u : Nat) : 1 ≤ rootOf u ∧ rootOf u ≤ maxDims := by
  unfold rootOf maxDims
  split_ifs <;> decide

theorem ensures_arrayDims :
    Gen.Ensures allowed (arrayDims : Gen σ Nat) (fun d => 1 ≤ d ∧ d ≤ maxDims) := by
  refine Gen.ensures_bind (Gen.ensures_shortIndex (by decide)) fun u _ => ?_
  have hroot := rootOf_bounds (u + 1)
  refine Gen.ensures_ofExcept_ok (sizeSub_eq_ok (by omega)) ?_
  omega

omit [Source σ] in
/-- Wrapping stays within the limit as long as that is a size. -/
theorem ensures_arrayOf? {bases : List Ty} {p : Double} {limit n : Nat} {t : Ty}
    (hbase : ∀ b ∈ bases, b.isArray = false ∧ b.isVoid = false) (hp : p.Possible)
    (ht : t.Wrapped bases p limit) (hsize : limit + n < sizeLimit) :
    Gen.Ensures allowed (Gen.ofExcept (t.arrayOf? n) : Gen σ Ty)
      (fun t' => t'.Wrapped bases p (limit + n)) := by
  obtain ⟨b, hb, d, hd, rfl, -⟩ := ht
  obtain ⟨harr, hvoid⟩ := hbase b hb
  have hdims : (b.arrayOf d).dims + n < sizeLimit := by
    rw [Ty.dims_arrayOf, Ty.dims_of_not_isArray harr]
    omega
  refine Gen.ensures_ofExcept_ok (a := (b.arrayOf d).arrayOf n) ?_ ?_
  · rw [Ty.arrayOf?_eq (Ty.isVoid_arrayOf hvoid d), if_pos hdims]
  · exact ⟨b, hb, d + n, by omega, Ty.arrayOf_arrayOf d n, fun _ => ⟨hp, hvoid⟩⟩

namespace Universe

variable {u : Universe}

theorem ensures_randomFieldType (hu : u.Simple) :
    Gen.Ensures allowed (u.randomFieldType : Gen σ Ty) (· ∈ u.fieldTypes) :=
  Gen.ensures_pick hu.field_ne_nil

theorem ensures_randomReturnType (hu : u.Simple) :
    Gen.Ensures allowed (u.randomReturnType : Gen σ Ty) (· ∈ u.returnTypes) :=
  Gen.ensures_pick hu.return_ne_nil

theorem ensures_wrapped {p : Double} {bases : List Ty} {b : Ty} (hp : p.Proper) (hb : b ∈ bases)
    (harr : b.isArray = false) :
    Gen.Ensures allowed (wrapped p b : Gen σ Ty) (Ty.Wrapped bases p maxDims) := by
  unfold wrapped
  split
  · exact Gen.ensures_pure (Ty.wrapped_self hb _ _)
  · rename_i hvoid
    refine Gen.ensures_bind (Gen.ensures_coin hp) fun heads hcoin => ?_
    split
    · rename_i hheads
      refine Gen.ensures_bind ensures_arrayDims fun n hn => ?_
      have hvoid' : b.isVoid = false := by simpa using hvoid
      have hone : ∀ b' ∈ [b], b'.isArray = false ∧ b'.isVoid = false := by
        rintro b' hb'
        rw [List.mem_singleton.1 hb']
        exact ⟨harr, hvoid'⟩
      have hsize : 0 + n < sizeLimit := by
        have : maxDims < sizeLimit := by decide
        omega
      refine (ensures_arrayOf? hone (hcoin.1 hheads)
        (Ty.wrapped_self (List.mem_singleton_self b) p 0) hsize).mono ?_
      rintro t ⟨b', hb', d, hd, rfl, hpos⟩
      rw [List.mem_singleton.1 hb'] at hpos ⊢
      exact ⟨b, hb, d, by omega, rfl, hpos⟩
    · exact Gen.ensures_pure (Ty.wrapped_self hb _ _)

theorem ensures_pickFieldType {p : Double} (hu : u.Simple) (hp : p.Proper) :
    Gen.Ensures allowed (u.pickFieldType p : Gen σ Ty) (Ty.Wrapped u.fieldTypes p maxDims) := by
  refine Gen.ensures_bind (ensures_randomFieldType hu) fun b hb => ?_
  exact ensures_wrapped hp hb (hu.field_base b hb).1

theorem ensures_pickReturnType {p : Double} (hu : u.Simple) (hp : p.Proper) :
    Gen.Ensures allowed (u.pickReturnType p : Gen σ Ty)
      (Ty.Wrapped u.returnTypes p maxDims) := by
  refine Gen.ensures_bind (ensures_randomReturnType hu) fun b hb => ?_
  exact ensures_wrapped hp hb (hu.return_base b hb)

end Universe
end JavaSynth
