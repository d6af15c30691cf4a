import JavaSynth.Syntax.Ty

set_option autoImplicit false

/-!
# Indexing

One type serves for another if indexing leads from it there. Each index takes one dimension away,
so what is left to do is the difference of the dimensions. Added dimensions join those of an array.
-/
namespace JavaSynth

namespace Ty

variable {t wanted : Ty} {n : Nat}

@[simp] theorem arrayOf_zero : t.arrayOf 0 = t := rfl

theorem arrayOf_eq (hn : n ≠ 0) : t.arrayOf n = .array t.element (t.dims + n) := by
  cases t with
  | array => exact if_neg hn
  | int | boolean | void | named =>
    change _ = array _ (0 + n)
    rw [Nat.zero_add]
    exact if_neg hn

theorem arrayOf_eq_array (h : t.isArray = false) (hn : n ≠ 0) : t.arrayOf n = .array t n := by
  cases t with
  | array => cases h
  | int | boolean | void | named => exact if_neg hn

theorem arrayOf_array (element : Ty) (dims n : Nat) :
    (array element dims).arrayOf n = .array element (dims + n) := by
  cases n with
  | zero => rfl
  | succ n => exact arrayOf_eq n.succ_ne_zero

@[simp] theorem arrayOf_arrayOf (m n : Nat) : (t.arrayOf m).arrayOf n = t.arrayOf (m + n) := by
  by_cases hm : m = 0
  · subst hm
    rw [arrayOf_zero, Nat.zero_add]
  · rw [arrayOf_eq hm, arrayOf_array, arrayOf_eq (by omega), Nat.add_assoc]

@[simp] theorem dims_arrayOf (n : Nat) : (t.arrayOf n).dims = t.dims + n := by
  by_cases hn : n = 0
  · subst hn
    rfl
  · rw [arrayOf_eq hn]
    rfl

@[simp] theorem isVoid_arrayOf (h : t.isVoid = false) (n : Nat) :
    (t.arrayOf n).isVoid = false := by
  by_cases hn : n = 0
  · subst hn
    exact h
  · rw [arrayOf_eq hn]
    rfl

theorem arrayOf?_eq (h : t.isVoid = false) :
    t.arrayOf? n = if t.dims + n < sizeLimit then .ok (t.arrayOf n)
      else .error (.sizeOverflow .arrayDims) := by
  rw [arrayOf?, h, if_neg Bool.false_ne_true]

theorem dims_of_not_isArray (h : t.isArray = false) : t.dims = 0 := by
  cases t <;> simp_all [isArray, dims]

/-- An array has a dimension, over an element that is neither an array nor `void`. -/
def WellFormed : Ty → Prop
  | array element dims => 1 ≤ dims ∧ element.isArray = false ∧ element.isVoid = false
  | _ => True

/-- Only an array has dimensions. -/
theorem WellFormed.element_eq (h : t.WellFormed) (hd : t.dims = 0) : t.element = t := by
  cases t with
  | array element dims =>
    have hpos : 1 ≤ dims := h.1
    change dims = 0 at hd
    omega
  | int | boolean | void | named => rfl

theorem WellFormed.eq_array (h : t.WellFormed) (hd : t.dims ≠ 0) :
    t = .array t.element t.dims := by
  cases t with
  | array => rfl
  | int | boolean | void | named => exact absurd rfl hd

theorem indexesTo_array {element : Ty} {dims : Nat} :
    (array element dims).indexesTo wanted = true ↔ element = wanted.element ∧ wanted.dims < dims := by
  simp [indexesTo]

theorem exists_array_of_indexesTo (h : t.indexesTo wanted = true) :
    t = .array wanted.element t.dims ∧ wanted.dims < t.dims := by
  cases t with
  | array element dims =>
    obtain ⟨rfl, hlt⟩ := indexesTo_array.1 h
    exact ⟨rfl, hlt⟩
  | int | boolean | void | named => cases h

theorem canServe_iff : t.canServe wanted = true ↔ t = wanted ∨ t.indexesTo wanted = true := by
  simp [canServe]

/-- A type that serves is the wanted one exactly if no dimension is left to take away. -/
theorem eq_iff_of_canServe (h : t.canServe wanted = true) : t = wanted ↔ t.dims - wanted.dims = 0 := by
  constructor
  · rintro rfl
    exact Nat.sub_self _
  · intro hzero
    rcases canServe_iff.1 h with heq | hindex
    · exact heq
    · have hlt := (exists_array_of_indexesTo hindex).2
      omega

/-- A type that an index leads on from has a dimension to take away. -/
theorem component?_of_indexesTo (h : t.indexesTo wanted = true) :
    t.component? = .ok t.component := by
  cases t with
  | array e d =>
    cases d with
    | zero => simp [indexesTo] at h
    | succ d => rfl
  | int | boolean | void | named => rfl

/-- An index on the way to a type leads to one that still serves, with one dimension less. -/
theorem component_of_indexesTo (hw : wanted.WellFormed) (h : t.indexesTo wanted = true) :
    ∃ c, t.component = some c ∧ c.canServe wanted = true ∧ t.dims = c.dims + 1 := by
  obtain ⟨heq, hlt⟩ := exists_array_of_indexesTo h
  generalize t.dims = dims at heq hlt
  subst heq
  by_cases hone : dims = 1
  · subst hone
    have hnone : wanted.dims = 0 := by omega
    have hwanted := hw.element_eq hnone
    refine ⟨wanted, congrArg some hwanted, canServe_iff.2 (.inl rfl), ?_⟩
    rw [hnone]
  · refine ⟨.array wanted.element (dims - 1), ?_, canServe_iff.2 ?_, ?_⟩
    · rw [component, if_neg hone]
    · by_cases hlast : wanted.dims = dims - 1
      · left
        rw [← hlast]
        exact (hw.eq_array (by omega)).symm
      · exact .inr (indexesTo_array.2 ⟨rfl, by omega⟩)
    · change dims = dims - 1 + 1
      omega

end Ty
end JavaSynth
