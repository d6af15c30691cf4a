import Mathlib.Order.Defs.Unbundled
import JavaSynth.Proofs.Typing.Indexing

set_option autoImplicit false

/-!
# Serving

One relation is described three times: a type serves for another by a comparison of elements and
dimensions, some number of indices leads there, and the type is the other one with dimensions
added. The last description carries the others, since the number of indices is the number of
dimensions added. Dimensions are a size, so they can only be added while their sum is one.
-/
namespace JavaSynth

namespace Ty

variable {t wanted base c : Ty} {n : Nat}

/-- What `n` indices in a row leave of a type: nothing if one of them finds no array. -/
def indexed? : Ty → Nat → Except Fault (Option Ty)
  | t, 0 => .ok (some t)
  | t, n + 1 => do
    let some c ← t.component? | return none
    c.indexed? n

theorem indexed?_succ (h : t.component? = .ok (some c)) : t.indexed? (n + 1) = c.indexed? n := by
  rw [indexed?, h]
  rfl

theorem exists_component?_of_indexed? (h : t.indexed? (n + 1) = .ok (some wanted)) :
    ∃ c, t.component? = .ok (some c) ∧ c.indexed? n = .ok (some wanted) := by
  rw [indexed?] at h
  cases hc : t.component? with
  | error fault =>
    rw [hc] at h
    cases h
  | ok found =>
    rw [hc] at h
    cases found with
    | none => cases h
    | some c => exact ⟨c, rfl, h⟩

theorem wellFormed_of_not_isArray (h : t.isArray = false) : t.WellFormed := by
  cases t with
  | array => cases h
  | int | boolean | void | named => trivial

theorem WellFormed.element_base (h : t.WellFormed) (hv : t.isVoid = false) :
    t.element.isArray = false ∧ t.element.isVoid = false := by
  cases t with
  | array => exact h.2
  | int | boolean | void | named => exact ⟨rfl, hv⟩

theorem WellFormed.arrayOf (h : t.WellFormed) (hv : t.isVoid = false) (n : Nat) :
    (t.arrayOf n).WellFormed := by
  by_cases hn : n = 0
  · subst hn
    exact h
  · rw [arrayOf_eq hn]
    exact ⟨by omega, h.element_base hv⟩

/-- An index takes back the last dimension added. -/
theorem component?_arrayOf_succ (h : t.WellFormed) (n : Nat) :
    (t.arrayOf (n + 1)).component? = .ok (some (t.arrayOf n)) := by
  cases t with
  | array element dims =>
    have hpos : 1 ≤ dims := h.1
    rw [arrayOf_array, arrayOf_array]
    change Except.ok (some (if dims + n + 1 = 1 then _ else array _ (dims + n))) = _
    rw [if_neg (by omega)]
  | int | boolean | void | named => cases n <;> rfl

/-- An index leads to a type of which the indexed one has a dimension more. -/
theorem WellFormed.of_component? (h : t.WellFormed) (hc : t.component? = .ok (some c)) :
    c.WellFormed ∧ t = c.arrayOf 1 := by
  cases t with
  | array element dims =>
    obtain ⟨hpos, harray, hvoid⟩ := h
    obtain ⟨rest, rfl⟩ := Nat.exists_eq_add_of_le' hpos
    cases hc
    cases rest with
    | zero =>
      exact ⟨wellFormed_of_not_isArray harray, (arrayOf_eq_array harray Nat.one_ne_zero).symm⟩
    | succ rest => exact ⟨⟨Nat.le_add_left 1 rest, harray, hvoid⟩, rfl⟩
  | int | boolean | void | named => cases hc

theorem indexed?_arrayOf (h : t.WellFormed) (n : Nat) :
    (t.arrayOf n).indexed? n = .ok (some t) := by
  induction n with
  | zero => rfl
  | succ n ih => rw [indexed?_succ (component?_arrayOf_succ h n), ih]

theorem eq_arrayOf_of_indexed? (h : t.WellFormed) (hi : t.indexed? n = .ok (some wanted)) :
    t = wanted.arrayOf n := by
  induction n generalizing t with
  | zero =>
    cases hi
    rfl
  | succ n ih =>
    obtain ⟨c, hc, hrest⟩ := exists_component?_of_indexed? hi
    obtain ⟨hform, hone⟩ := h.of_component? hc
    calc
      t = c.arrayOf 1 := hone
      _ = (wanted.arrayOf n).arrayOf 1 := congrArg (·.arrayOf 1) (ih hform hrest)
      _ = wanted.arrayOf (n + 1) := arrayOf_arrayOf n 1

/-- Indices take away exactly the dimensions that were added. -/
theorem indexed?_iff (h : t.WellFormed) (hw : wanted.WellFormed) :
    t.indexed? n = .ok (some wanted) ↔ t = wanted.arrayOf n := by
  constructor
  · exact eq_arrayOf_of_indexed? h
  · rintro rfl
    exact indexed?_arrayOf hw n

theorem indexesTo_iff_arrayOf :
    t.indexesTo wanted = true ↔ ∃ n, 1 ≤ n ∧ t = wanted.arrayOf n := by
  constructor
  · intro h
    obtain ⟨heq, hlt⟩ := exists_array_of_indexesTo h
    refine ⟨t.dims - wanted.dims, Nat.sub_pos_of_lt hlt, ?_⟩
    rwa [arrayOf_eq (Nat.sub_ne_zero_of_lt hlt), Nat.add_sub_cancel' (Nat.le_of_lt hlt)]
  · rintro ⟨n, hn, rfl⟩
    rw [arrayOf_eq (Nat.ne_zero_of_lt hn)]
    exact indexesTo_array.2 ⟨rfl, Nat.lt_add_of_pos_right hn⟩

/-- The types that serve for one are that type with dimensions added. -/
theorem canServe_iff_arrayOf : t.canServe wanted = true ↔ ∃ n, t = wanted.arrayOf n := by
  rw [canServe_iff, indexesTo_iff_arrayOf]
  constructor
  · rintro (rfl | ⟨n, -, h⟩)
    · exact ⟨0, rfl⟩
    · exact ⟨n, h⟩
  · rintro ⟨n, rfl⟩
    cases n with
    | zero => exact .inl rfl
    | succ n => exact .inr ⟨n + 1, Nat.le_add_left 1 n, rfl⟩

instance : IsPartialOrder Ty (fun t wanted => t.canServe wanted = true) where
  refl _ := canServe_iff.2 (.inl rfl)
  trans t c wanted htc hcw := by
    obtain ⟨m, rfl⟩ := canServe_iff_arrayOf.1 htc
    obtain ⟨n, rfl⟩ := canServe_iff_arrayOf.1 hcw
    exact canServe_iff_arrayOf.2 ⟨n + m, arrayOf_arrayOf n m⟩
  antisymm t wanted htw hwt := by
    -- each has at least the dimensions of the other, so none is added on the way
    obtain ⟨m, rfl⟩ := canServe_iff_arrayOf.1 htw
    obtain ⟨n, hn⟩ := canServe_iff_arrayOf.1 hwt
    have hdims := congrArg dims hn
    rw [dims_arrayOf, dims_arrayOf] at hdims
    obtain rfl : m = 0 := by omega
    rfl

theorem arrayOf?_eq_ok (hv : base.isVoid = false) (hd : base.dims + n < sizeLimit) :
    base.arrayOf? n = .ok (base.arrayOf n) :=
  (arrayOf?_eq hv).trans (if_pos hd)

theorem arrayOf?_overflow (hv : base.isVoid = false) (hd : sizeLimit ≤ base.dims + n) :
    base.arrayOf? n = .error (.sizeOverflow .arrayDims) :=
  (arrayOf?_eq hv).trans (if_neg (Nat.not_lt.2 hd))

theorem eq_arrayOf_of_arrayOf? (hv : base.isVoid = false) (h : base.arrayOf? n = .ok t) :
    t = base.arrayOf n := by
  rw [arrayOf?_eq hv] at h
  split at h
  · cases h
    rfl
  · cases h

/-- As long as the dimensions are a size, the types that serve are those made by adding
dimensions. -/
theorem canServe_iff_arrayOf? (hv : base.isVoid = false) (ht : t.dims < sizeLimit) :
    t.canServe base = true ↔ ∃ n, base.arrayOf? n = .ok t := by
  rw [canServe_iff_arrayOf]
  constructor
  · rintro ⟨n, rfl⟩
    rw [dims_arrayOf] at ht
    exact ⟨n, arrayOf?_eq_ok hv ht⟩
  · rintro ⟨n, h⟩
    exact ⟨n, eq_arrayOf_of_arrayOf? hv h⟩

/-- A type serves for another exactly if some number of indices leads there, which is then the
difference of the dimensions. Serving is a partial order, and the types that serve for one with
values are those made from it by adding dimensions, as long as their sum is a size. -/
theorem canServe_byIndexing :
    (∀ t wanted : Ty, t.WellFormed → wanted.WellFormed →
      (t.canServe wanted = true ↔ ∃ n, t.indexed? n = .ok (some wanted)) ∧
      (t.indexesTo wanted = true ↔ ∃ n, 1 ≤ n ∧ t.indexed? n = .ok (some wanted)) ∧
      ∀ n, t.indexed? n = .ok (some wanted) → t.dims = wanted.dims + n) ∧
    IsPartialOrder Ty (fun t wanted => t.canServe wanted = true) ∧
    ∀ base : Ty, base.WellFormed → base.isVoid = false →
      (∀ n, base.dims + n < sizeLimit → ∃ t, base.arrayOf? n = .ok t ∧ t.WellFormed ∧
        t.canServe base = true ∧ t.indexed? n = .ok (some base)) ∧
      (∀ n, sizeLimit ≤ base.dims + n → base.arrayOf? n = .error (.sizeOverflow .arrayDims)) ∧
      ∀ t, t.dims < sizeLimit → (t.canServe base = true ↔ ∃ n, base.arrayOf? n = .ok t) := by
  refine ⟨fun t wanted h hw => ?_, inferInstance, fun base h hv => ⟨fun n hd => ?_, ?_, ?_⟩⟩
  · have hiff : ∀ n, t.indexed? n = .ok (some wanted) ↔ t = wanted.arrayOf n :=
      fun n => indexed?_iff h hw
    simp only [hiff]
    refine ⟨canServe_iff_arrayOf, indexesTo_iff_arrayOf, ?_⟩
    rintro n rfl
    exact dims_arrayOf n
  · exact ⟨base.arrayOf n, arrayOf?_eq_ok hv hd, h.arrayOf hv n, canServe_iff_arrayOf.2 ⟨n, rfl⟩,
      indexed?_arrayOf h n⟩
  · exact fun n hd => arrayOf?_overflow hv hd
  · exact fun t ht => canServe_iff_arrayOf? hv ht

/-- Two indices, and no other number, lead from three dimensions of a class to one, and two more
dimensions lead back. -/
theorem canServe_byIndexing_nodes :
    (array (.named "Node") 3).WellFormed ∧ (array (.named "Node") 1).WellFormed ∧
      (∀ n, (array (.named "Node") 3).indexed? n = .ok (some (array (.named "Node") 1)) ↔ n = 2) ∧
      (∃ t, (array (.named "Node") 1).arrayOf? 2 = .ok t ∧ t.canServe (array (.named "Node") 1)) ∧
      ∃ n, (array (.named "Node") 1).arrayOf? n = .ok (array (.named "Node") 3) := by
  have h : (array (.named "Node") 3).WellFormed := ⟨by decide, rfl, rfl⟩
  have hw : (array (.named "Node") 1).WellFormed := ⟨by decide, rfl, rfl⟩
  have hserves : (array (.named "Node") 3).canServe (array (.named "Node") 1) = true := by decide
  obtain ⟨hindices, -, hbases⟩ := canServe_byIndexing
  obtain ⟨hreached, -, hdims⟩ := hindices _ _ h hw
  obtain ⟨hwraps, -, hmade⟩ := hbases _ hw rfl
  have hcount : ∀ n, (array (.named "Node") 3).indexed? n =
      .ok (some (array (.named "Node") 1)) → n = 2 := by
    intro n hn
    have hsum : 3 = 1 + n := hdims n hn
    omega
  refine ⟨h, hw, fun n => ⟨hcount n, ?_⟩, ?_, (hmade _ (by decide)).1 hserves⟩
  · rintro rfl
    obtain ⟨n, hn⟩ := hreached.1 hserves
    rwa [hcount n hn] at hn
  · obtain ⟨t, ht, -, htserves, -⟩ := hwraps 2 (by decide)
    exact ⟨t, ht, htserves⟩

/-- Dimensions are a size: the greatest size cannot be added to one dimension. -/
theorem exists_arrayOf_overflow :
    ¬ ∀ (base : Ty) (n : Nat), base.WellFormed → base.isVoid = false →
      base.dims < sizeLimit → n < sizeLimit → ∃ t, base.arrayOf? n = .ok t ∧ t.WellFormed ∧
        t.canServe base = true ∧ t.indexed? n = .ok (some base) := by
  intro h
  have hnone : (array int 1).arrayOf? (sizeLimit - 1) = .error (.sizeOverflow .arrayDims) :=
    arrayOf?_overflow rfl (by decide)
  obtain ⟨t, ht, -⟩ := h (array int 1) (sizeLimit - 1) ⟨Nat.le_refl 1, rfl, rfl⟩ rfl (by decide)
    (by decide)
  rw [hnone] at ht
  cases ht

end Ty
end JavaSynth
