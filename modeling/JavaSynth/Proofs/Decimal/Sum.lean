import Mathlib

set_option autoImplicit false

/-!
# Sums of doubles

A sum of doubles is rounded, and rounding may lose a summand. It never loses the sign: where nothing
is negative, a sum with a positive summand is positive, or it overflows.
-/
namespace JavaSynth

open Float.Model Float.Model.UnpackedFloat

/-- The unpacked doubles above zero. -/
inductive Above : UnpackedFloat → Prop where
  | finite {m : Nat} {e : Int} (hm : 0 < m) : Above (.finite .positive m e hm)
  | infinity : Above (.infinity .positive)

section Order

variable {a b : Float}

theorem unpack_zero : (0 : Float).toModel.unpack = .zero .positive := by rfl

theorem zero_lt_iff : 0 < a ↔ Above a.toModel.unpack := by
  change (decide (((0 : Float).toModel.unpack.compare a.toModel.unpack == some .lt) = true)) = true ↔
    Above a.toModel.unpack
  rw [unpack_zero]
  cases a.toModel.unpack with
  | notANumber | zero sign => exact iff_of_false Bool.false_ne_true nofun
  | infinity sign =>
    cases sign with
    | positive => exact iff_of_true rfl .infinity
    | negative => exact iff_of_false Bool.false_ne_true nofun
  | finite sign m e hm =>
    cases sign with
    | positive => exact iff_of_true rfl (.finite hm)
    | negative => exact iff_of_false Bool.false_ne_true nofun

theorem zero_le_of_pos (h : 0 < a) : 0 ≤ a := by
  have hcompare : (0 : Float).toModel.unpack.compare a.toModel.unpack = some .lt :=
    eq_of_beq (of_decide_eq_true h)
  change (decide (((0 : Float).toModel.unpack.compare a.toModel.unpack).any (·.isLE) = true)) = true
  rw [hcompare]
  rfl

theorem eq_of_beq_zero (h : a == 0) : a = 0 ∨ a = -0 := by
  obtain ⟨-, -, heq | ⟨heq, -⟩ | ⟨heq, -⟩⟩ := Float.beq_iff_ne_nan_and_eq.1 h
  · exact .inl heq
  · exact .inl heq
  · exact .inr heq

theorem lt_or_beq_of_le (h : a ≤ b) : a == b ∨ a < b := by
  change (a.toModel.unpack.compare b.toModel.unpack == some .eq) = true ∨
    (decide ((a.toModel.unpack.compare b.toModel.unpack == some .lt) = true)) = true
  have hle : (decide ((a.toModel.unpack.compare b.toModel.unpack).any (·.isLE) = true)) = true := h
  cases hc : a.toModel.unpack.compare b.toModel.unpack with
  | none =>
    rw [hc] at hle
    exact absurd hle (by decide)
  | some order =>
    rw [hc] at hle
    cases order with
    | lt => exact .inr (by decide)
    | eq => exact .inl (by decide)
    | gt => exact absurd hle (by decide)

theorem zero_le_cases (h : 0 ≤ a) : (∃ sign, a.toModel.unpack = .zero sign) ∨ 0 < a := by
  cases lt_or_beq_of_le h with
  | inl heq =>
    left
    rcases eq_of_beq_zero (BEq.symm heq) with rfl | rfl
    · exact ⟨.positive, rfl⟩
    · exact ⟨.negative, rfl⟩
  | inr hlt => exact .inr hlt

end Order

section Rounding

/-- By how many places rounding shifts a mantissa to the right. -/
def places (m : Nat) (e : Int) : Nat :=
  (Format.binary64.targetExponent (totalExponent m e) - e).toNat

variable {m : Nat} {e : Int}

theorem targetExponent_eq :
    Format.binary64.targetExponent (totalExponent m e) = max ((m.log2 : Int) + e - 52) (-1074) := by
  simp only [Format.targetExponent, totalExponent, Format.mantissaBits, Format.minExponent]
  norm_num
  omega

theorem places_le_log2 (he : -1074 ≤ e) : places m e ≤ m.log2 := by
  unfold places
  rw [targetExponent_eq]
  omega

theorem log2_le_places : m.log2 ≤ places m e + 52 := by
  unfold places
  rw [targetExponent_eq]
  omega

/-- At least one digit of a mantissa is left. -/
theorem shifted_pos (hm : 0 < m) (he : -1074 ≤ e) : 0 < m / 2 ^ places m e := by
  have hpow : 2 ^ places m e ≤ 2 ^ m.log2 := Nat.pow_le_pow_right (by decide) (places_le_log2 he)
  exact Nat.div_pos (hpow.trans (Nat.log2_self_le hm.ne')) (Nat.two_pow_pos _)

theorem shifted_lt : m / 2 ^ places m e < 2 ^ 53 := by
  have hlog : m.log2 + 1 ≤ 53 + places m e := by
    have := log2_le_places (m := m) (e := e)
    omega
  apply (Nat.div_lt_iff_lt_mul (Nat.two_pow_pos _)).2
  rw [← Nat.pow_add]
  exact Nat.lt_log2_self.trans_le (Nat.pow_le_pow_right (by decide) hlog)

theorem mantissa_shiftRight (em : ExtendedMantissa) (n : Nat) :
    (em >>> n).mantissa = em.mantissa / 2 ^ n := by
  induction n with
  | zero => exact (Nat.div_one _).symm
  | succ n ih =>
    change (em >>> n).mantissa / 2 = _
    rw [ih, Nat.div_div_eq_div_mul, Nat.pow_succ]

theorem shiftToTargetExponent_exact :
    (shiftToTargetExponent .binary64 m e .exact).1.mantissa = m / 2 ^ places m e ∧
      (shiftToTargetExponent .binary64 m e .exact).2 = e + places m e :=
  ⟨mantissa_shiftRight _ _, rfl⟩

/-- Rounding to the nearest never goes below what is cut off. -/
theorem mantissa_le_roundedMantissa (em : ExtendedMantissa) : em.mantissa ≤ em.roundedMantissa := by
  obtain ⟨mantissa, roundBit, stickyBit⟩ := em
  cases roundBit <;> cases stickyBit <;>
    simp [ExtendedMantissa.roundedMantissa, ExtendedMantissa.accuracy, Accuracy.roundToNearestEven]

/-- Above zero, and not smaller than what can be packed. -/
inductive Packable : UnpackedFloat → Prop where
  | finite {m : Nat} {e : Int} (hm : 0 < m) (hwidth : m < 2 ^ 53) (hleast : -1074 ≤ e) :
      Packable (.finite .positive m e hm)
  | infinity : Packable (.infinity .positive)

theorem packable_roundWithAccuracy (hm : 0 < m) (he : -1074 ≤ e) :
    Packable (roundWithAccuracy .binary64 .positive m e .exact) := by
  obtain ⟨hfirst, hexponent⟩ := shiftToTargetExponent_exact (m := m) (e := e)
  unfold roundWithAccuracy
  generalize shiftToTargetExponent .binary64 m e .exact = first at hfirst hexponent
  obtain ⟨em, e₁⟩ := first
  dsimp only at hfirst hexponent ⊢
  have hrounded : 0 < em.roundedMantissa := by
    have hle := mantissa_le_roundedMantissa em
    rw [hfirst] at hle
    exact (shifted_pos hm he).trans_le hle
  have hleast : -1074 ≤ e₁ := by omega
  obtain ⟨hsecond, hlast⟩ := shiftToTargetExponent_exact (m := em.roundedMantissa) (e := e₁)
  generalize shiftToTargetExponent .binary64 em.roundedMantissa e₁ .exact = second at hsecond hlast
  obtain ⟨em₂, e₂⟩ := second
  dsimp only at hsecond hlast ⊢
  have hpos : 0 < em₂.mantissa := hsecond ▸ shifted_pos hrounded hleast
  rw [dif_neg hpos.ne']
  exact .finite hpos (hsecond ▸ shifted_lt) (by omega)

theorem shiftLeft_pos (hm : 0 < m) (n : Nat) : 0 < m <<< n := by
  rw [Nat.shiftLeft_eq]
  exact Nat.mul_pos hm (Nat.two_pow_pos n)

theorem packable_round (hm : 0 < m) (he : -1074 ≤ e) :
    Packable (UnpackedFloat.round .binary64 .positive m e) := by
  have htarget := targetExponent_eq (m := m) (e := e)
  unfold UnpackedFloat.round decreaseExponent
  -- shifting to the left lowers the exponent to the target at most, which is no less than the least
  apply packable_roundWithAccuracy (shiftLeft_pos hm _)
  rw [htarget]
  omega

theorem packable_normalize {n : Int} {sign : Sign} (hn : 0 < n) (he : -1074 ≤ e) :
    Packable (UnpackedFloat.normalize .binary64 n e sign) := by
  have hcompare : compare n 0 = .gt := Int.compare_eq_gt.2 hn
  unfold UnpackedFloat.normalize
  rw [hcompare]
  exact packable_round (by omega) he

end Rounding

section Packing

/-- By how much the exponent field of a double exceeds its exponent. -/
theorem bias_eq : (Format.binary64.exponentBias : Int) +
    (Format.binary64.mantissaBitsWithoutImplicit : Int) = 1075 := by decide

theorem above_unpack_packComponents {exponent : BitVec 11} {mantissa : BitVec 52}
    (hinfinite : exponent = -1#11 → mantissa = 0#52)
    (hnonzero : exponent = 0#11 → mantissa ≠ 0#52) :
    Above (unpack .binary64 (packComponents .binary64 .positive exponent mantissa)) := by
  unfold UnpackedFloat.unpack
  simp only [unpackExponent_packComponents, unpackMantissa_packComponents,
    unpackSign_packComponents]
  change Above (if exponent = -1#11 then _ else _)
  split_ifs with hlast hfraction hfirst hzero
  · exact .infinity
  · exact absurd (hinfinite hlast) hfraction
  · exact absurd hzero (hnonzero hfirst)
  · exact .finite _
  · exact .finite _

theorem above_unpack_pack_finite {m : Nat} {e : Int} (hm : 0 < m) (hwidth : m < 2 ^ 53)
    (hleast : -1074 ≤ e) :
    Above (unpack .binary64 (UnpackedFloat.pack .binary64 (.finite .positive m e hm))) := by
  unfold UnpackedFloat.pack
  dsimp only
  rw [Int.add_assoc, bias_eq]
  have hpositive : 1 ≤ (e + 1075).toNat := by omega
  split_ifs with hoverflow hnormal
  · exact above_unpack_packComponents (fun _ => rfl) fun h => absurd h (by decide)
  · -- a normal double: its exponent field is neither the least nor the last
    have hfield : (BitVec.ofNat 11 (e + 1075).toNat).toNat = (e + 1075).toNat := by
      rw [BitVec.toNat_ofNat, Nat.mod_eq_of_lt (by omega)]
    apply above_unpack_packComponents
    · intro hlast
      have hlast : (BitVec.ofNat 11 (e + 1075).toNat).toNat = 2047 := congrArg BitVec.toNat hlast
      omega
    · intro hfirst
      have hfirst : (BitVec.ofNat 11 (e + 1075).toNat).toNat = 0 := congrArg BitVec.toNat hfirst
      omega
  · -- a subnormal double: all of its mantissa is kept, as it does not need the implicit bit
    have hlog : m.log2 < 52 := by
      have hlog : m.log2 < 53 := (Nat.log2_lt hm.ne').2 hwidth
      change m.log2 + 1 ≠ 53 at hnormal
      omega
    have hfraction : (BitVec.ofNat 52 m).toNat = m := by
      rw [BitVec.toNat_ofNat, Nat.mod_eq_of_lt ((Nat.log2_lt hm.ne').1 hlog)]
    apply above_unpack_packComponents
    · intro hlast
      exact absurd hlast (by decide)
    · intro _ hzero
      have hzero : (BitVec.ofNat 52 m).toNat = 0 := congrArg BitVec.toNat hzero
      omega

theorem above_unpack_pack {u : UnpackedFloat} (h : Packable u) :
    Above (Float.Model.pack u).unpack := by
  cases h with
  | finite hm hwidth hleast => exact above_unpack_pack_finite hm hwidth hleast
  | infinity => exact .infinity

theorem packable_of_above {bits : BitVec Format.binary64.numBits}
    (h : Above (unpack .binary64 bits)) : Packable (unpack .binary64 bits) := by
  unfold UnpackedFloat.unpack at h ⊢
  dsimp only at h ⊢
  rw [bias_eq] at h ⊢
  generalize Sign.ofBitVec (unpackSign bits) = sign at h ⊢
  have hfraction : (unpackMantissa bits).toNat < 2 ^ 52 := (unpackMantissa bits).isLt
  split_ifs at h ⊢ with hlast hquiet hfirst hzero
  · cases h
    exact .infinity
  · cases h
  · cases h
  · cases h
    exact .finite _ (by omega) (by omega)
  · have hfield : (unpackExponent bits).toNat ≠ 0 := fun hnat =>
      hfirst (BitVec.toNat_inj.1 hnat)
    have hwidth : (1#1 ++ unpackMantissa bits).toNat < 2 ^ 53 := (1#1 ++ unpackMantissa bits).isLt
    cases h
    exact .finite _ hwidth (by omega)

end Packing

section Sums

variable {a b : Float} {u v : UnpackedFloat}

theorem packable_unpack (h : 0 < a) : Packable a.toModel.unpack :=
  packable_of_above (zero_lt_iff.1 h)

theorem packable_add (hu : Packable u) (hv : Packable v) :
    Packable (UnpackedFloat.add .binary64 u v) := by
  cases hu with
  | infinity => cases hv <;> exact .infinity
  | @finite m₁ e₁ hm₁ _ hleast₁ =>
    cases hv with
    | infinity => exact .infinity
    | @finite m₂ e₂ hm₂ _ hleast₂ =>
      have hfirst := shiftLeft_pos hm₁ (e₁ - min e₁ e₂).toNat
      have hsecond := shiftLeft_pos hm₂ (e₂ - min e₁ e₂).toNat
      exact packable_normalize (Int.add_pos (Int.natCast_pos.2 hfirst) (Int.natCast_pos.2 hsecond))
        (le_min hleast₁ hleast₂)

theorem zero_add_packable {sign : Sign} (hv : Packable v) :
    UnpackedFloat.add .binary64 (.zero sign) v = v := by
  cases hv <;> rfl

/-- A sum of doubles that are not negative is positive if the last summand is. -/
theorem add_pos_of_nonneg (ha : 0 ≤ a) (hb : 0 < b) : 0 < a + b := by
  have hsum : Packable (UnpackedFloat.add .binary64 a.toModel.unpack b.toModel.unpack) := by
    rcases zero_le_cases ha with ⟨sign, hzero⟩ | hpos
    · rw [hzero, zero_add_packable (packable_unpack hb)]
      exact packable_unpack hb
    · exact packable_add (packable_unpack hpos) (packable_unpack hb)
  rw [zero_lt_iff]
  exact above_unpack_pack hsum

end Sums

end JavaSynth
