import Mathlib.Algebra.Group.Nat.Defs
import JavaSynth.Generate.Plan
import JavaSynth.Generate.Statement
import JavaSynth.Proofs.Draw.Outcome

set_option autoImplicit false

/-!
# Room for lists

The only faults left for valid settings come from limits beyond any memory. `Exhausts` names them,
and settings with fewer than `2 ^ 40` of everything have none.
-/
namespace JavaSynth

/-- A list that there is no room for, or a number of statements that has no successor. -/
def Settings.Exhausts (s : Settings) (f : Fault) : Prop :=
  (f = .noRoom ∧ (memoryLimit ≤ s.maxTypes * Plan.nameBytes ∨
    memoryLimit ≤ s.maxParameters * Plan.parameterBytes ∨
    memoryLimit ≤ (s.maxStatementsPerBlock + 1) * StmtContext.statementBytes)) ∨
  (f = .sizeOverflow .blockRoom ∧ sizeLimit ≤ s.maxStatementsPerBlock + 1)

theorem Settings.not_exhausts {s : Settings} (ht : s.maxTypes < 2 ^ 40)
    (hp : s.maxParameters < 2 ^ 40) (hb : s.maxStatementsPerBlock < 2 ^ 40) (f : Fault) :
    ¬ s.Exhausts f := by
  have hm : memoryLimit = 2 ^ 63 := rfl
  have hs : sizeLimit = 2 ^ 64 := rfl
  unfold Exhausts Plan.nameBytes Plan.parameterBytes StmtContext.statementBytes
  rw [hm, hs]
  omega

namespace Gen

variable {σ : Type} {allowed : Fault → Prop}

theorem ensures_checkRoom {bytes count limit : Nat} (hle : count ≤ limit)
    (hf : memoryLimit ≤ limit * bytes → allowed .noRoom) :
    Ensures allowed (ofExcept (checkRoom bytes count) : Gen σ Unit) (fun _ => True) := by
  refine ensures_ofExcept (fun _ _ => trivial) fun f h => ?_
  unfold checkRoom at h
  split at h <;> cases h
  rename_i hlarge
  exact hf (Nat.le_trans (Nat.le_of_not_lt hlarge) (Nat.mul_le_mul_right bytes hle))

theorem ensures_sizeAdd {use : SizeUse} {a b limit : Nat} (hle : a ≤ limit)
    (hf : sizeLimit ≤ limit + b → allowed (.sizeOverflow use)) :
    Ensures allowed (ofExcept (sizeAdd use a b) : Gen σ Nat) (· = a + b) := by
  unfold sizeAdd
  split
  · exact ensures_ofExcept_ok rfl rfl
  · exact fun _ => hf (by omega)

end Gen
end JavaSynth
