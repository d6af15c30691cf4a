import JavaSynth.Naming.CamelCase
import JavaSynth.Proofs.Draw.Outcome

set_option autoImplicit false

/-!
# The spelling of generated names

A name is grown word by word up to a target length and then finished. `Lower` and `Upper` say which
names can come out; no fault can, as long as there are words.
-/
namespace JavaSynth

namespace Namer

variable (n : Namer)

/-- Words are appended while the name is shorter than the target. -/
inductive Grows (target : Nat) : String → String → Prop where
  | stop (name : String) : Grows target name name
  | word {name w stem : String} (hlt : name.utf8ByteSize < target) (hw : w ∈ n.words)
      (h : Grows target (name ++ capitalized w) stem) : Grows target name stem

/-- A stem is a name if it is an identifier, and otherwise gets a number. -/
inductive Finishes (stem : String) : String → Prop where
  | whole (h : Identifier.isValid stem = true) : Finishes stem stem
  | numbered {suffix : Nat} (h : Identifier.isValid stem = false) (hs : suffix < suffixBound) :
      Finishes stem (stem ++ toString suffix)

/-- A name that starts with a word as it is. -/
def Lower (name : String) : Prop :=
  ∃ target w stem, target ≤ max n.approximateLength 1 ∧ w ∈ n.words ∧
    n.Grows target w stem ∧ Finishes stem name

/-- A name that starts with a capitalized word. -/
def Upper (name : String) : Prop :=
  ∃ target w stem, target ≤ max n.approximateLength 1 ∧ w ∈ n.words ∧
    n.Grows target (capitalized w) stem ∧ Finishes stem name

variable {n} {σ : Type} [Source σ] {allowed : Fault → Prop}

theorem ensures_targetLength : Gen.Ensures allowed (n.targetLength : Gen σ Nat)
    (fun target => 1 ≤ target ∧ target ≤ max n.approximateLength 1) :=
  Gen.ensures_fromOneTo (by omega)

theorem ensures_extendTo (hn : n.words ≠ []) (target steps : Nat) (name : String) :
    Gen.Ensures allowed (n.extendTo target steps name : Gen σ String) (n.Grows target name) := by
  induction steps generalizing name with
  | zero => exact Gen.ensures_pure (.stop name)
  | succ steps ih =>
    unfold extendTo
    split
    · rename_i hlt
      refine Gen.ensures_bind (Gen.ensures_pick hn) fun w hw => ?_
      split
      · exact Gen.ensures_pure (.stop name)
      · exact (ih _).mono fun stem h => .word hlt hw h
    · exact Gen.ensures_pure (.stop name)

theorem ensures_finish (stem : String) :
    Gen.Ensures allowed (finish stem : Gen σ String) (Finishes stem) := by
  unfold finish
  split
  · rename_i h
    exact Gen.ensures_pure (.whole h)
  · rename_i h
    refine Gen.ensures_bind (Gen.ensures_shortIndex (by decide)) fun suffix hs => ?_
    exact Gen.ensures_pure (.numbered (Bool.eq_false_iff.2 h) hs)

theorem ensures_lowerCamel (hn : n.words ≠ []) :
    Gen.Ensures allowed (n.lowerCamel : Gen σ String) n.Lower := by
  refine Gen.ensures_bind ensures_targetLength fun target ht => ?_
  refine Gen.ensures_bind (Gen.ensures_pick hn) fun w hw => ?_
  refine Gen.ensures_bind (ensures_extendTo hn target target w) fun stem hstem => ?_
  exact (ensures_finish stem).mono fun name hname => ⟨target, w, stem, ht.2, hw, hstem, hname⟩

/-- The empty name is shorter than any target, so a first word is drawn. -/
theorem ensures_upperCamel (hn : n.words ≠ []) (hw : ∀ w ∈ n.words, w.isEmpty = false) :
    Gen.Ensures allowed (n.upperCamel : Gen σ String) n.Upper := by
  refine Gen.ensures_bind ensures_targetLength fun target ht => ?_
  obtain ⟨steps, rfl⟩ : ∃ steps, target = steps + 1 := ⟨target - 1, by omega⟩
  have hfirst : Gen.Ensures allowed (n.extendTo (steps + 1) (steps + 1) "" : Gen σ String)
      (fun stem => ∃ w ∈ n.words, n.Grows (steps + 1) (capitalized w) stem) := by
    have hempty : ("" : String).utf8ByteSize < steps + 1 := Nat.succ_pos steps
    unfold extendTo
    rw [if_pos hempty]
    refine Gen.ensures_bind (Gen.ensures_pick hn) fun w hmem => ?_
    rw [if_neg (by rw [hw w hmem]; decide), String.empty_append]
    exact (ensures_extendTo hn (steps + 1) steps _).mono fun stem h => ⟨w, hmem, h⟩
  refine Gen.ensures_bind hfirst fun stem hstem => ?_
  obtain ⟨w, hmem, hgrows⟩ := hstem
  exact (ensures_finish stem).mono fun name hname => ⟨_, w, stem, ht.2, hmem, hgrows, hname⟩

end Namer
end JavaSynth
