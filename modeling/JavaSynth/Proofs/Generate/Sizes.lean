import JavaSynth.Proofs.Generate.Ending

set_option autoImplicit false

/-!
# Sizes in a run

A run of accepted settings adds and subtracts sizes for complexities, dimensions, classes and
blocks. All of these stay sizes but one: the room of a block, where `maxStatementsPerBlock` has no
cap and may be the greatest size.
-/
namespace JavaSynth

/-- A sum or a difference leaves the sizes in no place but the room of a block, and there only
where the greatest number of statements has no successor. -/
theorem synthesize_sizes {σ : Type} [Source σ] {s : Settings} (h : s.validate = .ok ()) :
    ∃ g : Gen σ Program, synthesize s = .ok g ∧
      ∀ stream use, g stream = .error (.sizeOverflow use) →
        use = .blockRoom ∧ sizeLimit ≤ s.maxStatementsPerBlock + 1 := by
  obtain ⟨g, hg, hrun⟩ := synthesize_of_validate (σ := σ) h
  refine ⟨g, hg, fun stream use hoverflow => ?_⟩
  have hs := hrun stream
  rw [hoverflow] at hs
  rcases hs with ⟨hroom, -⟩ | ⟨hblock, hlimit⟩
  · cases hroom
  · cases hblock
    exact ⟨rfl, hlimit⟩

/-- The settings of this run cap a block at the greatest number of statements that has a
successor. -/
theorem synthesize_sizes_capped :
    ∃ g : Gen WordStream Program,
      synthesize { words := ["river"], maxStatementsPerBlock := 2 ^ 64 - 2 } = .ok g ∧
        ∀ stream use, g stream ≠ .error (.sizeOverflow use) := by
  have hvalid : Settings.validate
      { words := ["river"], maxStatementsPerBlock := 2 ^ 64 - 2 } = .ok () := by rfl
  obtain ⟨g, hg, hsizes⟩ := synthesize_sizes (σ := WordStream) hvalid
  refine ⟨g, hg, fun stream use hoverflow => ?_⟩
  have hlimit := (hsizes stream use hoverflow).2
  exact absurd hlimit (by decide)

/-- What the size was for that a run stopped at. -/
def overflowUse? (s : Settings) (stream : WordStream) : Option SizeUse :=
  match synthesizeFrom s stream with
  | .error (.sizeOverflow use) => some use
  | _ => none

/-- A block whose number of statements is drawn as the greatest size leaves the sizes. -/
theorem exists_blockOverflow : ¬ ∀ s : Settings, s.validate = .ok () →
    ∀ (stream : WordStream) (use : SizeUse), synthesizeFrom s stream ≠ .error (.sizeOverflow use) := by
  intro h
  have hvalid : countlessSettings.validate = .ok () := by rfl
  have hrun : overflowUse? countlessSettings countlessStream = some .blockRoom := by
    decide +kernel
  unfold overflowUse? at hrun
  split at hrun
  · rename_i use heq
    exact h countlessSettings hvalid countlessStream use heq
  · cases hrun

end JavaSynth
