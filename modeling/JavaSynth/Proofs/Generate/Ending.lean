import JavaSynth.Draw.Stream
import JavaSynth.Proofs.Generate.Filling

set_option autoImplicit false

/-!
# How a synthesis ends

Settings are refused before anything is drawn, and the settings that are accepted leave no draw
that could fail. A run of theirs stops without a program only where a list has no room, or where
the room for it is not a size.
-/
namespace JavaSynth

variable {σ : Type} [Source σ]

/-- A synthesis as one run: the settings are refused, or a program is drawn. -/
def synthesizeFrom (s : Settings) : Gen σ (Except SettingsError Program) :=
  match synthesize s with
  | .error e => pure (.error e)
  | .ok g => Except.ok <$> g

theorem synthesizeFrom_of_error {s : Settings} {e : SettingsError} (h : s.validate = .error e)
    (stream : σ) : synthesizeFrom s stream = .ok (.error e, stream) := by
  have hrefused : (synthesize s : Except SettingsError (Gen σ Program)) = .error e := by
    simp only [synthesize, h, bind, Except.bind]
  rw [synthesizeFrom, hrefused]
  rfl

theorem ensures_synthesizeFrom {s : Settings} (h : s.validate = .ok ()) :
    Gen.Ensures s.Exhausts (synthesizeFrom s : Gen σ _) (fun r => ∃ p, r = .ok p) := by
  obtain ⟨g, hg, hprogram⟩ := synthesize_of_validate (σ := σ) h
  rw [synthesizeFrom, hg]
  exact Gen.ensures_map hprogram fun p _ => ⟨p, rfl⟩

/-- A run ends with an error of the settings exactly where validation gives that error, and then
nothing is drawn. Otherwise it ends with a program, or its limits exhaust a size or the memory. -/
theorem synthesizeFrom_ending (s : Settings) (stream : σ) :
    (∀ e rest, synthesizeFrom s stream = .ok (.error e, rest) ↔
      s.validate = .error e ∧ rest = stream) ∧
    (s.validate = .ok () →
      (∃ p rest, synthesizeFrom s stream = .ok (.ok p, rest)) ∨
        ∃ f, synthesizeFrom s stream = .error f ∧ s.Exhausts f) := by
  cases hv : s.validate with
  | error e =>
    refine ⟨fun e' rest => ?_, fun h => by cases h⟩
    rw [synthesizeFrom_of_error hv stream]
    constructor
    · intro h
      cases h
      exact ⟨rfl, rfl⟩
    · rintro ⟨he, rfl⟩
      cases he
      rfl
  | ok =>
    have hrun := ensures_synthesizeFrom hv stream
    cases hr : synthesizeFrom s stream with
    | error f =>
      rw [hr] at hrun
      refine ⟨fun e rest => ⟨fun h => (by cases h), fun h => (by cases h.1)⟩, fun _ => ?_⟩
      exact .inr ⟨f, rfl, hrun⟩
    | ok r =>
      rw [hr] at hrun
      obtain ⟨r, rest⟩ := r
      obtain ⟨p, rfl⟩ : ∃ p, r = .ok p := hrun
      refine ⟨fun e rest' => ⟨fun h => (by cases h), fun h => (by cases h.1)⟩, fun _ => ?_⟩
      exact .inl ⟨p, rest, rfl⟩

theorem synthesizeFrom_ending_words :
    synthesizeFrom { words := [] } (WordStream.ofSeed 0) =
        .ok (.error .emptyWordList, WordStream.ofSeed 0) ∧
      ∃ p rest, synthesizeFrom { words := ["river", "stone"] } (WordStream.ofSeed 0) =
        .ok (.ok p, rest) := by
  constructor
  · have hrefused : Settings.validate { words := [] } = .error .emptyWordList := by rfl
    exact ((synthesizeFrom_ending _ _).1 _ _).2 ⟨hrefused, rfl⟩
  · have hvalid : Settings.validate { words := ["river", "stone"] } = .ok () := by rfl
    refine ((synthesizeFrom_ending _ (WordStream.ofSeed 0)).2 hvalid).resolve_right ?_
    rintro ⟨f, -, hf⟩
    exact Settings.not_exhausts (by decide) (by decide) (by decide) f hf

/-- One class with an entry point, and any number of statements in a block. -/
def countlessSettings : Settings :=
  { approximateNameLength := 1
    maxTypes := 1
    maxTypeMembers := 0
    maxStatementsPerBlock := 18446744073709551615
    thrownTypeProbability := 0
    arrayTypePercentage := 0
    statementWeights := [(1, .empty)]
    words := ["args"] }

def countlessStream : WordStream := .ofTape [1, 2, 3, 4, 5, 6, 18446744073709551615] 0

def overflows (s : Settings) (stream : WordStream) : Bool :=
  match synthesizeFrom s stream with
  | .error (.sizeOverflow _) => true
  | _ => false

/-- A run of accepted settings may stop for another reason than the room for a list. -/
theorem exists_sizeOverflow : ¬ ∀ s : Settings, s.validate = .ok () → ∀ stream : WordStream,
    (∃ p rest, synthesizeFrom s stream = .ok (.ok p, rest)) ∨
      synthesizeFrom s stream = .error .noRoom := by
  intro h
  have hrun : overflows countlessSettings countlessStream = true := by decide +kernel
  have hvalid : countlessSettings.validate = .ok () := by rfl
  unfold overflows at hrun
  rcases h countlessSettings hvalid countlessStream with ⟨p, rest, hp⟩ | hroom
  · rw [hp] at hrun
    cases hrun
  · rw [hroom] at hrun
    cases hrun

end JavaSynth
