import JavaSynth.Proofs.Draw.Weighted
import JavaSynth.Settings.Validation

set_option autoImplicit false

/-!
# What validation guarantees

Settings that pass have proper probabilities, capped complexities, words to draw from and a choice
of statement kinds with a positive finite total. `Valid` collects these facts for each record of
settings; the generators rely on them and on nothing else.
-/
namespace JavaSynth

section Zero

variable {a : Float}

theorem not_pos_of_beq_zero (h : a == 0) : ¬ 0 < a := by
  rcases eq_of_beq_zero h with rfl | rfl <;> decide

theorem not_neg_of_beq_zero (h : a == 0) : ¬ a < 0 := by
  rcases eq_of_beq_zero h with rfl | rfl <;> decide

theorem isFinite_of_beq_zero (h : a == 0) : a.isFinite = true := by
  rcases eq_of_beq_zero h with rfl | rfl <;> decide

theorem not_one_of_beq_zero (h : a == 0) : ¬ a == 1 := by
  rcases eq_of_beq_zero h with rfl | rfl <;> decide

end Zero

/-- A coin without a chance never comes up heads. -/
theorem Double.not_possible_of_zero {p : Double} (h : p.toFloat == 0) : ¬ p.Possible :=
  not_or.2 ⟨not_one_of_beq_zero h, not_pos_of_beq_zero h⟩

theorem zero_lt_one_float : (0 : Float) < 1 := by decide

theorem isFinite_one_float : (1 : Float).isFinite = true := by decide

theorem Double.proper_half : (0.5 : Double).Proper := by
  unfold Double.Proper
  decide

section Checks

variable {ε α : Type}

theorem bind_eq_ok {r : Except ε Unit} {k : Unit → Except ε α} {a : α} :
    (r >>= k) = .ok a ↔ r = .ok () ∧ k () = .ok a := by
  cases r with
  | error e =>
    constructor
    · intro h
      cases h
    · rintro ⟨h, -⟩
      cases h
  | ok u => exact ⟨fun h => ⟨rfl, h⟩, fun h => h.2⟩

theorem proper_of_check {name : String} {p : Double} (h : checkProbability name p = .ok ()) :
    p.Proper := by
  unfold checkProbability at h
  split at h
  · rename_i hp
    cases lt_or_beq_of_le hp.2 with
    | inl hone => exact .inl hone
    | inr hlt => exact .inr ⟨hp.1, hlt⟩
  · cases h

theorem le_of_checkCap {name : String} {value cap : Nat} (h : checkCap name value cap = .ok ()) :
    value ≤ cap := by
  unfold checkCap at h
  split at h
  · assumption
  · cases h

end Checks

structure ExprSettings.Valid (s : ExprSettings) : Prop where
  logicalOr : s.logicalOrProbability.Proper
  logicalAnd : s.logicalAndProbability.Proper
  equality : s.equalityProbability.Proper
  equalityArray : s.equalityArrayProbability.Proper
  relational : s.relationalProbability.Proper
  additive : s.additiveProbability.Proper
  multiplicative : s.multiplicativeProbability.Proper
  unary : s.unaryProbability.Proper
  complexity_le : s.maxComplexity ≤ ExprSettings.complexityCap
  chain_le : s.maxPostfixChain ≤ ExprSettings.postfixChainCap
  wraps_le : s.maxEqualityArrayWraps ≤ ExprSettings.arrayWrapsCap
  primary_le : s.primaryLiteralComplexity ≤ s.maxComplexity

theorem ExprSettings.valid_of_validate {s : ExprSettings} (h : s.validate = .ok ()) :
    s.Valid := by
  simp only [ExprSettings.validate, bind_eq_ok] at h
  obtain ⟨hor, hand, heq, harr, hrel, hadd, hmul, hun, hcap, hchain, hwraps, hprimary⟩ := h
  refine ⟨proper_of_check hor, proper_of_check hand, proper_of_check heq, proper_of_check harr,
    proper_of_check hrel, proper_of_check hadd, proper_of_check hmul, proper_of_check hun,
    le_of_checkCap hcap, le_of_checkCap hchain, le_of_checkCap hwraps, ?_⟩
  split at hprimary
  · cases hprimary
  · omega

structure StmtSettings.Valid (s : StmtSettings) : Prop where
  initializer : s.initializerProbability.Proper
  invocation : s.invocationProbability.Proper
  complexity_le : s.maxStatementComplexity ≤ StmtSettings.complexityCap
  attempts_le : s.maxResampleAttempts ≤ StmtSettings.resampleAttemptsCap

theorem StmtSettings.valid_of_validate {s : StmtSettings} (h : s.validate = .ok ()) :
    s.Valid := by
  simp only [StmtSettings.validate, bind_eq_ok] at h
  obtain ⟨hinit, hcall, hcap, hattempts⟩ := h
  exact ⟨proper_of_check hinit, proper_of_check hcall, le_of_checkCap hcap,
    le_of_checkCap hattempts⟩

structure Settings.Valid (s : Settings) : Prop where
  words_ne_nil : s.words ≠ []
  word_ne_empty : ∀ w ∈ s.words, w.isEmpty = false
  types_pos : 0 < s.maxTypes
  length_pos : 0 < s.approximateNameLength
  fieldRatio : s.fieldToMethodRatio.Proper
  arrayType : s.arrayTypePercentage.Proper
  thrownType : s.thrownTypeProbability.Proper
  expr : s.expr.Valid
  stmt : s.stmt.Valid
  choice : ∃ kinds, s.statementChoice = .ok kinds ∧ kinds.Drawable

theorem Settings.words_of_check {words : List String}
    (h : Settings.checkWords words = .ok ()) :
    words ≠ [] ∧ ∀ w ∈ words, w.isEmpty = false := by
  unfold Settings.checkWords at h
  split at h
  · cases h
  · rename_i hne
    split at h
    · cases h
    · rename_i hfind
      refine ⟨fun hnil => hne (by simp [hnil]), fun w hw => ?_⟩
      have hall := List.findIdx?_eq_none_iff.1 hfind w hw
      simpa using hall

theorem Settings.checkWords_of_words {words : List String} (hne : words ≠ [])
    (hw : ∀ w ∈ words, w.isEmpty = false) : Settings.checkWords words = .ok () := by
  have hnil : words.isEmpty = false := by simpa using hne
  have hfind : words.findIdx? (·.isEmpty) = none := List.findIdx?_eq_none_iff.2 hw
  unfold Settings.checkWords
  rw [hnil, hfind]
  rfl

/-- Other words do for valid settings, as no other check looks at them. -/
theorem Settings.validate_withWords {s : Settings} {words : List String}
    (h : s.validate = .ok ()) (hne : words ≠ []) (hw : ∀ w ∈ words, w.isEmpty = false) :
    Settings.validate { s with words } = .ok () := by
  unfold Settings.validate at h ⊢
  rw [bind_eq_ok] at h ⊢
  exact ⟨Settings.checkWords_of_words hne hw, h.2⟩

theorem Settings.ofEntries_of_choice {s : Settings} {kinds : Weighted Float StmtKind}
    (h : s.statementChoice = .ok kinds) :
    Weighted.ofEntries (s.statementWeights.map fun (w, k) => (w.toFloat, k)) = .ok kinds := by
  unfold Settings.statementChoice at h
  split at h
  · cases h
  · split at h
    · rename_i choice hof
      cases h
      exact hof
    · cases h

theorem Settings.drawable_of_choice {s : Settings} {kinds : Weighted Float StmtKind}
    (h : s.statementChoice = .ok kinds) : kinds.Drawable :=
  Weighted.drawable_of_ofEntries (ofEntries_of_choice h)

theorem Settings.valid_of_validate {s : Settings} (h : s.validate = .ok ()) : s.Valid := by
  simp only [Settings.validate, bind_eq_ok] at h
  obtain ⟨hwords, h⟩ := h
  have hw := Settings.words_of_check hwords
  split at h
  · cases h
  rename_i htypes
  split at h
  · cases h
  rename_i hlength
  simp only [bind_eq_ok] at h
  obtain ⟨hratio, harray, hthrown, hexpr, hstmt, hchoice⟩ := h
  refine ⟨hw.1, hw.2, by omega, by omega, proper_of_check hratio, proper_of_check harray,
    proper_of_check hthrown, ExprSettings.valid_of_validate hexpr,
    StmtSettings.valid_of_validate hstmt, ?_⟩
  cases hc : s.statementChoice with
  | error e => rw [hc] at hchoice; cases hchoice
  | ok kinds => exact ⟨kinds, rfl, Settings.drawable_of_choice hc⟩

end JavaSynth
