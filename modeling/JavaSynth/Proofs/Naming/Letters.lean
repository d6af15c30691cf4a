import JavaSynth.Naming.Identifier
import JavaSynth.Naming.WordList

set_option autoImplicit false

/-!
# ASCII letters

The letters of words, their capitals and the digits are ranges of codes. A letter with more of these
after it is an identifier, unless it is a reserved word, and no reserved word has a digit.
-/
namespace JavaSynth

section Codes

variable {c d : Char}

theorem isLower_iff : c.isLower = true ↔ 97 ≤ c.toNat ∧ c.toNat ≤ 122 :=
  Bool.and_eq_true_iff.trans (and_congr decide_eq_true_iff decide_eq_true_iff)

theorem isUpper_iff : c.isUpper = true ↔ 65 ≤ c.toNat ∧ c.toNat ≤ 90 := decide_eq_true_iff

theorem isDigit_iff : c.isDigit = true ↔ 48 ≤ c.toNat ∧ c.toNat ≤ 57 :=
  Bool.and_eq_true_iff.trans (and_congr decide_eq_true_iff decide_eq_true_iff)

theorem isWordLetter_iff : isWordLetter c = true ↔ 97 ≤ c.toNat ∧ c.toNat ≤ 122 :=
  Bool.and_eq_true_iff.trans (and_congr decide_eq_true_iff decide_eq_true_iff)

theorem isAlpha_iff : c.isAlpha = true ↔
    (65 ≤ c.toNat ∧ c.toNat ≤ 90) ∨ (97 ≤ c.toNat ∧ c.toNat ≤ 122) :=
  Bool.or_eq_true_iff.trans (or_congr isUpper_iff isLower_iff)

theorem isAlphanum_iff : c.isAlphanum = true ↔ c.isAlpha = true ∨ c.isDigit = true :=
  Bool.or_eq_true_iff

theorem isAlpha_of_isUpper (h : c.isUpper = true) : c.isAlpha = true :=
  isAlpha_iff.2 (.inl (isUpper_iff.1 h))

theorem isAlpha_of_isLower (h : c.isLower = true) : c.isAlpha = true :=
  isAlpha_iff.2 (.inr (isLower_iff.1 h))

theorem isAlpha_of_isDigit (h : c.isDigit = true) : c.isAlpha = false := by
  have hdigit := isDigit_iff.1 h
  rw [Bool.eq_false_iff]
  intro halpha
  have hletter := isAlpha_iff.1 halpha
  omega

theorem isLower_of_isUpper (h : c.isUpper = true) : c.isLower = false := by
  have hupper := isUpper_iff.1 h
  rw [Bool.eq_false_iff]
  intro hlower
  have hrange := isLower_iff.1 hlower
  omega

theorem toNat_lt_of_isAlphanum (h : c.isAlphanum = true) : c.toNat < 128 := by
  rw [isAlphanum_iff, isAlpha_iff, isDigit_iff] at h
  omega

theorem toNat_toUpper (h : c.isLower = true) : c.toUpper.toNat = c.toNat - 32 := by
  have hrange := isLower_iff.1 h
  have hletter : 'a'.val ≤ c.val ∧ c.val ≤ 'z'.val := hrange
  have hcapital : c.toUpper.val = c.val + ('A'.val - 'a'.val) := by
    delta Char.toUpper
    rw [dif_pos hletter]
  -- the capitals come before the letters, so the offset is negative and the sum wraps around
  have hoffset : ('A'.val - 'a'.val).toNat = 2 ^ 32 - 32 := by decide
  have hcode := congrArg UInt32.toNat hcapital
  rw [UInt32.toNat_add, hoffset, Char.toNat_val, Char.toNat_val] at hcode
  omega

theorem isUpper_toUpper (h : c.isLower = true) : c.toUpper.isUpper = true := by
  have hrange := isLower_iff.1 h
  rw [isUpper_iff, toNat_toUpper h]
  omega

theorem toUpper_injective (hc : c.isLower = true) (hd : d.isLower = true)
    (h : c.toUpper = d.toUpper) : c = d := by
  have hcodes := congrArg Char.toNat h
  rw [toNat_toUpper hc, toNat_toUpper hd] at hcodes
  have hrange := isLower_iff.1 hc
  have hrange' := isLower_iff.1 hd
  exact Char.toNat_inj.1 (by omega)

end Codes

section Identifiers

variable {c : Char} {cs : List Char} {name : String}

theorem isStart_of_isAlpha (h : c.isAlpha = true) : Identifier.isStart c = true := by
  have hascii := toNat_lt_of_isAlphanum (isAlphanum_iff.2 (.inl h))
  simp [Identifier.isStart, Text.isLetter_of_ascii hascii, h]

theorem isPart_of_isAlphanum (h : c.isAlphanum = true) : Identifier.isPart c = true := by
  have hascii := toNat_lt_of_isAlphanum h
  rw [Char.isAlphanum] at h
  simp [Identifier.isPart, Text.isLetterOrNumeral, Text.isLetter_of_ascii hascii,
    Text.isNumeral_of_ascii hascii, h]

theorem isWord_of_alphanum (hc : c.isAlpha = true) (hcs : ∀ d ∈ cs, d.isAlphanum = true) :
    Identifier.isWord (c :: cs) = true := by
  rw [Identifier.isWord, Bool.and_eq_true, List.all_eq_true]
  exact ⟨isStart_of_isAlpha hc, fun d hd => isPart_of_isAlphanum (hcs d hd)⟩

theorem isValid_of_isWord (hw : Identifier.isWord name.toList = true)
    (hn : name ∉ reservedWords) : Identifier.isValid name = true := by
  simp [Identifier.isValid, hw, hn]

theorem mem_reservedWords_of_isWord (hw : Identifier.isWord name.toList = true)
    (h : Identifier.isValid name = false) : name ∈ reservedWords := by
  simpa [Identifier.isValid, hw] using h

theorem not_mem_reservedWords_of_isDigit (hc : c ∈ name.toList) (hd : c.isDigit = true) :
    name ∉ reservedWords := by
  intro hmem
  have hnone : ∀ word ∈ reservedWords, word.toList.all (!·.isDigit) = true := by decide
  have hall := List.all_eq_true.1 (hnone name hmem) c hc
  rw [hd] at hall
  cases hall

end Identifiers

/-- A word has a first letter, and all of its letters are in lower case. -/
theorem letters_of_isWord {w : String} (h : isWord w = true) :
    ∃ c cs, w.toList = c :: cs ∧ c.isLower = true ∧ ∀ d ∈ cs, d.isLower = true := by
  rw [isWord, Bool.and_eq_true, List.all_eq_true] at h
  obtain ⟨hne, hall⟩ := h
  have hlower : ∀ d ∈ w.toList, d.isLower = true :=
    fun d hd => isLower_iff.2 (isWordLetter_iff.1 (hall d hd))
  cases hw : w.toList with
  | nil => simp [hw] at hne
  | cons c cs =>
    rw [hw] at hlower
    exact ⟨c, cs, rfl, List.forall_mem_cons.1 hlower⟩

theorem isEmpty_of_isWord {w : String} (h : isWord w = true) : w.isEmpty = false := by
  obtain ⟨c, cs, hw, -⟩ := letters_of_isWord h
  rw [Bool.eq_false_iff, ne_eq, String.isEmpty_iff]
  rintro rfl
  cases hw

end JavaSynth
