import Mathlib.Data.List.Basic
import JavaSynth.Naming.Identifier
import JavaSynth.Syntax.Expr

set_option autoImplicit false

/-!
# Tokens

Source text is split by longest match. `Lexes` says which tokens a piece of text gives wherever it
is followed by something that does not continue a word; pieces are put together by its rules.
-/
namespace JavaSynth

inductive Token where
  | word (text : String)
  | number (value : Nat)
  | symbol (chars : List Char)
  deriving DecidableEq

/-- The symbols of two characters. -/
def doubleSymbols : List (Char × Char) :=
  [('-', '-'), ('<', '='), ('>', '='), ('=', '='), ('!', '='), ('&', '&'), ('|', '|')]

/-- The symbol that starts with a character, and the text after it. -/
def splitSymbol (c : Char) : List Char → List Char × List Char
  | [] => ([c], [])
  | d :: rest => if (c, d) ∈ doubleSymbols then ([c, d], rest) else ([c], d :: rest)

theorem length_splitSymbol (c : Char) (cs : List Char) :
    (splitSymbol c cs).2.length ≤ cs.length := by
  cases cs with
  | nil => exact Nat.le_refl 0
  | cons d rest =>
    rw [splitSymbol]
    split
    · exact Nat.le_succ rest.length
    · exact Nat.le_refl _

/-- The tokens of a text. A character that starts neither a word nor a number starts a symbol. -/
def lex : List Char → List Token
  | [] => []
  | c :: cs =>
    if c.isWhitespace then lex cs
    else if Identifier.isStart c then
      .word (String.ofList (c :: cs.takeWhile Identifier.isPart)) ::
        lex (cs.dropWhile Identifier.isPart)
    else if c.isDigit then
      .number (Nat.ofDigitChars 10 (c :: cs.takeWhile Char.isDigit) 0) ::
        lex (cs.dropWhile Char.isDigit)
    else .symbol (splitSymbol c cs).1 :: lex (splitSymbol c cs).2
termination_by cs => cs.length
decreasing_by
  all_goals rw [List.length_cons]
  · exact Nat.lt_succ_self _
  · exact Nat.lt_succ_of_le (List.dropWhile_suffix _).length_le
  · exact Nat.lt_succ_of_le (List.dropWhile_suffix _).length_le
  · exact Nat.lt_succ_of_le (length_splitSymbol c cs)

/-- The text does not go on with a character of a word. -/
def Ended (cs : List Char) : Prop := ∀ d ∈ cs.head?, Identifier.isPart d = false

/-- The text gives these tokens, whatever follows a word at its end. -/
def Lexes (cs : List Char) (ts : List Token) : Prop :=
  ∀ rest, Ended rest → lex (cs ++ rest) = ts ++ lex rest

/-- The text starts with a character that no unary operator forms a symbol with. -/
def Opens (cs : List Char) : Prop := ∃ d rest, cs = d :: rest ∧ d ≠ '-' ∧ d ≠ '='

section Characters

theorem takeWhile_ended {p : Char → Bool} {cs rest : List Char} (hc : ∀ c ∈ cs, p c = true)
    (hr : ∀ d ∈ rest.head?, p d = false) :
    (cs ++ rest).takeWhile p = cs ∧ (cs ++ rest).dropWhile p = rest := by
  induction cs with
  | nil =>
    cases rest with
    | nil => exact ⟨rfl, rfl⟩
    | cons d rest =>
      have hd : p d = false := hr d rfl
      simp [hd]
  | cons c cs ih =>
    obtain ⟨hfirst, hrest⟩ := List.forall_mem_cons.1 hc
    obtain ⟨htake, hdrop⟩ := ih hrest
    simp [hfirst, htake, hdrop]

theorem isWhitespace_of_isStart {c : Char} (h : Identifier.isStart c = true) :
    c.isWhitespace = false := by
  cases hblank : c.isWhitespace with
  | false => rfl
  | true =>
    simp only [Char.isWhitespace, Bool.or_eq_true, decide_eq_true_eq] at hblank
    obtain ((rfl | rfl) | rfl) | rfl := hblank <;> exact absurd h (by decide)

/-- A digit is no blank and starts no word, but goes on with one. -/
theorem isDigit_cases {c : Char} (h : c.isDigit = true) : c.isWhitespace = false ∧
    Identifier.isStart c = false ∧ Identifier.isPart c = true ∧ c ≠ '-' ∧ c ≠ '=' := by
  have hcode : 48 ≤ c.toNat ∧ c.toNat ≤ 57 := Char.isDigit_iff_toNat.1 h
  have hc : c = Char.ofNat c.toNat := (Char.ofNat_toNat c).symm
  have hten : c.toNat = 48 ∨ c.toNat = 49 ∨ c.toNat = 50 ∨ c.toNat = 51 ∨ c.toNat = 52 ∨
      c.toNat = 53 ∨ c.toNat = 54 ∨ c.toNat = 55 ∨ c.toNat = 56 ∨ c.toNat = 57 := by omega
  obtain hn | hn | hn | hn | hn | hn | hn | hn | hn | hn := hten <;>
    (rw [hn] at hc; subst hc; decide)

/-- A character that is a symbol by itself, whatever follows. -/
def isPlain (c : Char) : Bool :=
  !c.isWhitespace && !Identifier.isStart c && !c.isDigit && doubleSymbols.all (·.1 != c)

end Characters

@[simp] theorem lex_nil : lex [] = [] := by rw [lex]

@[simp] theorem lex_blank (cs : List Char) : lex (' ' :: cs) = lex cs := by
  rw [lex, if_pos (by decide)]

/-- A symbol is as long as it can be. -/
theorem lex_symbol {c : Char} (hblank : c.isWhitespace = false)
    (hstart : Identifier.isStart c = false) (hdigit : c.isDigit = false) (cs : List Char) :
    lex (c :: cs) = .symbol (splitSymbol c cs).1 :: lex (splitSymbol c cs).2 := by
  rw [lex, if_neg (by rw [hblank]; decide), if_neg (by rw [hstart]; decide),
    if_neg (by rw [hdigit]; decide)]

theorem lex_plain {c : Char} (h : isPlain c = true) (cs : List Char) :
    lex (c :: cs) = .symbol [c] :: lex cs := by
  simp only [isPlain, Bool.and_eq_true, Bool.not_eq_true', List.all_eq_true, bne_iff_ne] at h
  obtain ⟨⟨⟨hblank, hstart⟩, hdigit⟩, hdouble⟩ := h
  rw [lex_symbol hblank hstart hdigit]
  cases cs with
  | nil => rfl
  | cons d rest => rw [splitSymbol, if_neg fun hmem => hdouble _ hmem rfl]

theorem lex_word {name : String} (h : Identifier.isWord name.toList = true) {rest : List Char}
    (hr : Ended rest) : lex (name.toList ++ rest) = .word name :: lex rest := by
  cases hname : name.toList with
  | nil => rw [hname] at h; cases h
  | cons c cs =>
    rw [hname, Identifier.isWord, Bool.and_eq_true, List.all_eq_true] at h
    obtain ⟨htake, hdrop⟩ := takeWhile_ended h.2 hr
    rw [List.cons_append, lex, if_neg (by rw [isWhitespace_of_isStart h.1]; decide), if_pos h.1,
      htake, hdrop, ← hname, String.ofList_toList]

theorem lex_number (n : Nat) {rest : List Char} (hr : Ended rest) :
    lex (Nat.toDigits 10 n ++ rest) = .number n :: lex rest := by
  have hall : ∀ c ∈ Nat.toDigits 10 n, c.isDigit = true :=
    fun c hc => Nat.isDigit_of_mem_toDigits (by decide) (Nat.le_refl 10) hc
  have hend : ∀ d ∈ rest.head?, d.isDigit = false := by
    intro d hd
    cases hdigit : d.isDigit with
    | false => rfl
    | true => exact absurd (hr d hd) (by rw [(isDigit_cases hdigit).2.2.1]; decide)
  cases hn : Nat.toDigits 10 n with
  | nil => exact absurd hn Nat.toDigits_ne_nil
  | cons c cs =>
    obtain ⟨hc, hcs⟩ := List.forall_mem_cons.1 (hn ▸ hall)
    obtain ⟨hblank, hstart, -⟩ := isDigit_cases hc
    obtain ⟨htake, hdrop⟩ := takeWhile_ended hcs hend
    rw [List.cons_append, lex, if_neg (by rw [hblank]; decide), if_neg (by rw [hstart]; decide),
      if_pos hc, htake, hdrop, ← hn, Nat.ofDigitChars_ten_toDigits]

namespace Lexes

variable {cs cs' : List Char} {ts ts' : List Token}

theorem nil : Lexes [] [] := fun _ _ => rfl

theorem append (h : Lexes cs ts) (h' : Lexes cs' ts') (he : Ended cs') :
    Lexes (cs ++ cs') (ts ++ ts') := by
  intro rest hr
  have hend : Ended (cs' ++ rest) := by
    cases cs' with
    | nil => exact hr
    | cons d tail => exact he
  rw [List.append_assoc, h _ hend, h' rest hr, List.append_assoc]

theorem blank (h : Lexes cs ts) : Lexes (' ' :: cs) ts := by
  intro rest hr
  rw [List.cons_append, lex_blank, h rest hr]

theorem plain {c : Char} (hc : isPlain c = true) (h : Lexes cs ts) :
    Lexes (c :: cs) (.symbol [c] :: ts) := by
  intro rest hr
  rw [List.cons_append, lex_plain hc, h rest hr, List.cons_append]

theorem word {name : String} (h : Identifier.isWord name.toList = true) :
    Lexes name.toList [.word name] :=
  fun _ hr => lex_word h hr

theorem number (n : Nat) : Lexes (Nat.toDigits 10 n) [.number n] :=
  fun _ hr => lex_number n hr

/-- A unary operator forms no symbol with the start of its operand. -/
theorem unaryOperator (op : UnaryOp) (h : Lexes cs ts) (ho : Opens cs) :
    Lexes (op.text.toList ++ cs) (.symbol op.text.toList :: ts) := by
  obtain ⟨d, tail, rfl, hminus, heq⟩ := ho
  intro rest hr
  rw [List.cons_append, ← h rest hr]
  cases op with
  | neg =>
    change lex ('-' :: d :: (tail ++ rest)) = .symbol ['-'] :: lex (d :: (tail ++ rest))
    rw [lex_symbol (by decide) (by decide) (by decide), splitSymbol,
      if_neg (by simp [doubleSymbols, hminus])]
  | not =>
    change lex ('!' :: d :: (tail ++ rest)) = .symbol ['!'] :: lex (d :: (tail ++ rest))
    rw [lex_symbol (by decide) (by decide) (by decide), splitSymbol,
      if_neg (by simp [doubleSymbols, heq])]

/-- The character, or the two, of a symbol before a blank. -/
theorem lex_before_blank {c : Char} (hblank : c.isWhitespace = false)
    (hstart : Identifier.isStart c = false) (hdigit : c.isDigit = false)
    (hc : (c, ' ') ∉ doubleSymbols) (cs : List Char) :
    lex (c :: ' ' :: cs) = .symbol [c] :: lex cs := by
  rw [lex_symbol hblank hstart hdigit, splitSymbol, if_neg hc, lex_blank]

theorem lex_double_before_blank {c d : Char} (hblank : c.isWhitespace = false)
    (hstart : Identifier.isStart c = false) (hdigit : c.isDigit = false)
    (hc : (c, d) ∈ doubleSymbols) (cs : List Char) :
    lex (c :: d :: ' ' :: cs) = .symbol [c, d] :: lex cs := by
  rw [lex_symbol hblank hstart hdigit, splitSymbol, if_pos hc, lex_blank]

/-- A binary operator stands between blanks. -/
theorem binaryOperator (op : BinaryOp) (h : Lexes cs ts) :
    Lexes (' ' :: (op.text.toList ++ ' ' :: cs)) (.symbol op.text.toList :: ts) := by
  refine blank fun rest hr => ?_
  rw [List.append_assoc, List.cons_append, List.cons_append, ← h rest hr]
  cases op with
  | lt | gt | add | sub | mul | div | rem =>
    exact lex_before_blank (by decide) (by decide) (by decide) (by decide) _
  | or | and | eq | ne | le | ge =>
    exact lex_double_before_blank (by decide) (by decide) (by decide) (by decide) _

end Lexes
end JavaSynth
