import Mathlib.Data.List.Chain
import JavaSynth.Proofs.Reading.Splitting

set_option autoImplicit false

/-!
# Names and types in texts

A name ends where no character of a word follows, and a type ends at a blank. Class names may have
dots in them. The words that start statements are reserved, so no name or type starts with one.
-/
namespace JavaSynth

section Words

variable {cs cs' rest rest' : List Char} {name name' : String}

theorem ended_cons {c : Char} (h : Identifier.isPart c = false) : Ended (c :: cs) := by
  intro d hd
  cases hd
  exact h

theorem Ended.append (h : Ended cs) (hr : Ended rest) : Ended (cs ++ rest) := by
  cases cs with
  | nil => exact hr
  | cons c cs => exact h

theorem isPart_of_isStart {c : Char} (h : Identifier.isStart c = true) :
    Identifier.isPart c = true := by
  simp only [Identifier.isStart, Identifier.isPart, Text.isLetterOrNumeral, Bool.or_eq_true] at *
  tauto

theorem isPart_of_isWord (h : Identifier.isWord cs = true) :
    ∀ c ∈ cs, Identifier.isPart c = true := by
  cases cs with
  | nil => exact List.forall_mem_nil _
  | cons c cs =>
    simp only [Identifier.isWord, Bool.and_eq_true, List.all_eq_true] at h
    exact List.forall_mem_cons.2 ⟨isPart_of_isStart h.1, h.2⟩

theorem isPart_of_isValid (h : Identifier.isValid name = true) :
    ∀ c ∈ name.toList, Identifier.isPart c = true :=
  isPart_of_isWord (isWord_of_isValid h)

theorem name_split (h : Identifier.isValid name = true) (h' : Identifier.isValid name' = true)
    (hr : Ended rest) (hr' : Ended rest') (heq : name.toList ++ rest = name'.toList ++ rest') :
    name = name' ∧ rest = rest' := by
  obtain ⟨hname, hrest⟩ := run_split (isPart_of_isValid h) (isPart_of_isValid h') hr hr' heq
  exact ⟨String.toList_inj.1 hname, hrest⟩

def statementWords : List String := ["if", "while", "return"]

/-- The text does not start with the word of a statement, whatever follows a word at its end. -/
def Unkeyed (cs : List Char) : Prop :=
  ∀ rest, Ended rest → ∀ w ∈ statementWords, (cs ++ rest).takeWhile Identifier.isPart ≠ w.toList

theorem unkeyed_word (hc : ∀ c ∈ cs, Identifier.isPart c = true)
    (hw : ∀ w ∈ statementWords, cs ≠ w.toList) : Unkeyed cs := by
  intro rest hr
  rw [(takeWhile_ended hc hr).1]
  exact hw

theorem ne_statementWord (h : Identifier.isValid name = true) :
    ∀ w ∈ statementWords, name.toList ≠ w.toList := by
  intro w hw heq
  have hreserved : ∀ w ∈ statementWords, w ∈ reservedWords := by decide
  exact ne_of_isValid h (hreserved w hw) (String.toList_inj.1 heq)

theorem unkeyed_name (h : Identifier.isValid name = true) : Unkeyed name.toList :=
  unkeyed_word (isPart_of_isValid h) (ne_statementWord h)

theorem unkeyed_symbol {c : Char} (h : Identifier.isPart c = false) : Unkeyed (c :: cs) := by
  intro rest _ w hw
  rw [List.cons_append, List.takeWhile_cons_of_neg (by simp [h])]
  revert w
  decide

theorem Unkeyed.append (h : Unkeyed cs) (he : Ended cs') : Unkeyed (cs ++ cs') := by
  intro rest hr
  rw [List.append_assoc]
  exact h _ (he.append hr)

end Words

/-- A name, or names with dots between them. -/
inductive Identifier.IsPath : List Char → Prop where
  | name {n : String} (h : Identifier.isValid n = true) : IsPath n.toList
  | dotted {n : String} {rest : List Char} (h : Identifier.isValid n = true)
      (hr : IsPath rest) : IsPath (n.toList ++ '.' :: rest)

namespace Identifier.IsPath

variable {cs : List Char}

theorem chars (h : IsPath cs) : ∀ c ∈ cs, isPart c = true ∨ c = '.' := by
  induction h with
  | name h => exact fun c hc => .inl (isPart_of_isValid h c hc)
  | dotted h _ ih =>
    intro c hc
    rcases List.mem_append.1 hc with hname | hrest
    · exact .inl (isPart_of_isValid h c hname)
    · rcases List.mem_cons.1 hrest with rfl | hrest
      · exact .inr rfl
      · exact ih c hrest

theorem unkeyed (h : IsPath cs) : Unkeyed cs := by
  cases h with
  | name h => exact unkeyed_name h
  | dotted h _ => exact (unkeyed_name h).append (ended_cons (by decide))

theorem ne_reserved (h : IsPath cs) : ∀ w ∈ reservedWords, cs ≠ w.toList := by
  intro w hw heq
  cases h with
  | name h => exact ne_of_isValid h hw (String.toList_inj.1 heq)
  | dotted h _ =>
    have hdot : '.' ∈ w.toList := heq ▸ List.mem_append_right _ List.mem_cons_self
    have hnone : ∀ w ∈ reservedWords, '.' ∉ w.toList := by decide
    exact hnone w hw hdot

theorem ne_nil (h : IsPath cs) : cs ≠ [] := by
  cases h with
  | name h =>
    intro hnil
    have hword := isWord_of_isValid h
    simp [hnil, isWord] at hword
  | dotted => simp

end Identifier.IsPath

/-- What an array can have as its elements: anything but an array. -/
def Ty.IsBase : Ty → Prop
  | .named name => Identifier.IsPath name.toList
  | .array _ _ => False
  | _ => True

/-- Arrays are not nested, and each has a dimension. -/
def Ty.IsFlat : Ty → Prop
  | .array element dims => 0 < dims ∧ element.IsBase
  | t => t.IsBase

def isTypeChar (c : Char) : Bool := Identifier.isPart c || c == '.' || c == '[' || c == ']'

/-- The characters of a type, in which every bracket is closed at once. -/
structure TypeText (cs : List Char) : Prop where
  chars : ∀ c ∈ cs, isTypeChar c = true
  closed : cs.IsChain fun c d => c = '[' → d = ']'

namespace Ty

variable {t t' : Ty}

theorem IsBase.chars (h : t.IsBase) : ∀ c ∈ t.chars, Identifier.isPart c = true ∨ c = '.' := by
  cases t with
  | named name => exact Identifier.IsPath.chars h
  | array => exact h.elim
  | int | boolean | void => exact fun c hc => .inl (isPart_of_isWord (by decide) c hc)

theorem IsBase.unkeyed (h : t.IsBase) : Unkeyed t.chars := by
  cases t with
  | named name => exact Identifier.IsPath.unkeyed h
  | array => exact h.elim
  | int | boolean | void => exact unkeyed_word (isPart_of_isWord (by decide)) (by decide)

theorem IsBase.ne_nil (h : t.IsBase) : t.chars ≠ [] := by
  cases t with
  | named name => exact Identifier.IsPath.ne_nil h
  | array => exact h.elim
  | int | boolean | void => decide

theorem IsBase.chars_injective (h : t.IsBase) (h' : t'.IsBase) (heq : t.chars = t'.chars) :
    t = t' := by
  cases t with
  | array => exact h.elim
  | named name =>
    cases t' with
    | array => exact h'.elim
    | named name' => rw [String.toList_inj.1 heq]
    | int | boolean | void => exact absurd heq (Identifier.IsPath.ne_reserved h _ (by decide))
  | int | boolean | void =>
    cases t' with
    | array => exact h'.elim
    | named name' =>
      exact absurd heq.symm (Identifier.IsPath.ne_reserved h' _ (by decide))
    | int | boolean | void => first | rfl | exact absurd heq (by decide)

theorem IsBase.ne_bracket (h : t.IsBase) : ∀ c ∈ t.chars, c ≠ '[' := by
  rintro c hc rfl
  have hcases := h.chars '[' hc
  exact absurd hcases (by decide)

theorem length_brackets (n : Nat) : (brackets n).length = 2 * n := by
  simp [brackets, Nat.mul_comm]

theorem mem_brackets {n : Nat} {c : Char} (h : c ∈ brackets n) : c = '[' ∨ c = ']' := by
  simp only [brackets, List.mem_flatten, List.mem_replicate] at h
  obtain ⟨pair, ⟨-, rfl⟩, hc⟩ := h
  simpa using hc

theorem brackets_succ (n : Nat) : brackets (n + 1) = '[' :: ']' :: brackets n := rfl

theorem ended_brackets (n : Nat) : Ended (brackets n) := by
  cases n with
  | zero => exact fun d hd => by cases hd
  | succ n => exact ended_cons (by decide)

/-- A flat type is written as its element with a pair of brackets for each dimension. -/
theorem IsFlat.parts (h : t.IsFlat) : t.element.IsBase ∧
    t.chars = t.element.chars ++ brackets t.dims ∧
      t = if t.dims = 0 then t.element else .array t.element t.dims := by
  cases t with
  | array element dims =>
    obtain ⟨hpos, hbase⟩ := h
    exact ⟨hbase, rfl, (if_neg (Nat.ne_of_gt hpos)).symm⟩
  | _ => exact ⟨h, (List.append_nil _).symm, rfl⟩

theorem IsFlat.chars_injective (h : t.IsFlat) (h' : t'.IsFlat) (heq : t.chars = t'.chars) :
    t = t' := by
  obtain ⟨hbase, hchars, ht⟩ := h.parts
  obtain ⟨hbase', hchars', ht'⟩ := h'.parts
  rw [hchars, hchars'] at heq
  have hrun : ∀ {b : Ty}, b.IsBase → ∀ c ∈ b.chars, (c != '[') = true :=
    fun hb c hc => bne_iff_ne.2 (hb.ne_bracket c hc)
  have hstop : ∀ n, ∀ d ∈ (brackets n).head?, (d != '[') = false := by
    intro n d hd
    cases n with
    | zero => cases hd
    | succ n => cases hd; rfl
  obtain ⟨helement, hdims⟩ := run_split (hrun hbase) (hrun hbase') (hstop _) (hstop _) heq
  have hlength := congrArg List.length hdims
  rw [length_brackets, length_brackets] at hlength
  rw [ht, ht', hbase.chars_injective hbase' helement, show t.dims = t'.dims by omega]

theorem closed_brackets (n : Nat) :
    (brackets n).IsChain fun c d => c = '[' → d = ']' := by
  induction n with
  | zero => exact .nil
  | succ n ih =>
    rw [brackets_succ]
    apply List.IsChain.cons_cons fun _ => rfl
    cases n with
    | zero => exact .singleton ']'
    | succ n => exact .cons_cons (fun h => absurd h (by decide)) ih

theorem closed_of_ne_bracket {cs : List Char} (h : ∀ c ∈ cs, c ≠ '[') :
    cs.IsChain fun c d => c = '[' → d = ']' := by
  induction cs with
  | nil => exact .nil
  | cons c cs ih =>
    obtain ⟨hfirst, hrest⟩ := List.forall_mem_cons.1 h
    cases cs with
    | nil => exact .singleton c
    | cons d cs => exact .cons_cons (fun heq => absurd heq hfirst) (ih hrest)

theorem IsFlat.typeText (h : t.IsFlat) : TypeText t.chars := by
  obtain ⟨hbase, hchars, -⟩ := h.parts
  rw [hchars]
  constructor
  · intro c hc
    unfold isTypeChar
    rcases List.mem_append.1 hc with hmem | hmem
    · rcases hbase.chars c hmem with hpart | rfl
      · simp [hpart]
      · decide
    · rcases mem_brackets hmem with rfl | rfl <;> decide
  · apply List.isChain_append.2
    refine ⟨closed_of_ne_bracket hbase.ne_bracket, closed_brackets _, ?_⟩
    intro c hc d _ heq
    exact absurd heq (hbase.ne_bracket c (List.mem_of_getLast? hc))

theorem IsFlat.blank_not_mem (h : t.IsFlat) : ' ' ∉ t.chars := by
  intro hmem
  have hblank := h.typeText.chars ' ' hmem
  exact absurd hblank (by decide)

theorem IsFlat.unkeyed (h : t.IsFlat) : Unkeyed t.chars := by
  obtain ⟨hbase, hchars, -⟩ := h.parts
  rw [hchars]
  exact hbase.unkeyed.append (ended_brackets _)

theorem IsFlat.ne_nil (h : t.IsFlat) : t.chars ≠ [] := by
  obtain ⟨hbase, hchars, -⟩ := h.parts
  rw [hchars]
  exact List.append_ne_nil_of_left_ne_nil hbase.ne_nil _

theorem IsFlat.ne_word (h : t.IsFlat) : ∀ w ∈ ["static", "new"], t.chars ≠ w.toList := by
  intro w hw heq
  cases t with
  | array element dims =>
    obtain ⟨n, rfl⟩ : ∃ n, dims = n + 1 := ⟨dims - 1, by have := h.1; omega⟩
    have hbracket : '[' ∈ w.toList := by
      rw [← heq]
      change '[' ∈ element.chars ++ brackets (n + 1)
      rw [brackets_succ]
      simp
    have hnone : ∀ w ∈ ["static", "new"], '[' ∉ w.toList := by decide
    exact hnone w hw hbracket
  | named name =>
    have hreserved : ∀ w ∈ ["static", "new"], w ∈ reservedWords := by decide
    exact Identifier.IsPath.ne_reserved h w (hreserved w hw) heq
  | int | boolean | void =>
    revert w
    decide

theorem declared_split {name name' : String} {rest rest' : List Char} (h : t.IsFlat)
    (h' : t'.IsFlat) (hn : Identifier.isValid name = true) (hn' : Identifier.isValid name' = true)
    (hr : Ended rest) (hr' : Ended rest')
    (heq : t.chars ++ ' ' :: (name.toList ++ rest) = t'.chars ++ ' ' :: (name'.toList ++ rest')) :
    t = t' ∧ name = name' ∧ rest = rest' := by
  obtain ⟨htype, hname⟩ := first_split h.blank_not_mem h'.blank_not_mem heq
  exact ⟨h.chars_injective h' htype, name_split hn hn' hr hr' hname⟩

end Ty
end JavaSynth
