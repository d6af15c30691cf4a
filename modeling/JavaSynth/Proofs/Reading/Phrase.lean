import JavaSynth.Proofs.Naming.Distinct
import JavaSynth.Proofs.Reading.Names
import JavaSynth.Proofs.Shape.Nodes

set_option autoImplicit false

/-!
# The text of an expression in a statement

A statement ends an expression with a character that no expression has, and the start of an
expression is neither the word of a statement nor a declaration.
-/
namespace JavaSynth

/-- The characters that end statements and blocks. -/
def isStop (c : Char) : Bool := c == ';' || c == '\n' || c == '\x7b' || c == '\x7d'

def beforeBlank (cs : List Char) : List Char := cs.takeWhile (· != ' ')

def afterBlank (cs : List Char) : List Char := (cs.dropWhile (· != ' ')).tail

/-- The text starts with a type, a blank and a name. -/
structure Declares (cs : List Char) : Prop where
  type : TypeText (beforeBlank cs)
  ne_new : beforeBlank cs ≠ "new".toList
  name : ∃ d ∈ (afterBlank cs).head?, Identifier.isStart d = true

/-- No declaration starts the text, and its first blank shows it. -/
def Undeclared (cs : List Char) : Prop := ∀ rest, ' ' ∈ cs → ¬ Declares (cs ++ rest)

section Blanks

variable {cs cs' rest : List Char} {c d : Char}

theorem ne_blank_of_not_mem (h : ' ' ∉ cs) : ∀ c ∈ cs, (c != ' ') = true := by
  intro c hc
  have hne : c ≠ ' ' := fun heq => h (heq ▸ hc)
  simpa using hne

theorem beforeBlank_append (h : ' ' ∉ cs) : beforeBlank (cs ++ rest) = cs ++ beforeBlank rest :=
  List.takeWhile_append_of_pos (ne_blank_of_not_mem h)

theorem afterBlank_append (h : ' ' ∉ cs) : afterBlank (cs ++ rest) = afterBlank rest := by
  unfold afterBlank
  rw [List.dropWhile_append_of_pos (ne_blank_of_not_mem h)]

theorem not_declares_of_mem (hc : c ∈ beforeBlank cs) (h : isTypeChar c = false) :
    ¬ Declares cs := by
  intro hd
  rw [hd.type.chars c hc] at h
  cases h

theorem Ty.IsFlat.declares {t : Ty} {name : String} (h : t.IsFlat)
    (hn : Identifier.isValid name = true) (rest : List Char) :
    Declares (t.chars ++ ' ' :: (name.toList ++ rest)) := by
  have hbefore : beforeBlank (t.chars ++ ' ' :: (name.toList ++ rest)) = t.chars := by
    rw [beforeBlank_append h.blank_not_mem]
    exact List.append_nil _
  refine ⟨?_, ?_, ?_⟩
  · rw [hbefore]
    exact h.typeText
  · rw [hbefore]
    exact h.ne_word "new" (by decide)
  · rw [afterBlank_append h.blank_not_mem]
    change ∃ d ∈ (name.toList ++ rest).head?, _
    have hword := isWord_of_isValid hn
    cases hname : name.toList with
    | nil => simp [hname, Identifier.isWord] at hword
    | cons c cs =>
      rw [hname, Identifier.isWord, Bool.and_eq_true] at hword
      exact ⟨c, rfl, hword.1⟩

theorem undeclared_of_not_mem (h : ' ' ∉ cs) : Undeclared cs := fun _ hmem => absurd hmem h

theorem Undeclared.append (h : Undeclared cs)
    (h' : ' ' ∉ cs → ' ' ∈ cs' → ∀ rest, ¬ Declares (cs ++ (cs' ++ rest))) :
    Undeclared (cs ++ cs') := by
  intro rest hmem
  rw [List.append_assoc]
  -- what comes before the first blank is in the first part, or it is all of that part and more
  by_cases hblank : ' ' ∈ cs
  · exact h _ hblank
  · exact h' hblank ((List.mem_append.1 hmem).resolve_left hblank) rest

end Blanks

/-- What can go on after an operand. -/
structure Extends (cs' : List Char) : Prop where
  clear : ∀ c ∈ cs', isStop c = false
  ended : Ended cs'
  undeclared : ∀ cs rest, ' ' ∉ cs → ' ' ∈ cs' → ¬ Declares (cs ++ (cs' ++ rest))

/-- What statements rely on in the text of an expression. -/
structure Phrase (cs : List Char) : Prop where
  clear : ∀ c ∈ cs, isStop c = false
  opens : ∃ c tail, cs = c :: tail ∧ c ≠ ' ' ∧ c ≠ ']'
  unkeyed : Unkeyed cs
  undeclared : Undeclared cs

section Rules

variable {cs cs' : List Char} {c : Char} {n : String}

theorem isStop_of_isTypeChar (h : isTypeChar c = true) : isStop c = false := by
  cases hs : isStop c with
  | false => rfl
  | true =>
    simp only [isStop, Bool.or_eq_true, beq_iff_eq] at hs
    obtain ((rfl | rfl) | rfl) | rfl := hs <;> exact absurd h (by decide)

theorem isStop_of_isPart (h : Identifier.isPart c = true) : isStop c = false :=
  isStop_of_isTypeChar (by simp [isTypeChar, h])

theorem clear_of_any (h : cs.any isStop = false) : ∀ c ∈ cs, isStop c = false := by
  simpa using h

theorem split_at_stop {c' : Char} {rest rest' : List Char} (h : ∀ d ∈ cs, isStop d = false)
    (h' : ∀ d ∈ cs', isStop d = false) (hc : isStop c = true) (hc' : isStop c' = true)
    (heq : cs ++ c :: rest = cs' ++ c' :: rest') : cs = cs' ∧ c :: rest = c' :: rest' :=
  run_split (p := (!isStop ·)) (by simpa using h) (by simpa using h') (by simpa using hc)
    (by simpa using hc') heq

theorem blank_not_mem_of_isPart (h : ∀ c ∈ cs, Identifier.isPart c = true) : ' ' ∉ cs :=
  fun hmem => absurd (h ' ' hmem) (by decide)

namespace Extends

theorem dot (h : Identifier.isValid n = true) : Extends ('.' :: n.toList) := by
  have hparts := isPart_of_isValid h
  refine ⟨?_, ended_cons (by decide), ?_⟩
  · exact List.forall_mem_cons.2 ⟨by decide, fun c hc => isStop_of_isPart (hparts c hc)⟩
  · intro cs rest _ hmem
    have hblank := blank_not_mem_of_isPart hparts
    simp [hblank] at hmem

theorem parens (h : ∀ c ∈ cs, isStop c = false) : Extends ('(' :: (cs ++ [')'])) := by
  refine ⟨?_, ended_cons (by decide), ?_⟩
  · exact List.forall_mem_cons.2 ⟨by decide, forall_mem_concat h (by decide)⟩
  · intro before rest hblank _
    have hmem : '(' ∈ beforeBlank (before ++ ('(' :: (cs ++ [')']) ++ rest)) := by
      rw [beforeBlank_append hblank, List.cons_append, beforeBlank,
        List.takeWhile_cons_of_pos (by decide)]
      simp
    exact not_declares_of_mem hmem (by decide)

theorem brackets (h : Phrase cs) : Extends ('[' :: (cs ++ [']'])) := by
  refine ⟨?_, ended_cons (by decide), ?_⟩
  · exact List.forall_mem_cons.2 ⟨by decide, forall_mem_concat h.clear (by decide)⟩
  · intro before rest hblank _ hd
    -- the brackets of a type are closed at once, and a position comes before this closing bracket
    obtain ⟨c, tail, rfl, hne, hclosing⟩ := h.opens
    have hclosed := hd.type.closed
    rw [beforeBlank_append hblank] at hclosed
    simp only [List.cons_append, beforeBlank] at hclosed
    rw [List.takeWhile_cons_of_pos (by decide),
      List.takeWhile_cons_of_pos (by simpa using hne)] at hclosed
    exact hclosing ((List.isChain_append_cons_cons.1 hclosed).2.1 rfl)

theorem operator {op : List Char} (h : ∀ c ∈ cs, isStop c = false) (hop : op.any isStop = false)
    (hfirst : op.head?.any Identifier.isStart = false) (hne : op ≠ []) :
    Extends (' ' :: (op ++ ' ' :: cs)) := by
  refine ⟨?_, ended_cons (by decide), ?_⟩
  · refine List.forall_mem_cons.2 ⟨by decide, List.forall_mem_append.2 ⟨clear_of_any hop, ?_⟩⟩
    exact List.forall_mem_cons.2 ⟨by decide, h⟩
  · intro before rest hblank _ hd
    -- a declared name would start where the operator does
    obtain ⟨d, hmem, hstart⟩ := hd.name
    rw [afterBlank_append hblank] at hmem
    cases op with
    | nil => exact hne rfl
    | cons o op =>
      have hfirst' : Identifier.isStart o = false := by simpa using hfirst
      have hd : o = d := by simpa [afterBlank] using hmem
      rw [← hd, hfirst'] at hstart
      cases hstart

end Extends

namespace Phrase

theorem append (h : Phrase cs) (h' : Extends cs') : Phrase (cs ++ cs') := by
  obtain ⟨c, tail, rfl, hc⟩ := h.opens
  refine ⟨List.forall_mem_append.2 ⟨h.clear, h'.clear⟩, ⟨c, tail ++ cs', rfl, hc⟩,
    h.unkeyed.append h'.ended, h.undeclared.append ?_⟩
  exact fun hblank hmem rest => h'.undeclared _ rest hblank hmem

theorem word (h : ∀ c ∈ cs, Identifier.isPart c = true) (hne : cs ≠ []) (hk : Unkeyed cs) :
    Phrase cs := by
  refine ⟨fun c hc => isStop_of_isPart (h c hc), ?_, hk,
    undeclared_of_not_mem (blank_not_mem_of_isPart h)⟩
  cases cs with
  | nil => exact absurd rfl hne
  | cons c tail =>
    have hpart := h c List.mem_cons_self
    refine ⟨c, tail, rfl, ?_, ?_⟩ <;>
      · rintro rfl
        exact absurd hpart (by decide)

theorem keyword (h : Identifier.isWord cs = true) (hk : ∀ w ∈ statementWords, cs ≠ w.toList) :
    Phrase cs := by
  have hparts := isPart_of_isWord h
  apply word hparts _ (unkeyed_word hparts hk)
  rintro rfl
  cases h

theorem name (h : Identifier.isValid n = true) : Phrase n.toList :=
  keyword (isWord_of_isValid h) (ne_statementWord h)

theorem this : Phrase "this".toList := keyword (by decide) (by decide)

theorem symbol (hc : isTypeChar c = false) (hs : isStop c = false) (hb : c ≠ ' ')
    (h : ∀ c ∈ cs, isStop c = false) : Phrase (c :: cs) := by
  have hpart : Identifier.isPart c = false ∧ c ≠ ']' := by
    simp only [isTypeChar, Bool.or_eq_false_iff, beq_eq_false_iff_ne] at hc
    exact ⟨hc.1.1.1, hc.2⟩
  refine ⟨List.forall_mem_cons.2 ⟨hs, h⟩, ⟨c, cs, rfl, hb, hpart.2⟩,
    unkeyed_symbol hpart.1, fun rest _ => ?_⟩
  have hmem : c ∈ beforeBlank (c :: cs ++ rest) := by
    rw [List.cons_append, beforeBlank, List.takeWhile_cons_of_pos (by simpa using hb)]
    exact List.mem_cons_self
  exact not_declares_of_mem hmem hc

theorem parens (h : ∀ c ∈ cs, isStop c = false) : Phrase ('(' :: cs ++ [')']) :=
  symbol (by decide) (by decide) (by decide) (forall_mem_concat h (by decide))

theorem new (h : ∀ c ∈ cs, isStop c = false) : Phrase ("new ".toList ++ cs) := by
  have hnew : Unkeyed ("new".toList ++ ' ' :: cs) :=
    (unkeyed_word (isPart_of_isWord (by decide)) (by decide)).append (ended_cons (by decide))
  refine ⟨List.forall_mem_append.2 ⟨clear_of_any (by decide), h⟩, ⟨'n', _, rfl, by decide⟩,
    hnew, ?_⟩
  intro rest _ hd
  apply hd.ne_new
  change beforeBlank ("new".toList ++ (' ' :: (cs ++ rest))) = _
  rw [beforeBlank_append (by decide)]
  rfl

theorem number (n : Nat) : Phrase (Nat.toDigits 10 n) := by
  have hdigit : ∀ c ∈ Nat.toDigits 10 n, c.isDigit = true :=
    fun c hc => Nat.isDigit_of_mem_toDigits (by decide) (Nat.le_refl 10) hc
  have hparts : ∀ c ∈ Nat.toDigits 10 n, Identifier.isPart c = true :=
    fun c hc => (isDigit_cases (hdigit c hc)).2.2.1
  apply word hparts Nat.toDigits_ne_nil
  apply unkeyed_word hparts
  intro w hw heq
  have hall : w.toList.all Char.isDigit = true := by
    rw [← heq]
    exact List.all_eq_true.2 hdigit
  have hnone : ∀ w ∈ statementWords, w.toList.all Char.isDigit = false := by decide
  rw [hnone w hw] at hall
  cases hall

theorem guarded {e : Expr} (h : Phrase e.chars) (least : Nat) :
    Phrase (e.guarded least e.chars) := by
  unfold Expr.guarded
  split
  · exact parens h.clear
  · exact h

end Phrase

end Rules

/-- The names of a node are identifiers, and what it makes has a type that can be written. -/
def Expr.NamesFit : Expr → Prop
  | .var _ name _ | .ownField name _ | .field _ name _ | .ownCall name _ _ | .call _ name _ _ =>
    Identifier.isValid name = true
  | .newObject ty | .newArray _ ty => ty.IsFlat
  | _ => True

def Expr.Spelled (e : Expr) : Prop := ∀ n ∈ e.nodes, n.NamesFit

theorem Literal.phrase (value : Literal) : Phrase value.chars := by
  cases value with
  | int v =>
    rw [Literal.chars_int]
    split
    · exact .symbol (by decide) (by decide) (by decide) (Phrase.number _).clear
    · exact .number _
  | boolean b =>
    cases b with
    | false => exact .keyword (by decide) (by decide)
    | true => exact .keyword (by decide) (by decide)
  | null => exact .keyword (by decide) (by decide)

theorem Ty.IsFlat.clear {t : Ty} (h : t.IsFlat) : ∀ c ∈ t.chars, isStop c = false :=
  fun c hc => isStop_of_isTypeChar (h.typeText.chars c hc)

theorem Ty.IsFlat.clear_element {t : Ty} (h : t.IsFlat) :
    ∀ c ∈ t.element.chars, isStop c = false := by
  intro c hc
  apply h.clear c
  rw [h.parts.2.1]
  exact List.mem_append_left _ hc

theorem Ty.clear_brackets (n : Nat) : ∀ c ∈ Ty.brackets n, isStop c = false := by
  intro c hc
  rcases Ty.mem_brackets hc with rfl | rfl <;> decide

theorem BinaryOp.extends (op : BinaryOp) {cs : List Char} (h : ∀ c ∈ cs, isStop c = false) :
    Extends (' ' :: (op.text.toList ++ ' ' :: cs)) := by
  apply Extends.operator h <;> cases op <;> decide

mutual

theorem Expr.phrase (e : Expr) (h : e.Spelled) : Phrase e.chars := by
  cases e with
  | literal value _ => exact value.phrase
  | var _ name _ => exact .name (h _ List.mem_cons_self)
  | ownField name _ => exact Phrase.this.append (.dot (h _ List.mem_cons_self))
  | field target name _ =>
    obtain ⟨hname, htarget⟩ := List.forall_mem_cons.1 h
    exact ((target.phrase htarget).guarded _).append (.dot hname)
  | index target position _ =>
    obtain ⟨htarget, hposition⟩ := List.forall_mem_append.1 (List.forall_mem_cons.1 h).2
    have hp := (position.phrase hposition).guarded 0
    exact ((target.phrase htarget).guarded _).append (.brackets hp)
  | ownCall name args _ =>
    obtain ⟨hname, hargs⟩ := List.forall_mem_cons.1 h
    have hcall := (Phrase.this.append (.dot hname)).append (.parens (Expr.clear_args args hargs))
    rwa [List.append_assoc] at hcall
  | call target name args _ =>
    obtain ⟨hname, hrest⟩ := List.forall_mem_cons.1 h
    obtain ⟨htarget, hargs⟩ := List.forall_mem_append.1 hrest
    have hcall := (((target.phrase htarget).guarded Expr.postfixPrecedence).append
      (.dot hname)).append (.parens (Expr.clear_args args hargs))
    rwa [List.append_assoc] at hcall
  | this _ => exact .this
  | newObject ty =>
    have hflat : ty.IsFlat := h _ List.mem_cons_self
    have hnew : Phrase ("new ".toList ++ (ty.chars ++ "()".toList)) :=
      .new (List.forall_mem_append.2 ⟨hflat.clear, clear_of_any (by decide)⟩)
    rwa [← List.append_assoc] at hnew
  | newArray size ty =>
    obtain ⟨hflat, hsize⟩ := List.forall_mem_cons.1 h
    have hs := (size.phrase hsize).guarded 0
    have helement := Ty.IsFlat.clear_element hflat
    have hnew : Phrase ("new ".toList ++ (ty.element.chars ++
        '[' :: (size.guarded 0 size.chars ++ ']' :: Ty.brackets (ty.dims - 1)))) := by
      refine .new (List.forall_mem_append.2 ⟨helement, List.forall_mem_cons.2 ⟨by decide, ?_⟩⟩)
      apply List.forall_mem_append.2 ⟨hs.clear, _⟩
      exact List.forall_mem_cons.2 ⟨by decide, Ty.clear_brackets _⟩
    rwa [← List.append_assoc] at hnew
  | unary op operand _ =>
    have ho := ((operand.phrase (List.forall_mem_cons.1 h).2).guarded Expr.newArrayPrecedence).clear
    cases op with
    | neg => exact .symbol (by decide) (by decide) (by decide) ho
    | not => exact .symbol (by decide) (by decide) (by decide) ho
  | binary op left right _ =>
    obtain ⟨hleft, hright⟩ := List.forall_mem_append.1 (List.forall_mem_cons.1 h).2
    have hr := (right.phrase hright).guarded (op.precedence + 1)
    exact ((left.phrase hleft).guarded _).append (op.extends hr.clear)
  | assign target value _ =>
    obtain ⟨htarget, hvalue⟩ := List.forall_mem_append.1 (List.forall_mem_cons.1 h).2
    have hv := (value.phrase hvalue).guarded Expr.assignPrecedence
    have hafter : Extends (' ' :: (['='] ++ ' ' :: value.guarded Expr.assignPrecedence
        value.chars)) := .operator hv.clear (by decide) (by decide) (by decide)
    have hassign : Phrase (target.guarded Expr.postfixPrecedence target.chars ++
        (" = ".toList ++ value.guarded Expr.assignPrecedence value.chars)) :=
      ((target.phrase htarget).guarded _).append hafter
    rwa [← List.append_assoc] at hassign

theorem Expr.clear_args (args : List Expr) (h : ∀ n ∈ Expr.nodesOf args, n.NamesFit) :
    ∀ c ∈ Expr.argChars args, isStop c = false := by
  cases args with
  | nil => exact List.forall_mem_nil _
  | cons e rest =>
    obtain ⟨hfirst, hrest⟩ := List.forall_mem_append.1 h
    have he := (e.phrase hfirst).guarded Expr.assignPrecedence
    have hclear := Expr.clear_args rest hrest
    cases rest with
    | nil => exact he.clear
    | cons second rest =>
      have hcomma : ∀ c ∈ ", ".toList, isStop c = false := clear_of_any (by decide)
      exact List.forall_mem_append.2 ⟨List.forall_mem_append.2 ⟨he.clear, hcomma⟩, hclear⟩

end

namespace Phrase

variable {cs cs' rest rest' : List Char}

theorem not_declares (h : Phrase cs) (rest : List Char) : ¬ Declares (cs ++ ';' :: rest) := by
  by_cases hblank : ' ' ∈ cs
  · exact h.undeclared _ hblank
  · have hmem : ';' ∈ beforeBlank (cs ++ ';' :: rest) := by
      rw [beforeBlank_append hblank, beforeBlank, List.takeWhile_cons_of_pos (by decide)]
      simp
    exact not_declares_of_mem hmem (by decide)

theorem stop_split (h : Phrase cs) (h' : Phrase cs')
    (heq : cs ++ ';' :: rest = cs' ++ ';' :: rest') : cs = cs' ∧ rest = rest' := by
  obtain ⟨hsame, hrest⟩ := split_at_stop h.clear h'.clear rfl rfl heq
  exact ⟨hsame, (List.cons.inj hrest).2⟩

end Phrase
end JavaSynth
