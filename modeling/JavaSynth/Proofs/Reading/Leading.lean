import JavaSynth.Proofs.Reading.Expression
import JavaSynth.Proofs.Reading.Fewest

set_option autoImplicit false

/-!
# How expressions start

The printer and the grammar ask for parentheses around the same expressions, but for operands of
unary operators. No such operand starts an expression, so that the text of an expression starts with
as many opening parentheses as its tree needs there.
-/
namespace JavaSynth

/-- The character starts a token that is no parenthesis, and ends no symbol of two characters that
starts with `!`. -/
def Firm (c : Char) : Prop := c.isWhitespace = false ∧ c ≠ '(' ∧ c ≠ ')' ∧ c ≠ '='

instance (c : Char) : Decidable (Firm c) := inferInstanceAs (Decidable (_ ∧ _))

/-- The text opens the parentheses that the tokens open at their start, and then goes on with
another token. -/
def Leads (cs : List Char) (ts : List Token) : Prop :=
  ∃ c rest, cs = List.replicate (opened ts 0) '(' ++ c :: rest ∧ Firm c

/-- The text starts with something that makes no symbol with a `!` before it. -/
def Starts (cs : List Char) : Prop := ∃ c rest, cs = c :: rest ∧ c ≠ '='

section Leading

variable {c : Char} {cs rest : List Char} {t : Token} {ts ts' : List Token} {i : Nat}

theorem firm_of_isStart (h : Identifier.isStart c = true) : Firm c := by
  refine ⟨isWhitespace_of_isStart h, ?_, ?_, ?_⟩ <;>
    (rintro rfl; exact absurd h (by decide))

theorem Firm.lex (h : Firm c) (cs : List Char) :
    ∃ t ts, lex (c :: cs) = t :: ts ∧ t.isParen = false := by
  obtain ⟨hblank, hopen, hclose, -⟩ := h
  rw [JavaSynth.lex, if_neg (by rw [hblank]; decide)]
  split
  · exact ⟨_, _, rfl, rfl⟩
  split
  · exact ⟨_, _, rfl, rfl⟩
  · refine ⟨_, _, rfl, ?_⟩
    cases cs with
    | nil => simp [splitSymbol, Token.isParen, hopen, hclose]
    | cons d rest =>
      rw [splitSymbol]
      split <;> simp [Token.isParen, hopen, hclose]

namespace Leads

theorem opened_lex (h : Leads cs ts) : opened (lex cs) 0 = opened ts 0 := by
  obtain ⟨c, rest, rfl, hc⟩ := h
  obtain ⟨t, others, hlex, ht⟩ := hc.lex rest
  induction opened ts 0 with
  | zero =>
    change opened (lex (c :: rest)) 0 = 0
    rw [hlex, opened_zero ht]
  | succ n ih =>
    rw [List.replicate_succ, List.cons_append, lex_plain (by decide), opened_open, ih]
    exact Nat.add_comm 1 n

theorem starts (h : Leads cs ts) : Starts cs := by
  obtain ⟨c, rest, rfl, hc⟩ := h
  cases opened ts 0 with
  | zero => exact ⟨c, rest, rfl, hc.2.2.2⟩
  | succ n => exact ⟨'(', _, rfl, by decide⟩

theorem first (hc : Firm c) (ht : t.isParen = false) (cs : List Char) (ts : List Token) :
    Leads (c :: cs) (t :: ts) := by
  refine ⟨c, cs, ?_, hc⟩
  rw [opened_zero ht]
  rfl

theorem word {n : String} (h : Identifier.isWord n.toList = true) (cs : List Char)
    (ts : List Token) : Leads (n.toList ++ cs) (.word n :: ts) := by
  cases hn : n.toList with
  | nil => rw [hn] at h; cases h
  | cons c rest =>
    rw [hn, Identifier.isWord, Bool.and_eq_true] at h
    exact first (firm_of_isStart h.1) rfl _ _

theorem append (h : Leads cs ts) (hpos : 0 < inner ts) (rest : List Char) (ts' : List Token) :
    Leads (cs ++ rest) (ts ++ ts') := by
  obtain ⟨c, others, rfl, hc⟩ := h
  refine ⟨c, others ++ rest, ?_, hc⟩
  rw [opened_append_left hpos, List.append_assoc, List.cons_append]

end Leads
end Leading

/-- The precedence that the printer asks for in the place and the level of the grammar ask for
parentheses around the same expressions. -/
structure Suits (least : Nat) (place : Level) : Prop where
  asks : Asks least place
  le : least ≤ place.rank

namespace Suits

theorem primary : Suits Expr.postfixPrecedence .primary := ⟨asks_rank .primary, Nat.le_refl _⟩

theorem zero : Suits 0 .assignment := ⟨asks_zero, Nat.zero_le _⟩

theorem assignment : Suits Expr.assignPrecedence .assignment :=
  ⟨asks_rank .assignment, Nat.le_refl _⟩

theorem left (op : BinaryOp) : Suits op.precedence op.level :=
  ⟨op.asks_left, Nat.le_of_eq op.level_rank.symm⟩

theorem right (op : BinaryOp) : Suits (op.precedence + 1) op.rightLevel :=
  ⟨op.asks_right, op.level_rank ▸ Level.below_rank op.level_below⟩

end Suits

namespace Expr

theorem tree_level (e : Expr) : e.tree.level = e.level := by
  cases e with
  | literal value =>
    cases value with
    | int v =>
      rw [Expr.tree, Literal.tree, Expr.level]
      split <;> rfl
    | _ => rfl
  | _ => rfl

theorem precedence_lt_iff {least : Nat} {place : Level} (h : Suits least place) (e : Expr) :
    e.precedence < least ↔ e.tree.level.rank < place.rank := by
  rw [tree_level, ← e.level_rank]
  constructor
  · exact fun hlt => Nat.lt_of_lt_of_le hlt h.le
  · exact fun hlt => Nat.lt_of_not_le fun hle => Nat.not_le.2 hlt (h.asks _ hle)

end Expr

theorem BinaryOp.isParen_token (op : BinaryOp) : op.token.isParen = false := by
  cases op <;> decide

theorem UnaryOp.isParen_token (op : UnaryOp) : op.token.isParen = false := by
  cases op <;> decide

theorem Tree.inner_pos (a : Tree) : 0 < inner a.tokens := by
  have hmiddle {t : Token} (ht : t.isParen = false) (front back : List Token) :
      0 < inner (front ++ t :: back) := by
    rw [inner_append, inner_cons ht]
    omega
  cases a with
  | field | index | call | assign => exact hmiddle rfl _ _
  | binary op => exact hmiddle op.isParen_token _ _
  | unary op => exact hmiddle op.isParen_token [] _
  | _ => exact hmiddle rfl [] _

theorem Tree.inner_tokensAt_pos (place : Level) (a : Tree) : 0 < inner (a.tokensAt place) := by
  rw [a.inner_tokensAt]
  exact a.inner_pos

theorem Leads.guarded {e : Expr} {least : Nat} {place : Level} (h : Leads e.chars e.tree.tokens)
    (hs : Suits least place) : Leads (e.guarded least e.chars) (e.tree.tokensAt place) := by
  unfold Expr.guarded Tree.tokensAt Tree.guarded
  by_cases hlt : e.precedence < least
  · rw [if_pos hlt, if_pos ((e.precedence_lt_iff hs).1 hlt)]
    obtain ⟨c, rest, htext, hc⟩ := h
    refine ⟨c, rest ++ [')'], ?_, hc⟩
    rw [opened_open, opened_append_left e.tree.inner_pos, if_pos rfl, Nat.add_comm, htext]
    simp [List.replicate_succ]
  · rwa [if_neg hlt, if_neg (mt (e.precedence_lt_iff hs).2 hlt)]


theorem Leads.number (n : Nat) : Leads (Nat.toDigits 10 n) [.number n] := by
  have hall : ∀ c ∈ Nat.toDigits 10 n, c.isDigit = true :=
    fun c hc => Nat.isDigit_of_mem_toDigits (by decide) (Nat.le_refl 10) hc
  cases hn : Nat.toDigits 10 n with
  | nil => exact absurd hn Nat.toDigits_ne_nil
  | cons c cs =>
    have hc : c.isDigit = true := hall c (hn ▸ List.mem_cons_self)
    obtain ⟨hblank, -, hpart, -, heq⟩ := isDigit_cases hc
    refine .first ⟨hblank, ?_, ?_, heq⟩ rfl cs []
    · rintro rfl
      exact absurd hpart (by decide)
    · rintro rfl
      exact absurd hpart (by decide)

theorem Literal.leads (value : Literal) : Leads value.chars value.tree.tokens := by
  cases value with
  | int v =>
    rw [Literal.tree, Literal.chars_int]
    split
    · exact .first (by decide) (by decide) _ _
    · exact .number _
  | boolean b =>
    cases b with
    | false => exact .word (n := "false") (by decide) [] []
    | true => exact .word (n := "true") (by decide) [] []
  | null => exact .word (n := "null") (by decide) [] []

/-- An expression is written with just the opening parentheses at its start that its tree needs. -/
theorem Expr.leads (e : Expr) (h : e.isWritten = true) : Leads e.chars e.tree.tokens := by
  cases e with
  | literal value _ => exact value.leads
  | var _ n _ =>
    have hname := Leads.word (isWord_of_isValid h) [] []
    rwa [List.append_nil] at hname
  | this _ => exact .word (n := "this") (by decide) [] []
  | ownField n _ => exact .word (n := "this") (by decide) _ _
  | ownCall n args _ => exact .word (n := "this") (by decide) _ _
  | newObject ty => exact .word (n := "new") (by decide) _ _
  | newArray size ty => exact .word (n := "new") (by decide) _ _
  | unary op operand _ =>
    cases op with
    | neg => exact .first (c := '-') (by decide) (by decide) _ _
    | not => exact .first (c := '!') (by decide) (by decide) _ _
  | field target n _ =>
    obtain ⟨htarget, -⟩ := Bool.and_eq_true_iff.1 h
    exact ((target.leads htarget).guarded .primary).append (Tree.inner_tokensAt_pos _ _) _ _
  | index target position _ =>
    obtain ⟨htarget, -⟩ := Bool.and_eq_true_iff.1 h
    exact ((target.leads htarget).guarded .primary).append (Tree.inner_tokensAt_pos _ _) _ _
  | call target n args _ =>
    obtain ⟨hcall, -⟩ := Bool.and_eq_true_iff.1 h
    obtain ⟨htarget, -⟩ := Bool.and_eq_true_iff.1 hcall
    exact ((target.leads htarget).guarded .primary).append (Tree.inner_tokensAt_pos _ _) _ _
  | binary op left right _ =>
    obtain ⟨hleft, -⟩ := Bool.and_eq_true_iff.1 h
    exact ((left.leads hleft).guarded (.left op)).append (Tree.inner_tokensAt_pos _ _) _ _
  | assign target value _ =>
    obtain ⟨htarget, -⟩ := Bool.and_eq_true_iff.1 h
    have ht := ((target.leads htarget).guarded .primary).append (Tree.inner_tokensAt_pos _ _)
      (" = ".toList ++ value.guarded Expr.assignPrecedence value.chars)
      (.sign '=' :: value.tree.tokens)
    rwa [← List.append_assoc] at ht

end JavaSynth
