import JavaSynth.Proofs.Reading.Parts

set_option autoImplicit false

/-!
# Parentheses are needed

Without the parentheses around a child, too few are opened where the child starts, and the text
around it makes up for none of them. Only a minus before the child and another at its start could
change the tokens, and they become a symbol that no expression has. Parentheses around an operand
that starts with a unary operator prevent just that, and are left aside.
-/
namespace JavaSynth

/-- Two minus signs that stand together and so are one symbol. -/
def Doubled (cs : List Char) : Prop := ['-', '-'] <:+: cs

def decrement : Token := .symbol ['-', '-']

section Doubled

variable {c : Char} {cs rest : List Char}

theorem Doubled.of_cons (h : Doubled (c :: cs)) (hc : c ≠ '-') : Doubled cs := by
  rcases List.infix_cons_iff.1 h with hprefix | hrest
  · exact absurd (List.cons_prefix_cons.1 hprefix).1.symm hc
  · exact hrest

theorem Doubled.dropWhile {p : Char → Bool} (h : Doubled cs) (hp : p '-' = false) :
    Doubled (cs.dropWhile p) := by
  induction cs with
  | nil => exact h
  | cons c cs ih =>
    rw [List.dropWhile_cons]
    split
    · rename_i hc
      refine ih (h.of_cons ?_)
      rintro rfl
      exact absurd hc (by rw [hp]; decide)
    · exact h

/-- Two characters that stand together in no longer symbol are the start of one. -/
theorem mem_lex_of_doubled (h : Doubled cs) : decrement ∈ lex cs := by
  induction cs using lex.induct with
  | case1 => cases List.eq_nil_of_infix_nil h
  | case2 c cs hblank ih =>
    have hc : c ≠ '-' := by
      rintro rfl
      exact absurd hblank (by decide)
    rw [lex, if_pos hblank]
    exact ih (h.of_cons hc)
  | case3 c cs hblank hstart ih =>
    have hc : c ≠ '-' := by
      rintro rfl
      exact absurd hstart (by decide)
    rw [lex, if_neg hblank, if_pos hstart]
    exact List.mem_cons_of_mem _ (ih ((h.of_cons hc).dropWhile (by decide)))
  | case4 c cs hblank hstart hdigit ih =>
    have hc : c ≠ '-' := by
      rintro rfl
      exact absurd hdigit (by decide)
    rw [lex, if_neg hblank, if_neg hstart, if_pos hdigit]
    exact List.mem_cons_of_mem _ (ih ((h.of_cons hc).dropWhile (by decide)))
  | case5 c cs hblank hstart hdigit ih =>
    rw [lex, if_neg hblank, if_neg hstart, if_neg hdigit]
    cases cs with
    | nil => exact absurd h.length_le (by simp)
    | cons d rest =>
      by_cases hdouble : (c, d) ∈ doubleSymbols
      · rw [splitSymbol, if_pos hdouble] at ih ⊢
        by_cases hc : c = '-'
        · have hd : d = '-' := by simpa [doubleSymbols, hc] using hdouble
          subst hc hd
          exact List.mem_cons_self
        · have hd : d ≠ '-' := by
            rintro rfl
            exact hc (by simpa [doubleSymbols] using hdouble)
          exact List.mem_cons_of_mem _ (ih ((h.of_cons hc).of_cons hd))
      · rw [splitSymbol, if_neg hdouble] at ih ⊢
        refine List.mem_cons_of_mem _ (ih ?_)
        rcases List.infix_cons_iff.1 h with hprefix | hrest
        · obtain ⟨rfl, hnext⟩ := List.cons_prefix_cons.1 hprefix
          obtain ⟨rfl, -⟩ := List.cons_prefix_cons.1 hnext
          exact absurd (by decide) hdouble
        · exact hrest

theorem not_mem_intercalate {t sep : Token} {tss : List (List Token)} {as : List Tree}
    (hl : tss.length = as.length) (hsep : t ≠ sep) (h : ∀ arg ∈ tss.zip as, t ∉ arg.1) :
    t ∉ [sep].intercalate tss := by
  induction tss generalizing as with
  | nil => exact List.not_mem_nil
  | cons ts tss ih =>
    obtain ⟨a, as, rfl⟩ := List.exists_cons_of_length_eq_add_one hl.symm
    obtain ⟨hfirst, hrest⟩ := List.forall_mem_cons.1 h
    have hothers := ih (Nat.succ.inj hl) hrest
    cases tss with
    | nil => rwa [List.intercalate_singleton]
    | cons ts' tss =>
      rw [List.intercalate_cons_cons]
      simp only [List.mem_append, List.mem_singleton, not_or]
      exact ⟨⟨hfirst, hsep⟩, hothers⟩

theorem Derives.decrement_not_mem {level : Level} {ts : List Token} {a : Tree}
    (h : Derives level ts a) : decrement ∉ ts := by
  have hsign (c : Char) : decrement ≠ .sign c := by simp [decrement]
  have hword (w : String) : decrement ≠ .word w := by simp [decrement]
  induction h with
  | next _ _ ih => exact ih
  | assign _ _ iht ihv => simp [iht, ihv, hsign]
  | binary op _ _ ihl ihr =>
    have hop : decrement ≠ op.token := by cases op <;> decide
    simp [ihl, ihr, hop]
  | unary op _ ih =>
    have hop : decrement ≠ op.token := by cases op <;> decide
    simp [ih, hop]
  | newArray _ _ more ih => simp [ih, hsign, hword, bracketTokens]
  | parens _ ih => simp [ih, hsign]
  | field _ _ ih => simp [ih, hsign, hword]
  | index _ _ ih ihp => simp [ih, ihp, hsign]
  | call _ _ hl _ ih iha =>
    have hargs := not_mem_intercalate hl (hsign ',') iha
    simp [ih, hargs, hsign, hword]
  | number n => simp [decrement]
  | _ => simp [hsign, hword]

end Doubled

/-- The text is none of the tree with these tokens, and is none with more text around it. -/
structure Loose (cs : List Char) (needed : List Token) : Prop where
  starts : Starts cs
  broken : Doubled cs ∨ Lacks cs needed

section Loose

variable {cs after : List Char} {ts : List Token} {a : Tree} {place : Level}

theorem Lexes.lex_eq (h : Lexes cs ts) : lex cs = ts := by
  have hend := h [] fun d hd => by cases hd
  rwa [List.append_nil, lex_nil, List.append_nil] at hend

theorem Loose.not_derives (h : Loose cs a.tokens) : ¬ Derives .assignment (lex cs) a := by
  intro hd
  rcases h.broken with hdoubled | ⟨ts, i, hts, -, -, hless⟩
  · exact hd.decrement_not_mem (mem_lex_of_doubled hdoubled)
  · have hle := hd.within.opened_le i
    rw [hts.lex_eq, Tree.tokensAt_assignment] at hle
    exact Nat.not_lt.2 hle hless

theorem Starts.append (h : Starts cs) (after : List Char) : Starts (cs ++ after) := by
  obtain ⟨c, rest, rfl, hc⟩ := h
  exact ⟨c, rest ++ after, rfl, hc⟩

theorem Starts.guarded (h : Starts cs) (least : Nat) (e : Expr) : Starts (e.guarded least cs) := by
  unfold Expr.guarded
  split
  · exact ⟨'(', _, rfl, by decide⟩
  · exact h

theorem Lacks.parens {needed : List Token} (h : Lacks cs needed) :
    Lacks ('(' :: cs ++ [')']) (.sign '(' :: (needed ++ [.sign ')'])) := by
  obtain ⟨ts, i, hts, hcount, hlt, hless⟩ := h
  refine ⟨.sign '(' :: (ts ++ [.sign ')']), i,
    (hts.between (by decide) .nil).plain (by decide), ?_, ?_, ?_⟩
  · exact inner_cons_congr _ (inner_append_congr hcount _)
  · rw [inner_open, inner_append]
    exact Nat.lt_add_right _ hlt
  · rw [opened_open, opened_open, opened_append_left (hcount ▸ hlt), opened_append_left hlt]
    exact Nat.add_lt_add_left hless _

theorem Lacks.guarded {e : Expr} {least : Nat} (h : Lacks cs e.tree.tokens)
    (hs : Suits least place) : Lacks (e.guarded least cs) (e.tree.tokensAt place) := by
  unfold Expr.guarded Tree.tokensAt Tree.guarded
  by_cases hlt : e.precedence < least
  · rw [if_pos hlt, if_pos ((e.precedence_lt_iff hs).1 hlt)]
    exact h.parens
  · rwa [if_neg hlt, if_neg (mt (e.precedence_lt_iff hs).2 hlt)]

/-- Without the parentheses around it, an expression opens one too few where it starts. -/
theorem Expr.lacks {e : Expr} (h : e.isWritten = true) (hlt : e.tree.level.rank < place.rank) :
    Lacks e.chars (e.tree.tokensAt place) := by
  obtain ⟨ts, hts, hcount⟩ := (e.reads h).counted
  refine ⟨ts, 0, hts, ?_, e.tree.inner_tokensAt_pos place, ?_⟩
  · rw [hcount, Tree.inner_tokensAt, Tree.inner_tokensAt]
  · have hopened := (e.leads h).opened_lex
    rw [hts.lex_eq] at hopened
    unfold Tree.tokensAt Tree.guarded
    rw [if_pos hlt, opened_open, opened_append_left e.tree.inner_pos, if_pos rfl, hopened]
    omega

/-- Parentheses that nothing asks for make up for none that is asked for. -/
theorem Lacks.parenthesized {needed : List Token} (h : Lacks cs needed)
    (hnone : opened needed 0 = 0) : Lacks ('(' :: cs ++ [')']) needed := by
  obtain ⟨ts, i, hts, hcount, hlt, hless⟩ := h
  have hi : i ≠ 0 := by
    rintro rfl
    omega
  refine ⟨.sign '(' :: (ts ++ [.sign ')']), i,
    (hts.between (by decide) .nil).plain (by decide), ?_, hlt, ?_⟩
  · rw [inner_open, inner_append, hcount]
    rfl
  · rwa [opened_open, if_neg hi, Nat.zero_add, opened_append_left (hcount ▸ hlt)]

theorem Tree.opened_of_unary (h : a.level = .unary) : opened a.tokens 0 = 0 := by
  cases a with
  | unary op => exact opened_zero op.isParen_token _
  | binary op => cases op <;> cases h
  | _ => cases h

/-- The printer asks for more around an operand than the grammar, but only where the operand starts
with a unary operator itself. -/
theorem Lacks.operand {e : Expr} (h : Lacks cs e.tree.tokens) :
    Lacks (e.guarded Expr.newArrayPrecedence cs) (e.tree.tokensAt .unary) := by
  have hrank : e.tree.level.rank = e.precedence := by rw [e.tree_level, e.level_rank]
  unfold Expr.guarded Tree.tokensAt Tree.guarded
  by_cases hlt : e.precedence < Expr.newArrayPrecedence
  · rw [if_pos hlt]
    by_cases hneeded : e.tree.level.rank < Level.unary.rank
    · rw [if_pos hneeded]
      exact h.parens
    · rw [if_neg hneeded]
      have hle : Level.unary.rank ≤ e.tree.level.rank := Nat.not_lt.1 hneeded
      have hge : e.tree.level.rank ≤ Level.unary.rank := hrank ▸ Nat.le_of_lt_succ hlt
      exact h.parenthesized (Tree.opened_of_unary (Level.rank_injective (Nat.le_antisymm hge hle)))
  · have hneeded : ¬ e.tree.level.rank < Level.unary.rank := by
      have hbelow : Level.unary.rank < Expr.newArrayPrecedence := by decide
      omega
    rwa [if_neg hlt, if_neg hneeded]

theorem Lexes.complement {c : Char} {rest : List Char} (h : Lexes (c :: rest) ts) (hc : c ≠ '=') :
    Lexes ('!' :: c :: rest) (UnaryOp.not.token :: ts) := by
  intro after hafter
  change lex ('!' :: c :: (rest ++ after)) = .symbol ['!'] :: (ts ++ lex after)
  rw [← h after hafter, lex_symbol (by decide) (by decide) (by decide), splitSymbol,
    if_neg (by simp [doubleSymbols, hc])]
  rfl

/-- A unary operator before a text is a token of its own, or doubled. -/
theorem Starts.operator (op : UnaryOp) (h : Starts cs) : Doubled (op.text.toList ++ cs) ∨
    ∀ ts, Lexes cs ts → Lexes (op.text.toList ++ cs) (op.token :: ts) := by
  obtain ⟨c, rest, rfl, hc⟩ := h
  by_cases hminus : c = '-'
  · subst hminus
    cases op with
    | neg => exact .inl ⟨[], rest, rfl⟩
    | not => exact .inr fun ts hts => hts.complement hc
  · exact .inr fun ts hts => hts.unaryOperator op ⟨c, rest, rfl, hminus, hc⟩

theorem Loose.operand {e : Expr} (op : UnaryOp) (h : Loose cs e.tree.tokens) :
    Loose (op.text.toList ++ e.guarded Expr.newArrayPrecedence cs)
      (Tree.unary op e.tree).tokens := by
  have hguarded := h.starts.guarded Expr.newArrayPrecedence e
  refine ⟨?_, ?_⟩
  · cases op with
    | neg => exact ⟨'-', _, rfl, by decide⟩
    | not => exact ⟨'!', _, rfl, by decide⟩
  · rcases h.broken with hdoubled | hlacks
    · exact .inl ((hdoubled.trans (e.infix_guarded _ cs)).trans (List.suffix_append _ _).isInfix)
    · rcases hguarded.operator op with hdoubled | hlexes
      · exact .inl hdoubled
      · obtain ⟨ts, i, hts, hcount, hlt, hless⟩ := hlacks.operand
        refine .inr ⟨op.token :: ts, i + 1, hlexes ts hts, inner_cons_congr _ hcount, ?_, ?_⟩
        · change i + 1 < inner (op.token :: e.tree.tokensAt .unary)
          rw [inner_cons op.isParen_token]
          exact Nat.succ_lt_succ hlt
        · change _ < opened (op.token :: e.tree.tokensAt .unary) (i + 1)
          rwa [opened_succ op.isParen_token, opened_succ op.isParen_token]

end Loose

namespace Expr

variable {e node child : Expr} {before after left right cs : List Char} {least : Nat}

theorem Part.starts (h : node.Part before least child after) (hw : node.isWritten = true) :
    before = [] ∨ Starts before := by
  cases h with
  | fieldTarget | indexTarget | callTarget | left | assigned => exact .inl rfl
  | position target position =>
    obtain ⟨htarget, -⟩ := Bool.and_eq_true_iff.1 hw
    exact .inr (((target.leads htarget).starts.guarded _ _).append _)
  | arg target name =>
    obtain ⟨hcall, -⟩ := Bool.and_eq_true_iff.1 hw
    obtain ⟨htarget, -⟩ := Bool.and_eq_true_iff.1 hcall
    exact .inr (((target.leads htarget).starts.guarded _ _).append _)
  | ownArg name => exact .inr ⟨'t', _, rfl, by decide⟩
  | size => exact .inr ⟨'n', _, rfl, by decide⟩
  | operand op =>
    cases op with
    | neg => exact .inr ⟨'-', _, rfl, by decide⟩
    | not => exact .inr ⟨'!', _, rfl, by decide⟩
  | right op left right =>
    obtain ⟨hleft, -⟩ := Bool.and_eq_true_iff.1 hw
    exact .inr (((left.leads hleft).starts.guarded _ _).append _)
  | value target value =>
    obtain ⟨htarget, -⟩ := Bool.and_eq_true_iff.1 hw
    exact .inr (((target.leads htarget).starts.guarded _ _).append _)

theorem Part.starts_append (h : node.Part before least child after) (hw : node.isWritten = true)
    (hcs : Starts cs) : Starts (before ++ (cs ++ after)) := by
  rcases h.starts hw with rfl | hbefore
  · exact hcs.append after
  · exact hbefore.append _

/-- What is amiss in a child is amiss in its node. -/
theorem Part.loose (h : node.Part before least child after) (hw : node.isWritten = true)
    (hcs : Loose cs child.tree.tokens) :
    Loose (before ++ (child.guarded least cs ++ after)) node.tree.tokens := by
  by_cases hn : ∃ op operand ty, node = .unary op operand ty
  · obtain ⟨op, operand, ty, rfl⟩ := hn
    cases h
    rw [List.append_nil]
    exact hcs.operand op
  · refine ⟨h.starts_append hw (hcs.starts.guarded least child), ?_⟩
    rcases hcs.broken with hdoubled | hlacks
    · have hinfix : child.guarded least cs <:+: before ++ (child.guarded least cs ++ after) :=
        ⟨before, after, List.append_assoc _ _ _⟩
      exact .inl ((hdoubled.trans (child.infix_guarded least cs)).trans hinfix)
    · obtain ⟨place, hsuits, hencloses⟩ := h.encloses hw fun op operand ty heq =>
        hn ⟨op, operand, ty, heq⟩
      exact .inr (hencloses.lacks (hlacks.guarded hsuits))

theorem Shows.loose (h : e.Shows before node after) (hw : e.isWritten = true)
    (hcs : Loose cs node.tree.tokens) : Loose (before ++ (cs ++ after)) e.tree.tokens := by
  induction h generalizing cs with
  | self => simpa using hcs
  | part h hp ih =>
    have hnode := ih (hp.loose (h.isWritten hw) hcs)
    rw [guarded_eq] at hnode
    simpa only [List.append_assoc] using hnode

/-- Parentheses around a child that is not the operand of a unary operator are needed: without them
the text is not one of the expression. -/
theorem parens_needed (hw : e.isWritten = true) (h : e.Shows before node after)
    (hp : node.Part left least child right) (hn : ∀ op operand ty, node ≠ .unary op operand ty)
    (hlt : child.precedence < least) :
    e.render.toList = before ++ (left ++ ('(' :: child.chars ++ [')'] ++ right) ++ after) ∧
      ¬ Derives .assignment (lex (before ++ (left ++ (child.chars ++ right) ++ after))) e.tree := by
  have hnode := h.isWritten hw
  have hchild := hp.isWritten hnode
  constructor
  · have htext : e.render.toList = e.chars := String.toList_ofList
    rw [htext, h.chars, hp.chars, guarded, if_pos hlt]
  · obtain ⟨place, hsuits, hencloses⟩ := hp.encloses hnode hn
    have hlacks := hencloses.lacks (lacks hchild ((child.precedence_lt_iff hsuits).1 hlt))
    have hstarts := hp.starts_append hnode (child.leads hchild).starts
    exact (h.loose hw ⟨hstarts, .inr hlacks⟩).not_derives

/-- The text `(a + -(-b)) * c` needs the parentheses around the sum. -/
theorem parens_needed_sum :
    let b := Expr.unary .neg (.unary .neg (.var .parameter "b" .int) .int) .int
    let sum := Expr.binary .add (.var .parameter "a" .int) b .int
    (Expr.binary .mul sum (.var .parameter "c" .int) .int).render = "(a + -(-b)) * c" ∧
      ¬ Derives .assignment (lex "a + -(-b) * c".toList)
        (.binary .mul (.binary .add (.name "a") (.unary .neg (.unary .neg (.name "b"))))
          (.name "c")) := by
  intro b sum
  obtain ⟨hrender, hloose⟩ := parens_needed
    (e := .binary .mul sum (.var .parameter "c" .int) .int) (by decide) .self (.left .mul sum _ _)
    (fun _ _ _ h => by cases h) (by decide)
  exact ⟨String.toList_inj.1 hrender, hloose⟩

end Expr

end JavaSynth
