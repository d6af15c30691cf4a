import JavaSynth.Proofs.Reading.Grammar

set_option autoImplicit false

/-!
# The fewest parentheses

A tree has a text in which parentheses stand only where the grammar asks for them. Every other text
of the tree is this one with more parentheses, so that before each of its other tokens no fewer are
opened.
-/
namespace JavaSynth

def Token.isParen (t : Token) : Bool := t == .sign '(' || t == .sign ')'

/-- The number of tokens that are not parentheses. -/
def inner (ts : List Token) : Nat := ts.countP (!·.isParen)

/-- How many parentheses are opened after `i` other tokens and before the next. -/
def opened : List Token → Nat → Nat
  | [], _ => 0
  | t :: ts, i =>
    if t = .sign '(' then (if i = 0 then 1 else 0) + opened ts i
    else if t = .sign ')' then opened ts i
    else if i = 0 then 0 else opened ts (i - 1)

/-- The second text is the first one with more parentheses. -/
def Within (ts ts' : List Token) : Prop := ts.Sublist ts' ∧ inner ts = inner ts'

section Counting

variable {t : Token} {ts ts' rest rest' : List Token} {i : Nat}

theorem inner_append (ts rest : List Token) : inner (ts ++ rest) = inner ts + inner rest :=
  List.countP_append

theorem inner_open (ts : List Token) : inner (.sign '(' :: ts) = inner ts := rfl

theorem inner_close (ts : List Token) : inner (.sign ')' :: ts) = inner ts := rfl

theorem inner_cons (ht : t.isParen = false) (ts : List Token) : inner (t :: ts) = inner ts + 1 :=
  List.countP_cons_of_pos (by simpa using ht)

theorem inner_append_congr (h : inner ts = inner ts') (rest : List Token) :
    inner (ts ++ rest) = inner (ts' ++ rest) := by
  rw [inner_append, inner_append, h]

theorem inner_cons_congr (t : Token) (h : inner ts = inner ts') :
    inner (t :: ts) = inner (t :: ts') := by
  change inner ([t] ++ ts) = inner ([t] ++ ts')
  rw [inner_append, inner_append, h]

theorem opened_open (ts : List Token) (i : Nat) :
    opened (.sign '(' :: ts) i = (if i = 0 then 1 else 0) + opened ts i := by
  rw [opened, if_pos rfl]

theorem opened_close (ts : List Token) (i : Nat) : opened (.sign ')' :: ts) i = opened ts i := by
  rw [opened, if_neg (by decide), if_pos rfl]

theorem ne_of_isParen (ht : t.isParen = false) : t ≠ .sign '(' ∧ t ≠ .sign ')' := by
  simpa [Token.isParen] using ht

theorem opened_zero (ht : t.isParen = false) (ts : List Token) : opened (t :: ts) 0 = 0 := by
  rw [opened, if_neg (ne_of_isParen ht).1, if_neg (ne_of_isParen ht).2, if_pos rfl]

theorem opened_succ (ht : t.isParen = false) (ts : List Token) (i : Nat) :
    opened (t :: ts) (i + 1) = opened ts i := by
  rw [opened, if_neg (ne_of_isParen ht).1, if_neg (ne_of_isParen ht).2, if_neg i.succ_ne_zero,
    Nat.add_sub_cancel]

/-- A token opens a parenthesis, closes one, or is none. -/
theorem Token.paren_cases (t : Token) :
    t = .sign '(' ∨ t = .sign ')' ∨ t.isParen = false := by
  by_cases hopen : t = .sign '('
  · exact .inl hopen
  by_cases hclose : t = .sign ')'
  · exact .inr (.inl hclose)
  · exact .inr (.inr (by simp [isParen, hopen, hclose]))

theorem opened_of_lt (h : inner ts < i) : opened ts i = 0 := by
  induction ts generalizing i with
  | nil => rfl
  | cons t ts ih =>
    obtain rfl | rfl | ht := t.paren_cases
    · rw [inner_open] at h
      rw [opened_open, if_neg (by omega), ih h]
    · rw [inner_close] at h
      rw [opened_close, ih h]
    · rw [inner_cons ht] at h
      obtain ⟨i, rfl⟩ := Nat.exists_eq_add_one.2 (by omega : 0 < i)
      rw [opened_succ ht, ih (by omega)]

theorem opened_append_left (h : i < inner ts) : opened (ts ++ rest) i = opened ts i := by
  induction ts generalizing i with
  | nil => exact absurd h (Nat.not_lt_zero i)
  | cons t ts ih =>
    rw [List.cons_append]
    obtain rfl | rfl | ht := t.paren_cases
    · rw [opened_open, opened_open, ih h]
    · rw [opened_close, opened_close, ih h]
    · cases i with
      | zero => rw [opened_zero ht, opened_zero ht]
      | succ i =>
        rw [inner_cons ht] at h
        rw [opened_succ ht, opened_succ ht, ih (by omega)]

theorem opened_append_right (ts rest : List Token) (i : Nat) :
    opened (ts ++ rest) (i + inner ts) = opened ts (i + inner ts) + opened rest i := by
  induction ts with
  | nil => exact (Nat.zero_add _).symm
  | cons t ts ih =>
    rw [List.cons_append]
    obtain rfl | rfl | ht := t.paren_cases
    · rw [inner_open, opened_open, opened_open, ih, Nat.add_assoc]
    · rw [inner_close, opened_close, opened_close, ih]
    · rw [inner_cons ht, ← Nat.add_assoc, opened_succ ht, opened_succ ht, ih]

namespace Within

theorem refl (ts : List Token) : Within ts ts := ⟨List.Sublist.refl ts, rfl⟩

theorem append (h : Within ts ts') (hrest : Within rest rest') :
    Within (ts ++ rest) (ts' ++ rest') := by
  refine ⟨h.1.append hrest.1, ?_⟩
  rw [inner_append, inner_append, h.2, hrest.2]

theorem cons (t : Token) (h : Within ts ts') : Within (t :: ts) (t :: ts') :=
  (refl [t]).append h

theorem trans (h : Within ts ts') (h' : Within ts' rest) : Within ts rest :=
  ⟨h.1.trans h'.1, h.2.trans h'.2⟩

theorem parens (h : Within ts ts') : Within ts (.sign '(' :: (ts' ++ [.sign ')'])) := by
  refine ⟨(h.1.trans (List.sublist_append_left ts' _)).cons _, ?_⟩
  rw [inner_open, inner_append, h.2]
  rfl

theorem opened_le (h : Within ts ts') (i : Nat) : opened ts i ≤ opened ts' i := by
  obtain ⟨hsub, hinner⟩ := h
  induction hsub generalizing i with
  | slnil => exact Nat.le_refl 0
  | cons t hsub ih =>
    obtain rfl | rfl | ht := t.paren_cases
    · rw [opened_open]
      exact Nat.le_trans (ih i hinner) (Nat.le_add_left _ _)
    · rw [opened_close]
      exact ih i hinner
    · -- the shorter text has all tokens that are not parentheses
      have hle := hsub.countP_le (p := (!·.isParen))
      rw [inner_cons ht] at hinner
      unfold inner at hinner
      omega
  | cons_cons t hsub ih =>
    obtain rfl | rfl | ht := t.paren_cases
    · rw [opened_open, opened_open]
      exact Nat.add_le_add_left (ih i hinner) _
    · rw [opened_close, opened_close]
      exact ih i hinner
    · rw [inner_cons ht, inner_cons ht] at hinner
      cases i with
      | zero => exact Nat.le_of_eq ((opened_zero ht _).trans (opened_zero ht _).symm)
      | succ i =>
        rw [opened_succ ht, opened_succ ht]
        exact ih i (by omega)

end Within
end Counting

/-- The level of the grammar at which a tree is derived without parentheses around it. -/
def Tree.level : Tree → Level
  | .assign _ _ => .assignment
  | .binary op _ _ => op.level
  | .unary _ _ => .unary
  | .newArray _ _ => .operand
  | _ => .primary

/-- Tokens of the tree in a place of the grammar. -/
def Tree.guarded (place : Level) (a : Tree) (ts : List Token) : List Token :=
  if a.level.rank < place.rank then .sign '(' :: (ts ++ [.sign ')']) else ts

mutual

/-- The tokens of a tree with parentheses only where the grammar asks for them. -/
def Tree.tokens : Tree → List Token
  | .number n => [.number n]
  | .boolean b => [.word (toString b)]
  | .null => [.word "null"]
  | .name n => [.word n]
  | .this => [.word "this"]
  | .field target n => target.guarded .primary target.tokens ++ [.sign '.', .word n]
  | .index target position =>
    target.guarded .primary target.tokens ++ .sign '[' :: (position.tokens ++ [.sign ']'])
  | .call target n args =>
    target.guarded .primary target.tokens ++
      .sign '.' :: .word n :: .sign '(' :: (Tree.argTokens args ++ [.sign ')'])
  | .newObject ty => [.word "new", .word (String.ofList ty.chars), .sign '(', .sign ')']
  | .newArray size ty =>
    .word "new" :: .word (String.ofList ty.element.chars) :: .sign '[' ::
      (size.tokens ++ .sign ']' :: bracketTokens (ty.dims - 1))
  | .unary op operand => op.token :: operand.guarded .unary operand.tokens
  | .binary op left right =>
    left.guarded op.level left.tokens ++
      op.token :: right.guarded op.rightLevel right.tokens
  | .assign target value =>
    target.guarded .primary target.tokens ++ .sign '=' :: value.tokens

def Tree.argTokens : List Tree → List Token
  | [] => []
  | [a] => a.tokens
  | a :: rest => a.tokens ++ .sign ',' :: Tree.argTokens rest

end

namespace Tree

/-- The tokens with the fewest parentheses in a place of the grammar. -/
def tokensAt (place : Level) (a : Tree) : List Token := a.guarded place a.tokens

theorem tokensAt_of_le {place : Level} {a : Tree} (h : place.rank ≤ a.level.rank) :
    a.tokensAt place = a.tokens :=
  if_neg (Nat.not_lt.2 h)

theorem tokensAt_level (a : Tree) : a.tokensAt a.level = a.tokens :=
  tokensAt_of_le (Nat.le_refl _)

theorem tokensAt_assignment (a : Tree) : a.tokensAt .assignment = a.tokens :=
  tokensAt_of_le (by cases a.level <;> decide)

/-- A looser place asks for no parentheses that a tighter one does not ask for. -/
theorem tokensAt_within {place tighter : Level} (h : place.rank ≤ tighter.rank) (a : Tree) :
    Within (a.tokensAt place) (a.tokensAt tighter) := by
  unfold tokensAt guarded
  by_cases htight : a.level.rank < tighter.rank
  · rw [if_pos htight]
    split
    · exact .refl _
    · exact (Within.refl _).parens
  · rw [if_neg htight, if_neg fun hlt => htight (Nat.lt_of_lt_of_le hlt h)]
    exact .refl _

theorem inner_tokensAt (place : Level) (a : Tree) : inner (a.tokensAt place) = inner a.tokens := by
  unfold tokensAt guarded
  split
  · exact (Within.refl a.tokens).parens.2.symm
  · rfl

end Tree

theorem ElementName.ofList_chars {n : String} {t : Ty} (h : ElementName n t) :
    String.ofList t.chars = n := by
  cases h with
  | named _ => exact String.ofList_toList
  | _ => rfl

/-- Arguments that are written with more parentheses. -/
theorem within_args {argTokens : List (List Token)} {args : List Tree}
    (hl : argTokens.length = args.length)
    (h : ∀ arg ∈ argTokens.zip args, Within (arg.2.tokensAt .assignment) arg.1) :
    Within (Tree.argTokens args) ([Token.sign ','].intercalate argTokens) := by
  induction args generalizing argTokens with
  | nil =>
    cases List.length_eq_zero_iff.1 hl
    exact .refl []
  | cons a rest ih =>
    obtain ⟨ts, others, rfl⟩ := List.exists_cons_of_length_eq_add_one hl
    obtain ⟨hfirst, hrest⟩ := List.forall_mem_cons.1 h
    have hothers := ih (Nat.succ.inj hl) hrest
    rw [Tree.tokensAt_assignment] at hfirst
    cases rest with
    | nil =>
      cases List.length_eq_zero_iff.1 (Nat.succ.inj hl)
      rwa [List.intercalate_singleton]
    | cons b rest =>
      obtain ⟨ts', others, rfl⟩ := List.exists_cons_of_length_eq_add_one (Nat.succ.inj hl)
      rw [List.intercalate_cons_cons, List.append_assoc]
      exact hfirst.append (hothers.cons _)

/-- Every text of a tree is the one with the fewest parentheses and perhaps more of them. -/
theorem Derives.within {level : Level} {ts : List Token} {a : Tree} (h : Derives level ts a) :
    Within (a.tokensAt level) ts := by
  induction h with
  | next hl _ ih => exact (Tree.tokensAt_within (Nat.le_of_lt (Level.below_rank hl)) _).trans ih
  | assign _ _ iht ihv =>
    rw [Tree.tokensAt_assignment] at ihv
    exact iht.append (ihv.cons _)
  | binary op _ _ ihl ihr =>
    exact (Tree.tokensAt_level (.binary op _ _)) ▸ ihl.append (ihr.cons _)
  | unary op _ ih => exact ih.cons _
  | newArray he _ more ih =>
    rw [Tree.tokensAt_assignment] at ih
    have hword : Token.word (String.ofList (Ty.chars _)) = .word _ :=
      congrArg Token.word he.ofList_chars
    exact hword ▸ (((ih.append (.refl _)).cons _).cons _).cons _
  | parens _ ih =>
    rw [Tree.tokensAt_assignment] at ih
    unfold Tree.tokensAt Tree.guarded
    split
    · exact (ih.append (.refl _)).cons _
    · exact ih.parens
  | field _ _ ih => exact ih.append (.refl _)
  | index _ _ ih ihp =>
    rw [Tree.tokensAt_assignment] at ihp
    exact ih.append ((ihp.append (.refl _)).cons _)
  | call _ _ hl _ ih iha =>
    exact ih.append (((((within_args hl iha).append (.refl _)).cons _).cons _).cons _)
  | newObject _ =>
    change Within [_, .word (String.ofList (String.toList _)), _, _] _
    rw [String.ofList_toList]
    exact .refl _
  | _ => exact .refl _

end JavaSynth
