import Mathlib.Data.List.TakeWhile
import JavaSynth.Proofs.Reading.Outline

set_option autoImplicit false

/-!
# Statements in a text

The start of a statement shows its kind and its text shows where it ends, so a text has one
statement at its start. A condition ends before the first character that no expression has; that
character also tells an absent branch, a block and another branch apart.
-/
namespace JavaSynth

/-- What the start of a statement shows. -/
inductive Lead where
  | empty
  | block
  | conditional
  | loop
  | ret
  | plain

def leadOf (cs : List Char) : Lead :=
  if cs.head? = some ';' then .empty
  else if cs.head? = some '\x7b' then .block
  else if cs.takeWhile Identifier.isPart = "if".toList then .conditional
  else if cs.takeWhile Identifier.isPart = "while".toList then .loop
  else if cs.takeWhile Identifier.isPart = "return".toList then .ret
  else .plain

section Leads

variable {cs rest : List Char}

theorem leadOf_plain (hne : cs ≠ []) (hclear : ∀ c ∈ cs, isStop c = false) (hk : Unkeyed cs)
    (hr : Ended rest) : leadOf (cs ++ rest) = .plain := by
  obtain ⟨c, tail, rfl⟩ := List.exists_cons_of_ne_nil hne
  have hfirst := hclear c List.mem_cons_self
  have hempty : (c :: tail ++ rest).head? ≠ some ';' := by
    intro heq
    cases heq
    cases hfirst
  have hblock : (c :: tail ++ rest).head? ≠ some '\x7b' := by
    intro heq
    cases heq
    cases hfirst
  have hword := hk rest hr
  unfold leadOf
  rw [if_neg hempty, if_neg hblock, if_neg (hword "if" (by decide)),
    if_neg (hword "while" (by decide)), if_neg (hword "return" (by decide))]

theorem leadOf_word (w : String) (hw : Identifier.isWord w.toList = true) (hr : Ended rest) :
    leadOf (w.toList ++ rest) = leadOf w.toList := by
  have hparts := isPart_of_isWord hw
  have hself : w.toList.takeWhile Identifier.isPart = w.toList :=
    List.takeWhile_eq_self_iff.2 hparts
  have hhead : (w.toList ++ rest).head? = w.toList.head? := by
    rw [List.head?_append_of_ne_nil]
    intro hnil
    simp [hnil, Identifier.isWord] at hw
  unfold leadOf
  rw [(takeWhile_ended hparts hr).1, hself, hhead]

end Leads

namespace Stmt

def lead : Stmt → Lead
  | empty => .empty
  | block _ => .block
  | ifElse _ _ _ | elseOnly _ _ => .conditional
  | loop _ _ => .loop
  | ret _ => .ret
  | declare _ _ _ | eval _ => .plain

theorem ended_ending {c : Char} {cs : List Char} (h : Identifier.isPart c = false)
    (value : Option Expr) (rest : List Char) : Ended (ending (c :: cs) value ++ rest) := by
  cases value with
  | none => exact ended_cons (by decide)
  | some e => exact ended_cons h

theorem leadOf_chars {a : Stmt} (h : a.Spelled) (level : Nat) (rest : List Char) :
    leadOf (a.chars level ++ rest) = a.lead := by
  cases a with
  | empty => rfl
  | block body => rw [chars_block]; rfl
  | ifElse condition thenBranch elseBranch =>
    rw [chars_ifElse, List.append_assoc]
    exact leadOf_word "if" (by decide) (ended_cons (by decide))
  | elseOnly condition elseBranch =>
    rw [chars_elseOnly, List.append_assoc]
    exact leadOf_word "if" (by decide) (ended_cons (by decide))
  | loop condition body =>
    rw [chars_loop, List.append_assoc]
    exact leadOf_word "while" (by decide) (ended_cons (by decide))
  | ret value =>
    rw [chars_ret, List.append_assoc]
    exact leadOf_word "return" (by decide) (ended_ending (by decide) value rest)
  | declare name ty init =>
    obtain ⟨-, hflat, -⟩ := h
    rw [chars_declare, List.append_assoc]
    exact leadOf_plain hflat.ne_nil hflat.clear hflat.unkeyed (ended_cons (by decide))
  | eval e =>
    have hphrase := e.phrase h
    rw [chars_eval, List.append_assoc]
    apply leadOf_plain _ hphrase.clear hphrase.unkeyed (ended_cons (by decide))
    obtain ⟨c, tail, hc, -⟩ := hphrase.opens
    simp [hc]

variable {rest rest' : List Char}

theorem ending_split {c : Char} {cs : List Char} (hc : c ≠ ';') {value value' : Option Expr}
    (h : ∀ e, value = some e → e.Spelled) (h' : ∀ e, value' = some e → e.Spelled)
    (heq : ending (c :: cs) value ++ rest = ending (c :: cs) value' ++ rest') :
    value.map Expr.render = value'.map Expr.render ∧ rest = rest' := by
  cases value with
  | none =>
    cases value' with
    | none => exact ⟨rfl, List.append_cancel_left heq⟩
    | some e' => exact absurd (List.cons.inj heq).1.symm hc
  | some e =>
    cases value' with
    | none => exact absurd (List.cons.inj heq).1 hc
    | some e' =>
      simp only [ending, List.append_assoc] at heq
      obtain ⟨he, hrest⟩ :=
        (e.phrase (h e rfl)).stop_split (e'.phrase (h' e' rfl)) (List.append_cancel_left heq)
      exact ⟨congrArg some (Expr.render_inj.2 he), hrest⟩

theorem declare_ne_eval {name : String} {ty : Ty} {init : Option Expr} {e : Expr} {level : Nat}
    (h : (declare name ty init).Spelled) (he : e.Spelled) :
    (declare name ty init).chars level ++ rest ≠ (eval e).chars level ++ rest' := by
  intro heq
  obtain ⟨hname, hflat, -⟩ := h
  have hdeclares := hflat.declares hname (ending " = ".toList init ++ rest)
  simp only [chars_declare, chars_eval, List.append_assoc, List.cons_append] at heq
  rw [heq] at hdeclares
  exact (e.phrase he).not_declares rest' hdeclares

theorem plain_split {a b : Stmt} (ha : a.Spelled) (hb : b.Spelled) (hlead : a.lead = .plain)
    (hlead' : b.lead = .plain) {level : Nat}
    (heq : a.chars level ++ rest = b.chars level ++ rest') :
    a.outline = b.outline ∧ rest = rest' := by
  cases a with
  | declare name ty init =>
    cases b with
    | declare name' ty' init' =>
      obtain ⟨hname, hflat, hinit⟩ := ha
      obtain ⟨hname', hflat', hinit'⟩ := hb
      simp only [chars_declare, List.append_assoc, List.cons_append] at heq
      obtain ⟨rfl, rfl, hafter⟩ := Ty.declared_split hflat hflat' hname hname'
        (ended_ending (by decide) init rest) (ended_ending (by decide) init' rest') heq
      obtain ⟨hsame, hrest⟩ := ending_split (by decide) hinit hinit' hafter
      exact ⟨by rw [outline, outline, hsame], hrest⟩
    | eval e' => exact absurd heq (declare_ne_eval ha hb)
    | _ => cases hlead'
  | eval e =>
    cases b with
    | declare name' ty' init' => exact absurd heq.symm (declare_ne_eval hb ha)
    | eval e' =>
      simp only [chars_eval, List.append_assoc, List.singleton_append] at heq
      obtain ⟨he, hrest⟩ := (e.phrase ha).stop_split (e'.phrase hb) heq
      exact ⟨by rw [outline, outline, Expr.render_inj.2 he], hrest⟩
    | _ => cases hlead'
  | _ => cases hlead

end Stmt

/-- What follows the parenthesis of a condition: one more blank at most before the first
character that no expression has. -/
def Breaks (cs : List Char) : Prop :=
  ∃ gap c tail, (gap = [] ∨ gap = [' ']) ∧ isStop c = true ∧ cs = gap ++ c :: tail

theorem clear_gap {gap : List Char} (h : gap = [] ∨ gap = [' ']) :
    ∀ c ∈ ')' :: gap, isStop c = false := by
  rcases h with rfl | rfl <;> exact clear_of_any (by decide)

theorem gap_injective {gap gap' cs cs' : List Char} (h : gap = [] ∨ gap = [' '])
    (h' : gap' = [] ∨ gap' = [' ']) (heq : cs ++ ')' :: gap = cs' ++ ')' :: gap') :
    gap = gap' := by
  have hlast := congrArg List.getLast? heq
  rcases h with rfl | rfl <;> rcases h' with rfl | rfl <;> simp at hlast ⊢

theorem Phrase.condition_split {cs cs' rest rest' : List Char} (h : Phrase cs) (h' : Phrase cs')
    (hr : Breaks rest) (hr' : Breaks rest') (heq : cs ++ ')' :: rest = cs' ++ ')' :: rest') :
    cs = cs' ∧ rest = rest' := by
  obtain ⟨gap, c, tail, hgap, hc, rfl⟩ := hr
  obtain ⟨gap', c', tail', hgap', hc', rfl⟩ := hr'
  -- parentheses stand in expressions too: the first stop comes after this one and a gap at most
  have hrun : (cs ++ ')' :: gap) ++ c :: tail = (cs' ++ ')' :: gap') ++ c' :: tail' := by
    simpa using heq
  obtain ⟨hcondition, hafter⟩ :=
    split_at_stop (List.forall_mem_append.2 ⟨h.clear, clear_gap hgap⟩)
      (List.forall_mem_append.2 ⟨h'.clear, clear_gap hgap'⟩) hc hc' hrun
  obtain rfl := gap_injective hgap hgap' hcondition
  exact ⟨List.append_cancel_right hcondition, congrArg (gap ++ ·) hafter⟩

namespace Stmt

/-- The text of a statement determines it, up to the texts of its expressions. -/
def Splits (a : Stmt) : Prop :=
  ∀ (b : Stmt) (level : Nat) (rest rest' : List Char), b.Spelled →
    a.chars level ++ rest = b.chars level ++ rest' → a.outline = b.outline ∧ rest = rest'

/-- The lines of a block and its end determine its statements. -/
def LinesSplit (as : List Stmt) : Prop :=
  ∀ (bs : List Stmt) (level : Nat) (rest rest' : List Char), AllSpelled bs →
    lines as (level + 1) ++ (margin level ++ '\x7d' :: rest) =
      lines bs (level + 1) ++ (margin level ++ '\x7d' :: rest') →
    outlines as = outlines bs ∧ rest = rest'

theorem branch_block (body : List Stmt) (level : Nat) :
    (block body).branch level (block body).chars =
      ' ' :: '\x7b' :: '\n' :: (lines body (level + 1) ++ (margin level ++ ['\x7d'])) := by
  rw [← chars_block]
  rfl

theorem breaks_branch (a : Stmt) (level : Nat) (rest : List Char) :
    Breaks (a.branch level a.chars ++ rest) := by
  cases a with
  | block body =>
    rw [branch_block]
    exact ⟨[' '], '\x7b', _, .inr rfl, by decide, rfl⟩
  | _ => exact ⟨[], '\n', _, .inl rfl, by decide, rfl⟩

theorem breaks_absent (rest : List Char) : Breaks (" ;".toList ++ rest) :=
  ⟨[' '], ';', rest, .inr rfl, by decide, rfl⟩

theorem branch_ne_absent (a : Stmt) (level : Nat) (rest rest' : List Char) :
    a.branch level a.chars ++ rest ≠ " ;".toList ++ rest' := by
  intro heq
  cases a with
  | block body =>
    rw [branch_block] at heq
    exact absurd (List.cons.inj (List.cons.inj heq).2).1 (by decide)
  | _ => exact absurd (List.cons.inj heq).1 (by decide)

theorem lead_eq {a b : Stmt} (h : a.Spelled) (hb : b.Spelled) {level : Nat}
    {rest rest' : List Char} (heq : a.chars level ++ rest = b.chars level ++ rest') :
    a.lead = b.lead := by
  rw [← leadOf_chars h level rest, heq, leadOf_chars hb]

theorem margin_succ (level : Nat) : margin (level + 1) = margin level ++ "    ".toList := by
  unfold margin
  rw [Nat.mul_succ, List.replicate_add]
  rfl

theorem end_ne_line (b : Stmt) (bs : List Stmt) (level : Nat) (rest rest' : List Char) :
    margin level ++ '\x7d' :: rest ≠ lines (b :: bs) (level + 1) ++ rest' := by
  intro heq
  -- after the margin of the end, a line has one more step of its own
  rw [lines_cons, margin_succ, List.append_assoc, List.append_assoc] at heq
  exact absurd (List.cons.inj (List.append_cancel_left heq)).1 (by decide)

namespace Splits

variable {condition : Expr} {a b : Stmt}

theorem branch (h : a.Splits) (hb : b.Spelled) {level : Nat} {rest rest' : List Char}
    (heq : a.branch level a.chars ++ rest = b.branch level b.chars ++ rest') :
    a.outline = b.outline ∧ rest = rest' := by
  unfold Stmt.branch at heq
  -- a block opens on the same line, and any other branch lies one level deeper on the next
  split at heq
  · split at heq
    · exact h b level rest rest' hb (List.cons.inj heq).2
    · exact absurd (List.cons.inj heq).1 (by decide)
  · split at heq
    · exact absurd (List.cons.inj heq).1 (by decide)
    · simp only [List.cons_append, List.append_assoc, List.cons.injEq, true_and,
        List.append_cancel_left_eq] at heq
      exact h b (level + 1) rest rest' hb heq

theorem plain (h : a.Spelled) (hlead : a.lead = .plain) : a.Splits :=
  fun _ _ _ _ hb heq => plain_split h hb hlead ((lead_eq h hb heq).symm.trans hlead) heq

theorem empty : Stmt.empty.Splits := by
  intro b level rest rest' hb heq
  have hlead := lead_eq (a := .empty) trivial hb heq
  cases b with
  | empty => exact ⟨rfl, List.append_cancel_left heq⟩
  | _ => cases hlead

theorem ret {value : Option Expr} (h : (Stmt.ret value).Spelled) : (Stmt.ret value).Splits := by
  intro b level rest rest' hb heq
  have hlead := lead_eq h hb heq
  cases b with
  | ret value' =>
    simp only [chars_ret, List.append_assoc, List.append_cancel_left_eq] at heq
    obtain ⟨hsame, hrest⟩ := ending_split (by decide) h hb heq
    exact ⟨by rw [outline, outline, hsame], hrest⟩
  | _ => cases hlead

theorem loop (h : (Stmt.loop condition a).Spelled) (ha : a.Splits) :
    (Stmt.loop condition a).Splits := by
  intro b level rest rest' hb heq
  have hlead := lead_eq h hb heq
  cases b with
  | loop condition' body' =>
    simp only [chars_loop, List.append_assoc, List.cons_append,
      List.append_cancel_left_eq] at heq
    obtain ⟨hcondition, hbody⟩ := (condition.phrase h.1).condition_split
      (condition'.phrase hb.1) (breaks_branch a level rest) (breaks_branch body' level rest') heq
    obtain ⟨hsame, hrest⟩ := ha.branch hb.2 hbody
    exact ⟨by rw [outline, outline, Expr.render_inj.2 hcondition, hsame], hrest⟩
  | _ => cases hlead

theorem ifElse (h : (Stmt.ifElse condition a b).Spelled) (ha : a.Splits) (hb : b.Splits) :
    (Stmt.ifElse condition a b).Splits := by
  intro other level rest rest' hother heq
  have hlead := lead_eq h hother heq
  cases other with
  | ifElse condition' thenBranch elseBranch =>
    simp only [chars_ifElse, List.append_assoc, List.cons_append,
      List.append_cancel_left_eq] at heq
    obtain ⟨hcondition, hbranches⟩ := (condition.phrase h.1).condition_split
      (condition'.phrase hother.1) (breaks_branch a level _) (breaks_branch thenBranch level _) heq
    obtain ⟨hthen, helse⟩ := ha.branch hother.2.1 hbranches
    -- where the `else` stands depends on the branch before it, which is the same by now
    rw [outline_isBlock hthen] at helse
    obtain ⟨hsame, hrest⟩ := hb.branch hother.2.2 (List.append_cancel_left helse)
    exact ⟨by rw [outline, outline, Expr.render_inj.2 hcondition, hthen, hsame], hrest⟩
  | elseOnly condition' elseBranch =>
    simp only [chars_ifElse, chars_elseOnly, List.append_assoc, List.cons_append,
      List.append_cancel_left_eq] at heq
    obtain ⟨-, hbranches⟩ := (condition.phrase h.1).condition_split
      (condition'.phrase hother.1) (breaks_branch a level _) (breaks_absent _) heq
    exact absurd hbranches (branch_ne_absent a level _ _)
  | _ => cases hlead

theorem elseOnly (h : (Stmt.elseOnly condition b).Spelled) (hb : b.Splits) :
    (Stmt.elseOnly condition b).Splits := by
  intro other level rest rest' hother heq
  have hlead := lead_eq h hother heq
  cases other with
  | ifElse condition' thenBranch elseBranch =>
    simp only [chars_ifElse, chars_elseOnly, List.append_assoc, List.cons_append,
      List.append_cancel_left_eq] at heq
    obtain ⟨-, hbranches⟩ := (condition.phrase h.1).condition_split
      (condition'.phrase hother.1) (breaks_absent _) (breaks_branch thenBranch level _) heq
    exact absurd hbranches.symm (branch_ne_absent thenBranch level _ _)
  | elseOnly condition' elseBranch =>
    simp only [chars_elseOnly, List.append_assoc, List.cons_append,
      List.append_cancel_left_eq] at heq
    obtain ⟨hcondition, hbranches⟩ := (condition.phrase h.1).condition_split
      (condition'.phrase hother.1) (breaks_absent _) (breaks_absent _) heq
    obtain ⟨hsame, hrest⟩ := hb.branch hother.2
      (List.append_cancel_left (List.append_cancel_left hbranches))
    exact ⟨by rw [outline, outline, Expr.render_inj.2 hcondition, hsame], hrest⟩
  | _ => cases hlead

theorem block {body : List Stmt} (h : (Stmt.block body).Spelled) (hbody : LinesSplit body) :
    (Stmt.block body).Splits := by
  intro b level rest rest' hb heq
  have hlead := lead_eq h hb heq
  cases b with
  | block body' =>
    simp only [chars_block, List.append_assoc, List.cons_append, List.cons.injEq,
      true_and] at heq
    obtain ⟨hsame, hrest⟩ := hbody body' level _ _ hb heq
    exact ⟨by rw [outline, outline, hsame], hrest⟩
  | _ => cases hlead

theorem noLines : LinesSplit [] := by
  intro bs level rest rest' _ heq
  cases bs with
  | nil => exact ⟨rfl, (List.cons.inj (List.append_cancel_left heq)).2⟩
  | cons b bs => exact absurd heq (end_ne_line b bs level _ _)

theorem lines {rest : List Stmt} (ha : a.Splits) (hr : LinesSplit rest) :
    LinesSplit (a :: rest) := by
  intro bs level after after' hbs heq
  cases bs with
  | nil => exact absurd heq.symm (end_ne_line a rest level _ _)
  | cons b bs =>
    simp only [lines_cons, List.append_assoc, List.cons_append,
      List.append_cancel_left_eq] at heq
    obtain ⟨hfirst, hlines⟩ := ha b (level + 1) _ _ hbs.1 heq
    obtain ⟨hsame, hafter⟩ := hr bs level after after' hbs.2 (List.cons.inj hlines).2
    exact ⟨by rw [outlines, outlines, hfirst, hsame], hafter⟩

end Splits

mutual

theorem splits (a : Stmt) (h : a.Spelled) : a.Splits := by
  cases a with
  | empty => exact .empty
  | declare name ty init => exact .plain h rfl
  | eval e => exact .plain h rfl
  | ret value => exact .ret h
  | loop condition body => exact .loop h (splits body h.2)
  | ifElse condition a b => exact .ifElse h (splits a h.2.1) (splits b h.2.2)
  | elseOnly condition b => exact .elseOnly h (splits b h.2)
  | block body => exact .block h (linesSplit body h)

theorem linesSplit (as : List Stmt) (h : AllSpelled as) : LinesSplit as := by
  cases as with
  | nil => exact Splits.noLines
  | cons a rest => exact (splits a h.1).lines (linesSplit rest h.2)

end

/-- Statements have the same text if and only if they have the same outline. -/
theorem render_inj {a b : Stmt} (ha : a.Spelled) (hb : b.Spelled) :
    a.render = b.render ↔ a.outline = b.outline := by
  constructor
  · intro h
    have hchars : a.chars 0 ++ [] = b.chars 0 ++ [] := by
      rw [String.ofList_inj.1 h]
    exact (splits a ha b 0 [] [] hb hchars).1
  · intro h
    rw [render, render, chars_congr a b h]

end Stmt
end JavaSynth
