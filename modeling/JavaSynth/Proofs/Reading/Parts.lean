import JavaSynth.Proofs.Reading.Leading
import JavaSynth.Proofs.Reading.Names
import JavaSynth.Proofs.Shape.Nodes

set_option autoImplicit false

/-!
# The parts of an expression

A part of a node stands between two texts, and these give tokens that match the tokens of the tree
but for parentheses. So a part that opens too few parentheses leaves the whole with too few.
-/
namespace JavaSynth

/-- An argument, with the texts before and after it. -/
inductive Expr.ArgPart : List Expr → List Char → Expr → List Char → Prop where
  | only (e : Expr) : ArgPart [e] [] e []
  | first (e second : Expr) (rest : List Expr) :
      ArgPart (e :: second :: rest) [] e (", ".toList ++ Expr.argChars (second :: rest))
  | later (e : Expr) {second arg : Expr} {rest : List Expr} {before after : List Char}
      (h : ArgPart (second :: rest) before arg after) :
      ArgPart (e :: second :: rest)
        (e.guarded assignPrecedence e.chars ++ ", ".toList ++ before) arg after

/-- A child of a node, with the texts before and after it in the text of the node, and the
precedence that its place asks for. -/
inductive Expr.Part : Expr → List Char → Nat → Expr → List Char → Prop where
  | fieldTarget (target : Expr) (name : String) (ty : Ty) :
      Part (.field target name ty) [] postfixPrecedence target ('.' :: name.toList)
  | indexTarget (target position : Expr) (ty : Ty) :
      Part (.index target position ty) [] postfixPrecedence target
        ('[' :: (position.guarded 0 position.chars ++ [']']))
  | position (target position : Expr) (ty : Ty) :
      Part (.index target position ty) (target.guarded postfixPrecedence target.chars ++ ['[']) 0
        position [']']
  | callTarget (target : Expr) (name : String) (args : List Expr) (ty : Ty) :
      Part (.call target name args ty) [] postfixPrecedence target
        ('.' :: (name.toList ++ '(' :: (argChars args ++ [')'])))
  | arg (target : Expr) (name : String) {args : List Expr} (ty : Ty) {before after : List Char}
      {arg : Expr} (h : ArgPart args before arg after) :
      Part (.call target name args ty)
        (target.guarded postfixPrecedence target.chars ++ '.' :: (name.toList ++ '(' :: before))
        assignPrecedence arg (after ++ [')'])
  | ownArg (name : String) {args : List Expr} (ty : Ty) {before after : List Char} {arg : Expr}
      (h : ArgPart args before arg after) :
      Part (.ownCall name args ty) ("this.".toList ++ name.toList ++ '(' :: before) assignPrecedence
        arg (after ++ [')'])
  | size (size : Expr) (ty : Ty) :
      Part (.newArray size ty) ("new ".toList ++ ty.element.chars ++ ['[']) 0 size
        (']' :: Ty.brackets (ty.dims - 1))
  | operand (op : UnaryOp) (operand : Expr) (ty : Ty) :
      Part (.unary op operand ty) op.text.toList newArrayPrecedence operand []
  | left (op : BinaryOp) (left right : Expr) (ty : Ty) :
      Part (.binary op left right ty) [] op.precedence left
        (' ' :: (op.text.toList ++ ' ' :: right.guarded (op.precedence + 1) right.chars))
  | right (op : BinaryOp) (left right : Expr) (ty : Ty) :
      Part (.binary op left right ty)
        (left.guarded op.precedence left.chars ++ ' ' :: (op.text.toList ++ [' ']))
        (op.precedence + 1) right []
  | assigned (target value : Expr) (ty : Ty) :
      Part (.assign target value ty) [] postfixPrecedence target
        (" = ".toList ++ value.guarded assignPrecedence value.chars)
  | value (target value : Expr) (ty : Ty) :
      Part (.assign target value ty)
        (target.guarded postfixPrecedence target.chars ++ " = ".toList) assignPrecedence value []

namespace Expr

variable {e node child arg : Expr} {args : List Expr} {before after left right cs : List Char}
  {least : Nat}

theorem ArgPart.chars (h : ArgPart args before arg after) :
    argChars args = before ++ (arg.guarded assignPrecedence arg.chars ++ after) := by
  induction h with
  | only e => exact (List.append_nil _).symm
  | first e second rest => exact List.append_assoc _ _ _
  | @later e second arg rest before after h ih =>
    change e.guarded assignPrecedence e.chars ++ ", ".toList ++ argChars (second :: rest) = _
    rw [ih, List.append_assoc _ before]

theorem Part.chars (h : node.Part before least child after) :
    node.chars = before ++ (child.guarded least child.chars ++ after) := by
  cases h with
  | fieldTarget | indexTarget | callTarget | left => rfl
  | position => exact (List.append_assoc _ ['['] _).symm
  | arg target name ty h =>
    change target.guarded postfixPrecedence target.chars ++
      '.' :: (name.toList ++ '(' :: (argChars _ ++ [')'])) = _
    rw [h.chars]
    simp only [List.append_assoc, List.cons_append]
  | ownArg name ty h =>
    change "this.".toList ++ name.toList ++ '(' :: (argChars _ ++ [')']) = _
    rw [h.chars]
    simp only [List.append_assoc, List.cons_append]
  | size => exact (List.append_assoc _ ['['] _).symm
  | operand => exact congrArg _ (List.append_nil _).symm
  | right op left _ =>
    change left.guarded op.precedence left.chars ++
      ' ' :: (op.text.toList ++ ' ' :: child.guarded (op.precedence + 1) child.chars) = _
    simp only [List.append_assoc, List.cons_append, List.append_nil, List.nil_append]
  | assigned => exact List.append_assoc _ _ _
  | value => exact congrArg _ (List.append_nil _).symm

theorem ArgPart.isWritten (h : ArgPart args before arg after) (hw : areWritten args = true) :
    arg.isWritten = true := by
  induction h with
  | only e => exact (Bool.and_eq_true_iff.1 hw).1
  | first e second rest => exact (Bool.and_eq_true_iff.1 hw).1
  | later e h ih => exact ih (Bool.and_eq_true_iff.1 hw).2

theorem Part.isWritten (h : node.Part before least child after) (hw : node.isWritten = true) :
    child.isWritten = true := by
  cases h with
  | fieldTarget => exact (Bool.and_eq_true_iff.1 hw).1
  | indexTarget => exact (Bool.and_eq_true_iff.1 hw).1
  | position => exact (Bool.and_eq_true_iff.1 hw).2
  | callTarget => exact (Bool.and_eq_true_iff.1 (Bool.and_eq_true_iff.1 hw).1).1
  | arg _ _ _ h => exact h.isWritten (Bool.and_eq_true_iff.1 hw).2
  | ownArg _ _ h => exact h.isWritten (Bool.and_eq_true_iff.1 hw).2
  | size => exact (Bool.and_eq_true_iff.1 hw).1
  | operand => exact hw
  | left => exact (Bool.and_eq_true_iff.1 hw).1
  | right => exact (Bool.and_eq_true_iff.1 hw).2
  | assigned => exact (Bool.and_eq_true_iff.1 hw).1
  | value => exact (Bool.and_eq_true_iff.1 hw).2

/-- The text of a node at some depth in an expression, between what comes before and after it. -/
inductive Shows (e : Expr) : List Char → Expr → List Char → Prop where
  | self : Shows e [] e []
  | part {before after left right : List Char} {node child : Expr} {least : Nat}
      (h : Shows e before node after) (hp : node.Part left least child right) :
      Shows e (before ++ left ++ if child.precedence < least then ['('] else []) child
        ((if child.precedence < least then [')'] else []) ++ right ++ after)

theorem Shows.isWritten (h : e.Shows before node after) (hw : e.isWritten = true) :
    node.isWritten = true := by
  induction h with
  | self => exact hw
  | part h hp ih => exact hp.isWritten ih

/-- Text between the parentheses that its place asks for. -/
theorem guarded_eq (least : Nat) (e : Expr) (cs : List Char) : e.guarded least cs =
    (if e.precedence < least then ['('] else []) ++ cs ++
      (if e.precedence < least then [')'] else []) := by
  unfold guarded
  split
  · rfl
  · exact (List.append_nil cs).symm

theorem infix_guarded (least : Nat) (e : Expr) (cs : List Char) : cs <:+: e.guarded least cs :=
  ⟨_, _, (guarded_eq least e cs).symm⟩

theorem Shows.chars (h : e.Shows before node after) : e.chars = before ++ (node.chars ++ after) := by
  induction h with
  | self => exact (List.append_nil e.chars).symm
  | part h hp ih =>
    rw [ih, hp.chars, guarded_eq]
    simp only [List.append_assoc]

theorem Part.shows (hp : node.Part before least child after)
    (h : ∃ left right, child.Shows left e right) : ∃ left right, node.Shows left e right := by
  obtain ⟨left, right, h⟩ := h
  induction h with
  | self => exact ⟨_, _, .part .self hp⟩
  | part _ hpart ih =>
    obtain ⟨left, right, hshown⟩ := ih
    exact ⟨_, _, hshown.part hpart⟩

theorem exists_argPart (h : arg ∈ args) : ∃ before after, ArgPart args before arg after := by
  induction args with
  | nil => cases h
  | cons e rest ih =>
    rcases List.mem_cons.1 h with rfl | hrest
    · cases rest with
      | nil => exact ⟨_, _, .only arg⟩
      | cons second rest => exact ⟨_, _, .first arg second rest⟩
    · obtain ⟨before, after, hpart⟩ := ih hrest
      cases rest with
      | nil => cases hrest
      | cons second rest => exact ⟨_, _, hpart.later e⟩

mutual

/-- Every node of an expression is shown somewhere in its text. -/
theorem exists_shows (e : Expr) (h : node ∈ e.nodes) : ∃ before after, e.Shows before node after := by
  cases e with
  | literal | var | this | ownField | newObject =>
    cases List.mem_singleton.1 h
    exact ⟨_, _, .self⟩
  | field target name ty =>
    rcases List.mem_cons.1 h with rfl | h
    · exact ⟨_, _, .self⟩
    · exact (Part.fieldTarget target name ty).shows (exists_shows target h)
  | index target position ty =>
    rcases List.mem_cons.1 h with rfl | h
    · exact ⟨_, _, .self⟩
    rcases List.mem_append.1 h with h | h
    · exact (Part.indexTarget target position ty).shows (exists_shows target h)
    · exact (Part.position target position ty).shows (exists_shows position h)
  | ownCall name args ty =>
    rcases List.mem_cons.1 h with rfl | h
    · exact ⟨_, _, .self⟩
    obtain ⟨before, arg, after, hpart, hshown⟩ := exists_shows_args args h
    exact (Part.ownArg name ty hpart).shows hshown
  | call target name args ty =>
    rcases List.mem_cons.1 h with rfl | h
    · exact ⟨_, _, .self⟩
    rcases List.mem_append.1 h with h | h
    · exact (Part.callTarget target name args ty).shows (exists_shows target h)
    · obtain ⟨before, arg, after, hpart, hshown⟩ := exists_shows_args args h
      exact (Part.arg target name ty hpart).shows hshown
  | newArray size ty =>
    rcases List.mem_cons.1 h with rfl | h
    · exact ⟨_, _, .self⟩
    · exact (Part.size size ty).shows (exists_shows size h)
  | unary op operand ty =>
    rcases List.mem_cons.1 h with rfl | h
    · exact ⟨_, _, .self⟩
    · exact (Part.operand op operand ty).shows (exists_shows operand h)
  | binary op left right ty =>
    rcases List.mem_cons.1 h with rfl | h
    · exact ⟨_, _, .self⟩
    rcases List.mem_append.1 h with h | h
    · exact (Part.left op left right ty).shows (exists_shows left h)
    · exact (Part.right op left right ty).shows (exists_shows right h)
  | assign target value ty =>
    rcases List.mem_cons.1 h with rfl | h
    · exact ⟨_, _, .self⟩
    rcases List.mem_append.1 h with h | h
    · exact (Part.assigned target value ty).shows (exists_shows target h)
    · exact (Part.value target value ty).shows (exists_shows value h)

theorem exists_shows_args (args : List Expr) (h : node ∈ nodesOf args) :
    ∃ before arg after, ArgPart args before arg after ∧
      ∃ left right, arg.Shows left node right := by
  cases args with
  | nil => cases h
  | cons e rest =>
    rcases List.mem_append.1 h with h | h
    · obtain ⟨before, after, hpart⟩ := exists_argPart (List.mem_cons_self (a := e) (l := rest))
      exact ⟨before, e, after, hpart, exists_shows e h⟩
    · obtain ⟨before, arg, after, hpart, hshown⟩ := exists_shows_args rest h
      cases rest with
      | nil => cases h
      | cons second rest => exact ⟨_, arg, after, hpart.later e, hshown⟩

end

end Expr

/-- The tokens before a part, and those that the fewest parentheses leave of them. -/
def Aligned (front front' : List Token) : Prop :=
  inner front = inner front' ∧
    ∀ i, opened front (i + inner front) = opened front' (i + inner front')

/-- The text gives these tokens before any other. -/
def Precedes (before : List Char) (front : List Token) : Prop :=
  ∀ cs ts, Lexes cs ts → Lexes (before ++ cs) (front ++ ts)

/-- The text gives these tokens after any other. -/
def Follows (after : List Char) (back : List Token) : Prop :=
  ∀ cs ts, Lexes cs ts → Lexes (cs ++ after) (ts ++ back)

/-- What stands around a part, and that its tokens are those around the part of the whole but for
parentheses. -/
def Encloses (before after : List Char) (part whole : List Token) : Prop :=
  ∃ front back front' back', Precedes before front ∧ Follows after back ∧
    whole = front' ++ (part ++ back') ∧ Aligned front front' ∧ inner back = inner back'

/-- The text opens too few parentheses somewhere. -/
def Lacks (cs : List Char) (needed : List Token) : Prop :=
  ∃ ts i, Lexes cs ts ∧ inner ts = inner needed ∧ i < inner needed ∧ opened ts i < opened needed i

section Context

variable {front front' back back' rest rest' part middle whole : List Token} {t : Token}
  {before after left right cs : List Char}

namespace Aligned

theorem refl (front : List Token) : Aligned front front := ⟨rfl, fun _ => rfl⟩

theorem append (h : Aligned front front') (hrest : Aligned rest rest') :
    Aligned (front ++ rest) (front' ++ rest') := by
  obtain ⟨hinner, hopened⟩ := h
  obtain ⟨hinner', hopened'⟩ := hrest
  have hsum : inner (front ++ rest) = inner (front' ++ rest') := by
    rw [inner_append, inner_append, hinner, hinner']
  refine ⟨hsum, fun i => ?_⟩
  have hleft : i + inner (front ++ rest) = i + inner rest + inner front := by
    rw [inner_append]
    omega
  have hright : i + inner (front' ++ rest') = i + inner rest' + inner front' := by
    rw [inner_append]
    omega
  rw [hleft, hright, opened_append_right, opened_append_right, hopened', hinner', hopened]

/-- After a token that is no parenthesis nothing is open yet. -/
theorem token (h : inner front = inner front') (ht : t.isParen = false) :
    Aligned (front ++ [t]) (front' ++ [t]) := by
  have hone : inner [t] = 1 := inner_cons ht []
  have hnone (ts : List Token) (i : Nat) : opened (ts ++ [t]) (i + inner (ts ++ [t])) = 0 := by
    have hsum : i + inner (ts ++ [t]) = i + 1 + inner ts := by
      rw [inner_append, hone]
      omega
    rw [hsum, opened_append_right, opened_of_lt (by omega), opened_succ ht]
    rfl
  refine ⟨?_, fun i => ?_⟩
  · rw [inner_append, inner_append, h]
  · rw [hnone, hnone]

end Aligned

namespace Precedes

theorem nil : Precedes [] [] := fun _ _ hcs => hcs

theorem append (h : Precedes before front) (h' : Precedes cs rest) :
    Precedes (before ++ cs) (front ++ rest) := by
  intro text ts htext
  rw [List.append_assoc, List.append_assoc]
  exact h _ _ (h' text ts htext)

theorem sign {c : Char} (hc : isPlain c = true ∧ Identifier.isPart c = false)
    (h : Lexes before front) : Precedes (before ++ [c]) (front ++ [.sign c]) := by
  intro text ts htext
  rw [List.append_assoc, List.append_assoc]
  exact h.between hc htext

theorem comma (h : Lexes before front) :
    Precedes (before ++ ", ".toList) (front ++ [.sign ',']) := by
  intro text ts htext
  rw [List.append_assoc, List.append_assoc]
  exact h.between (by decide) htext.blank

theorem operator (op : BinaryOp) (h : Lexes before front) :
    Precedes (before ++ ' ' :: (op.text.toList ++ [' '])) (front ++ [op.token]) := by
  intro text ts htext
  have hop := Lexes.binaryOperator op htext
  rw [List.append_assoc, List.append_assoc, List.cons_append, List.append_assoc]
  exact h.append hop (ended_cons (by decide))

theorem assignment (h : Lexes before front) :
    Precedes (before ++ " = ".toList) (front ++ [.sign '=']) := by
  intro text ts htext
  rw [List.append_assoc, List.append_assoc]
  exact h.append (.assignment htext) (ended_cons (by decide))

end Precedes

namespace Follows

theorem nil : Follows [] [] := by
  intro text ts htext
  rwa [List.append_nil, List.append_nil]

theorem append (h : Follows cs rest) (h' : Follows after back) :
    Follows (cs ++ after) (rest ++ back) := by
  intro text ts htext
  rw [← List.append_assoc, ← List.append_assoc]
  exact h' _ _ (h text ts htext)

theorem sign {c : Char} (hc : isPlain c = true ∧ Identifier.isPart c = false)
    (h : Lexes after back) : Follows (c :: after) (.sign c :: back) :=
  fun _ _ htext => htext.between hc h

theorem blank (h : Lexes (' ' :: after) back) : Follows (' ' :: after) back :=
  fun _ _ htext => htext.append h (ended_cons (by decide))

end Follows

namespace Encloses

/-- A part at the start. -/
theorem first (h : Follows after back) (hback : inner back = inner back') :
    Encloses [] after part (part ++ back') :=
  ⟨[], back, [], back', .nil, h, rfl, .refl [], hback⟩

/-- A part at the end. -/
theorem last (h : Precedes before front) (hfront : Aligned front front') :
    Encloses before [] part (front' ++ part) := by
  refine ⟨front, [], front', [], h, .nil, ?_, hfront, rfl⟩
  rw [List.append_nil]

/-- A part of a part. -/
theorem within (h : Encloses before after part middle) (hl : Precedes left front)
    (hr : Follows right back) (hfront : Aligned front front') (hback : inner back = inner back') :
    Encloses (left ++ before) (after ++ right) part (front' ++ (middle ++ back')) := by
  obtain ⟨inside, outside, inside', outside', hbefore, hafter, rfl, haligned, houtside⟩ := h
  refine ⟨front ++ inside, outside ++ back, front' ++ inside', outside' ++ back',
    hl.append hbefore, hafter.append hr, ?_, hfront.append haligned, ?_⟩
  · simp only [List.append_assoc]
  · rw [inner_append, inner_append, houtside, hback]

theorem lacks (h : Encloses before after part whole) (hcs : Lacks cs part) :
    Lacks (before ++ (cs ++ after)) whole := by
  obtain ⟨front, back, front', back', hbefore, hafter, rfl, ⟨hinner, hopened⟩, hback⟩ := h
  obtain ⟨ts, i, hts, hcount, hlt, hless⟩ := hcs
  refine ⟨front ++ (ts ++ back), i + inner front, hbefore _ _ (hafter cs ts hts), ?_, ?_, ?_⟩
  · simp only [inner_append, hinner, hcount, hback]
  · simp only [inner_append]
    omega
  · rw [opened_append_right, opened_append_left (hcount ▸ hlt), hopened, hinner,
      opened_append_right, opened_append_left hlt]
    exact Nat.add_lt_add_left hless _

end Encloses
end Context

theorem Reads.counted {place : Level} {cs : List Char} {a : Tree} (h : Reads place cs a) :
    ∃ ts, Lexes cs ts ∧ inner ts = inner (a.tokensAt place) := by
  obtain ⟨⟨ts, hts, hd⟩, -⟩ := h
  exact ⟨ts, hts, hd.within.2.symm⟩

theorem ReadsAll.counted {cs : List Char} {args : List Tree} (h : ReadsAll cs args) :
    ∃ ts, Lexes cs ts ∧ inner ts = inner (Tree.argTokens args) := by
  obtain ⟨argTokens, hts, hlength, hargs⟩ := h
  exact ⟨_, hts, (within_args hlength fun arg harg => (hargs arg harg).within).2.symm⟩

namespace Expr

variable {node child arg : Expr} {args : List Expr} {before after : List Char} {least : Nat}

theorem counted {e : Expr} {place : Level} (h : e.isWritten = true) (hs : Suits least place) :
    ∃ ts, Lexes (e.guarded least e.chars) ts ∧ inner ts = inner (e.tree.tokensAt place) :=
  ((e.reads h).guarded hs.asks).counted

theorem ArgPart.encloses (h : ArgPart args before arg after) (hw : areWritten args = true) :
    Encloses before after (arg.tree.tokensAt .assignment) (Tree.argTokens (argTrees args)) := by
  induction h with
  | only e =>
    rw [Tree.tokensAt_assignment]
    exact .last .nil (.refl [])
  | first e second rest =>
    obtain ⟨ts, hts, hcount⟩ := (args_read _ (Bool.and_eq_true_iff.1 hw).2).counted
    rw [Tree.tokensAt_assignment]
    exact .first (.sign (by decide) hts.blank) (inner_cons_congr _ hcount)
  | later e h ih =>
    obtain ⟨hfirst, hrest⟩ := Bool.and_eq_true_iff.1 hw
    obtain ⟨ts, hts, hcount⟩ := counted hfirst .assignment
    have hwhole := (ih hrest).within (.comma hts) .nil (.token hcount rfl) rfl
    rw [Tree.tokensAt_assignment e.tree] at hwhole
    simp only [List.append_nil, List.append_assoc _ [_]] at hwhole
    exact hwhole

theorem Part.encloses (h : node.Part before least child after) (hw : node.isWritten = true)
    (hn : ∀ op operand ty, node ≠ .unary op operand ty) : ∃ place, Suits least place ∧
      Encloses before after (child.tree.tokensAt place) node.tree.tokens := by
  cases h with
  | fieldTarget target name =>
    obtain ⟨-, hname⟩ := Bool.and_eq_true_iff.1 hw
    have hword : Lexes name.toList [.word name] := .word (isWord_of_isValid hname)
    exact ⟨.primary, .primary, .first (.sign (by decide) hword) rfl⟩
  | indexTarget target position =>
    obtain ⟨-, hposition⟩ := Bool.and_eq_true_iff.1 hw
    obtain ⟨ts, hts, hcount⟩ := counted hposition .zero
    rw [Tree.tokensAt_assignment] at hcount
    have hclosed := hts.between (c := ']') (by decide) .nil
    exact ⟨.primary, .primary,
      .first (.sign (by decide) hclosed) (inner_cons_congr _ (inner_append_congr hcount _))⟩
  | position target position =>
    obtain ⟨htarget, -⟩ := Bool.and_eq_true_iff.1 hw
    obtain ⟨ts, hts, hcount⟩ := counted htarget .primary
    refine ⟨.assignment, .zero, _, _, _, _, .sign (c := '[') (by decide) hts,
      .sign (c := ']') (by decide) .nil, ?_, .token hcount rfl, rfl⟩
    rw [Tree.tokensAt_assignment]
    exact (List.append_assoc (target.tree.tokensAt .primary) [.sign '['] _).symm
  | callTarget target name args =>
    obtain ⟨hcall, hargs⟩ := Bool.and_eq_true_iff.1 hw
    obtain ⟨-, hname⟩ := Bool.and_eq_true_iff.1 hcall
    obtain ⟨ts, hts, hcount⟩ := (args_read _ hargs).counted
    have hword : Lexes name.toList [.word name] := .word (isWord_of_isValid hname)
    have hclosed := hword.between (c := '(') (by decide) (hts.between (c := ')') (by decide) .nil)
    have hsame := inner_append_congr hcount [.sign ')']
    exact ⟨.primary, .primary, .first (.sign (by decide) hclosed)
      (inner_cons_congr _ (inner_cons_congr _ (inner_cons_congr _ hsame)))⟩
  | arg target name ty h =>
    obtain ⟨hcall, hargs⟩ := Bool.and_eq_true_iff.1 hw
    obtain ⟨htarget, hname⟩ := Bool.and_eq_true_iff.1 hcall
    obtain ⟨ts, hts, hcount⟩ := counted htarget .primary
    have hword : Lexes name.toList [.word name] := .word (isWord_of_isValid hname)
    have hfront : Aligned (ts ++ [.sign '.']) (target.tree.tokensAt .primary ++ [.sign '.']) :=
      .token hcount rfl
    have hwhole := (h.encloses hargs).within
      (Precedes.append (.sign (by decide) hts) (.sign (c := '(') (by decide) hword))
      (.sign (c := ')') (by decide) .nil) (hfront.append (.refl _)) rfl
    simp only [List.append_assoc, List.cons_append, List.nil_append] at hwhole
    exact ⟨.assignment, .assignment, hwhole⟩
  | @ownArg name args ty _ _ _ h =>
    obtain ⟨hname, hargs⟩ := Bool.and_eq_true_iff.1 hw
    have hthis : Lexes "this".toList [.word "this"] := .word (by decide)
    have hword : Lexes name.toList [.word name] := .word (isWord_of_isValid hname)
    have hwhole := (h.encloses hargs).within
      (Precedes.append (.sign (c := '.') (by decide) hthis) (.sign (c := '(') (by decide) hword))
      (.sign (c := ')') (by decide) .nil) (.refl _) rfl
    have htree : (Expr.ownCall name args ty).tree.tokens = [.word "this"] ++
        .sign '.' :: .word name :: .sign '(' :: (Tree.argTokens (argTrees args) ++ [.sign ')']) :=
      congrArg (· ++ _) (Tree.tokensAt_level .this)
    simp only [List.append_assoc, List.cons_append, List.nil_append] at hwhole
    rw [htree, List.append_assoc]
    exact ⟨.assignment, .assignment, hwhole⟩
  | size size ty =>
    obtain ⟨-, hty⟩ := Bool.and_eq_true_iff.1 hw
    cases ty with
    | array element dims =>
      obtain ⟨-, helement⟩ := Bool.and_eq_true_iff.1 hty
      obtain ⟨name, hname, he⟩ := ElementName.of_created helement
      have hword : Lexes name.toList [.word name] := .word he.isWord
      have hbefore : Precedes ("new ".toList ++ element.chars ++ ['['])
          [.word "new", .word name, .sign '['] := by
        intro cs ts hcs
        rw [hname, List.append_assoc, List.append_assoc]
        exact (hword.between (by decide) hcs).new
      refine ⟨.assignment, .zero, _, _, _, _, hbefore,
        .sign (c := ']') (by decide) (.brackets (dims - 1)), ?_, .refl _, rfl⟩
      rw [Tree.tokensAt_assignment, ← he.ofList_chars]
      rfl
    | _ => cases hty
  | operand op _ ty => exact absurd rfl (hn op _ ty)
  | left op left right =>
    obtain ⟨-, hright⟩ := Bool.and_eq_true_iff.1 hw
    obtain ⟨ts, hts, hcount⟩ := counted hright (.right op)
    exact ⟨op.level, .left op, .first (.blank (.binaryOperator op hts)) (inner_cons_congr _ hcount)⟩
  | right op left right =>
    obtain ⟨hleft, -⟩ := Bool.and_eq_true_iff.1 hw
    obtain ⟨ts, hts, hcount⟩ := counted hleft (.left op)
    have hlast : Encloses _ [] (child.tree.tokensAt op.rightLevel) _ :=
      .last (.operator op hts) (.token hcount op.isParen_token)
    rw [List.append_assoc] at hlast
    exact ⟨op.rightLevel, .right op, hlast⟩
  | assigned target value =>
    obtain ⟨-, hvalue⟩ := Bool.and_eq_true_iff.1 hw
    obtain ⟨ts, hts, hcount⟩ := counted hvalue .assignment
    rw [Tree.tokensAt_assignment] at hcount
    exact ⟨.primary, .primary, .first (.blank (.assignment hts)) (inner_cons_congr _ hcount)⟩
  | value target value =>
    obtain ⟨htarget, -⟩ := Bool.and_eq_true_iff.1 hw
    obtain ⟨ts, hts, hcount⟩ := counted htarget .primary
    have hlast : Encloses _ [] child.tree.tokens _ :=
      .last (.assignment hts) (.token (t := .sign '=') hcount rfl)
    rw [List.append_assoc] at hlast
    refine ⟨.assignment, .assignment, ?_⟩
    rw [Tree.tokensAt_assignment]
    exact hlast

end Expr
end JavaSynth
