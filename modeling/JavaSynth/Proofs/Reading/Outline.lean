import JavaSynth.Proofs.Reading.Phrase

set_option autoImplicit false

/-!
# Outlines

What can be read off the text of a program: its declarations and statements as they are, with the
texts of expressions in place of the expressions. A method without a body is read as one with an
empty body. Programs with the same outline have the same text.
-/
namespace JavaSynth

/-- A statement with the texts of its expressions. -/
inductive Outline where
  | empty
  | declare (name : String) (ty : Ty) (init : Option String)
  | ifElse (condition : String) (thenBranch elseBranch : Outline)
  | elseOnly (condition : String) (elseBranch : Outline)
  | loop (condition : String) (body : Outline)
  | eval (text : String)
  | ret (value : Option String)
  | block (body : List Outline)

structure MethodOutline where
  name : String
  returns : Ty
  params : List Binding
  thrown : List String
  isStatic : Bool
  body : List Outline

structure ClassOutline where
  name : String
  fields : List Binding
  methods : List MethodOutline

namespace Stmt

mutual

def outline : Stmt → Outline
  | empty => .empty
  | declare name ty init => .declare name ty (init.map Expr.render)
  | ifElse condition thenBranch elseBranch =>
    .ifElse condition.render thenBranch.outline elseBranch.outline
  | elseOnly condition elseBranch => .elseOnly condition.render elseBranch.outline
  | loop condition body => .loop condition.render body.outline
  | eval e => .eval e.render
  | ret value => .ret (value.map Expr.render)
  | block body => .block (outlines body)

def outlines : List Stmt → List Outline
  | [] => []
  | a :: rest => a.outline :: outlines rest

end

mutual

/-- Names are identifiers and types can be written, in the expressions too. -/
def Spelled : Stmt → Prop
  | empty => True
  | declare name ty init =>
    Identifier.isValid name = true ∧ ty.IsFlat ∧ ∀ e, init = some e → e.Spelled
  | ifElse condition thenBranch elseBranch =>
    condition.Spelled ∧ thenBranch.Spelled ∧ elseBranch.Spelled
  | elseOnly condition elseBranch => condition.Spelled ∧ elseBranch.Spelled
  | loop condition body => condition.Spelled ∧ body.Spelled
  | eval e => e.Spelled
  | ret value => ∀ e, value = some e → e.Spelled
  | block body => AllSpelled body

def AllSpelled : List Stmt → Prop
  | [] => True
  | a :: rest => a.Spelled ∧ AllSpelled rest

end

end Stmt

structure Binding.Spelled (b : Binding) : Prop where
  name : Identifier.isValid b.name = true
  ty : b.ty.IsFlat

structure Method.Spelled (m : Method) : Prop where
  name : Identifier.isValid m.name = true
  returns : m.returns.IsFlat
  params : ∀ b ∈ m.params, b.Spelled
  thrown : ∀ n ∈ m.thrown, Identifier.isValid n = true
  body : Stmt.AllSpelled (m.body.getD [])

structure ClassDecl.Spelled (c : ClassDecl) : Prop where
  name : Identifier.isValid c.name = true
  fields : ∀ f ∈ c.fields, f.Spelled
  methods : ∀ m ∈ c.methods, m.Spelled

def Program.Spelled (p : Program) : Prop := ∀ c ∈ p.classes, c.Spelled

def Method.outline (m : Method) : MethodOutline :=
  { name := m.name
    returns := m.returns
    params := m.params
    thrown := m.thrown
    isStatic := m.isStatic
    body := Stmt.outlines (m.body.getD []) }

def ClassDecl.outline (c : ClassDecl) : ClassOutline :=
  { name := c.name, fields := c.fields, methods := c.methods.map Method.outline }

def Program.outline (p : Program) : List ClassOutline := p.classes.map ClassDecl.outline

namespace Expr

variable {e e' : Expr}

theorem precedence_pos (e : Expr) : 1 ≤ e.precedence := by
  rw [← e.level_rank]
  cases e.level <;> decide

theorem charsAt_eq {least : Nat} (h : least ≤ 1) (e : Expr) : e.charsAt least = e.chars := by
  have hpos := e.precedence_pos
  unfold charsAt guarded
  exact if_neg (by omega)

@[simp] theorem charsAt_zero (e : Expr) : e.charsAt 0 = e.chars := charsAt_eq (Nat.zero_le 1) e

@[simp] theorem charsAt_assign (e : Expr) : e.charsAt assignPrecedence = e.chars :=
  charsAt_eq (Nat.le_refl 1) e

theorem render_inj : e.render = e'.render ↔ e.chars = e'.chars := by
  simp [render, String.ofList_inj]

end Expr

namespace Stmt

/-- An expression that may be missing, with `intro` before it, and the end of the statement. -/
def ending (intro : List Char) : Option Expr → List Char
  | none => [';']
  | some e => intro ++ (e.chars ++ [';'])

section Equations

variable (condition : Expr) (a b : Stmt) (level : Nat)

theorem chars_declare (name : String) (ty : Ty) (init : Option Expr) :
    (declare name ty init).chars level =
      ty.chars ++ ' ' :: (name.toList ++ ending " = ".toList init) := by
  cases init with
  | none => rfl
  | some e =>
    change ty.chars ++ ' ' :: (name.toList ++ " = ".toList ++ e.charsAt Expr.assignPrecedence ++
      [';']) = _
    simp [ending]

theorem chars_ifElse : (ifElse condition a b).chars level =
    "if (".toList ++ (condition.chars ++ ')' :: (a.branch level a.chars ++
      (elseChars level a.isBlock ++ b.branch level b.chars))) := by
  change "if (".toList ++ condition.charsAt 0 ++ ')' ::
    (a.branch level a.chars ++ elseChars level a.isBlock ++ b.branch level b.chars) = _
  simp

theorem chars_elseOnly : (elseOnly condition b).chars level =
    "if (".toList ++ (condition.chars ++ ')' :: (" ;".toList ++
      (elseChars level false ++ b.branch level b.chars))) := by
  change "if (".toList ++ condition.charsAt 0 ++ ") ;".toList ++ elseChars level false ++
    b.branch level b.chars = _
  simp

theorem chars_loop : (loop condition a).chars level =
    "while (".toList ++ (condition.chars ++ ')' :: a.branch level a.chars) := by
  change "while (".toList ++ condition.charsAt 0 ++ ')' :: a.branch level a.chars = _
  simp

theorem chars_eval (e : Expr) : (eval e).chars level = e.chars ++ [';'] := by
  change e.charsAt 0 ++ [';'] = _
  simp

theorem chars_ret (value : Option Expr) :
    (ret value).chars level = "return".toList ++ ending " ".toList value := by
  cases value with
  | none => rfl
  | some e =>
    change "return ".toList ++ e.charsAt 0 ++ [';'] = _
    simp [ending]

theorem chars_block (body : List Stmt) : (block body).chars level =
    '\x7b' :: '\n' :: (lines body (level + 1) ++ (margin level ++ ['\x7d'])) := by
  change "\x7b\n".toList ++ lines body (level + 1) ++ margin level ++ ['\x7d'] = _
  simp

theorem lines_cons (rest : List Stmt) :
    lines (a :: rest) level = margin level ++ (a.chars level ++ '\n' :: lines rest level) := by
  change margin level ++ a.chars level ++ '\n' :: lines rest level = _
  simp

end Equations

theorem outline_isBlock {a b : Stmt} (h : a.outline = b.outline) : a.isBlock = b.isBlock := by
  cases a <;> cases b <;> first | rfl | cases h

theorem branch_congr {a b : Stmt} (h : a.outline = b.outline)
    (hc : ∀ level, a.chars level = b.chars level) (level : Nat) :
    a.branch level a.chars = b.branch level b.chars := by
  unfold branch
  rw [outline_isBlock h, hc, hc]

theorem ending_congr {value value' : Option Expr} (intro : List Char)
    (h : value.map Expr.render = value'.map Expr.render) :
    ending intro value = ending intro value' := by
  cases value <;> cases value' <;> simp_all [ending, Expr.render_inj]

mutual

theorem chars_congr (a b : Stmt) (h : a.outline = b.outline) (level : Nat) :
    a.chars level = b.chars level := by
  cases a with
  | empty =>
    cases b with
    | empty => rfl
    | _ => cases h
  | declare name ty init =>
    cases b with
    | declare name' ty' init' =>
      injection h with hname hty hinit
      rw [chars_declare, chars_declare, hname, hty, ending_congr _ hinit]
    | _ => cases h
  | ifElse condition thenBranch elseBranch =>
    cases b with
    | ifElse condition' thenBranch' elseBranch' =>
      injection h with hcondition hthen helse
      rw [chars_ifElse, chars_ifElse, Expr.render_inj.1 hcondition, outline_isBlock hthen,
        branch_congr hthen (chars_congr _ _ hthen), branch_congr helse (chars_congr _ _ helse)]
    | _ => cases h
  | elseOnly condition elseBranch =>
    cases b with
    | elseOnly condition' elseBranch' =>
      injection h with hcondition helse
      rw [chars_elseOnly, chars_elseOnly, Expr.render_inj.1 hcondition,
        branch_congr helse (chars_congr _ _ helse)]
    | _ => cases h
  | loop condition body =>
    cases b with
    | loop condition' body' =>
      injection h with hcondition hbody
      rw [chars_loop, chars_loop, Expr.render_inj.1 hcondition,
        branch_congr hbody (chars_congr _ _ hbody)]
    | _ => cases h
  | eval e =>
    cases b with
    | eval e' =>
      injection h with he
      rw [chars_eval, chars_eval, Expr.render_inj.1 he]
    | _ => cases h
  | ret value =>
    cases b with
    | ret value' =>
      injection h with hvalue
      rw [chars_ret, chars_ret, ending_congr _ hvalue]
    | _ => cases h
  | block body =>
    cases b with
    | block body' =>
      injection h with hbody
      rw [chars_block, chars_block, lines_congr _ _ hbody]
    | _ => cases h

theorem lines_congr (as bs : List Stmt) (h : outlines as = outlines bs) (level : Nat) :
    lines as level = lines bs level := by
  cases as with
  | nil =>
    cases bs with
    | nil => rfl
    | cons => cases h
  | cons a as =>
    cases bs with
    | nil => cases h
    | cons b bs =>
      injection h with ha has
      rw [lines_cons, lines_cons, chars_congr a b ha, lines_congr as bs has]

end

end Stmt

theorem map_congr_of_map {α β γ : Type} {view : α → β} {enc : α → γ}
    (h : ∀ a b, view a = view b → enc a = enc b) {as bs : List α}
    (hmap : as.map view = bs.map view) : as.map enc = bs.map enc := by
  induction as generalizing bs with
  | nil =>
    cases bs with
    | nil => rfl
    | cons => cases hmap
  | cons a as ih =>
    cases bs with
    | nil => cases hmap
    | cons b bs =>
      injection hmap with hfirst hrest
      rw [List.map_cons, List.map_cons, h a b hfirst, ih hrest]

theorem Method.chars_congr {m m' : Method} (h : m.outline = m'.outline) : m.chars = m'.chars := by
  injection h with hname hreturns hparams hthrown hstatic hbody
  have hblock := Stmt.chars_congr (.block _) (.block _) (congrArg Outline.block hbody) 1
  unfold chars modifiers throwsClause
  rw [hname, hreturns, hparams, hthrown, hstatic, hblock]

theorem ClassDecl.chars_congr {c c' : ClassDecl} (h : c.outline = c'.outline) :
    c.chars = c'.chars := by
  injection h with hname hfields hmethods
  have hempty : c.methods.isEmpty = c'.methods.isEmpty := by
    rw [← List.isEmpty_map, hmethods, List.isEmpty_map]
  unfold chars
  rw [hname, hfields, hempty, map_congr_of_map (fun _ _ => Method.chars_congr) hmethods]

theorem Program.chars_congr {p q : Program} (h : p.outline = q.outline) : p.chars = q.chars := by
  unfold chars
  rw [map_congr_of_map (fun _ _ => ClassDecl.chars_congr) h]

end JavaSynth
