import JavaSynth.Proofs.Reading.Layout

set_option autoImplicit false

/-!
# Programs in a text

A field and a method are told apart after their names, and the methods of a class end at its
closing brace. The text of a program determines its outline.
-/
namespace JavaSynth

section Parts

variable {rest rest' : List Char}

theorem Ty.IsFlat.opens {t : Ty} (h : t.IsFlat) :
    ∃ c tail, t.chars = c :: tail ∧ isTypeChar c = true := by
  obtain ⟨c, tail, hc⟩ := List.exists_cons_of_ne_nil h.ne_nil
  refine ⟨c, tail, hc, h.typeText.chars c ?_⟩
  rw [hc]
  exact List.mem_cons_self

theorem ended_comma (tail : List Char) : Ended (", ".toList ++ tail) :=
  ended_cons (c := ',') (by decide)

theorem Binding.divides : Divides Binding.chars id Binding.Spelled Ended := by
  intro b b' rest rest' hb hb' hr hr' heq
  simp only [chars, List.append_assoc, List.cons_append] at heq
  obtain ⟨hty, hname, hrest⟩ := Ty.declared_split hb.ty hb'.ty hb.name hb'.name hr hr' heq
  cases b
  cases b'
  cases hty
  cases hname
  exact ⟨rfl, hrest⟩

theorem Binding.closes {c : Char} (hpart : Identifier.isPart c = false)
    (htype : isTypeChar c = false) : Closes Binding.chars Binding.Spelled Ended (c :: rest) := by
  refine ⟨ended_cons hpart, fun b tail hb heq => ?_⟩
  obtain ⟨d, more, hd, hchar⟩ := hb.ty.opens
  rw [Binding.chars, hd] at heq
  rw [(List.cons.inj heq).1, htype] at hchar
  cases hchar

theorem params_split {params params' : List Binding} (h : ∀ b ∈ params, b.Spelled)
    (h' : ∀ b ∈ params', b.Spelled)
    (heq : commaSeparated (params.map Binding.chars) ++ ')' :: rest =
      commaSeparated (params'.map Binding.chars) ++ ')' :: rest') :
    params = params' ∧ rest = rest' := by
  obtain ⟨hsame, hrest⟩ := Binding.divides.intercalate ended_comma h h'
    (Binding.closes (by decide) (by decide)) (Binding.closes (by decide) (by decide))
    (by simp) (by simp) heq
  simpa using And.intro hsame hrest

theorem names_divide : Divides String.toList id (Identifier.isValid · = true) Ended :=
  fun _ _ _ _ h h' hr hr' heq => name_split h h' hr hr' heq

theorem names_close : Closes String.toList (Identifier.isValid · = true) Ended (' ' :: rest) := by
  refine ⟨ended_cons (by decide), fun name tail hname heq => ?_⟩
  obtain ⟨c, more, hc, hne, -⟩ := (Phrase.name hname).opens
  rw [hc] at heq
  exact hne (List.cons.inj heq).1

theorem throws_split {m m' : Method} (h : ∀ n ∈ m.thrown, Identifier.isValid n = true)
    (h' : ∀ n ∈ m'.thrown, Identifier.isValid n = true)
    (heq : m.throwsClause ++ ' ' :: '\x7b' :: rest = m'.throwsClause ++ ' ' :: '\x7b' :: rest') :
    m.thrown = m'.thrown ∧ rest = rest' := by
  unfold Method.throwsClause at heq
  split at heq
  · rename_i hnone
    split at heq
    · rename_i hnone'
      rw [List.isEmpty_iff.1 hnone, List.isEmpty_iff.1 hnone']
      simpa using heq
    · exact absurd (List.cons.inj (List.cons.inj heq).2).1 (by decide)
  · split at heq
    · exact absurd (List.cons.inj (List.cons.inj heq).2).1 (by decide)
    · rw [List.append_assoc, List.append_assoc] at heq
      obtain ⟨hsame, hrest⟩ := names_divide.intercalate ended_comma h h' names_close names_close
        (by simp) (by simp) (List.append_cancel_left heq)
      simpa using And.intro hsame hrest

end Parts

namespace Method

variable {m m' : Method} {rest rest' : List Char}

def staticChars (m : Method) : List Char := if m.isStatic then "static ".toList else []

theorem modifiers_eq (m : Method) : m.modifiers = "public ".toList ++ m.staticChars := by
  unfold modifiers staticChars
  split <;> rfl

theorem chars_append (m : Method) (rest : List Char) : m.chars ++ rest =
    margin 1 ++ ("public ".toList ++ (m.staticChars ++ (m.returns.chars ++ ' ' ::
      (m.name.toList ++ '(' :: (commaSeparated (m.params.map Binding.chars) ++ ')' ::
        (m.throwsClause ++ ' ' :: '\x7b' :: '\n' :: (Stmt.lines (m.body.getD []) (1 + 1) ++
          (margin 1 ++ '\x7d' :: '\n' :: rest)))))))) := by
  simp [chars, modifiers_eq, Stmt.chars_block]

theorem static_ne_type {t : Ty} (h : t.IsFlat) (cs : List Char) :
    "static ".toList ++ cs ≠ t.chars ++ ' ' :: rest := by
  intro heq
  have hword : "static".toList ++ ' ' :: cs = t.chars ++ ' ' :: rest := heq
  have hsplit := first_split (by decide) h.blank_not_mem hword
  exact h.ne_word "static" (by decide) hsplit.1.symm

theorem static_split (h : m.returns.IsFlat) (h' : m'.returns.IsFlat)
    (heq : m.staticChars ++ (m.returns.chars ++ ' ' :: rest) =
      m'.staticChars ++ (m'.returns.chars ++ ' ' :: rest')) :
    m.isStatic = m'.isStatic ∧
      m.returns.chars ++ ' ' :: rest = m'.returns.chars ++ ' ' :: rest' := by
  unfold staticChars at heq
  cases hs : m.isStatic <;> cases hs' : m'.isStatic <;> rw [hs, hs'] at heq
  · exact ⟨rfl, heq⟩
  · exact absurd heq.symm (static_ne_type h _)
  · exact absurd heq (static_ne_type h' _)
  · exact ⟨rfl, List.append_cancel_left heq⟩

theorem divides : Divides chars outline Spelled fun _ => True := by
  intro m m' rest rest' h h' _ _ heq
  rw [chars_append, chars_append] at heq
  obtain ⟨hstatic, hreturns⟩ := static_split h.returns h'.returns
    (List.append_cancel_left (List.append_cancel_left heq))
  obtain ⟨htype, hname, hafter⟩ := Ty.declared_split h.returns h'.returns h.name h'.name
    (ended_cons (by decide)) (ended_cons (by decide)) hreturns
  obtain ⟨hparams, hthrows⟩ := params_split h.params h'.params (List.cons.inj hafter).2
  obtain ⟨hthrown, hblock⟩ := throws_split h.thrown h'.thrown hthrows
  obtain ⟨hbody, hend⟩ :=
    Stmt.linesSplit _ h.body _ 1 _ _ h'.body (List.cons.inj hblock).2
  exact ⟨by rw [outline, outline, hname, htype, hparams, hthrown, hstatic, hbody],
    (List.cons.inj hend).2⟩

end Method

namespace ClassDecl

variable {rest rest' : List Char}

/-- What the fields and the methods of a class have between them. -/
def gap (c : ClassDecl) : List Char :=
  if c.fields.isEmpty then [] else if c.methods.isEmpty then [] else ['\n']

def methodChars (c : ClassDecl) : List Char :=
  c.gap ++ (['\n'].intercalate (c.methods.map Method.chars) ++ ['\x7d', '\n'])

theorem chars_append (c : ClassDecl) (rest : List Char) : c.chars ++ rest =
    "class ".toList ++ (c.name.toList ++ ' ' :: '\x7b' :: '\n' ::
      ((c.fields.map fieldChars).flatten ++ (c.methodChars ++ rest))) := by
  unfold chars methodChars gap
  simp only [List.append_assoc]
  rfl

theorem fieldChars_append (f : Binding) (rest : List Char) : fieldChars f ++ rest =
    margin 1 ++ ("public ".toList ++ (f.chars ++ ';' :: '\n' :: rest)) := by
  simp only [fieldChars, List.append_assoc]
  rfl

theorem fields_divide : Divides fieldChars id Binding.Spelled fun _ => True := by
  intro f f' rest rest' h h' _ _ heq
  rw [fieldChars_append, fieldChars_append] at heq
  obtain ⟨hsame, hrest⟩ := Binding.divides f f' _ _ h h' (ended_cons (by decide))
    (ended_cons (by decide)) (List.append_cancel_left (List.append_cancel_left heq))
  exact ⟨hsame, (List.cons.inj (List.cons.inj hrest).2).2⟩

theorem field_ne_method {f : Binding} {m : Method} (h : f.Spelled) (hm : m.Spelled) :
    fieldChars f ++ rest ≠ m.chars ++ rest' := by
  intro heq
  rw [fieldChars_append, Method.chars_append, Binding.chars, List.append_assoc,
    List.cons_append] at heq
  have hdeclared := List.append_cancel_left (List.append_cancel_left heq)
  unfold Method.staticChars at hdeclared
  -- both declare a name, and then a field has a semicolon where a method has its parameters
  split at hdeclared
  · exact Method.static_ne_type h.ty _ hdeclared.symm
  · obtain ⟨-, -, hafter⟩ := Ty.declared_split h.ty hm.returns h.name hm.name
      (ended_cons (by decide)) (ended_cons (by decide)) hdeclared
    exact absurd (List.cons.inj hafter).1 (by decide)

theorem methods_close : Closes Method.chars Method.Spelled (fun _ => True) ('\x7d' :: rest) := by
  refine ⟨trivial, fun m tail _ heq => ?_⟩
  rw [Method.chars_append] at heq
  exact absurd (List.cons.inj heq).1 (by decide)

theorem methodChars_nil {c : ClassDecl} (h : c.methods = []) :
    c.methodChars = ['\x7d', '\n'] := by
  unfold methodChars gap
  rw [h]
  simp

theorem methodChars_cons {c : ClassDecl} {m : Method} {ms : List Method}
    (h : c.methods = m :: ms) : ∃ tail, c.methodChars = c.gap ++ (m.chars ++ tail) ∧
      (c.gap = [] ∨ c.gap = ['\n']) := by
  unfold methodChars
  rw [h, List.map_cons, intercalate_cons_eq, List.append_assoc]
  refine ⟨_, rfl, ?_⟩
  unfold gap
  split_ifs <;> simp

theorem fields_close {c : ClassDecl} (h : c.Spelled) :
    Closes fieldChars Binding.Spelled (fun _ => True) (c.methodChars ++ rest) := by
  refine ⟨trivial, fun f tail hf heq => ?_⟩
  cases hm : c.methods with
  | nil =>
    rw [methodChars_nil hm, fieldChars_append] at heq
    exact absurd (List.cons.inj heq).1 (by decide)
  | cons m ms =>
    obtain ⟨more, hmore, hgap⟩ := methodChars_cons hm
    rw [hmore, List.append_assoc, List.append_assoc] at heq
    rcases hgap with hnone | hline
    · rw [hnone] at heq
      exact field_ne_method hf (h.methods m (hm ▸ List.mem_cons_self)) heq
    · rw [hline, fieldChars_append] at heq
      exact absurd (List.cons.inj heq).1 (by decide)

theorem nil_ne_methodChars {c : ClassDecl} {m : Method} {ms : List Method}
    (h : c.methods = m :: ms) : ['\x7d', '\n'] ++ rest ≠ c.methodChars ++ rest' := by
  intro heq
  obtain ⟨more, hmore, hgap⟩ := methodChars_cons h
  rw [hmore, List.append_assoc, List.append_assoc] at heq
  rcases hgap with hnone | hline
  · rw [hnone, Method.chars_append] at heq
    exact absurd (List.cons.inj heq).1 (by decide)
  · rw [hline] at heq
    exact absurd (List.cons.inj heq).1 (by decide)

theorem methods_split {c c' : ClassDecl} (h : c.Spelled) (h' : c'.Spelled)
    (hf : c.fields = c'.fields) (heq : c.methodChars ++ rest = c'.methodChars ++ rest') :
    c.methods.map Method.outline = c'.methods.map Method.outline ∧ rest = rest' := by
  -- the fields agree by now, so the blank line is there in both as soon as both have methods
  have hgap : c.gap = c'.gap := by
    unfold gap
    cases hm : c.methods with
    | nil =>
      cases hm' : c'.methods with
      | nil => rw [hf]
      | cons m ms =>
        rw [methodChars_nil hm] at heq
        exact absurd heq (nil_ne_methodChars hm')
    | cons m ms =>
      cases hm' : c'.methods with
      | nil =>
        rw [methodChars_nil hm'] at heq
        exact absurd heq.symm (nil_ne_methodChars hm)
      | cons m' ms' => rw [hf]; rfl
  simp only [methodChars, hgap, List.append_assoc, List.append_cancel_left_eq, List.cons_append,
    List.nil_append] at heq
  obtain ⟨hsame, hend⟩ := Method.divides.intercalate (fun _ => trivial) h.methods h'.methods
    methods_close methods_close (by simp) (by simp) heq
  exact ⟨hsame, (List.cons.inj (List.cons.inj hend).2).2⟩

theorem divides : Divides chars outline Spelled fun _ => True := by
  intro c c' rest rest' h h' _ _ heq
  rw [chars_append, chars_append] at heq
  obtain ⟨hname, hbody⟩ := name_split h.name h'.name (ended_cons (by decide))
    (ended_cons (by decide)) (List.append_cancel_left heq)
  simp only [List.cons.injEq, true_and] at hbody
  obtain ⟨hfields, hafter⟩ := fields_divide.flatten (fun _ _ _ => trivial) h.fields h'.fields
    (fields_close h) (fields_close h') hbody
  rw [List.map_id, List.map_id] at hfields
  obtain ⟨hmethods, hrest⟩ := methods_split h h' hfields hafter
  exact ⟨by rw [outline, outline, hname, hfields, hmethods], hrest⟩

theorem closes_nil : Closes chars Spelled (fun _ => True) [] := by
  refine ⟨trivial, fun c tail _ heq => ?_⟩
  rw [chars_append] at heq
  exact absurd heq (by simp)

end ClassDecl

/-- Programs have the same text if and only if they have the same outline. -/
theorem Program.render_eq_iff {p q : Program} (hp : p.Spelled) (hq : q.Spelled) :
    p.render = q.render ↔ p.outline = q.outline := by
  constructor
  · intro h
    have hchars : p.chars ++ [] = q.chars ++ [] := by
      rw [String.ofList_inj.1 h]
    exact (ClassDecl.divides.intercalate (fun _ => trivial) hp hq ClassDecl.closes_nil
      ClassDecl.closes_nil (by simp) (by simp) hchars).1
  · intro h
    rw [render, render, chars_congr h]

def Program.ofStmt (a : Stmt) : Program :=
  { classes := [{
      name := "Node"
      methods := [{ name := "walk", returns := .void, body := some [a] }] }] }

theorem Program.spelled_ofStmt {a : Stmt} (h : a.Spelled) : (ofStmt a).Spelled := by
  have hclass : Identifier.isValid "Node" = true := by decide
  have hmethod : Identifier.isValid "walk" = true := by decide
  refine List.forall_mem_singleton.2 ⟨hclass, List.forall_mem_nil _, ?_⟩
  refine List.forall_mem_singleton.2 ⟨hmethod, trivial, ?_, ?_, h, trivial⟩
  · exact List.forall_mem_nil _
  · exact List.forall_mem_nil _

/-- An absent branch, an empty statement and an empty block are told apart. -/
theorem Program.render_ne_branches :
    (ofStmt (.elseOnly (.this .boolean) .empty)).render ≠
        (ofStmt (.ifElse (.this .boolean) .empty .empty)).render ∧
      (ofStmt (.elseOnly (.this .boolean) .empty)).render ≠
        (ofStmt (.ifElse (.this .boolean) (.block []) .empty)).render ∧
      (ofStmt (.ifElse (.this .boolean) .empty .empty)).render ≠
        (ofStmt (.ifElse (.this .boolean) (.block []) .empty)).render := by
  have hthis : (Expr.this .boolean).Spelled := List.forall_mem_singleton.2 trivial
  have hapart {a b : Stmt} (ha : a.Spelled) (hb : b.Spelled) (hne : a.outline ≠ b.outline) :
      (ofStmt a).render ≠ (ofStmt b).render := by
    intro heq
    have houtline := (render_eq_iff (spelled_ofStmt ha) (spelled_ofStmt hb)).1 heq
    simp [outline, ofStmt, ClassDecl.outline, Method.outline, Stmt.outlines, hne] at houtline
  have hguarded (s : Stmt) :
      (Stmt.elseOnly (.this .boolean) .empty).outline ≠
        (Stmt.ifElse (.this .boolean) s .empty).outline := by
    simp only [Stmt.outline, ne_eq, reduceCtorEq, not_false_eq_true]
  refine ⟨hapart ⟨hthis, trivial⟩ ⟨hthis, trivial, trivial⟩ (hguarded .empty),
    hapart ⟨hthis, trivial⟩ ⟨hthis, trivial, trivial⟩ (hguarded (.block [])),
    hapart ⟨hthis, trivial, trivial⟩ ⟨hthis, trivial, trivial⟩ fun h => ?_⟩
  simp [Stmt.outline] at h

end JavaSynth
