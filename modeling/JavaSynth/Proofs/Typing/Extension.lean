import JavaSynth.Proofs.Generate.Filling
import JavaSynth.Proofs.Typing.Judgement

set_option autoImplicit false

/-!
# Typing under a finished table

Bodies are made against the planned classes and belong to a program whose classes have bodies and
an entry point besides. A finished table keeps every class, field and signature, so whatever is
well typed against the plan is well typed against the program.
-/
namespace JavaSynth

/-- The methods have the same signature and answer the same objects. -/
structure Method.Keeps (m m' : Method) : Prop where
  name : m'.name = m.name
  params : m'.params = m.params
  returns : m'.returns = m.returns
  isStatic : m'.isStatic = m.isStatic

/-- The second class has the fields of the first, and new methods after those of the first. -/
structure ClassDecl.Keeps (c c' : ClassDecl) : Prop where
  name : c'.name = c.name
  fields : c'.fields = c.fields
  methods : ∃ kept added, c'.methods = kept ++ added ∧ List.Forall₂ Method.Keeps c.methods kept

/-- Class by class, the second table keeps the first. -/
abbrev Finishes (classes classes' : List ClassDecl) : Prop :=
  List.Forall₂ ClassDecl.Keeps classes classes'

section Lookup

theorem find?_of_forall₂ {α : Type} {test : α → Bool} {rel : α → α → Prop}
    {items items' : List α} (htest : ∀ a a', rel a a' → test a' = test a)
    (h : List.Forall₂ rel items items') {a : α} (hf : items.find? test = some a) :
    ∃ a', items'.find? test = some a' ∧ rel a a' := by
  induction h with
  | nil => cases hf
  | @cons b b' rest rest' hb _ ih =>
    by_cases hpos : test b = true
    · rw [List.find?_cons_of_pos hpos, Option.some.injEq] at hf
      subst hf
      rw [← htest b b' hb] at hpos
      exact ⟨b', List.find?_cons_of_pos hpos, hb⟩
    · rw [List.find?_cons_of_neg hpos] at hf
      rw [← htest b b' hb] at hpos
      rw [List.find?_cons_of_neg hpos]
      exact ih hf

variable {classes classes' : List ClassDecl}

theorem Finishes.find? (h : Finishes classes classes') {name : String} {c : ClassDecl}
    (hc : ClassDecl.find? classes name = some c) :
    ∃ c', ClassDecl.find? classes' name = some c' ∧ c.Keeps c' :=
  find?_of_forall₂ (fun _ _ hk => by rw [hk.name]) h hc

theorem ClassDecl.Keeps.field? {c c' : ClassDecl} (h : c.Keeps c') {name : String} {f : Binding}
    (hf : c.field? name = some f) : c'.field? name = some f := by
  unfold ClassDecl.field? at hf ⊢
  rwa [h.fields]

theorem ClassDecl.Keeps.method? {c c' : ClassDecl} (h : c.Keeps c') {name : String} {m : Method}
    (hm : c.method? name = some m) : ∃ m', c'.method? name = some m' ∧ m.Keeps m' := by
  obtain ⟨kept, added, heq, hkept⟩ := h.methods
  obtain ⟨m', hm', hsame⟩ := find?_of_forall₂ (fun _ _ hk => by rw [Method.Keeps.name hk]) hkept hm
  refine ⟨m', ?_, hsame⟩
  rw [ClassDecl.method?, heq, List.find?_append, hm', Option.some_or]

theorem Ty.Known.finish (h : Finishes classes classes') {t : Ty} (ht : t.Known classes) :
    t.Known classes' := by
  induction t with
  | int => trivial
  | boolean => trivial
  | void => exact ht
  | named name =>
    obtain ⟨c, hc⟩ := Option.isSome_iff_exists.1 ht
    obtain ⟨c', hc', -⟩ := h.find? hc
    exact Option.isSome_iff_exists.2 ⟨c', hc'⟩
  | array element dims ih => exact ⟨ht.1, ht.2.1, ih ht.2.2⟩

theorem Ty.Returnable.finish (h : Finishes classes classes') {t : Ty}
    (ht : t.Returnable classes) : t.Returnable classes' :=
  ht.imp_right (Ty.Known.finish h)

theorem Env.self?_finish {Γ : Env} (h : Finishes Γ.classes classes') {c : ClassDecl}
    (hc : Γ.self? = some c) : ∃ c', Env.self? { Γ with classes := classes' } = some c' ∧
      c.Keeps c' := by
  obtain ⟨name, hname, hfind⟩ := Option.bind_eq_some_iff.1 hc
  obtain ⟨c', hc', hk⟩ := h.find? hfind
  exact ⟨c', by simp only [Env.self?, hname, Option.bind_some, hc'], hk⟩

end Lookup

variable {Γ : Env} {classes' : List ClassDecl}

theorem HasType.finish (h : Finishes Γ.classes classes') {e : Expr} {t : Ty}
    (he : HasType Γ e t) : HasType { Γ with classes := classes' } e t := by
  induction he with
  | int v => exact .int v
  | boolean b => exact .boolean b
  | null ht hr => exact .null (ht.finish h) hr
  | localVariable hb => exact .localVariable hb
  | parameter hb => exact .parameter hb
  | ownField hc hf =>
    obtain ⟨c', hc', hk⟩ := Env.self?_finish h hc
    exact .ownField hc' (hk.field? hf)
  | field _ hc hf ih =>
    obtain ⟨c', hc', hk⟩ := h.find? hc
    exact .field ih hc' (hk.field? hf)
  | index _ ha _ iht ihp => exact .index iht ha ihp
  | ownCall hc hm hs hl _ ih =>
    obtain ⟨c', hc', hk⟩ := Env.self?_finish h hc
    obtain ⟨m', hm', hsame⟩ := hk.method? hm
    rw [← hsame.returns]
    rw [← hsame.params] at hl ih
    exact .ownCall hc' hm' (hsame.isStatic.trans hs) hl ih
  | call _ hc hm hs hl _ iht ih =>
    obtain ⟨c', hc', hk⟩ := h.find? hc
    obtain ⟨m', hm', hsame⟩ := hk.method? hm
    rw [← hsame.returns]
    rw [← hsame.params] at hl ih
    exact .call iht hc' hm' (hsame.isStatic.trans hs) hl ih
  | this hr => exact .this hr
  | newObject hk => exact .newObject (hk.finish h)
  | newArray hk _ ih => exact .newArray (hk.finish h) ih
  | neg _ ih => exact .neg ih
  | not _ ih => exact .not ih
  | logic hop _ _ ihl ihr => exact .logic hop ihl ihr
  | equality hop hk _ _ ihl ihr => exact .equality hop (hk.finish h) ihl ihr
  | comparison hop _ _ ihl ihr => exact .comparison hop ihl ihr
  | arithmetic hop _ _ ihl ihr => exact .arithmetic hop ihl ihr
  | assign hl hk _ _ iht ihv => exact .assign hl (hk.finish h) iht ihv

theorem Body.finish {returns : Ty} {body : List Stmt} (hb : Body returns Γ body)
    (h : Finishes Γ.classes classes') : Body returns { Γ with classes := classes' } body := by
  induction hb with
  | nil => exact .nil
  | empty _ ih => exact .empty (ih h)
  | declare hn ht hi _ ih =>
    exact .declare hn (ht.finish h) (fun e he => (hi e he).finish h) (ih h)
  | ifElse hc hne hbt _ hbe _ _ iht ihe ih =>
    exact .ifElse (hc.finish h) hne hbt (iht h) hbe (ihe h) (ih h)
  | elseOnly hc hbe _ _ ihe ih => exact .elseOnly (hc.finish h) hbe (ihe h) (ih h)
  | loop hc hbb _ _ ihb ih => exact .loop (hc.finish h) hbb (ihb h) (ih h)
  | eval hk he _ ih => exact .eval hk (he.finish h) (ih h)
  | retNothing hv _ ih => exact .retNothing hv (ih h)
  | ret he _ ih => exact .ret (he.finish h) (ih h)
  | block _ _ ihb ih => exact .block (ihb h) (ih h)

end JavaSynth
