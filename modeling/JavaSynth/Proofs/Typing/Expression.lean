import JavaSynth.Draw.Stream
import JavaSynth.Proofs.Generate.ExprGrammar
import JavaSynth.Proofs.Naming.Distinct
import JavaSynth.Proofs.Typing.Judgement

set_option autoImplicit false

/-!
# Generated expressions are well typed

In a table of distinct and known declarations, every layer gives an expression of exactly the
requested type. The primary layer alone may give another type; that its node is well typed at its
own type is what the access chain starts from.
-/
namespace JavaSynth

/-- A table of classes that programs can be typed against. -/
structure Table (classes : List ClassDecl) : Prop where
  names_nodup : (classes.map (·.name)).Nodup
  fields_nodup : ∀ c ∈ classes, (c.fields.map (·.name)).Nodup
  methods_nodup : ∀ c ∈ classes, (c.methods.map (·.name)).Nodup
  fields_known : ∀ c ∈ classes, ∀ f ∈ c.fields, f.ty.Known classes
  returns_known : ∀ c ∈ classes, ∀ m ∈ c.methods, m.returns.Returnable classes
  params_known : ∀ c ∈ classes, ∀ m ∈ c.instanceMethods, ∀ p ∈ m.params, p.ty.Known classes

namespace Scope

def env (classes : List ClassDecl) (s : Scope) : Env :=
  { classes, receiver := s.receiver.map (·.name), params := s.params, locals := s.locals }

/-- What the scope sees is declared once and has a known type. -/
structure Sound (classes : List ClassDecl) (s : Scope) : Prop where
  locals_nodup : (s.locals.map (·.name)).Nodup
  params_nodup : (s.params.map (·.name)).Nodup
  locals_known : ∀ b ∈ s.locals, b.ty.Known classes
  params_known : ∀ b ∈ s.params, b.ty.Known classes
  receiver_mem : ∀ c, s.receiver = some c → c ∈ classes

theorem Sound.deeper {classes : List ClassDecl} {s : Scope} (h : s.Sound classes) :
    s.deeper.Sound classes :=
  ⟨h.locals_nodup, h.params_nodup, h.locals_known, h.params_known, h.receiver_mem⟩

end Scope

namespace Ty

variable {classes : List ClassDecl} {t t' : Ty}

theorem Known.arrayOf (h : t.Known classes) (harr : t.isArray = false) (n : Nat) :
    (t.arrayOf n).Known classes := by
  by_cases hn : n = 0
  · subst hn
    exact h
  · rw [arrayOf_eq_array harr hn]
    exact ⟨by omega, harr, h⟩

theorem Wrapped.known {bases : List Ty} {p : Double} {limit : Nat}
    (hb : ∀ b ∈ bases, b.isArray = false ∧ b.Known classes) (h : t.Wrapped bases p limit) :
    t.Known classes := by
  obtain ⟨b, hmem, d, -, rfl, -⟩ := h
  exact (hb b hmem).2.arrayOf (hb b hmem).1 d

end Ty

namespace HasType

variable {Γ : Env} {e : Expr} {t : Ty}

/-- A node carries the type that it has. -/
theorem ty_eq (h : HasType Γ e t) : e.ty = t := by
  cases h <;> rfl

theorem at_own (h : HasType Γ e t) : HasType Γ e e.ty := by
  rw [h.ty_eq]
  exact h

end HasType

section Table

variable {classes : List ClassDecl} {s : Scope}

theorem Table.find?_eq (ht : Table classes) {c : ClassDecl} (hc : c ∈ classes) :
    ClassDecl.find? classes c.name = some c :=
  find?_eq_some_of_nodup ClassDecl.name ht.names_nodup hc

theorem Table.field?_eq (ht : Table classes) {c : ClassDecl} {f : Binding} (hc : c ∈ classes)
    (hf : f ∈ c.fields) : c.field? f.name = some f :=
  find?_eq_some_of_nodup Binding.name (ht.fields_nodup c hc) hf

theorem Table.method?_eq (ht : Table classes) {c : ClassDecl} {m : Method} (hc : c ∈ classes)
    (hm : m ∈ c.methods) : c.method? m.name = some m :=
  find?_eq_some_of_nodup Method.name (ht.methods_nodup c hc) hm

theorem Scope.Sound.self?_eq (hs : s.Sound classes) (ht : Table classes) {c : ClassDecl}
    (hc : s.receiver = some c) : (s.env classes).self? = some c := by
  simp only [Env.self?, Scope.env, hc, Option.map_some, Option.bind_some]
  exact ht.find?_eq (hs.receiver_mem c hc)

theorem mem_of_find? {name : String} {c : ClassDecl}
    (h : ClassDecl.find? classes name = some c) : c ∈ classes :=
  List.mem_of_find?_eq_some h

theorem mem_instanceMethods {c : ClassDecl} {m : Method} :
    m ∈ c.instanceMethods ↔ m ∈ c.methods ∧ m.isStatic = false := by
  simp [ClassDecl.instanceMethods]

/-- The type of an access to a member. -/
def Member.ty : Member → Ty
  | .field f => f.ty
  | .method m => m.returns

/-- An object of the class answers to the member. -/
def ClassDecl.HasMember (c : ClassDecl) : Member → Prop
  | .field f => f ∈ c.fields
  | .method m => m ∈ c.methods ∧ m.isStatic = false

/-- The members that are offered on the way to a type are those of the class that can serve for it,
and no others. -/
theorem mem_membersFor {c : ClassDecl} {wanted : Ty} {member : Member} :
    member ∈ c.membersFor wanted ↔ c.HasMember member ∧ member.ty.canServe wanted = true := by
  cases member with
  | field f => simp [ClassDecl.membersFor, ClassDecl.HasMember, Member.ty]
  | method m => simp [ClassDecl.membersFor, ClassDecl.HasMember, Member.ty, mem_instanceMethods]

theorem mem_callable {c : ClassDecl} {m : Method} {t : Ty}
    (h : m ∈ ExprContext.callable c t) : m ∈ c.instanceMethods := by
  unfold ExprContext.callable at h
  split at h
  · exact h
  · exact List.mem_of_mem_filter h

theorem mem_candidates {t : Ty} {v : Variable} (h : v ∈ s.candidates t) : v ∈ s.visible := by
  unfold Scope.candidates at h
  split at h
  · exact h
  · exact List.mem_of_mem_filter h

/-- Reading a visible variable is well typed at its declared type, which is known. -/
theorem Scope.Sound.read_hasType (hs : s.Sound classes) (ht : Table classes) {v : Variable}
    (hv : v ∈ s.visible) :
    HasType (s.env classes) v.read v.ty ∧ v.ty.Known classes ∧ v.read.isLocation = true := by
  simp only [Scope.visible, List.mem_append, List.mem_map] at hv
  obtain (⟨b, hb, rfl⟩ | ⟨b, hb, rfl⟩) | ⟨b, hb, rfl⟩ := hv
  · exact ⟨.localVariable (find?_eq_some_of_nodup Binding.name hs.locals_nodup hb),
      hs.locals_known b hb, rfl⟩
  · exact ⟨.parameter (find?_eq_some_of_nodup Binding.name hs.params_nodup hb),
      hs.params_known b hb, rfl⟩
  · cases hc : s.receiver with
    | none => rw [hc] at hb; cases hb
    | some c =>
      rw [hc] at hb
      have hmem := hs.receiver_mem c hc
      exact ⟨.ownField (hs.self?_eq ht hc) (ht.field?_eq hmem hb),
        ht.fields_known c hmem b hb, rfl⟩

end Table

namespace ExprContext

variable {x : ExprContext} {s : Scope} {t : Ty} {e : Expr}

/-- What the typing of generated expressions rests on, besides the scope. -/
structure Declared (x : ExprContext) : Prop where
  table : Table x.classes
  types_known : ∀ b ∈ x.types.fieldTypes, b.isArray = false ∧ b.Known x.classes

/-- What is typed at each stage. A primary expression has some type, and what follows a target is
typed if the target is. -/
def Stage.Typed (stage : Stage) (Γ : Env) (t : Ty) (e : Expr) : Prop :=
  match stage with
  | .layer _ | .postfixed => HasType Γ e t
  | .primary | .ownCall => HasType Γ e e.ty
  | .access target => HasType Γ target target.ty → HasType Γ e e.ty
  | .chain _ target => HasType Γ target target.ty → HasType Γ e t

theorem LiteralOf.hasType {Γ : Env} (h : LiteralOf t e) (ht : t.Known Γ.classes) :
    HasType Γ e t := by
  cases h with
  | int v => exact .int v
  | boolean b => exact .boolean b
  | null hint hbool =>
    refine .null ht ?_
    cases t with
    | int => exact absurd rfl hint
    | boolean => exact absurd rfl hbool
    | void => exact ht.elim
    | named name => exact .inl rfl
    | array element dims => exact .inr rfl

theorem resultTy_comparison :
    ∀ op ∈ BinaryOp.equality ++ BinaryOp.relational, op.resultTy = .boolean := by
  decide

theorem resultTy_arithmetic :
    ∀ op ∈ BinaryOp.additive ++ BinaryOp.multiplicative, op.resultTy = .int := by
  decide

/-- An operation is typed at the type of the layer's requests by operands of its operand type. -/
theorem Operation.hasType (hx : x.Declared) {Γ : Env} (hΓ : Γ.classes = x.classes)
    {which left right : Layer} {p : Double} {op : BinaryOp} {operandTy : Ty} {l r : Expr}
    (h : x.Operation which t p op operandTy left right) :
    operandTy.Known x.classes ∧
      (HasType Γ l operandTy → HasType Γ r operandTy → HasType Γ (.ofBinary op l r) t) := by
  unfold Expr.ofBinary
  cases h with
  | or => exact ⟨trivial, .logic (.inl rfl)⟩
  | and => exact ⟨trivial, .logic (.inr rfl)⟩
  | equality hop ht =>
    have hk := ht.known hx.types_known
    rw [resultTy_comparison op (List.mem_append_left _ hop)]
    exact ⟨hk, .equality hop (hΓ ▸ hk)⟩
  | relational hop =>
    rw [resultTy_comparison op (List.mem_append_right _ hop)]
    exact ⟨trivial, .comparison hop⟩
  | additive hop =>
    have hmem := List.mem_append_left BinaryOp.multiplicative hop
    rw [resultTy_arithmetic op hmem]
    exact ⟨trivial, .arithmetic hmem⟩
  | multiplicative hop =>
    have hmem := List.mem_append_right BinaryOp.additive hop
    rw [resultTy_arithmetic op hmem]
    exact ⟨trivial, .arithmetic hmem⟩

theorem unary_hasType {Γ : Env} {op : UnaryOp} (h : unaryOp? t = some op)
    (ho : HasType Γ e t) : HasType Γ (.unary op e t) t := by
  cases t with
  | int => cases h; exact .neg ho
  | boolean => cases h; exact .not ho
  | void => cases h
  | named name => cases h
  | array element dims => cases h

/-- A call of a method of the receiver is typed at the method's type, also where that is `void`. -/
theorem ownCall_hasType (hx : x.Declared) (hs : s.Sound x.classes) {c : ClassDecl} {m : Method}
    {args : List Expr} (hc : s.receiver = some c) (hm : m ∈ callable c t)
    (hl : args.length = m.params.length)
    (ha : ∀ pa ∈ m.params.zip args, pa.1.ty.Known x.classes →
      HasType (s.env x.classes) pa.2 pa.1.ty) :
    HasType (s.env x.classes) (.ownCall m.name args m.returns) m.returns := by
  have hcm := hs.receiver_mem c hc
  obtain ⟨hmem, hstatic⟩ := mem_instanceMethods.1 (mem_callable hm)
  refine .ownCall (hs.self?_eq hx.table hc) (hx.table.method?_eq hcm hmem) hstatic hl ?_
  intro pa hpa
  exact ha pa hpa (hx.table.params_known c hcm m (mem_callable hm) _ (List.of_mem_zip hpa).1)

theorem Makes.typed (hx : x.Declared) {stage : Stage} (h : x.Makes stage s t e)
    (hs : s.Sound x.classes) (ht : t.Known x.classes) :
    stage.Typed (s.env x.classes) t e := by
  induction h with
  | fallback h => exact h.hasType ht
  | @literal s t e h =>
    have hl : HasType (s.env x.classes) e t := h.hasType ht
    exact hl.at_own
  | @newObject s t h =>
    cases t with
    | named name => exact .newObject ht
    | int | boolean | void | array => cases h
  | @newArray s t size h _ ih =>
    cases t with
    | array element dims => exact .newArray ht (ih hs.deeper trivial)
    | int | boolean | void | named => cases h
  | «variable» hv => exact (hs.read_hasType hx.table (mem_candidates hv)).1.at_own
  | ownCall hc hm hl _ ih =>
    exact ownCall_hasType hx hs hc hm hl fun pa hpa hk => ih pa hpa hs.deeper hk
  | called _ ih => exact ih hs ht
  | this hc => exact .this (by simp [Scope.env, hc])
  | nested _ ih => exact HasType.at_own (ih hs.deeper ht)
  | index _ hc _ ih => exact fun htarget => .index htarget hc (ih hs trivial)
  | field _ hown hc hm =>
    intro htarget
    rw [hown] at htarget
    have hf := hx.table.field?_eq (mem_of_find? hc) (mem_membersFor.1 hm).1
    exact .field htarget hc hf
  | call _ hown hc hm hl _ ih =>
    intro htarget
    rw [hown] at htarget
    have hcm := mem_of_find? hc
    obtain ⟨hmem, hstatic⟩ := (mem_membersFor.1 hm).1
    have hinst := mem_instanceMethods.2 ⟨hmem, hstatic⟩
    refine .call htarget hc (hx.table.method?_eq hcm hmem) hstatic hl ?_
    intro pa hpa
    exact ih pa hpa hs.deeper (hx.table.params_known _ hcm _ hinst _ (List.of_mem_zip hpa).1)
  | arrived h => exact fun htarget => h ▸ htarget
  | link _ _ _ iha ihr => exact fun htarget => ihr hs ht (iha hs ht htarget)
  | fitting _ _ he ih => exact he ▸ ih hs ht
  | repaired _ _ _ _ _ _ ihp ihr => exact ihr hs.deeper ht (ihp hs ht)
  | postfixed _ ih => exact ih hs ht
  | unary hop _ _ ih => exact unary_hasType hop (ih hs.deeper ht)
  | binary ho _ _ _ ihl ihr =>
    obtain ⟨hk, htyped⟩ := ho.hasType hx (Γ := Scope.env x.classes _) rfl
    exact htyped (ihl hs.deeper hk) (ihr hs.deeper hk)
  | next _ _ ih => exact ih hs ht
  | assign _ hl _ ih ihv =>
    have htarget := ih hs ht
    rw [htarget.ty_eq] at ihv ⊢
    exact .assign hl ht htarget (ihv hs.deeper ht)

theorem Makes.ownCall_typed (hx : x.Declared) (h : x.Makes .ownCall s t e)
    (hs : s.Sound x.classes) : HasType (s.env x.classes) e e.ty := by
  cases h with
  | ownCall hc hm hl ha =>
    exact ownCall_hasType hx hs hc hm hl fun pa hpa hk => (ha pa hpa).typed hx hs.deeper hk

theorem declared_ofNames {names : List String} (ht : Table x.classes)
    (htypes : x.types = Universe.ofNames names)
    (hnames : ∀ n ∈ names, (Ty.named n).Known x.classes) : x.Declared where
  table := ht
  types_known b hb := by
    rw [htypes] at hb
    obtain rfl | rfl | ⟨n, hn, rfl⟩ := Universe.mem_fieldTypes_ofNames.1 hb
    · exact ⟨rfl, trivial⟩
    · exact ⟨rfl, trivial⟩
    · exact ⟨rfl, hnames n hn⟩

variable {σ : Type} [Source σ]

/-- Every layer, from an assignment down to a postfix expression, ends with an expression of exactly
the requested type that is well typed where it stands. -/
theorem generated_hasType {names : List String} (hv : x.settings.validate = .ok ())
    (htable : Table x.classes) (htypes : x.types = Universe.ofNames names)
    (hnames : ∀ n ∈ names, (Ty.named n).Known x.classes) (hs : s.Sound x.classes)
    (ht : t.Known x.classes) :
    Gen.Yields (x.generate s t : Gen σ Expr)
        (fun e => e.ty = t ∧ HasType (s.env x.classes) e t) ∧
      (∀ which, Gen.Yields (x.generateAt which s t : Gen σ Expr)
        (fun e => e.ty = t ∧ HasType (s.env x.classes) e t)) ∧
      Gen.Yields (x.postfixed (x.below s) s t : Gen σ Expr)
        (fun e => e.ty = t ∧ HasType (s.env x.classes) e t) := by
  have hx : x.Valid := ⟨ExprSettings.valid_of_validate hv, htypes ▸ Universe.simple_ofNames names⟩
  have hd : x.Declared := declared_ofNames htable htypes hnames
  have htyped : ∀ e, HasType (s.env x.classes) e t → e.ty = t ∧ HasType (s.env x.classes) e t :=
    fun e he => ⟨he.ty_eq, he⟩
  have hlayer : ∀ which, Gen.Yields (x.generateAt which s t : Gen σ Expr)
      (fun e => e.ty = t ∧ HasType (s.env x.classes) e t) := by
    intro which
    have hmade : Gen.Ensures (fun _ => False) (x.generateAt which s t : Gen σ Expr) _ :=
      ensures_generateAt hx which s t
    exact (hmade.mono fun e he => htyped e (he.typed hd hs ht)).yields fun _ => id
  have hpostfixed : Gen.Ensures (fun _ => False) (x.postfixed (x.below s) s t : Gen σ Expr) _ :=
    ensures_postfixed_below hx s t
  exact ⟨hlayer .assignment, hlayer,
    (hpostfixed.mono fun e he => htyped e (he.typed hd hs ht)).yields fun _ => id⟩

/-- A list node, whose type leads to `int` only through accesses. -/
def nodeClass : ClassDecl :=
  { name := "Node"
    fields :=
      [{ name := "weight", ty := .int }, { name := "edges", ty := .array (.named "Node") 2 }]
    methods :=
      [{ name := "find", returns := .named "Node", params := [{ name := "key", ty := .int }] },
        { name := "clear", returns := .void }] }

def nodeContext : ExprContext :=
  { settings := {}, types := Universe.ofNames ["Node"], classes := [nodeClass] }

theorem generated_hasType_node :
    Table nodeContext.classes ∧
      Gen.Yields (nodeContext.generate (.ofMethod nodeClass [{ name := "key", ty := .int }] .int)
        (.array (.named "Node") 1) : Gen WordStream Expr) (·.ty = .array (.named "Node") 1) := by
  have htable : Table nodeContext.classes := by
    constructor <;> decide
  refine ⟨htable, fun stream => ?_⟩
  have hs : (Scope.ofMethod nodeClass [{ name := "key", ty := .int }] .int).Sound
      nodeContext.classes := by
    refine ⟨by decide, by decide, by decide, by decide, fun c hc => ?_⟩
    cases hc
    exact List.mem_singleton_self _
  obtain ⟨e, rest, hrun, hty, -⟩ :=
    (generated_hasType (σ := WordStream) rfl htable rfl (by decide) hs
      (t := .array (.named "Node") 1) (by decide)).1 stream
  exact ⟨e, rest, hrun, hty⟩

end ExprContext
end JavaSynth
