import JavaSynth.Generate.Program

set_option autoImplicit false

/-!
# The typing judgement

When a program is well typed, said without the generators. `HasType` gives an expression its only
type in an environment; `Body` checks a list of statements and threads the locals that they
declare; `Program.WellTyped` adds the rules for declarations. The class of the receiver is known by
its name and found in the table, as every other class is.
-/
namespace JavaSynth

/-- `int`, `boolean`, a class of the table, or an array of one or more dimensions over one. -/
def Ty.Known (classes : List ClassDecl) : Ty → Prop
  | .int | .boolean => True
  | .void => False
  | .named name => (ClassDecl.find? classes name).isSome = true
  | .array element dims => 1 ≤ dims ∧ element.isArray = false ∧ element.Known classes

instance Ty.decidableKnown (classes : List ClassDecl) : (t : Ty) → Decidable (t.Known classes)
  | .int | .boolean => .isTrue trivial
  | .void => .isFalse id
  | .named name => inferInstanceAs (Decidable ((ClassDecl.find? classes name).isSome = true))
  | .array element dims =>
    have : Decidable (element.Known classes) := decidableKnown classes element
    inferInstanceAs (Decidable (1 ≤ dims ∧ element.isArray = false ∧ element.Known classes))

/-- A type that a method may return. -/
def Ty.Returnable (classes : List ClassDecl) (t : Ty) : Prop := t = .void ∨ t.Known classes

instance (classes : List ClassDecl) (t : Ty) : Decidable (t.Returnable classes) :=
  inferInstanceAs (Decidable (t = .void ∨ t.Known classes))

/-- What a body can refer to. -/
structure Env where
  classes : List ClassDecl
  /-- The class of the implicit receiver; there is none in a static method. -/
  receiver : Option String
  params : List Binding
  locals : List Binding

namespace Env

def self? (Γ : Env) : Option ClassDecl := Γ.receiver.bind (ClassDecl.find? Γ.classes)

def declare (Γ : Env) (b : Binding) : Env := { Γ with locals := Γ.locals ++ [b] }

/-- No local and no visible parameter has this name. -/
def Fresh (Γ : Env) (name : String) : Prop :=
  (∀ b ∈ Γ.locals, b.name ≠ name) ∧ ∀ b ∈ Γ.params, b.name ≠ name

end Env

/-- The first binding of a name. -/
def Binding.find? (bindings : List Binding) (name : String) : Option Binding :=
  bindings.find? (·.name == name)

def Expr.isCall : Expr → Bool
  | .ownCall _ _ _ | .call _ _ _ _ => true
  | _ => false

def Expr.isAssignment : Expr → Bool
  | .assign _ _ _ => true
  | _ => false

inductive HasType (Γ : Env) : Expr → Ty → Prop where
  | int (v : Int) : HasType Γ (.literal (.int v) .int) .int
  | boolean (b : Bool) : HasType Γ (.literal (.boolean b) .boolean) .boolean
  | null {t : Ty} (ht : t.Known Γ.classes) (hr : t.isNamed = true ∨ t.isArray = true) :
      HasType Γ (.literal .null t) t
  | localVariable {name : String} {b : Binding} (h : Binding.find? Γ.locals name = some b) :
      HasType Γ (.var .localVariable name b.ty) b.ty
  | parameter {name : String} {b : Binding} (h : Binding.find? Γ.params name = some b) :
      HasType Γ (.var .parameter name b.ty) b.ty
  | ownField {name : String} {c : ClassDecl} {f : Binding} (hc : Γ.self? = some c)
      (hf : c.field? name = some f) : HasType Γ (.ownField name f.ty) f.ty
  | field {target : Expr} {owner name : String} {c : ClassDecl} {f : Binding}
      (ht : HasType Γ target (.named owner)) (hc : ClassDecl.find? Γ.classes owner = some c)
      (hf : c.field? name = some f) : HasType Γ (.field target name f.ty) f.ty
  | index {target position : Expr} {a t : Ty} (ht : HasType Γ target a)
      (ha : a.component = some t) (hp : HasType Γ position .int) :
      HasType Γ (.index target position t) t
  | ownCall {name : String} {args : List Expr} {c : ClassDecl} {m : Method}
      (hc : Γ.self? = some c) (hm : c.method? name = some m) (hs : m.isStatic = false)
      (hl : args.length = m.params.length)
      (ha : ∀ pa ∈ m.params.zip args, HasType Γ pa.2 pa.1.ty) :
      HasType Γ (.ownCall name args m.returns) m.returns
  | call {target : Expr} {owner name : String} {args : List Expr} {c : ClassDecl} {m : Method}
      (ht : HasType Γ target (.named owner)) (hc : ClassDecl.find? Γ.classes owner = some c)
      (hm : c.method? name = some m) (hs : m.isStatic = false)
      (hl : args.length = m.params.length)
      (ha : ∀ pa ∈ m.params.zip args, HasType Γ pa.2 pa.1.ty) :
      HasType Γ (.call target name args m.returns) m.returns
  | this {name : String} (h : Γ.receiver = some name) :
      HasType Γ (.this (.named name)) (.named name)
  | newObject {name : String} (h : (Ty.named name).Known Γ.classes) :
      HasType Γ (.newObject (.named name)) (.named name)
  | newArray {size : Expr} {element : Ty} {dims : Nat}
      (ht : (Ty.array element dims).Known Γ.classes) (hs : HasType Γ size .int) :
      HasType Γ (.newArray size (.array element dims)) (.array element dims)
  | neg {operand : Expr} (h : HasType Γ operand .int) : HasType Γ (.unary .neg operand .int) .int
  | not {operand : Expr} (h : HasType Γ operand .boolean) :
      HasType Γ (.unary .not operand .boolean) .boolean
  | logic {op : BinaryOp} {l r : Expr} (hop : op = .or ∨ op = .and) (hl : HasType Γ l .boolean)
      (hr : HasType Γ r .boolean) : HasType Γ (.binary op l r .boolean) .boolean
  | equality {op : BinaryOp} {l r : Expr} {t : Ty} (hop : op ∈ BinaryOp.equality)
      (ht : t.Known Γ.classes) (hl : HasType Γ l t) (hr : HasType Γ r t) :
      HasType Γ (.binary op l r .boolean) .boolean
  | comparison {op : BinaryOp} {l r : Expr} (hop : op ∈ BinaryOp.relational)
      (hl : HasType Γ l .int) (hr : HasType Γ r .int) :
      HasType Γ (.binary op l r .boolean) .boolean
  | arithmetic {op : BinaryOp} {l r : Expr}
      (hop : op ∈ BinaryOp.additive ++ BinaryOp.multiplicative)
      (hl : HasType Γ l .int) (hr : HasType Γ r .int) : HasType Γ (.binary op l r .int) .int
  | assign {target value : Expr} {t : Ty} (hl : target.isLocation = true) (hk : t.Known Γ.classes)
      (ht : HasType Γ target t) (hv : HasType Γ value t) : HasType Γ (.assign target value t) t

/-- A statement that may stand as a branch of an `if` or the body of a `while`. -/
def Stmt.isBare : Stmt → Bool
  | .declare _ _ _ | .ret _ => false
  | _ => true

/-- Statements in order, in a method that returns `returns`. A branch is checked as a list of its
own, so that nothing it declares is seen after it. -/
inductive Body (returns : Ty) : Env → List Stmt → Prop where
  | nil {Γ : Env} : Body returns Γ []
  | empty {Γ : Env} {rest : List Stmt} (h : Body returns Γ rest) :
      Body returns Γ (.empty :: rest)
  | declare {Γ : Env} {name : String} {t : Ty} {init : Option Expr} {rest : List Stmt}
      (hn : Γ.Fresh name) (ht : t.Known Γ.classes) (hi : ∀ e, init = some e → HasType Γ e t)
      (h : Body returns (Γ.declare { name := name, ty := t }) rest) :
      Body returns Γ (.declare name t init :: rest)
  | ifElse {Γ : Env} {condition : Expr} {thenBranch elseBranch : Stmt} {rest : List Stmt}
      (hc : HasType Γ condition .boolean) (hne : thenBranch ≠ .block [])
      (hbt : thenBranch.isBare = true) (ht : Body returns Γ [thenBranch])
      (hbe : elseBranch.isBare = true) (he : Body returns Γ [elseBranch])
      (h : Body returns Γ rest) : Body returns Γ (.ifElse condition thenBranch elseBranch :: rest)
  | elseOnly {Γ : Env} {condition : Expr} {elseBranch : Stmt} {rest : List Stmt}
      (hc : HasType Γ condition .boolean) (hbe : elseBranch.isBare = true)
      (he : Body returns Γ [elseBranch]) (h : Body returns Γ rest) :
      Body returns Γ (.elseOnly condition elseBranch :: rest)
  | loop {Γ : Env} {condition : Expr} {body : Stmt} {rest : List Stmt}
      (hc : HasType Γ condition .boolean) (hbb : body.isBare = true)
      (hb : Body returns Γ [body]) (h : Body returns Γ rest) :
      Body returns Γ (.loop condition body :: rest)
  | eval {Γ : Env} {e : Expr} {t : Ty} {rest : List Stmt}
      (hk : e.isCall = true ∨ e.isAssignment = true) (he : HasType Γ e t)
      (h : Body returns Γ rest) : Body returns Γ (.eval e :: rest)
  | retNothing {Γ : Env} {rest : List Stmt} (hv : returns = .void) (h : Body returns Γ rest) :
      Body returns Γ (.ret none :: rest)
  | ret {Γ : Env} {e : Expr} {rest : List Stmt} (he : HasType Γ e returns)
      (h : Body returns Γ rest) : Body returns Γ (.ret (some e) :: rest)
  | block {Γ : Env} {body rest : List Stmt} (hb : Body returns Γ body)
      (h : Body returns Γ rest) : Body returns Γ (.block body :: rest)

/-- What the body of a method can refer to before its first statement. -/
def Method.env (classes : List ClassDecl) (c : ClassDecl) (m : Method) : Env :=
  if m.isStatic then { classes, receiver := none, params := [], locals := [] }
  else { classes, receiver := some c.name, params := m.params, locals := [] }

/-- The body is there, is well typed, and returns at its end where there is something to return. -/
def Method.BodyWellTyped (classes : List ClassDecl) (c : ClassDecl) (m : Method) : Prop :=
  ∃ body, m.body = some body ∧ Body m.returns (m.env classes c) body ∧
    (m.returns ≠ .void → ∃ before e, body = before ++ [.ret (some e)])

/-- Only the entry point is static, and only its parameter has a type from outside. -/
structure Method.WellTyped (classes : List ClassDecl) (c : ClassDecl) (m : Method) : Prop where
  params_nodup : (m.params.map (·.name)).Nodup
  params_known : m.isStatic = false → ∀ p ∈ m.params, p.ty.Known classes
  entry_params : m.isStatic = true → m.params = [Synthesis.entryPointParam]
  returns_known : m.returns.Returnable classes
  body : m.BodyWellTyped classes c

structure ClassDecl.WellTyped (classes : List ClassDecl) (c : ClassDecl) : Prop where
  fields_nodup : (c.fields.map (·.name)).Nodup
  methods_nodup : (c.methods.map (·.name)).Nodup
  fields_known : ∀ f ∈ c.fields, f.ty.Known classes
  methods : ∀ m ∈ c.methods, m.WellTyped classes c

structure Program.WellTyped (p : Program) : Prop where
  classes_nodup : (p.classes.map (·.name)).Nodup
  classes : ∀ c ∈ p.classes, c.WellTyped p.classes

end JavaSynth
