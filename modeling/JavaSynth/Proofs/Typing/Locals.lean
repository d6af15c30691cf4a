import JavaSynth.Proofs.Typing.Program

set_option autoImplicit false

/-!
# Names of locals

A local may not have the name of a parameter of its method or of a local in whose scope it stands.
Names are checked against what a body can refer to. The entry point has a parameter that its body
cannot refer to, so there alone a local can have the name of a parameter, and does where one is
called `args`.
-/
namespace JavaSynth

namespace Stmt

/-- The locals that are in scope after the statement. -/
def declared : Stmt → List String
  | declare name _ _ => [name]
  | _ => []

mutual

/-- Every local in a statement, however deep. -/
def locals : Stmt → List String
  | declare name _ _ => [name]
  | ifElse _ thenBranch elseBranch => thenBranch.locals ++ elseBranch.locals
  | elseOnly _ elseBranch => elseBranch.locals
  | loop _ body => body.locals
  | block body => localsOf body
  | empty | eval _ | ret _ => []

def localsOf : List Stmt → List String
  | [] => []
  | a :: rest => a.locals ++ localsOf rest

end

mutual

/-- No local has a name that is taken where it stands. -/
def apart (taken : List String) : Stmt → Bool
  | declare name _ _ => !taken.contains name
  | ifElse _ thenBranch elseBranch => thenBranch.apart taken && elseBranch.apart taken
  | elseOnly _ elseBranch => elseBranch.apart taken
  | loop _ body => body.apart taken
  | block body => apartAll taken body
  | empty | eval _ | ret _ => true

def apartAll (taken : List String) : List Stmt → Bool
  | [] => true
  | a :: rest => a.apart taken && apartAll (a.declared ++ taken) rest

end

mutual

/-- Names that are taken from the start and everywhere only matter to the locals that have them. -/
theorem apart_append (taken extra : List String) (a : Stmt) :
    a.apart (taken ++ extra) = true ↔ a.apart taken = true ∧ ∀ n ∈ a.locals, n ∉ extra := by
  cases a with
  | declare name t init => simp [apart, locals]
  | ifElse condition thenBranch elseBranch =>
    have ht := apart_append taken extra thenBranch
    have he := apart_append taken extra elseBranch
    simp only [apart, locals, Bool.and_eq_true, ht, he, List.forall_mem_append]
    tauto
  | elseOnly condition elseBranch => exact apart_append taken extra elseBranch
  | loop condition body => exact apart_append taken extra body
  | block body => exact apartAll_append taken extra body
  | empty | eval | ret => simp [apart, locals]

theorem apartAll_append (taken extra : List String) (body : List Stmt) :
    apartAll (taken ++ extra) body = true ↔
      apartAll taken body = true ∧ ∀ n ∈ localsOf body, n ∉ extra := by
  cases body with
  | nil => simp [apartAll, localsOf]
  | cons a rest =>
    have ha := apart_append taken extra a
    have hrest := apartAll_append (a.declared ++ taken) extra rest
    rw [List.append_assoc] at hrest
    simp only [apartAll, localsOf, Bool.and_eq_true, ha, hrest, List.forall_mem_append]
    tauto

end

theorem apartAll_cons {taken : List String} {a : Stmt} {rest : List Stmt}
    (ha : a.apart taken = true) (hr : apartAll (a.declared ++ taken) rest = true) :
    apartAll taken (a :: rest) = true := by
  rw [apartAll, ha, hr, Bool.and_self]

theorem apart_of_singleton {taken : List String} {a : Stmt} (h : apartAll taken [a] = true) :
    a.apart taken = true := by
  rwa [apartAll, apartAll, Bool.and_true] at h

@[simp] theorem localsOf_append (body rest : List Stmt) :
    localsOf (body ++ rest) = localsOf body ++ localsOf rest := by
  induction body with
  | nil => rfl
  | cons a body ih => rw [List.cons_append, localsOf, localsOf, ih, List.append_assoc]

@[simp] theorem localsOf_singleton (a : Stmt) : localsOf [a] = a.locals := by
  rw [localsOf, localsOf, List.append_nil]

theorem locals_ofBranches (condition : Expr) (thenBranch elseBranch : Stmt) :
    (ofBranches condition thenBranch elseBranch).locals =
      thenBranch.locals ++ elseBranch.locals := by
  unfold ofBranches
  split <;> rfl

end Stmt

/-- Every local has a name that the words spell. -/
theorem StmtContext.Makes.locals_lower {x : StmtContext} {stage : Stage} {s s' : Scope}
    {stmts : List Stmt} (h : x.Makes stage s stmts s') :
    ∀ n ∈ Stmt.localsOf stmts, x.namer.Lower n := by
  induction h with
  | declaration _ hn => exact List.forall_mem_singleton.2 hn
  | conditional _ _ _ _ iht ihe =>
    rw [Stmt.localsOf_singleton] at iht ihe ⊢
    rw [Stmt.locals_ofBranches]
    exact List.forall_mem_append.2 ⟨iht, ihe⟩
  | loop _ _ _ ih =>
    rw [Stmt.localsOf_singleton] at ih ⊢
    exact ih
  | block _ _ ih =>
    rw [Stmt.localsOf_singleton]
    exact ih
  | next _ _ iha ihr =>
    rw [Stmt.localsOf_singleton] at iha
    exact List.forall_mem_append.2 ⟨iha, ihr⟩
  | plain _ _ _ ih => exact ih
  | returning _ _ _ _ ih =>
    rw [Stmt.localsOf_append]
    exact List.forall_mem_append.2 ⟨ih, List.forall_mem_nil _⟩
  | _ => exact List.forall_mem_nil _

theorem Env.Fresh.of_declare {Γ : Env} {b : Binding} {name : String}
    (h : (Γ.declare b).Fresh name) : Γ.Fresh name ∧ b.name ≠ name :=
  ⟨⟨fun b' hb' => h.1 b' (List.mem_append_left _ hb'), h.2⟩,
    h.1 b (List.mem_append_right _ (List.mem_singleton_self b))⟩

/-- The locals of a well-typed body are apart from everything that it can refer to. -/
theorem Body.apart {returns : Ty} {Γ : Env} {body : List Stmt} (h : Body returns Γ body)
    (taken : List String) (ht : ∀ n ∈ taken, ¬ Γ.Fresh n) : Stmt.apartAll taken body = true := by
  induction h generalizing taken with
  | nil => rfl
  | @declare Γ name t init rest hn _ _ _ ih =>
    have hfree : (Stmt.declare name t init).apart taken = true := by
      have hnot : name ∉ taken := fun hmem => ht name hmem hn
      simpa [Stmt.apart] using hnot
    refine Stmt.apartAll_cons hfree (ih (name :: taken) (List.forall_mem_cons.2 ⟨?_, ?_⟩))
    · exact fun h => h.of_declare.2 rfl
    · exact fun n hmem h => ht n hmem h.of_declare.1
  | ifElse _ _ _ _ _ _ _ iht ihe ih =>
    refine Stmt.apartAll_cons ?_ (ih taken ht)
    have hthen := Stmt.apart_of_singleton (iht taken ht)
    have helse := Stmt.apart_of_singleton (ihe taken ht)
    rw [Stmt.apart, hthen, helse, Bool.and_self]
  | elseOnly _ _ _ _ ihe ih =>
    exact Stmt.apartAll_cons (Stmt.apart_of_singleton (ihe taken ht)) (ih taken ht)
  | loop _ _ _ _ ihb ih =>
    exact Stmt.apartAll_cons (Stmt.apart_of_singleton (ihb taken ht)) (ih taken ht)
  | block _ _ ihb ih => exact Stmt.apartAll_cons (ihb taken ht) (ih taken ht)
  | empty _ ih => exact Stmt.apartAll_cons rfl (ih taken ht)
  | eval _ _ _ ih => exact Stmt.apartAll_cons rfl (ih taken ht)
  | retNothing _ _ ih => exact Stmt.apartAll_cons rfl (ih taken ht)
  | ret _ _ ih => exact Stmt.apartAll_cons rfl (ih taken ht)

namespace Method

/-- The locals of the body. -/
def locals (m : Method) : List String := (m.body.map Stmt.localsOf).getD []

/-- The locals of the body have names that differ from these, and from those of the locals in whose
scope they stand. -/
def apartFrom (m : Method) (taken : List String) : Bool :=
  (m.body.map (Stmt.apartAll taken)).getD true

def paramNames (m : Method) : List String := m.params.map (·.name)

/-- The locals clash with the parameters exactly in an entry point that declares an `args`. -/
theorem WellTyped.apart {classes : List ClassDecl} {c : ClassDecl} {m : Method}
    (h : m.WellTyped classes c) : m.apartFrom [] = true ∧
      (m.apartFrom m.paramNames = true ↔
        ¬ (m.isStatic = true ∧ Synthesis.entryPointParam.name ∈ m.locals)) := by
  obtain ⟨body, hbody, htyped, -⟩ := h.body
  have hclear : m.apartFrom [] = true := by
    rw [apartFrom, hbody]
    exact htyped.apart [] (List.forall_mem_nil _)
  refine ⟨hclear, ?_⟩
  cases hstatic : m.isStatic with
  | false =>
    have hvisible : ∀ n ∈ m.paramNames, ¬ (m.env classes c).Fresh n := by
      intro n hn hfresh
      obtain ⟨p, hp, rfl⟩ := List.mem_map.1 hn
      rw [env, hstatic] at hfresh
      exact hfresh.2 p hp rfl
    have happart : m.apartFrom m.paramNames = true := by
      rw [apartFrom, hbody]
      exact htyped.apart m.paramNames hvisible
    simp [happart]
  | true =>
    have hnames : m.paramNames = [] ++ [Synthesis.entryPointParam.name] := by
      rw [paramNames, h.entry_params hstatic]
      rfl
    have hsplit : m.apartFrom m.paramNames = true ↔
        m.apartFrom [] = true ∧ ∀ n ∈ m.locals, n ∉ [Synthesis.entryPointParam.name] := by
      rw [hnames, apartFrom, apartFrom, locals, hbody]
      exact Stmt.apartAll_append [] _ body
    rw [hsplit]
    constructor
    · rintro ⟨-, hall⟩ ⟨-, hmem⟩
      exact hall _ hmem (List.mem_singleton_self _)
    · intro hnot
      refine ⟨hclear, fun n hn hsame => hnot ⟨rfl, ?_⟩⟩
      rwa [← List.mem_singleton.1 hsame]

end Method

namespace Synthesis

theorem FinishedClass.locals_lower {x : StmtContext} {c c' : ClassDecl} {m : Method}
    (h : FinishedClass x c c') (hm : m ∈ c'.methods) : ∀ n ∈ m.locals, x.namer.Lower n := by
  obtain ⟨scope, body, s', hbody, hmade⟩ := h.made hm
  rw [Method.locals, hbody]
  exact hmade.locals_lower

end Synthesis

/-- In every method the locals are apart from each other. They are apart from the parameters too,
except in an entry point with a local `args`, and the words must spell `args` for that. -/
theorem synthesize_apart {σ : Type} [Source σ] {s : Settings} (h : s.validate = .ok ()) :
    ∃ g : Gen σ Program, synthesize s = .ok g ∧ Gen.Ensures s.Exhausts g (fun p =>
      ∀ c ∈ p.classes, ∀ m ∈ c.methods, m.apartFrom [] = true ∧
        (m.apartFrom m.paramNames = true ↔
          ¬ (m.isStatic = true ∧ Synthesis.entryPointParam.name ∈ m.locals)) ∧
        (m.isStatic = true → s.entryPoint = true) ∧
        ∀ n ∈ m.locals, (Plan.namer s).Lower n) := by
  obtain ⟨g, hg, hprogram⟩ := synthesize_of_validate (σ := σ) h
  refine ⟨g, hg, hprogram.mono fun p hp c hc m hm => ?_⟩
  obtain ⟨hclear, hiff⟩ := ((hp.wellTyped.classes c hc).methods m hm).apart
  obtain ⟨plan, kinds, hplan, -, hfilled⟩ := hp.filled
  refine ⟨hclear, hiff, ?_, ?_⟩
  · refine hfilled.wanted_of_static (fun c hc m hm => ?_) hc hm
    exact ((hplan.classes c hc).methods m hm).isStatic
  · obtain ⟨planned, -, hclass⟩ := exists_of_forall₂ hfilled.finished hc
    exact hclass.locals_lower hm

/-- One class with an entry point and no other member. Every name comes from one word. -/
def argsSettings : Settings :=
  { approximateNameLength := 1
    maxTypes := 1
    maxTypeMembers := 0
    maxStatementsPerBlock := 1
    thrownTypeProbability := 0
    arrayTypePercentage := 0
    statementWeights := [(1, .declaration)]
    stmt := { initializerProbability := 0, maxResampleAttempts := 1 }
    words := ["args"] }

/-- The entry point has one statement, which declares a local. -/
def argsStream : WordStream :=
  .ofTape [1, 2, 3, 4, 5, 6, 9223372036854775808, 8, 9, 10, 11, 12, 13, 14] 0

/-- The program that settings give for a stream, if there is one. -/
def drawn? (s : Settings) (stream : WordStream) : Option Program :=
  match synthesize s with
  | .error _ => none
  | .ok g =>
    match g stream with
    | .error _ => none
    | .ok (p, _) => some p

theorem exists_run_of_drawn? {s : Settings} {stream : WordStream} {p : Program}
    (h : drawn? s stream = some p) :
    ∃ g rest, synthesize s = .ok g ∧ g stream = .ok (p, rest) := by
  unfold drawn? at h
  split at h
  · cases h
  · rename_i g hg
    split at h
    · cases h
    · rename_i q rest hrun
      cases h
      exact ⟨g, rest, hg, hrun⟩

/-- An entry point with a local `args`. -/
theorem exists_args_local : ∃ p, drawn? argsSettings argsStream = some p ∧
    ∃ c ∈ p.classes, ∃ m ∈ c.methods, m.isStatic = true ∧ "args" ∈ m.locals ∧
      m.apartFrom m.paramNames = false := by
  have hrun : (drawn? argsSettings argsStream).any (fun p => p.classes.any fun c =>
      c.methods.any fun m =>
        m.isStatic && m.locals.contains "args" && !m.apartFrom m.paramNames) = true := by
    decide +kernel
  obtain ⟨p, hp, hclasses⟩ := (Option.any_eq_true _ _).1 hrun
  obtain ⟨c, hc, hmethods⟩ := List.any_eq_true.1 hclasses
  obtain ⟨m, hm, hclash⟩ := List.any_eq_true.1 hmethods
  simp only [Bool.and_eq_true, List.contains_iff_mem, Bool.not_eq_true'] at hclash
  exact ⟨p, hp, c, hc, m, hm, hclash.1.1, hclash.1.2, hclash.2⟩

theorem synthesize_apart_args : ∃ g : Gen WordStream Program,
    synthesize argsSettings = .ok g ∧
      Gen.Yields g (fun p => ∀ c ∈ p.classes, ∀ m ∈ c.methods, m.isStatic = true →
        m.apartFrom [] = true ∧ (m.apartFrom m.paramNames = true ↔ "args" ∉ m.locals)) ∧
      ∃ p rest, g argsStream = .ok (p, rest) ∧
        ∃ c ∈ p.classes, ∃ m ∈ c.methods, m.isStatic = true ∧ "args" ∈ m.locals := by
  have hvalid : argsSettings.validate = .ok () := by rfl
  obtain ⟨g, hg, hprogram⟩ := synthesize_apart (σ := WordStream) hvalid
  refine ⟨g, hg, (hprogram.mono fun p hp c hc m hm hs => ?_).yields
    (Settings.not_exhausts (by decide) (by decide) (by decide)), ?_⟩
  · obtain ⟨hclear, hiff, -⟩ := hp c hc m hm
    exact ⟨hclear, hiff.trans (not_congr (and_iff_right hs))⟩
  · obtain ⟨p, hp, c, hc, m, hm, hstatic, hargs, -⟩ := exists_args_local
    obtain ⟨g', rest, hg', hrun⟩ := exists_run_of_drawn? hp
    obtain rfl : g = g' := Except.ok.inj (hg.symm.trans hg')
    exact ⟨p, rest, hrun, c, hc, m, hm, hstatic, hargs⟩

theorem exists_clash : ¬ ∀ s : Settings, s.validate = .ok () →
    ∀ g : Gen WordStream Program, synthesize s = .ok g → Gen.Ensures (fun _ => True) g (fun p =>
      ∀ c ∈ p.classes, ∀ m ∈ c.methods, m.apartFrom m.paramNames = true) := by
  intro h
  have hvalid : argsSettings.validate = .ok () := by rfl
  obtain ⟨p, hp, c, hc, m, hm, -, -, hclash⟩ := exists_args_local
  obtain ⟨g, rest, hg, hrun⟩ := exists_run_of_drawn? hp
  have hapart := (h argsSettings hvalid g hg).of_ok hrun c hc m hm
  rw [hclash] at hapart
  cases hapart

end JavaSynth
