import JavaSynth.Draw.Stream
import JavaSynth.Proofs.Generate.Requested
import JavaSynth.Proofs.Typing.Indexing

set_option autoImplicit false

/-!
# Chains of accesses

A chain leads from an expression to one of the requested type. There is at most one way for it,
given the member that the stream draws: nothing, the missing indices, or the member and then the
missing indices. Main statement: the chain finds an expression exactly where the way is within the
limit, and the expression goes that way.
-/
namespace JavaSynth

/-- As many indices as told are read off an expression, each at an `int`. -/
inductive Expr.Indexed : Nat → Expr → Expr → Prop where
  | none {e : Expr} : Indexed 0 e e
  | index {n : Nat} {target position e : Expr} {component : Ty} (hp : position.ty = .int)
      (hc : target.ty.component = some component)
      (h : Indexed n (.index target position component) e) : Indexed (n + 1) target e

/-- A member of the target is read or called, or the target is left as it is. -/
inductive Expr.Accessed (target : Expr) : Option Member → Expr → Prop where
  | none : Accessed target none target
  | field (f : Binding) : Accessed target (some (.field f)) (.field target f.name f.ty)
  | method {m : Method} {args : List Expr}
      (ha : List.Forall₂ (fun p a => Expr.ty a = Binding.ty p) m.params args) :
      Accessed target (some (.method m)) (.call target m.name args m.returns)

/-- The target, then the member, then the indices. -/
def Expr.Follows (target : Expr) (member : Option Member) (indices : Nat) (e : Expr) : Prop :=
  ∃ reached, target.Accessed member reached ∧ Expr.Indexed indices reached e

namespace ExprContext

/-- The way from a type to the requested one: the member that the stream draws, if one is needed,
and the number of indices. -/
inductive Route {σ : Type} [Source σ] (x : ExprContext) (t : Ty) (stream : σ) :
    Ty → Option Member → Nat → Prop where
  | here : Route x t stream t none 0
  | indices {dims : Nat} (h : t.dims < dims) :
      Route x t stream (.array t.element dims) none (dims - t.dims)
  | member {name : String} {c : ClassDecl} {m : Member} {rest : σ} (hne : .named name ≠ t)
      (hc : ClassDecl.find? x.classes name = some c)
      (hm : Gen.pick (c.membersFor t) stream = .ok (m, rest)) :
      Route x t stream (.named name) (some m) (m.ty.dims - t.dims)

/-- A chain of `links` accesses ends at the requested type exactly if the way is no longer. -/
def Lands (t : Ty) (links : Nat) (target : Expr) (member : Option Member) (indices : Nat)
    (r : Option Expr) : Prop :=
  if member.toList.length + indices ≤ links then
    ∃ e, r = some e ∧ e.ty = t ∧ target.Follows member indices e
  else r = none

theorem Lands.of_indexed {t : Ty} {links : Nat} {target reached : Expr} {m : Member}
    {indices : Nat} {r : Option Expr} (ha : target.Accessed (some m) reached)
    (h : if indices ≤ links then ∃ e, r = some e ∧ e.ty = t ∧ Expr.Indexed indices reached e
      else r = none) : Lands t (links + 1) target (some m) indices r := by
  have hlength : (some m).toList.length + indices ≤ links + 1 ↔ indices ≤ links := by
    rw [Option.toList_some, List.length_singleton]
    omega
  unfold Lands
  by_cases hle : indices ≤ links
  · rw [if_pos hle] at h
    rw [if_pos (hlength.2 hle)]
    obtain ⟨e, rfl, he, hindices⟩ := h
    exact ⟨e, rfl, he, reached, ha, hindices⟩
  · rw [if_neg hle] at h
    rwa [if_neg (fun hl => hle (hlength.1 hl))]

section Chain

variable {σ : Type} [Source σ] {x : ExprContext} {deeper : Deeper σ} {scope : Scope} {t : Ty}
  {stream : σ}

theorem Route.of_none {a : Ty} {indices : Nat} (h : x.Route t stream a none indices) :
    a.canServe t = true ∧ indices = a.dims - t.dims := by
  cases h with
  | here => exact ⟨Ty.canServe_iff.2 (.inl rfl), (Nat.sub_self _).symm⟩
  | indices hlt => exact ⟨Ty.canServe_iff.2 (.inr (Ty.indexesTo_array.2 ⟨rfl, hlt⟩)), rfl⟩

theorem Route.of_some {a : Ty} {m : Member} {indices : Nat}
    (h : x.Route t stream a (some m) indices) :
    ∃ name c rest, a = .named name ∧ a ≠ t ∧ ClassDecl.find? x.classes name = some c ∧
      Gen.pick (c.membersFor t) stream = .ok (m, rest) ∧ indices = m.ty.dims - t.dims := by
  cases h with
  | member hne hc hm => exact ⟨_, _, _, rfl, hne, hc, hm, rfl⟩

/-- A type that leads on through a member does not serve as it is. -/
theorem Route.not_canServe {a : Ty} {m : Member} {indices : Nat}
    (h : x.Route t stream a (some m) indices) : ¬ a.canServe t = true := by
  obtain ⟨name, c, rest, rfl, hne, -⟩ := h.of_some
  intro hserves
  rcases Ty.canServe_iff.1 hserves with heq | hindex
  · exact hne heq
  · cases hindex

/-- There is at most one way. -/
theorem Route.unique {a : Ty} {member member' : Option Member} {indices indices' : Nat}
    (h : x.Route t stream a member indices) (h' : x.Route t stream a member' indices') :
    member = member' ∧ indices = indices' := by
  cases member with
  | none =>
    cases member' with
    | none => exact ⟨rfl, h.of_none.2.trans h'.of_none.2.symm⟩
    | some m' => exact absurd h.of_none.1 h'.not_canServe
  | some m =>
    cases member' with
    | none => exact absurd h'.of_none.1 h.not_canServe
    | some m' =>
      obtain ⟨name, c, rest, rfl, -, hc, hm, rfl⟩ := h.of_some
      obtain ⟨name', c', rest', hname, -, hc', hm', rfl⟩ := h'.of_some
      cases hname
      obtain rfl : c = c' := Option.some.inj (hc.symm.trans hc')
      obtain ⟨rfl, -⟩ : m = m' ∧ rest = rest' := by
        simpa using hm.symm.trans hm'
      exact ⟨rfl, rfl⟩

theorem ensures_indexed (ht : t.WellFormed) (hd : Types (deeper .assignment scope .int) .int)
    {target : Expr} (h : target.ty.indexesTo t = true) :
    Gen.Ensures (fun _ => True) (x.access deeper scope t target) (fun r =>
      ∃ position component, r = some (.index target position component) ∧ position.ty = .int ∧
        target.ty.component = some component) := by
  obtain ⟨component, hcomponent, -⟩ := Ty.component_of_indexesTo ht h
  unfold access
  rw [if_pos h]
  have hread : Gen.Ensures (fun _ => True) (Gen.ofExcept target.ty.component? : Gen σ _)
      (· = some component) := Gen.ensures_ofExcept_ok (Ty.component?_of_indexesTo h) hcomponent
  refine Gen.ensures_bind hread fun r hr => ?_
  subst hr
  refine Gen.ensures_bind hd fun position hp => ?_
  exact Gen.ensures_pure ⟨position, component, rfl, hp, hcomponent⟩

/-- Where indexing leads to the requested type, a chain gets there in as many links as there are
dimensions to take away, and not in fewer. -/
theorem ensures_indices (ht : t.WellFormed) (hd : Types (deeper .assignment scope .int) .int)
    (links : Nat) {target : Expr} (h : target.ty.canServe t = true) :
    Gen.Ensures (fun _ => True) (x.chain deeper scope t links target)
      (fun r => if target.ty.dims - t.dims ≤ links then
        ∃ e, r = some e ∧ e.ty = t ∧ Expr.Indexed (target.ty.dims - t.dims) target e
      else r = none) := by
  -- each index takes one dimension away, so the links and the missing indices go down together
  induction links generalizing target with
  | zero =>
    refine Gen.ensures_pure ?_
    have harrived := Ty.eq_iff_of_canServe h
    by_cases heq : target.ty = t
    · have hzero := harrived.1 heq
      rw [if_pos (Nat.le_of_eq hzero), if_pos heq, hzero]
      exact ⟨target, rfl, heq, .none⟩
    · rw [if_neg (fun hle => heq (harrived.2 (Nat.le_zero.1 hle))), if_neg heq]
  | succ links ih =>
    unfold chain
    split
    · rename_i heq
      have hzero := (Ty.eq_iff_of_canServe h).1 heq
      refine Gen.ensures_pure ?_
      rw [hzero, if_pos (Nat.zero_le _)]
      exact ⟨target, rfl, heq, .none⟩
    · rename_i hne
      have hindex := (Ty.canServe_iff.1 h).resolve_left hne
      refine Gen.ensures_bind (ensures_indexed ht hd hindex) fun r hr => ?_
      obtain ⟨position, component, rfl, hp, hcomponent⟩ := hr
      obtain ⟨c, hc, hserves, hdims⟩ := Ty.component_of_indexesTo ht hindex
      obtain rfl : component = c := Option.some.inj (hcomponent.symm.trans hc)
      have hlt := (Ty.exists_array_of_indexesTo hindex).2
      have hone : target.ty.dims - t.dims = component.dims - t.dims + 1 := by omega
      have hnext : (Expr.index target position component).ty.canServe t = true := hserves
      refine (ih hnext).mono fun r hr => ?_
      change if component.dims - t.dims ≤ links then _ else _ at hr
      rw [hone]
      by_cases hle : component.dims - t.dims ≤ links
      · rw [if_pos hle] at hr
        rw [if_pos (Nat.succ_le_succ hle)]
        obtain ⟨e, rfl, hty, hindices⟩ := hr
        exact ⟨e, rfl, hty, .index hp hcomponent hindices⟩
      · rw [if_neg hle] at hr
        rwa [if_neg (fun h => hle (Nat.le_of_succ_le_succ h))]

/-- The access to a member that was drawn. -/
def accessOf (deeper : Deeper σ) (scope : Scope) (target : Expr) : Member → Gen σ (Option Expr)
  | .field f => pure (some (.field target f.name f.ty))
  | .method m => do
    let args ← arguments deeper scope m.params
    pure (some (.call target m.name args m.returns))

omit [Source σ] in
theorem ensures_accessOf (hd : ∀ inner t, Types (deeper .assignment inner t) t) (target : Expr)
    (m : Member) : Gen.Ensures (fun _ => True) (accessOf deeper scope target m)
      (fun r => ∃ next, r = some next ∧ next.ty = m.ty ∧ target.Accessed (some m) next) := by
  cases m with
  | field f => exact Gen.ensures_pure ⟨_, rfl, rfl, .field f⟩
  | method m =>
    refine Gen.ensures_bind (Gen.ensures_bind (Gen.ensures_any _) fun inner _ =>
      Gen.ensures_forEach fun p _ => hd inner p.ty) fun args hargs => ?_
    exact Gen.ensures_pure ⟨_, rfl, rfl, .method hargs⟩

theorem memberAccess_eq {name : String} {c : ClassDecl}
    (hc : ClassDecl.find? x.classes name = some c) (hne : c.membersFor t ≠ []) (target : Expr) :
    x.memberAccess deeper scope t target name =
      Gen.pick (c.membersFor t) >>= accessOf deeper scope target := by
  simp only [memberAccess, hc]
  refine congrArg (Gen.pick _ >>= ·) (funext fun m => ?_)
  cases m <;> rfl

theorem access_of_named {target : Expr} {name : String} (h : target.ty = .named name) :
    x.access deeper scope t target = x.memberAccess deeper scope t target name := by
  unfold access
  rw [h]
  rfl

/-- Without a way to the requested type there is nothing to access. -/
theorem access_of_no_route {target : Expr} (hne : target.ty ≠ t)
    (h : ∀ member indices, ¬ x.Route t stream target.ty member indices) :
    x.access deeper scope t target = pure none := by
  have hindex : ¬ target.ty.indexesTo t = true := by
    intro hindex
    obtain ⟨harray, hlt⟩ := Ty.exists_array_of_indexesTo hindex
    rw [harray] at h
    exact h _ _ (.indices hlt)
  unfold access
  rw [if_neg hindex]
  split
  · rename_i name hname
    unfold memberAccess
    split
    · rfl
    · rename_i c hc
      split
      · rfl
      · rename_i hfound
        obtain ⟨m, rest, hm, -⟩ :=
          (Gen.ensures_pick (σ := σ) hfound).yields (fun _ => id) stream
        rw [hname] at h hne
        exact absurd (.member hne hc hm) (h _ _)
  · rfl

theorem chain_of_indices (ht : t.WellFormed) (hd : Types (deeper .assignment scope .int) .int)
    {links indices : Nat} {target : Expr} {r : Option Expr} {rest : σ}
    (h : x.Route t stream target.ty none indices)
    (hrun : x.chain deeper scope t links target stream = .ok (r, rest)) :
    Lands t links target none indices r := by
  obtain ⟨hserves, rfl⟩ := h.of_none
  have hchain := (ensures_indices ht hd links hserves).of_ok hrun
  unfold Lands
  rw [Option.toList_none, List.length_nil, Nat.zero_add]
  split
  · rename_i hle
    rw [if_pos hle] at hchain
    obtain ⟨e, rfl, hty, hindices⟩ := hchain
    exact ⟨e, rfl, hty, target, .none, hindices⟩
  · rename_i hle
    rwa [if_neg hle] at hchain

theorem chain_of_member (ht : t.WellFormed) (hd : ∀ inner t, Types (deeper .assignment inner t) t)
    {links indices : Nat} {target : Expr} {m : Member} {r : Option Expr} {rest : σ}
    (h : x.Route t stream target.ty (some m) indices)
    (hrun : x.chain deeper scope t links target stream = .ok (r, rest)) :
    Lands t links target (some m) indices r := by
  obtain ⟨name, c, mid, hname, hne, hc, hm, rfl⟩ := h.of_some
  cases links with
  | zero =>
    cases hrun
    unfold Lands
    rw [if_neg (by simp), if_neg hne]
  | succ links =>
    have hmem : m ∈ c.membersFor t := Gen.mem_of_pick hm
    have hserves : m.ty.canServe t = true := (mem_membersFor.1 hmem).2
    unfold chain at hrun
    rw [if_neg hne, access_of_named hname, memberAccess_eq hc (List.ne_nil_of_mem hmem),
      bind_assoc, Gen.bind_of_ok hm] at hrun
    -- the member that was drawn is accessed, and from there on the chain only indexes
    refine Gen.Ensures.of_ok ?_ hrun
    refine Gen.ensures_bind (ensures_accessOf hd target m) fun r hr => ?_
    obtain ⟨reached, rfl, hty, haccessed⟩ := hr
    rw [← hty] at hserves ⊢
    refine (ensures_indices ht (hd scope .int) links hserves).mono fun r hr => ?_
    exact Lands.of_indexed haccessed hr

theorem chain_of_no_route {links : Nat} {target : Expr} {r : Option Expr} {rest : σ}
    (h : ∀ member indices, ¬ x.Route t stream target.ty member indices)
    (hrun : x.chain deeper scope t links target stream = .ok (r, rest)) : r = none := by
  have hne : target.ty ≠ t := by
    intro heq
    exact h none 0 (heq ▸ .here)
  cases links with
  | zero =>
    cases hrun
    exact if_neg hne
  | succ links =>
    unfold chain at hrun
    rw [if_neg hne, access_of_no_route hne h] at hrun
    cases hrun
    rfl

theorem chain_of_route (ht : t.WellFormed) (hd : ∀ inner t, Types (deeper .assignment inner t) t)
    {links indices : Nat} {target : Expr} {member : Option Member} {r : Option Expr} {rest : σ}
    (h : x.Route t stream target.ty member indices)
    (hrun : x.chain deeper scope t links target stream = .ok (r, rest)) :
    Lands t links target member indices r := by
  cases member with
  | none => exact chain_of_indices ht (hd scope .int) h hrun
  | some m => exact chain_of_member ht hd h hrun

/-- Valid settings leave a chain no fault, as long as the scope can be entered. -/
theorem chain_ends {names : List String} (hv : x.settings.validate = .ok ())
    (htypes : x.types = Universe.ofNames names) (hc : scope.complexity + 1 < sizeLimit) (t : Ty)
    (links : Nat) (target : Expr) (stream : σ) :
    ∃ r rest, x.chain (level x (x.levelsAt scope)) scope t links target stream = .ok (r, rest) := by
  have hx : x.Valid := ⟨ExprSettings.valid_of_validate hv, htypes ▸ Universe.simple_ofNames names⟩
  have hcap := hx.settings.complexity_le
  have hlimit : 2 * ExprSettings.complexityCap + 3 < sizeLimit := by decide
  have hlevels : x.levelsAt scope = x.settings.maxComplexity + 1 - scope.complexity := rfl
  obtain ⟨bound, hbound, hlt⟩ : ∃ bound,
      scope.complexity + 1 + 2 * x.levelsAt scope ≤ bound ∧ bound < sizeLimit :=
    ⟨_, Nat.le_refl _, by omega⟩
  have hd : x.Serves (fun _ => False) (level x (x.levelsAt scope) : Deeper σ)
      (scope.complexity + 1) :=
    serves_level hx hlt _ _ hbound
  obtain ⟨r, rest, hrun, -⟩ :=
    (ensures_chain hd (Nat.le_refl _) hc t links target).yields (fun _ => id) stream
  exact ⟨r, rest, hrun⟩

/-- A chain of accesses finds an expression exactly where a way to the requested type is within the
limit, and the expression goes that way: at most one member, then the missing indices. -/
theorem chain_lands (x : ExprContext) (ht : t.WellFormed) (scope : Scope) (target : Expr)
    (stream : σ) :
    (∀ r rest, x.chain (level x (x.levelsAt scope)) scope t x.settings.maxPostfixChain target
        stream = .ok (r, rest) →
      (r.isSome = true ↔ ∃ member indices, x.Route t stream target.ty member indices ∧
        member.toList.length + indices ≤ x.settings.maxPostfixChain) ∧
      ∀ e, r = some e → e.ty = t ∧ ∃ member indices,
        x.Route t stream target.ty member indices ∧ target.Follows member indices e) ∧
    (x.settings.validate = .ok () → (∃ names, x.types = Universe.ofNames names) →
      scope.complexity + 1 < sizeLimit →
      ∃ r rest, x.chain (level x (x.levelsAt scope)) scope t x.settings.maxPostfixChain target
        stream = .ok (r, rest)) := by
  refine ⟨fun r rest hrun => ?_, fun hv ⟨names, htypes⟩ hc => chain_ends hv htypes hc t _ _ _⟩
  have hd : ∀ inner t, Types (level x (x.levelsAt scope) .assignment inner t : Gen σ Expr) t :=
    types_level _ _
  by_cases hroute : ∃ member indices, x.Route t stream target.ty member indices
  · obtain ⟨member, indices, hroute⟩ := hroute
    have hlands := chain_of_route ht hd hroute hrun
    unfold Lands at hlands
    split at hlands
    · rename_i hle
      obtain ⟨e, rfl, hty, hfollows⟩ := hlands
      refine ⟨⟨fun _ => ⟨member, indices, hroute, hle⟩, fun _ => rfl⟩, fun e' he' => ?_⟩
      cases he'
      exact ⟨hty, member, indices, hroute, hfollows⟩
    · rename_i hlong
      subst hlands
      refine ⟨⟨nofun, fun ⟨member', indices', hroute', hle⟩ => ?_⟩, nofun⟩
      obtain ⟨rfl, rfl⟩ := hroute.unique hroute'
      exact absurd hle hlong
  · have hnone := chain_of_no_route (fun member indices h => hroute ⟨member, indices, h⟩) hrun
    subst hnone
    exact ⟨⟨nofun, fun ⟨member, indices, h, _⟩ => absurd ⟨member, indices, h⟩ hroute⟩, nofun⟩

end Chain

/-- Where one member can serve, it is the member that every stream draws. -/
theorem Route.of_only {σ : Type} [Source σ] {x : ExprContext} {t : Ty} {name : String}
    {c : ClassDecl} {m : Member} (hne : .named name ≠ t)
    (hc : ClassDecl.find? x.classes name = some c) (hm : c.membersFor t = [m]) (stream : σ) :
    x.Route t stream (.named name) (some m) (m.ty.dims - t.dims) := by
  obtain ⟨drawn, rest, hdrawn, hmem⟩ : ∃ drawn rest,
      Gen.pick (c.membersFor t) stream = .ok (drawn, rest) ∧ drawn ∈ c.membersFor t :=
    (Gen.ensures_pick (by simp [hm])).yields (fun _ => id) stream
  rw [hm] at hmem
  obtain rfl := List.mem_singleton.1 hmem
  exact .member hne hc hdrawn

def rowsMethod : Method :=
  { name := "rows", returns := .array .int 2, params := [{ name := "key", ty := .int }] }

/-- A class whose only way to a row of numbers is a method with a parameter. -/
def gridClass : ClassDecl := { name := "Grid", methods := [rowsMethod] }

def gridContext (links : Nat) : ExprContext :=
  { settings := { maxPostfixChain := links }
    types := Universe.ofNames ["Grid"]
    classes := [gridClass] }

/-- The only way from a grid to a row is a call and one index, whatever the limit is. -/
theorem rows_route (links : Nat) (stream : WordStream) :
    (gridContext links).Route (.array .int 1) stream (.named "Grid")
      (some (.method rowsMethod)) 1 :=
  .of_only (by decide) rfl rfl stream

/-- The only way from a node to a row of its edges is the field, and then one index. From a grid to
a row it is a call, and then one index; a limit of one access rules it out. -/
theorem chain_lands_edges :
    (Ty.array (.named "Node") 1).WellFormed ∧ (Ty.array .int 1).WellFormed ∧
      ∀ stream : WordStream,
        (∃ position rest,
          nodeContext.chain (level nodeContext (nodeContext.levelsAt (.ofMethod nodeClass [] .int)))
              (.ofMethod nodeClass [] .int) (.array (.named "Node") 1)
              nodeContext.settings.maxPostfixChain (.this (.named "Node")) stream =
            .ok (some (.index (.field (.this (.named "Node")) "edges" (.array (.named "Node") 2))
              position (.array (.named "Node") 1)), rest)) ∧
        (∃ argument position rest,
          (gridContext 2).chain
              (level (gridContext 2) ((gridContext 2).levelsAt (.ofMethod gridClass [] .int)))
              (.ofMethod gridClass [] .int) (.array .int 1)
              (gridContext 2).settings.maxPostfixChain (.this (.named "Grid")) stream =
            .ok (some (.index (.call (.this (.named "Grid")) "rows" [argument] (.array .int 2))
              position (.array .int 1)), rest)) ∧
        ∃ rest,
          (gridContext 1).chain
              (level (gridContext 1) ((gridContext 1).levelsAt (.ofMethod gridClass [] .int)))
              (.ofMethod gridClass [] .int) (.array .int 1)
              (gridContext 1).settings.maxPostfixChain (.this (.named "Grid")) stream =
            .ok (none, rest) := by
  have hedges : (Ty.array (.named "Node") 1).WellFormed := ⟨Nat.le_refl 1, rfl, rfl⟩
  have hrow : (Ty.array .int 1).WellFormed := ⟨Nat.le_refl 1, rfl, rfl⟩
  refine ⟨hedges, hrow, fun stream => ⟨?_, ?_, ?_⟩⟩
  · obtain ⟨hlands, hends⟩ := chain_lands nodeContext hedges (.ofMethod nodeClass [] .int)
      (.this (.named "Node")) stream
    obtain ⟨r, rest, hrun⟩ := hends rfl ⟨["Node"], rfl⟩ (by decide)
    obtain ⟨hiff, hfollows⟩ := hlands r rest hrun
    have hroute : nodeContext.Route (.array (.named "Node") 1) stream (.named "Node")
        (some (.field { name := "edges", ty := .array (.named "Node") 2 })) 1 :=
      .of_only (by decide) rfl rfl stream
    obtain ⟨e, rfl⟩ := Option.isSome_iff_exists.1 (hiff.2 ⟨_, _, hroute, by decide⟩)
    obtain ⟨hty, member, indices, htaken, reached, haccessed, hindexed⟩ := hfollows e rfl
    obtain ⟨rfl, rfl⟩ := htaken.unique hroute
    cases haccessed
    cases hindexed with
    | index hp hc h =>
      cases h
      cases hc
      exact ⟨_, rest, hrun⟩
  · obtain ⟨hlands, hends⟩ := chain_lands (gridContext 2) hrow (.ofMethod gridClass [] .int)
      (.this (.named "Grid")) stream
    obtain ⟨r, rest, hrun⟩ := hends rfl ⟨["Grid"], rfl⟩ (by decide)
    obtain ⟨hiff, hfollows⟩ := hlands r rest hrun
    have hroute := rows_route 2 stream
    obtain ⟨e, rfl⟩ := Option.isSome_iff_exists.1 (hiff.2 ⟨_, _, hroute, by decide⟩)
    obtain ⟨hty, member, indices, htaken, reached, haccessed, hindexed⟩ := hfollows e rfl
    obtain ⟨rfl, rfl⟩ := htaken.unique hroute
    cases haccessed with
    | method hargs =>
      cases hargs with
      | cons _ hnone =>
        cases hnone
        cases hindexed with
        | index hp hc h =>
          cases h
          cases hc
          exact ⟨_, _, rest, hrun⟩
  · obtain ⟨hlands, hends⟩ := chain_lands (gridContext 1) hrow (.ofMethod gridClass [] .int)
      (.this (.named "Grid")) stream
    obtain ⟨r, rest, hrun⟩ := hends rfl ⟨["Grid"], rfl⟩ (by decide)
    obtain ⟨hiff, -⟩ := hlands r rest hrun
    have hroute := rows_route 1 stream
    cases r with
    | none => exact ⟨rest, hrun⟩
    | some e =>
      -- the one way takes two accesses
      obtain ⟨member, indices, htaken, hle⟩ := hiff.1 rfl
      obtain ⟨rfl, rfl⟩ := htaken.unique hroute
      exact absurd hle (by decide)

end ExprContext
end JavaSynth
