import JavaSynth.Draw.Stream
import JavaSynth.Proofs.Shape.Places

set_option autoImplicit false

/-!
# Where methods return

A method that gives a value does so in the last statement of its outermost block, and returns in no
other statement of that block. Any other return stands directly in a nested block, so no statement
of the outermost block comes after a return.
-/
namespace JavaSynth

namespace StmtContext

variable {x : StmtContext} {s s' : Scope}

/-- A return is drawn directly in a block only, and not in the outermost one. -/
theorem Makes.of_isReturn {p : Position} {a : Stmt} (h : x.Makes (.statement p) s [a] s')
    (ha : a.isReturn = true) : p = .inBlock ∧ 1 < s.complexity := by
  have hallowed : ∀ {s : Scope}, x.Draws .inBlock s .ret → 1 < s.complexity := by
    intro s hk
    simpa [Position.allows, StmtKind.isCompound] using hk.2
  cases h with
  | retNothing hk => exact ⟨rfl, hallowed hk⟩
  | ret hk => exact ⟨rfl, hallowed hk⟩
  | conditional =>
    rw [Stmt.isReturn_ofBranches] at ha
    cases ha
  | _ => cases ha

theorem MadeAt.place_of_isReturn {c : Nat} {part : Position × Stmt} (h : x.MadeAt c part)
    (hr : part.2.isReturn = true) : part.1 = .inBlock := by
  obtain ⟨s, s', -, hmade⟩ := h
  exact (hmade.of_isReturn hr).1

/-- No statement that is drawn for the outermost block is a return. -/
theorem Makes.row_returns {count : Nat} {body : List Stmt}
    (h : x.Makes (.sequence count) s.deeper body s') (hs : s.complexity = 0) :
    ∀ a ∈ body, a.isReturn = false := by
  intro a ha
  obtain ⟨sBefore, sAfter, hsame, hmade⟩ := h.row.2 a ha
  have hone : sBefore.complexity = 0 + 1 := by
    rw [hsame, ← hs]
    rfl
  apply Bool.eq_false_iff.2
  intro hr
  have hlt := (hmade.of_isReturn hr).2
  omega

end StmtContext

/-- Where a body returns: once at the end of the outermost block, if the method gives a value, and
otherwise directly in nested blocks. -/
structure Method.ReturnsAtEnd (m : Method) (body : List Stmt) : Prop where
  count : body.countP Stmt.isReturn = if m.returns.isVoid then 0 else 1
  last : m.returns.isVoid = false → ∃ e, body.getLast? = some (.ret (some e))
  before : ∀ a ∈ body.dropLast, a.isReturn = false
  placed : ∀ part ∈ Stmt.partsOf body, part.2.isReturn = true → part.1 = .inBlock

theorem Synthesis.Bodied.returnsAtEnd {x : StmtContext} {m : Method} {body : List Stmt}
    (h : Bodied x m body) (hm : m.isStatic = false) : m.ReturnsAtEnd body := by
  obtain ⟨s, s', hmade, hreturning, hzero⟩ := h.made
  obtain ⟨drawn, last, rfl, -, hdrawn, hlast⟩ := hmade.drawn
  have hnone := hdrawn.row_returns (hzero hm)
  have hcount : drawn.countP Stmt.isReturn = 0 :=
    List.countP_eq_zero.2 fun a ha => by simp [hnone a ha]
  have hparts : ∀ part ∈ Stmt.partsOf (drawn ++ last), part.2.isReturn = true →
      part.1 = .inBlock := by
    intro part hpart hr
    rcases hmade.part_cases part hpart with hinside | ⟨-, e, rfl⟩
    · exact hinside.place_of_isReturn hr
    · rfl
  rcases hlast with ⟨hnot, rfl⟩ | ⟨hr, e, rfl⟩
  · have hvoid : m.returns.isVoid = true := by
      rw [hreturning] at hnot
      exact Bool.ne_false_iff.1 hnot
    rw [List.append_nil] at hparts ⊢
    refine ⟨?_, fun hvalue => ?_, fun a ha => hnone a (List.dropLast_subset _ ha), hparts⟩
    · rw [hcount, hvoid]
      rfl
    · rw [hvoid] at hvalue
      cases hvalue
  · have hvalue := hreturning.1 hr
    refine ⟨?_, fun _ => ⟨e, List.getLast?_concat⟩, ?_, hparts⟩
    · rw [List.countP_append, hcount, hvalue]
      rfl
    · rw [List.dropLast_concat]
      exact hnone

/-- Every method but the entry point returns at the end of its outermost block if it gives a value,
and returns nowhere else but directly in nested blocks. -/
theorem synthesize_returnsAtEnd {σ : Type} [Source σ] {s : Settings} (h : s.validate = .ok ()) :
    ∃ g : Gen σ Program, synthesize s = .ok g ∧ Gen.Ensures s.Exhausts g (fun p =>
      ∀ c ∈ p.classes, ∀ m ∈ c.methods, m.isStatic = false →
        ∃ body, m.body = some body ∧ m.ReturnsAtEnd body) :=
  synthesize_methods h fun _ _ body _ hbody hm => ⟨body, hbody.body_eq, hbody.returnsAtEnd hm⟩

theorem synthesize_returnsAtEnd_words : ∃ g : Gen WordStream Program,
    synthesize { words := ["river", "stone"] } = .ok g ∧ Gen.Yields g (fun p =>
      ∀ c ∈ p.classes, ∀ m ∈ c.methods, m.isStatic = false →
        ∃ body, m.body = some body ∧ m.ReturnsAtEnd body) := by
  have hvalid : Settings.validate { words := ["river", "stone"] } = .ok () := by rfl
  obtain ⟨g, hg, hprogram⟩ := synthesize_returnsAtEnd (σ := WordStream) hvalid
  exact ⟨g, hg, hprogram.yields (Settings.not_exhausts (by decide) (by decide) (by decide))⟩

end JavaSynth
