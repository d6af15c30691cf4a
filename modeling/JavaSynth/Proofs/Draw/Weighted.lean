import JavaSynth.Draw.Weighted
import JavaSynth.Proofs.Decimal.Sum
import JavaSynth.Proofs.Draw.Outcome

set_option autoImplicit false

/-!
# Outcomes of a weighted choice

A choice that could be made from entries has a positive finite total, as a piece was started and no
weight is negative. So a draw below the total succeeds, and the item drawn is one of those with
positive weight. Entries without weight leave no trace.
-/
namespace JavaSynth

namespace Weighted

section Starts

variable {W α : Type} [Weight W]

/-- A weight is valid, and it starts a piece if it is positive. -/
theorem starts_cons_eq_ok {e : W × α} {rest pieces : List (W × α)} {before total : W}
    (h : starts (e :: rest) before = .ok (pieces, total)) :
    isInvalid e.1 = false ∧
      ((Weight.lt Weight.zero e.1 = true ∧ ∃ later, pieces = (before, e.2) :: later ∧
          starts rest (Weight.add before e.1) = .ok (later, total)) ∨
        (Weight.lt Weight.zero e.1 = false ∧ starts rest before = .ok (pieces, total))) := by
  rw [starts] at h
  split at h
  · cases h
  rename_i hvalid
  refine ⟨Bool.eq_false_iff.2 hvalid, ?_⟩
  split at h
  · rename_i hpos
    cases hr : starts rest (Weight.add before e.1) with
    | error f => rw [hr] at h; cases h
    | ok r =>
      rw [hr] at h
      cases h
      exact .inl ⟨hpos, r.1, rfl, rfl⟩
  · rename_i hpos
    exact .inr ⟨Bool.eq_false_iff.2 hpos, h⟩

theorem items_of_starts {entries pieces : List (W × α)} {before total : W}
    (h : starts entries before = .ok (pieces, total)) :
    pieces.map (·.2) = (entries.filter fun e => Weight.lt Weight.zero e.1).map (·.2) := by
  induction entries generalizing before pieces with
  | nil => cases h; rfl
  | cons e rest ih =>
    obtain ⟨-, ⟨hpos, later, rfl, hrest⟩ | ⟨hzero, hrest⟩⟩ := starts_cons_eq_ok h
    · rw [List.filter_cons, if_pos hpos, List.map_cons, List.map_cons, ih hrest]
    · rw [List.filter_cons, if_neg (by simp [hzero]), ih hrest]

theorem ofEntries_of_starts {entries later : List (W × α)} {start total : W} {first : α}
    (hs : starts entries Weight.zero = .ok ((start, first) :: later, total))
    (hfinite : Weight.isFinite total = true) : ofEntries entries = .ok { first, later, total } := by
  simp [ofEntries, hs, hfinite, bind, Except.bind]

/-- A choice is made from pieces of which there is a first one. -/
theorem starts_of_ofEntries {entries : List (W × α)} {c : Weighted W α}
    (h : ofEntries entries = .ok c) :
    (∃ start, starts entries Weight.zero = .ok ((start, c.first) :: c.later, c.total)) ∧
      Weight.isFinite c.total = true := by
  cases hs : starts entries Weight.zero with
  | error e => simp [ofEntries, hs, bind, Except.bind] at h
  | ok r =>
    obtain ⟨_ | ⟨⟨start, first⟩, later⟩, total⟩ := r
    · simp [ofEntries, hs, bind, Except.bind] at h
    by_cases hfinite : Weight.isFinite total = true
    · rw [ofEntries_of_starts hs hfinite] at h
      cases h
      exact ⟨⟨start, rfl⟩, hfinite⟩
    · simp [ofEntries, hs, hfinite, bind, Except.bind] at h

theorem items_of_ofEntries {entries : List (W × α)} {c : Weighted W α}
    (h : ofEntries entries = .ok c) :
    c.items = (entries.filter fun e => Weight.lt Weight.zero e.1).map (·.2) := by
  obtain ⟨⟨start, hs⟩, -⟩ := starts_of_ofEntries h
  exact items_of_starts hs

/-- The weight makes a difference: it is refused or it starts a piece. -/
def counts (w : W) : Bool := isInvalid w || Weight.lt Weight.zero w

theorem starts_filter (entries : List (W × α)) (before : W) :
    starts (entries.filter fun e => counts e.1) before = starts entries before := by
  induction entries generalizing before with
  | nil => rfl
  | cons e rest ih =>
    by_cases hcounts : counts e.1 = true
    · rw [List.filter_cons, if_pos hcounts]
      simp only [starts, ih]
    · obtain ⟨hvalid, hzero⟩ : isInvalid e.1 = false ∧ Weight.lt Weight.zero e.1 = false := by
        simpa [counts] using hcounts
      rw [List.filter_cons, if_neg hcounts, ih, starts]
      simp [hvalid, hzero]

theorem ofEntries_congr {entries entries' : List (W × α)}
    (h : (entries.filter fun e => counts e.1) = entries'.filter fun e => counts e.1) :
    ofEntries entries = ofEntries entries' := by
  unfold ofEntries
  rw [← starts_filter entries, ← starts_filter entries', h]

end Starts

variable {α : Type}

/-- The total that a draw is bounded by. -/
structure Drawable (c : Weighted Float α) : Prop where
  pos : 0 < c.total
  finite : c.total.isFinite = true

/-- A sum that is positive stays positive, and it becomes so where a piece starts. -/
theorem total_pos_of_starts {entries pieces : List (Float × α)} {before total : Float}
    (h : starts entries before = .ok (pieces, total)) (hbefore : 0 ≤ before)
    (hstarted : 0 < before ∨ pieces ≠ []) : 0 < total := by
  induction entries generalizing before pieces with
  | nil =>
    cases h
    exact hstarted.resolve_right fun hne => hne rfl
  | cons e rest ih =>
    obtain ⟨-, ⟨hpos, later, -, hrest⟩ | ⟨-, hrest⟩⟩ := starts_cons_eq_ok h
    · have hsum : 0 < before + e.1 := add_pos_of_nonneg hbefore (of_decide_eq_true hpos)
      exact ih hrest (zero_le_of_pos hsum) (.inl hsum)
    · exact ih hrest hbefore hstarted

theorem drawable_of_ofEntries {entries : List (Float × α)}
    {c : Weighted Float α} (h : ofEntries entries = .ok c) : c.Drawable := by
  obtain ⟨⟨start, hs⟩, hfinite⟩ := starts_of_ofEntries h
  have hzero : (0 : Float) ≤ 0 := by decide
  exact ⟨total_pos_of_starts hs hzero (.inr (List.cons_ne_nil _ _)), hfinite⟩

theorem choose_mem (c : Weighted Float α) (draw : Float) : c.choose draw ∈ c.items := by
  unfold choose items
  cases hlast : (c.later.takeWhile fun (start, _) => !Weight.lt draw start).getLast? with
  | none => exact List.mem_cons_self
  | some piece =>
    have hmem : piece ∈ c.later :=
      List.takeWhile_subset _ (List.mem_of_getLast? hlast)
    exact List.mem_cons_of_mem _ (List.mem_map_of_mem hmem)

section Drawing

variable {σ : Type} [Source σ] {c : Weighted Float α}

/-- A draw takes one real below the total, and chooses the item whose piece holds it. -/
theorem draw_eq (hc : c.Drawable) (s : σ) : c.draw s =
    .ok (c.choose (Source.real c.total hc.pos s).1, (Source.real c.total hc.pos s).2) := by
  have hreal : Gen.real c.total s =
      .ok ((Source.real c.total hc.pos s).1.val, (Source.real c.total hc.pos s).2) := by
    simp only [Gen.real, hc.pos, hc.finite, ↓reduceDIte, ↓reduceIte]
  unfold draw
  rw [Gen.bind_of_ok hreal]
  rfl

theorem ensures_draw {allowed : Fault → Prop} (hc : c.Drawable) :
    Gen.Ensures allowed (c.draw : Gen σ α) (· ∈ c.items) := by
  intro s
  rw [draw_eq hc]
  exact c.choose_mem _

end Drawing

end Weighted
end JavaSynth
