import Mathlib.Algebra.BigOperators.Group.List.Basic
import Mathlib.Algebra.Order.Ring.Rat
import Mathlib.Order.Monotone.Basic
import Mathlib.Tactic.Linarith
import JavaSynth.Proofs.Draw.Weighted

set_option autoImplicit false

/-!
# Exact weights

With rational weights the pieces of a choice are the intervals between the sums of the weights, and
every draw below the total falls into exactly one of them. What a draw chooses is read off the
entries, those without weight included; rounding of weights and sums is not covered.
-/
namespace JavaSynth

namespace Weighted

variable {α : Type} {entries rest pieces : List (Rat × α)} {e : Rat × α} {before total draw : Rat}

def weightSum (entries : List (Rat × α)) : Rat := (entries.map (·.1)).sum

theorem zero_eq : (Weight.zero : Rat) = 0 := rfl

@[simp] theorem weightSum_nil : weightSum ([] : List (Rat × α)) = 0 := rfl

@[simp] theorem weightSum_cons (e : Rat × α) (rest : List (Rat × α)) :
    weightSum (e :: rest) = e.1 + weightSum rest := by
  simp [weightSum]

theorem weightSum_nonneg (h : ∀ e ∈ entries, 0 ≤ e.1) : 0 ≤ weightSum entries := by
  induction entries with
  | nil => exact le_refl 0
  | cons e rest ih =>
    obtain ⟨hfirst, hrest⟩ := List.forall_mem_cons.1 h
    rw [weightSum_cons]
    exact add_nonneg hfirst (ih hrest)

theorem starts_cons_cases (h : starts (e :: rest) before = .ok (pieces, total)) :
    (0 < e.1 ∧ ∃ later, pieces = (before, e.2) :: later ∧
        starts rest (before + e.1) = .ok (later, total)) ∨
      (e.1 = 0 ∧ starts rest before = .ok (pieces, total)) := by
  obtain ⟨hvalid, ⟨hpos, hlater⟩ | ⟨hzero, hrest⟩⟩ := starts_cons_eq_ok h
  · exact .inl ⟨of_decide_eq_true hpos, hlater⟩
  · have hle : e.1 ≤ 0 := not_lt.1 (of_decide_eq_false hzero)
    have hge : 0 ≤ e.1 := not_lt.1 (of_decide_eq_false hvalid)
    exact .inr ⟨le_antisymm hle hge, hrest⟩

theorem of_starts (h : starts entries before = .ok (pieces, total)) :
    (∀ e ∈ entries, 0 ≤ e.1) ∧ total = before + weightSum entries := by
  induction entries generalizing before pieces with
  | nil =>
    cases h
    exact ⟨List.forall_mem_nil _, (add_zero _).symm⟩
  | cons e rest ih =>
    rw [weightSum_cons]
    obtain ⟨hpos, later, -, hrest⟩ | ⟨hzero, hrest⟩ := starts_cons_cases h
    · obtain ⟨hall, hsum⟩ := ih hrest
      exact ⟨List.forall_mem_cons.2 ⟨le_of_lt hpos, hall⟩, by rw [hsum, add_assoc]⟩
    · obtain ⟨hall, hsum⟩ := ih hrest
      exact ⟨List.forall_mem_cons.2 ⟨ge_of_eq hzero, hall⟩, by rw [hsum, hzero, zero_add]⟩

theorem exists_starts (h : ∀ e ∈ entries, 0 ≤ e.1) (before : Rat) :
    ∃ pieces total, starts entries before = .ok (pieces, total) := by
  induction entries generalizing before with
  | nil => exact ⟨[], before, rfl⟩
  | cons e rest ih =>
    obtain ⟨hfirst, hrest⟩ := List.forall_mem_cons.1 h
    have hvalid : isInvalid e.1 = false := decide_eq_false (not_lt.2 hfirst)
    by_cases hpos : 0 < e.1
    · obtain ⟨later, total, hlater⟩ := ih hrest (before + e.1)
      have hstarts : starts rest (Weight.add before e.1) = .ok (later, total) := hlater
      have hlt : Weight.lt Weight.zero e.1 = true := decide_eq_true hpos
      exact ⟨(before, e.2) :: later, total, by simp [starts, hvalid, hlt, hstarts, bind, Except.bind]⟩
    · obtain ⟨pieces, total, hpieces⟩ := ih hrest before
      have hlt : Weight.lt Weight.zero e.1 = false := decide_eq_false hpos
      exact ⟨pieces, total, by simp [starts, hvalid, hlt, hpieces]⟩

/-- The item of the last piece that does not start beyond `draw`, if there is one. -/
def floor? (pieces : List (Rat × α)) (draw : Rat) : Option α :=
  ((pieces.takeWhile fun piece => !Weight.lt draw piece.1).getLast?).map (·.2)

theorem choose_eq (c : Weighted Rat α) (draw : Rat) :
    c.choose draw = (floor? c.later draw).getD c.first := rfl

theorem floor?_cons {start : Rat} {a : α} (h : start ≤ draw) :
    floor? ((start, a) :: rest) draw = some ((floor? rest draw).getD a) := by
  have hpos : (!Weight.lt draw start) = true := by
    simpa [Weight.lt] using h
  unfold floor?
  rw [List.takeWhile_cons, if_pos hpos, List.getLast?_cons]
  cases (rest.takeWhile fun piece => !Weight.lt draw piece.1).getLast? <;> rfl

theorem floor?_of_lt {start : Rat} {a : α} (h : draw < start) :
    floor? ((start, a) :: rest) draw = none := by
  have hneg : ¬ (!Weight.lt draw start) = true := by
    simpa [Weight.lt] using h
  unfold floor?
  rw [List.takeWhile_cons, if_neg hneg]
  rfl

/-- No piece starts before the sum that its entries start from. -/
theorem floor?_eq_none (h : starts entries before = .ok (pieces, total)) (hd : draw < before) :
    floor? pieces draw = none := by
  induction entries generalizing before pieces with
  | nil => cases h; rfl
  | cons e rest ih =>
    obtain ⟨-, later, rfl, -⟩ | ⟨-, hrest⟩ := starts_cons_cases h
    · exact floor?_of_lt hd
    · exact ih hrest hd

theorem floor?_eq_some {left right : List (Rat × α)}
    (h : starts (left ++ e :: right) before = .ok (pieces, total))
    (hle : before + weightSum left ≤ draw) (hlt : draw < before + weightSum left + e.1) :
    floor? pieces draw = some e.2 := by
  induction left generalizing before pieces with
  | nil =>
    rw [weightSum_nil, add_zero] at hle hlt
    obtain ⟨-, later, rfl, hlater⟩ | ⟨hzero, -⟩ := starts_cons_cases h
    · rw [floor?_cons hle, floor?_eq_none hlater hlt]
      rfl
    · rw [hzero, add_zero] at hlt
      exact absurd hlt (not_lt.2 hle)
  | cons b left ih =>
    rw [weightSum_cons, ← add_assoc] at hle hlt
    obtain ⟨hpos, later, rfl, hlater⟩ | ⟨hzero, hrest⟩ := starts_cons_cases h
    · have hnonneg : 0 ≤ weightSum left := by
        apply weightSum_nonneg
        intro b hb
        exact (of_starts hlater).1 b (List.mem_append_left _ hb)
      rw [floor?_cons (by linarith), ih hlater hle hlt]
      rfl
    · rw [hzero, add_zero] at hle hlt
      exact ih hrest hle hlt

/-- The sum of the weights before an entry, which is where its piece starts. -/
def startOf (entries : List (Rat × α)) (i : Nat) : Rat := weightSum (entries.take i)

theorem startOf_succ {i : Nat} (hi : i < entries.length) :
    startOf entries (i + 1) = startOf entries i + entries[i].1 := by
  unfold startOf weightSum
  rw [List.take_succ_eq_append_getElem hi, List.map_append, List.sum_append]
  simp only [List.map_cons, List.map_nil, List.sum_singleton]

theorem startOf_mono (h : ∀ e ∈ entries, 0 ≤ e.1) : Monotone (startOf entries) := by
  apply monotone_nat_of_le_succ
  intro i
  by_cases hi : i < entries.length
  · rw [startOf_succ hi]
    exact le_add_of_nonneg_right (h entries[i] (List.getElem_mem hi))
  · unfold startOf
    rw [List.take_of_length_le (by omega), List.take_of_length_le (by omega)]

/-- The draws that fall to an entry. -/
def Piece (entries : List (Rat × α)) (i : Nat) (draw : Rat) : Prop :=
  startOf entries i ≤ draw ∧ draw < startOf entries (i + 1)

theorem startOf_cons_succ (e : Rat × α) (rest : List (Rat × α)) (i : Nat) :
    startOf (e :: rest) (i + 1) = e.1 + startOf rest i := by
  rw [startOf, List.take_succ_cons, weightSum_cons]
  rfl

theorem exists_piece (h0 : 0 ≤ draw) (hd : draw < weightSum entries) :
    ∃ i, i < entries.length ∧ Piece entries i draw := by
  induction entries generalizing draw with
  | nil => exact absurd hd (not_lt.2 h0)
  | cons e rest ih =>
    rw [weightSum_cons] at hd
    by_cases hfirst : draw < e.1
    · refine ⟨0, Nat.succ_pos _, h0, ?_⟩
      rwa [startOf_cons_succ, startOf, List.take_zero, weightSum_nil, add_zero]
    · have hleft : 0 ≤ draw - e.1 := by linarith
      obtain ⟨i, hi, hle, hlt⟩ := ih hleft (by linarith)
      refine ⟨i + 1, Nat.succ_lt_succ hi, ?_, ?_⟩
      · rw [startOf_cons_succ]
        linarith
      · rw [startOf_cons_succ]
        linarith

theorem piece_unique (h : ∀ e ∈ entries, 0 ≤ e.1) {i j : Nat} (hi : Piece entries i draw)
    (hj : Piece entries j draw) : i = j := by
  have hle : ∀ {i j : Nat}, Piece entries i draw → Piece entries j draw → i ≤ j := by
    intro i j hi hj
    by_contra hlt
    have hmono := startOf_mono h (show j + 1 ≤ i by omega)
    linarith [hi.1, hj.2]
  exact le_antisymm (hle hi hj) (hle hj hi)

/-- The choice divides the draws below its total among the entries, by their weights. -/
structure Partitions (entries : List (Rat × α)) (c : Weighted Rat α) : Prop where
  total : c.total = weightSum entries
  items : c.items = (entries.filter fun e => 0 < e.1).map (·.2)
  chooses : ∀ draw, 0 ≤ draw → draw < c.total → ∃ i : Fin entries.length,
    c.choose draw = entries[i].2 ∧ ∀ j : Fin entries.length, Piece entries j draw ↔ j = i
  inside : ∀ (i : Fin entries.length) (draw : Rat), Piece entries i draw →
    0 ≤ draw ∧ draw < c.total
  width : ∀ i : Fin entries.length,
    startOf entries (i + 1) - startOf entries i = entries[i].1
  reached : ∀ i : Fin entries.length, (∃ draw, Piece entries i draw) ↔ 0 < entries[i].1

theorem choose_of_piece {c : Weighted Rat α} (h : ofEntries entries = .ok c) {i : Nat}
    (hi : i < entries.length) (hd : Piece entries i draw) : c.choose draw = entries[i].2 := by
  obtain ⟨⟨start, hs⟩, -⟩ := starts_of_ofEntries h
  have hsplit : entries.take i ++ entries[i] :: entries.drop (i + 1) = entries := by
    rw [List.cons_getElem_drop_succ, List.take_append_drop]
  obtain ⟨hle, hlt⟩ := hd
  rw [startOf_succ hi] at hlt
  rw [← hsplit] at hs
  have hfloor : floor? ((start, c.first) :: c.later) draw = some entries[i].2 :=
    floor?_eq_some hs (by rwa [zero_eq, zero_add]) (by rwa [zero_eq, zero_add])
  by_cases hstart : start ≤ draw
  · rw [floor?_cons hstart] at hfloor
    rw [choose_eq]
    exact Option.some.inj hfloor
  · rw [floor?_of_lt (not_le.1 hstart)] at hfloor
    cases hfloor

theorem exists_ofEntries_iff : (∃ c, ofEntries entries = .ok c) ↔
    (∀ e ∈ entries, 0 ≤ e.1) ∧ ∃ e ∈ entries, 0 < e.1 := by
  constructor
  · rintro ⟨c, h⟩
    obtain ⟨⟨start, hs⟩, -⟩ := starts_of_ofEntries h
    refine ⟨(of_starts hs).1, ?_⟩
    have hfirst : c.first ∈ (entries.filter fun e => Weight.lt Weight.zero e.1).map (·.2) := by
      rw [← items_of_ofEntries h]
      exact List.mem_cons_self
    obtain ⟨e, he, -⟩ := List.mem_map.1 hfirst
    obtain ⟨hmem, hpos⟩ := List.mem_filter.1 he
    exact ⟨e, hmem, of_decide_eq_true hpos⟩
  · rintro ⟨hall, e, hmem, hpos⟩
    obtain ⟨pieces, total, hs⟩ := exists_starts hall Weight.zero
    cases pieces with
    | nil =>
      have hnone := (items_of_starts hs).symm
      have he : e ∈ entries.filter fun e => Weight.lt Weight.zero e.1 :=
        List.mem_filter.2 ⟨hmem, decide_eq_true hpos⟩
      rw [List.map_nil, List.map_eq_nil_iff] at hnone
      rw [hnone] at he
      cases he
    | cons piece later => exact ⟨_, ofEntries_of_starts hs rfl⟩

theorem partitions_of_ofEntries {c : Weighted Rat α} (h : ofEntries entries = .ok c) :
    Partitions entries c := by
  obtain ⟨⟨start, hs⟩, -⟩ := starts_of_ofEntries h
  obtain ⟨hall, htotal⟩ := of_starts hs
  rw [zero_eq, zero_add] at htotal
  have hmono := startOf_mono hall
  have hlast : startOf entries entries.length = weightSum entries := by
    rw [startOf, List.take_length]
  refine ⟨htotal, items_of_ofEntries h, ?_, ?_, ?_, ?_⟩
  · intro draw h0 hd
    rw [htotal] at hd
    obtain ⟨i, hi, hpiece⟩ := exists_piece h0 hd
    refine ⟨⟨i, hi⟩, choose_of_piece h hi hpiece, fun j => ⟨fun hj => ?_, ?_⟩⟩
    · exact Fin.ext (piece_unique hall hj hpiece)
    · rintro rfl
      exact hpiece
  · intro i draw hpiece
    have hfirst : 0 ≤ startOf entries i := hmono (Nat.zero_le i)
    have hnext : startOf entries (i + 1) ≤ startOf entries entries.length := hmono i.isLt
    rw [htotal, ← hlast]
    exact ⟨le_trans hfirst hpiece.1, lt_of_lt_of_le hpiece.2 hnext⟩
  · intro i
    rw [startOf_succ i.isLt, add_sub_cancel_left]
    rfl
  · intro i
    have hsucc := startOf_succ i.isLt
    constructor
    · rintro ⟨draw, hle, hlt⟩
      change 0 < entries[i.val].1
      linarith
    · intro hpos
      refine ⟨startOf entries i, le_refl _, ?_⟩
      rw [hsucc]
      exact lt_add_of_pos_right _ hpos

/-- A choice can be made exactly if no weight is negative and one is positive, and then the draws
below its total fall to the entries in order, to each on an interval as long as its weight. -/
theorem ofEntries_partitions (entries : List (Rat × α)) :
    ((∃ c, ofEntries entries = .ok c) ↔
      (∀ e ∈ entries, 0 ≤ e.1) ∧ ∃ e ∈ entries, 0 < e.1) ∧
    ∀ c, ofEntries entries = .ok c → Partitions entries c :=
  ⟨exists_ofEntries_iff, fun _ => partitions_of_ofEntries⟩

/-- Entries without weight before, between and after the others, and an item that comes twice. -/
def unevenEntries : List (Rat × Char) :=
  [(0, 'z'), (1 / 2, 'a'), (0, 'n'), (1 / 4, 'b'), (1 / 2, 'a'), (0, 'z')]

theorem ofEntries_partitions_uneven : ∃ c, ofEntries unevenEntries = .ok c ∧
    Partitions unevenEntries c ∧ c.choose (1 / 2) = 'b' ∧ c.choose 1 = 'a' := by
  obtain ⟨hexists, hpartitions⟩ := ofEntries_partitions unevenEntries
  obtain ⟨c, hc⟩ := hexists.2 ⟨by decide +kernel, by decide +kernel⟩
  have hb : Piece unevenEntries 3 (1 / 2) := by
    unfold Piece
    decide +kernel
  have ha : Piece unevenEntries 4 1 := by
    unfold Piece
    decide +kernel
  exact ⟨c, hc, hpartitions c hc, choose_of_piece hc (by decide) hb,
    choose_of_piece hc (by decide) ha⟩

end Weighted
end JavaSynth
