import Mathlib.Algebra.BigOperators.Fin
import Mathlib.Algebra.BigOperators.Field
import Mathlib.Data.Fintype.BigOperators
import Mathlib.Data.Nat.Factorial.BigOperators
import Mathlib.Data.Rat.Cast.Order
import Mathlib.Tactic.FieldSimp
import JavaSynth.Proofs.Generate.EntryPoint

set_option autoImplicit false

/-!
# Selection of the class with the entry point

Classes are asked for the entry point in order, each with a draw among those that are left, and the
first draw that is zero decides. The draws of the bodies in between have no say in it, so a count of
the vectors of draws shows that the classes are equally likely.
-/
namespace JavaSynth.Synthesis

open Finset Nat

/-- The draws that `n` classes may be asked with: among `n`, then among `n - 1`, down to one. -/
def drawVectors (n : ℕ) : Finset (Fin n → ℕ) := Fintype.piFinset fun k => range (n - k)

def FirstZero {n : ℕ} (r : Fin n → ℕ) (i : Fin n) : Prop := r i = 0 ∧ ∀ k < i, r k ≠ 0

section Counting

theorem prod_left (n : ℕ) : ∏ k : Fin n, (n - k) = n ! := by
  rw [Fin.prod_univ_eq_prod_range (n - ·) n, ← descFactorial_eq_prod_range, descFactorial_self]

theorem card_drawVectors (n : ℕ) : (drawVectors n).card = n ! := by
  rw [drawVectors, Fintype.card_piFinset]
  simp only [card_range]
  exact prod_left n

/-- What a draw of a vector may be whose first zero is that of class `i`. -/
def choices {n : ℕ} (i k : Fin n) : Finset ℕ :=
  if k < i then (range (n - k)).erase 0 else if k = i then {0} else range (n - k)

theorem mem_choices {n : ℕ} {i k : Fin n} {d : ℕ} : d ∈ choices i k ↔
    d < n - k ∧ (k = i → d = 0) ∧ (k < i → d ≠ 0) := by
  have hpos : 0 < n - k := by omega
  unfold choices
  split_ifs with hlt heq
  · simp [hlt, hlt.ne, and_comm]
  · subst heq
    simp only [mem_singleton, lt_irrefl, false_implies, and_true, true_implies]
    constructor
    · rintro rfl
      exact ⟨hpos, rfl⟩
    · exact And.right
  · simp [hlt, heq]

theorem filter_firstZero {n : ℕ} (i : Fin n) [DecidablePred (FirstZero · i)] :
    (drawVectors n).filter (FirstZero · i) = Fintype.piFinset (choices i) := by
  ext r
  rw [mem_filter, drawVectors, Fintype.mem_piFinset, Fintype.mem_piFinset]
  simp only [mem_range, mem_choices]
  constructor
  · rintro ⟨hlt, hzero, hbefore⟩ k
    exact ⟨hlt k, fun heq => heq ▸ hzero, hbefore k⟩
  · intro h
    exact ⟨fun k => (h k).1, (h i).2.1 rfl, fun k hk => (h k).2.2 hk⟩

theorem card_choices {n : ℕ} (i k : Fin n) : (choices i k).card =
    if k < i then n - k - 1 else if k = i then 1 else n - k := by
  have hpos : 0 ∈ range (n - k) := mem_range.2 (by omega)
  unfold choices
  split_ifs
  · rw [card_erase_of_mem hpos, card_range]
  · rfl
  · exact card_range _

/-- Before the class each draw misses zero, and after it each draw is free. -/
theorem prod_card_choices {n : ℕ} (i : Fin n) :
    ∏ k, (if k < i then n - k - 1 else if k = i then 1 else n - k) = (n - 1)! := by
  induction n with
  | zero => exact i.elim0
  | succ n ih =>
    rw [Fin.prod_univ_succ]
    cases i using Fin.cases with
    | zero =>
      simp [Fin.succ_ne_zero, prod_left]
    | succ j =>
      have hn : n ≠ 0 := by
        rintro rfl
        exact j.elim0
      simp only [Fin.succ_pos, ↓reduceIte, Fin.val_zero, Nat.sub_zero, Nat.add_sub_cancel,
        Fin.succ_lt_succ_iff, Fin.succ_inj, Fin.val_succ, Nat.add_sub_add_right]
      rw [ih j, mul_factorial_pred hn]

theorem card_firstZero {n : ℕ} (i : Fin n) [DecidablePred (FirstZero · i)] :
    ((drawVectors n).filter (FirstZero · i)).card = (n - 1)! := by
  rw [filter_firstZero, Fintype.card_piFinset]
  simp only [card_choices]
  exact prod_card_choices i

end Counting

section Scan

variable {σ : Type} [Source σ] {allowed : Fault → Prop} {x : StmtContext} {c c' : ClassDecl}

/-- Whatever the stream is, class `k` is asked with draw `k` of the vector. -/
def Deals {n : ℕ} (draw : Nat → Gen σ Nat) (r : Fin n → ℕ) : Prop :=
  ∀ (k : Fin n) (stream : σ), ∃ rest, draw (n - k) stream = .ok (r k, rest)

def HasMain (c : ClassDecl) : Prop := ∃ m ∈ c.methods, m.name = Plan.entryPointName

/-- The class at a place has the entry point. -/
def MainAt (classes : List ClassDecl) (i : ℕ) : Prop := ∃ c, classes[i]? = some c ∧ HasMain c

/-- A scan that is dealt the draws gives the entry point to class `i` and to no other, whatever the
bodies draw. -/
def GivesTo {n : ℕ} (r : Fin n → ℕ) (i : Fin n) : Prop :=
  ∀ (σ : Type) [Source σ] (draw : Nat → Gen σ Nat) (x : StmtContext)
    (classes classes' : List ClassDecl) (stream rest : σ),
    Deals draw r → classes.length = n → (∀ c ∈ classes, Plain c) →
      fillClassesBy draw x true n classes stream = .ok (classes', rest) →
        ∀ j : Fin n, MainAt classes' j ↔ j = i

theorem not_mainAt_nil (i : ℕ) : ¬ MainAt [] i := by
  rintro ⟨c, hc, -⟩
  cases hc

theorem mainAt_zero {classes : List ClassDecl} : MainAt (c :: classes) 0 ↔ HasMain c := by
  constructor
  · rintro ⟨c', hc', hmain⟩
    cases hc'
    exact hmain
  · exact fun hmain => ⟨c, rfl, hmain⟩

section FirstZero

variable {n : ℕ}

theorem firstZero_zero {r : Fin (n + 1) → ℕ} : FirstZero r 0 ↔ r 0 = 0 :=
  and_iff_left fun k hk => absurd hk k.not_lt_zero

theorem firstZero_succ {r : Fin (n + 1) → ℕ} {j : Fin n} :
    FirstZero r j.succ ↔ r 0 ≠ 0 ∧ FirstZero (Fin.tail r) j := by
  constructor
  · rintro ⟨hzero, hbefore⟩
    exact ⟨hbefore 0 j.succ_pos, hzero, fun k hk => hbefore k.succ (Fin.succ_lt_succ_iff.2 hk)⟩
  · rintro ⟨hfirst, hzero, hbefore⟩
    refine ⟨hzero, fun k hk => ?_⟩
    cases k using Fin.cases with
    | zero => exact hfirst
    | succ k => exact hbefore k (Fin.succ_lt_succ_iff.1 hk)

theorem FirstZero.unique {r : Fin n → ℕ} {i j : Fin n} (hi : FirstZero r i)
    (hj : FirstZero r j) : j = i := by
  rcases lt_trichotomy i j with hlt | heq | hgt
  · exact absurd hi.1 (hj.2 i hlt)
  · exact heq.symm
  · exact absurd hj.1 (hi.2 j hgt)

end FirstZero

theorem Plain.not_hasMain (h : Plain c) : ¬ HasMain c := by
  rintro ⟨m, hm, hname⟩
  exact (h m hm).2 hname

/-- Bodies change no name. -/
theorem ensures_fillClass_plain (hc : Plain c) :
    Gen.Ensures (fun _ => True) (fillClass x c : Gen σ ClassDecl) (¬ HasMain ·) := by
  have hmethod : ∀ m ∈ c.methods, Gen.Ensures (fun _ => True) (fillMethod x c m : Gen σ Method)
      (fun m' => m'.name = m.name) := by
    intro m _
    refine Gen.ensures_bind (Gen.ensures_any _) fun body _ => ?_
    exact Gen.ensures_pure rfl
  refine Gen.ensures_bind (Gen.ensures_forEach hmethod) fun methods hmethods => ?_
  refine Gen.ensures_pure ?_
  rintro ⟨m', hm', hname⟩
  obtain ⟨m, hm, hsame⟩ := exists_of_forall₂ hmethods hm'
  exact (hc m hm).2 (hsame.symm.trans hname)

theorem ensures_entryPoint_named (c : ClassDecl) :
    Gen.Ensures (fun _ => True) (entryPoint x c : Gen σ Method)
      (·.name = Plan.entryPointName) := by
  refine Gen.ensures_bind (Gen.ensures_any _) fun thrown _ => ?_
  refine Gen.ensures_bind (Gen.ensures_any _) fun body _ => ?_
  exact Gen.ensures_pure rfl

section Steps

variable {draw : Nat → Gen σ Nat} {classes : List ClassDecl}
  (hfill : ∀ c ∈ classes, Gen.Ensures allowed (fillClass x c : Gen σ ClassDecl) (¬ HasMain ·))
include hfill

theorem ensures_unwanted (remaining : Nat) :
    Gen.Ensures allowed (fillClassesBy draw x false remaining classes)
      (fun classes' => ∀ i, ¬ MainAt classes' i) := by
  induction classes with
  | nil => exact Gen.ensures_pure not_mainAt_nil
  | cons c rest ih =>
    obtain ⟨hfirst, hothers⟩ := List.forall_mem_cons.1 hfill
    refine Gen.ensures_bind hfirst fun c' hc' => ?_
    refine Gen.ensures_bind (ih hothers) fun rest' hrest => ?_
    refine Gen.ensures_pure fun i => ?_
    cases i with
    | zero => rwa [mainAt_zero]
    | succ i => exact hrest i

/-- The class whose draw is the first zero gets the entry point. Once it has, nobody is asked. -/
theorem ensures_scan
    (hentry : ∀ c, Gen.Ensures allowed (entryPoint x c : Gen σ Method)
      (·.name = Plan.entryPointName))
    {n : ℕ} (hn : classes.length = n) {r : Fin n → ℕ}
    (hdraw : ∀ k : Fin n, Gen.Ensures allowed (draw (n - k)) (· = r k)) :
    Gen.Ensures allowed (fillClassesBy draw x true n classes)
      (fun classes' => ∀ j : Fin n, MainAt classes' j ↔ FirstZero r j) := by
  induction classes generalizing n with
  | nil =>
    subst hn
    exact Gen.ensures_pure fun j => j.elim0
  | cons c rest ih =>
    subst hn
    obtain ⟨hfirst, hothers⟩ := List.forall_mem_cons.1 hfill
    have hleft : Gen.Ensures allowed
        (Gen.ofExcept (sizeSub .classesLeft (c :: rest).length 1) : Gen σ Nat)
        (· = rest.length) :=
      Gen.ensures_ofExcept_ok (sizeSub_eq_ok (Nat.succ_pos _)) rfl
    have hlater : ∀ k : Fin rest.length,
        Gen.Ensures allowed (draw (rest.length - k)) (· = Fin.tail r k) := by
      intro k
      have hnext := hdraw k.succ
      rwa [Fin.val_succ, List.length_cons, Nat.add_sub_add_right] at hnext
    refine Gen.ensures_bind hfirst fun c' hc' => ?_
    refine Gen.ensures_bind (hdraw 0) fun drawn hdrawn => ?_
    refine Gen.ensures_bind hleft fun left hleft => ?_
    subst hleft hdrawn
    split
    · rename_i hzero
      refine Gen.ensures_bind (hentry c) fun main hmain => ?_
      refine Gen.ensures_bind (ensures_unwanted hothers _) fun rest' hrest => ?_
      refine Gen.ensures_pure fun j => ?_
      cases j using Fin.cases with
      | zero =>
        have hlast : main ∈ c'.methods ++ [main] := List.mem_append_right _ (List.mem_singleton_self _)
        exact iff_of_true (mainAt_zero.2 ⟨main, hlast, hmain⟩) (firstZero_zero.2 hzero)
      | succ j => exact iff_of_false (hrest j) fun h => (firstZero_succ.1 h).1 hzero
    · rename_i hpos
      refine Gen.ensures_bind (ih hothers rfl hlater) fun rest' hrest => ?_
      refine Gen.ensures_pure fun j => ?_
      cases j using Fin.cases with
      | zero => exact iff_of_false (mt mainAt_zero.1 hc') (mt firstZero_zero.1 hpos)
      | succ j => exact (hrest j).trans (firstZero_succ.trans (and_iff_right hpos)).symm

end Steps

omit [Source σ] in
theorem Deals.ensures {n : ℕ} {draw : Nat → Gen σ Nat} {r : Fin n → ℕ} (h : Deals draw r)
    (k : Fin n) : Gen.Ensures allowed (draw (n - k)) (· = r k) := by
  intro stream
  obtain ⟨rest, hdrawn⟩ := h k stream
  rw [hdrawn]

/-- Draws from a vector, which leave the stream alone. -/
def dealt {n : ℕ} (r : Fin n → ℕ) (remaining : Nat) : Gen σ Nat :=
  pure (if h : n - remaining < n then r ⟨n - remaining, h⟩ else 0)

omit [Source σ] in
theorem deals_dealt {n : ℕ} (r : Fin n → ℕ) : Deals (dealt r : Nat → Gen σ Nat) r := by
  intro k stream
  have hplace : n - (n - k) = k := by omega
  refine ⟨stream, ?_⟩
  simp only [dealt, hplace, k.isLt, ↓reduceDIte]
  rfl

/-- Every vector is dealt in some scan that comes to an end. -/
theorem exists_scan {n : ℕ} (r : Fin n → ℕ) :
    ∃ (x : StmtContext) (classes classes' : List ClassDecl) (stream rest : WordStream),
      classes.length = n ∧ (∀ c ∈ classes, Plain c) ∧
        fillClassesBy (dealt r) x true n classes stream = .ok (classes', rest) := by
  have hvalid : Settings.validate { words := ["river"] } = .ok () := by rfl
  have hs := Settings.valid_of_validate hvalid
  obtain ⟨kinds, hk, hdrawable⟩ := hs.choice
  let x : StmtContext :=
    { settings := { words := ["river"] }, kinds, types := Universe.ofNames [], classes := [] }
  have hx : x.Valid := ⟨hs, hdrawable, Universe.simple_ofNames []⟩
  have hbare : ∀ c ∈ List.replicate n ({ name := "River" } : ClassDecl), Plain c := by
    intro c hc m hm
    rw [List.eq_of_mem_replicate hc] at hm
    cases hm
  have hmain : ∀ c, Gen.Ensures x.settings.Exhausts (entryPoint x c : Gen WordStream Method)
      (·.name = Plan.entryPointName) := by
    intro c
    refine (ensures_entryPoint hx c).mono fun m hm => ?_
    obtain ⟨thrown, body, s', -, -, rfl⟩ := hm.method
    rfl
  have hscan : Gen.Ensures x.settings.Exhausts
      (fillClassesBy (dealt r) x true n (List.replicate n { name := "River" }) : Gen WordStream _)
      (fun classes' => ∀ j : Fin n, MainAt classes' j ↔ FirstZero r j) :=
    ensures_scan (fun c hc => (ensures_fillClass hx c).mono fun c' hc' =>
      (hc'.plain (hbare c hc)).not_hasMain) hmain List.length_replicate (deals_dealt r).ensures
  have hroom := Settings.not_exhausts (s := { words := ["river"] }) (by decide) (by decide)
    (by decide)
  obtain ⟨classes', rest, hrun, -⟩ := hscan.yields hroom (WordStream.ofSeed 0)
  exact ⟨x, _, classes', _, rest, List.length_replicate, hbare, hrun⟩

theorem mainAt_iff {n : ℕ} {draw : Nat → Gen σ Nat} {r : Fin n → ℕ}
    {classes classes' : List ClassDecl} {stream rest : σ} (hdeals : Deals draw r)
    (hn : classes.length = n) (hplain : ∀ c ∈ classes, Plain c)
    (hrun : fillClassesBy draw x true n classes stream = .ok (classes', rest)) (j : Fin n) :
    MainAt classes' j ↔ FirstZero r j := by
  have hscan : Gen.Ensures (fun _ => True) (fillClassesBy draw x true n classes)
      (fun classes' => ∀ j : Fin n, MainAt classes' j ↔ FirstZero r j) :=
    ensures_scan (fun c hc => ensures_fillClass_plain (hplain c hc)) ensures_entryPoint_named hn
      hdeals.ensures
  exact hscan.of_ok hrun j

theorem givesTo_iff {n : ℕ} {r : Fin n → ℕ} {i : Fin n} : GivesTo r i ↔ FirstZero r i := by
  constructor
  · intro h
    obtain ⟨x, classes, classes', stream, rest, hn, hplain, hrun⟩ := exists_scan r
    have hmain : MainAt classes' i :=
      (h WordStream _ x classes classes' stream rest (deals_dealt r) hn hplain hrun i).2 rfl
    exact (mainAt_iff (deals_dealt r) hn hplain hrun i).1 hmain
  · intro h σ _ draw x classes classes' stream rest hdeals hn hplain hrun j
    rw [mainAt_iff hdeals hn hplain hrun j]
    exact ⟨h.unique, fun heq => heq ▸ h⟩

end Scan

open Classical in
/-- Of the `n!` vectors of draws, `(n - 1)!` give the entry point to class `i`. So with draws that
are uniform and independent it gets the entry point with probability `1 / n`. -/
theorem entryPoint_uniform {n : ℕ} (i : Fin n) :
    (∀ (σ : Type) [Source σ] (x : StmtContext) (classes : List ClassDecl),
      (fillClasses x true n classes : Gen σ _) = fillClassesBy Gen.index x true n classes) ∧
    (drawVectors n).card = n ! ∧ ((drawVectors n).filter (GivesTo · i)).card = (n - 1)! ∧
    ∑ r ∈ drawVectors n with GivesTo r i, ∏ k : Fin n, (1 / (n - k : ℕ) : ℚ) = 1 / n := by
  have hcard : ((drawVectors n).filter (GivesTo · i)).card = (n - 1)! := by
    simp only [givesTo_iff]
    exact card_firstZero i
  refine ⟨fun σ _ x classes => rfl, card_drawVectors n, hcard, ?_⟩
  have hn : n ≠ 0 := by
    rintro rfl
    exact i.elim0
  have hvector : ∏ k : Fin n, (1 / (n - k : ℕ) : ℚ) = 1 / n ! := by
    rw [prod_div_distrib, prod_const_one, ← cast_prod, prod_left]
  have hpos : ((n - 1)! : ℚ) ≠ 0 := cast_ne_zero.2 (factorial_ne_zero _)
  rw [hvector, sum_const, hcard, nsmul_eq_mul, ← mul_factorial_pred hn, cast_mul, mul_one_div,
    mul_comm, div_mul_cancel_left₀ hpos, one_div]

end JavaSynth.Synthesis
