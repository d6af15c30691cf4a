import Mathlib.Data.List.Forall2
import JavaSynth.Draw.Source

set_option autoImplicit false

/-!
# Outcomes of generators

What a generator can end with, whatever its source answers. `Ensures` bounds the results and the
faults at once; `Yields` is the case without faults. Each operation on generators has one rule.
No order of draws and no probability is asserted here.
-/
namespace JavaSynth

/-- Heads can come up with this probability. -/
def Double.Possible (p : Double) : Prop := p.toFloat == 1 ∨ 0 < p.toFloat

/-- A probability that a coin accepts. -/
def Double.Proper (p : Double) : Prop := p.toFloat == 1 ∨ (0 ≤ p.toFloat ∧ p.toFloat < 1)

namespace Gen

variable {σ α β : Type} {allowed : Fault → Prop}

/-- Every result satisfies `post`, and every fault is allowed. -/
def Ensures (allowed : Fault → Prop) (g : Gen σ α) (post : α → Prop) : Prop :=
  ∀ s, match g s with
    | .ok (a, _) => post a
    | .error f => allowed f

/-- There is always a result, and it satisfies `post`. -/
def Yields (g : Gen σ α) (post : α → Prop) : Prop :=
  ∀ s, ∃ a rest, g s = .ok (a, rest) ∧ post a

theorem Ensures.yields {g : Gen σ α} {post : α → Prop} (h : Ensures allowed g post)
    (hf : ∀ f, ¬ allowed f) : Yields g post := by
  intro s
  have hs := h s
  cases hg : g s with
  | error f => rw [hg] at hs; exact absurd hs (hf f)
  | ok r => rw [hg] at hs; exact ⟨r.1, r.2, rfl, hs⟩

/-- What holds of the results, whatever the faults are, holds of the result of a run. -/
theorem Ensures.of_ok {g : Gen σ α} {post : α → Prop} (h : Ensures (fun _ => True) g post)
    {s rest : σ} {a : α} (hrun : g s = .ok (a, rest)) : post a := by
  have hs := h s
  rwa [hrun] at hs

/-- Nothing is asked of a result or of a fault. -/
theorem ensures_any (g : Gen σ α) : Ensures (fun _ => True) g (fun _ => True) := by
  intro s
  cases g s <;> trivial

theorem Ensures.mono {g : Gen σ α} {post post' : α → Prop} (h : Ensures allowed g post)
    (hpost : ∀ a, post a → post' a) : Ensures allowed g post' := by
  intro s
  have hs := h s
  cases hg : g s with
  | error f => rw [hg] at hs; exact hs
  | ok r => rw [hg] at hs; exact hpost _ hs

section Runs

variable {g : Gen σ α} {f : α → Gen σ β} {s : σ}

theorem bind_of_ok {a : α} {rest : σ} (h : g s = .ok (a, rest)) : (g >>= f) s = f a rest := by
  change (g s >>= fun r => f r.1 r.2) = f a rest
  rw [h]
  rfl

theorem bind_of_error {e : Fault} (h : g s = .error e) : (g >>= f) s = .error e := by
  change (g s >>= fun r => f r.1 r.2) = .error e
  rw [h]
  rfl

end Runs

theorem ensures_pure {a : α} {post : α → Prop} (h : post a) :
    Ensures allowed (pure a : Gen σ α) post :=
  fun _ => h

theorem ensures_bind {g : Gen σ α} {f : α → Gen σ β} {mid : α → Prop} {post : β → Prop}
    (hg : Ensures allowed g mid) (hf : ∀ a, mid a → Ensures allowed (f a) post) :
    Ensures allowed (g >>= f) post := by
  intro s
  have hs := hg s
  change match (g s >>= fun r => f r.1 r.2) with
    | .ok (a, _) => post a
    | .error f => allowed f
  cases h : g s with
  | error e => rw [h] at hs; exact hs
  | ok r => rw [h] at hs; exact hf r.1 hs r.2

theorem ensures_map {g : Gen σ α} {f : α → β} {mid : α → Prop} {post : β → Prop}
    (hg : Ensures allowed g mid) (hf : ∀ a, mid a → post (f a)) :
    Ensures allowed (f <$> g) post := by
  intro s
  have hs := hg s
  change match (g s >>= fun r => Except.ok (f r.1, r.2)) with
    | .ok (a, _) => post a
    | .error f => allowed f
  cases h : g s with
  | error e => rw [h] at hs; exact hs
  | ok r => rw [h] at hs; exact hf r.1 hs

theorem ensures_ofExcept_ok {r : Except Fault α} {a : α} {post : α → Prop} (hr : r = .ok a)
    (h : post a) : Ensures allowed (ofExcept r : Gen σ α) post := by
  subst hr
  exact fun _ => h

theorem ensures_ofExcept {r : Except Fault α} {post : α → Prop} (hok : ∀ a, r = .ok a → post a)
    (herr : ∀ f, r = .error f → allowed f) : Ensures allowed (ofExcept r : Gen σ α) post := by
  cases r with
  | ok a => exact fun _ => hok a rfl
  | error f => exact fun _ => herr f rfl

theorem ensures_firstAccepted {draw : Gen σ α} {accepts : α → Bool} {post : α → Prop}
    (hd : Ensures allowed draw post) (attempts : Nat) :
    Ensures allowed (firstAccepted draw accepts attempts)
      (fun r => ∀ a, r = some a → post a ∧ accepts a = true) := by
  induction attempts with
  | zero => exact ensures_pure (by simp)
  | succ attempts ih =>
    refine ensures_bind hd fun a ha => ?_
    split
    · rename_i hacc
      refine ensures_pure fun b hb => ?_
      cases hb
      exact ⟨ha, hacc⟩
    · exact ih

/-- What a step preserves holds after any number of steps. The property may count them. -/
theorem ensures_iterate (inv : Nat → α → Prop) {step : α → Gen σ α}
    (hstep : ∀ n a, inv n a → Ensures allowed (step a) (inv (n + 1))) (times n : Nat) {a : α}
    (h : inv n a) : Ensures allowed (iterate step times a) (inv (n + times)) := by
  induction times generalizing n a with
  | zero => exact ensures_pure h
  | succ times ih =>
    refine ensures_bind (hstep n a h) fun b hb => ?_
    have hr := ih (n + 1) hb
    rwa [Nat.add_right_comm, Nat.add_assoc] at hr

theorem ensures_forEach {f : α → Gen σ β} {rel : α → β → Prop} {items : List α}
    (hf : ∀ a ∈ items, Ensures allowed (f a) (rel a)) :
    Ensures allowed (forEach f items) (List.Forall₂ rel items) := by
  induction items with
  | nil => exact ensures_pure .nil
  | cons a rest ih =>
    refine ensures_bind (hf a List.mem_cons_self) fun b hb => ?_
    refine ensures_bind (ih fun c hc => hf c (List.mem_cons_of_mem _ hc)) fun bs hbs => ?_
    exact ensures_pure (.cons hb hbs)

variable [Source σ]

theorem ensures_index {n : Nat} (h : 0 < n) :
    Ensures allowed (index n : Gen σ Nat) (· < n) := by
  intro s
  simp only [index, h, ↓reduceDIte]
  exact (Source.index n h s).1.isLt

theorem ensures_shortIndex {n : Nat} (h : 0 < n) :
    Ensures allowed (shortIndex n : Gen σ Nat) (· < n) := by
  intro s
  simp only [shortIndex, h, ↓reduceDIte]
  exact (Source.shortIndex n h s).1.isLt

theorem ensures_upTo (limit : Nat) : Ensures allowed (upTo limit : Gen σ Nat) (· ≤ limit) :=
  (ensures_index (Nat.succ_pos limit)).mono fun _ => Nat.le_of_lt_succ

theorem ensures_fromOneTo {limit : Nat} (h : 0 < limit) :
    Ensures allowed (fromOneTo limit : Gen σ Nat) (fun n => 1 ≤ n ∧ n ≤ limit) := by
  refine ensures_bind (ensures_index h) fun i hi => ?_
  exact ensures_pure ⟨Nat.succ_pos i, hi⟩

theorem ensures_pick {items : List α} (h : items ≠ []) :
    Ensures allowed (pick items : Gen σ α) (· ∈ items) := by
  have hpos : 0 < items.length := List.length_pos_iff.2 h
  intro s
  simp only [pick, hpos, ↓reduceDIte]
  exact List.get_mem items _

theorem mem_of_pick {items : List α} {s rest : σ} {a : α} (h : pick items s = .ok (a, rest)) :
    a ∈ items := by
  cases items with
  | nil => cases h
  | cons b items =>
    have hpick : Ensures (fun _ => True) (pick (b :: items) : Gen σ α) (· ∈ b :: items) :=
      ensures_pick (List.cons_ne_nil b items)
    exact hpick.of_ok h

theorem ensures_int32 : Ensures allowed (int32 : Gen σ Int) (fun _ => True) :=
  fun _ => trivial

theorem ensures_real {bound : Float} (hpos : 0 < bound) (hfin : bound.isFinite = true) :
    Ensures allowed (real bound : Gen σ Float) (fun r => 0 ≤ r ∧ r < bound) := by
  intro s
  simp only [real, hpos, hfin, ↓reduceDIte, ↓reduceIte]
  exact (Source.real bound hpos s).1.property

/-- Heads only come up where they are possible, and tails only where heads are not certain. -/
theorem ensures_coin {p : Double} (hp : p.Proper) :
    Ensures allowed (coin p : Gen σ Bool)
      (fun b => (b = true → p.Possible) ∧ (b = false → ¬ p.toFloat == 1)) := by
  intro s
  by_cases hone : p.toFloat == 1
  · have hc : (coin p : Gen σ Bool) s = .ok (true, s) := by
      simp only [coin, hone, ↓reduceIte]
      rfl
    rw [hc]
    exact ⟨fun _ => .inl hone, fun h => absurd h (by decide)⟩
  · have hc : (coin p : Gen σ Bool) s = .ok (Source.coin p.toFloat s) := by
      simp only [coin, hone, hp.resolve_left hone, and_self, Bool.false_eq_true, ↓reduceIte]
    rw [hc]
    refine ⟨fun hb => .inr ?_, fun _ => hone⟩
    by_contra hzero
    exact absurd ((Source.coin_zero s hzero).symm.trans hb) (by decide)

end Gen
end JavaSynth
