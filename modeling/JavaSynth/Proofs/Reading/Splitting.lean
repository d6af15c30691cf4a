import JavaSynth.Proofs.Reading.Expression

set_option autoImplicit false

/-!
# Splitting texts

A text that is written in two ways has the same first piece both ways, as long as each piece shows
where it ends. Pieces are runs of characters and lists of items.
-/
namespace JavaSynth

section Runs

variable {cs cs' rest rest' : List Char}

theorem run_split {p : Char → Bool} (hc : ∀ c ∈ cs, p c = true) (hc' : ∀ c ∈ cs', p c = true)
    (hr : ∀ d ∈ rest.head?, p d = false) (hr' : ∀ d ∈ rest'.head?, p d = false)
    (h : cs ++ rest = cs' ++ rest') : cs = cs' ∧ rest = rest' := by
  obtain ⟨htake, hdrop⟩ := takeWhile_ended hc hr
  obtain ⟨htake', hdrop'⟩ := takeWhile_ended hc' hr'
  rw [h] at htake hdrop
  exact ⟨htake.symm.trans htake', hdrop.symm.trans hdrop'⟩

theorem first_split {d : Char} (hc : d ∉ cs) (hc' : d ∉ cs')
    (h : cs ++ d :: rest = cs' ++ d :: rest') : cs = cs' ∧ rest = rest' := by
  have hother : ∀ l : List Char, d ∉ l → ∀ c ∈ l, (c != d) = true := by
    intro l hl c hmem
    have hne : c ≠ d := fun heq => hl (heq ▸ hmem)
    simpa using hne
  have hsplit := run_split (p := (· != d)) (hother cs hc) (hother cs' hc') (by simp) (by simp) h
  simpa using hsplit

end Runs

section Items

variable {α β : Type}

/-- Where what follows may follow an item, an item shows where it ends and what it is. -/
def Divides (enc : α → List Char) (view : α → β) (ok : α → Prop) (follow : List Char → Prop) :
    Prop :=
  ∀ a b rest rest', ok a → ok b → follow rest → follow rest' →
    enc a ++ rest = enc b ++ rest' → view a = view b ∧ rest = rest'

/-- The text may follow an item and starts with none. -/
def Closes (enc : α → List Char) (ok : α → Prop) (follow : List Char → Prop)
    (rest : List Char) : Prop :=
  follow rest ∧ ∀ a tail, ok a → enc a ++ tail ≠ rest

variable {enc : α → List Char} {view : α → β} {ok : α → Prop} {follow : List Char → Prop}
  {rest rest' : List Char}

theorem follow_items (hnext : ∀ a tail, ok a → follow (enc a ++ tail)) {as : List α}
    (ha : ∀ a ∈ as, ok a) (hr : follow rest) : follow ((as.map enc).flatten ++ rest) := by
  cases as with
  | nil => exact hr
  | cons a as =>
    rw [List.map_cons, List.flatten_cons, List.append_assoc]
    exact hnext a _ (ha a List.mem_cons_self)

/-- Items one after another, up to a text that starts with none. -/
theorem Divides.flatten (h : Divides enc view ok follow)
    (hnext : ∀ a tail, ok a → follow (enc a ++ tail)) {as bs : List α} (ha : ∀ a ∈ as, ok a)
    (hb : ∀ b ∈ bs, ok b) (hr : Closes enc ok follow rest) (hr' : Closes enc ok follow rest')
    (heq : (as.map enc).flatten ++ rest = (bs.map enc).flatten ++ rest') :
    as.map view = bs.map view ∧ rest = rest' := by
  induction as generalizing bs with
  | nil =>
    cases bs with
    | nil => exact ⟨rfl, heq⟩
    | cons b bs =>
      rw [List.map_cons, List.flatten_cons, List.append_assoc] at heq
      exact absurd heq.symm (hr.2 b _ (hb b List.mem_cons_self))
  | cons a as ih =>
    cases bs with
    | nil =>
      rw [List.map_cons, List.flatten_cons, List.append_assoc] at heq
      exact absurd heq (hr'.2 a _ (ha a List.mem_cons_self))
    | cons b bs =>
      obtain ⟨hfirst, ha⟩ := List.forall_mem_cons.1 ha
      obtain ⟨hfirst', hb⟩ := List.forall_mem_cons.1 hb
      simp only [List.map_cons, List.flatten_cons, List.append_assoc] at heq
      obtain ⟨hview, hrest⟩ := h a b _ _ hfirst hfirst' (follow_items hnext ha hr.1)
        (follow_items hnext hb hr'.1) heq
      obtain ⟨hviews, hend⟩ := ih ha hb hrest
      exact ⟨by rw [List.map_cons, List.map_cons, hview, hviews], hend⟩

theorem intercalate_cons_eq (sep a : List Char) (as : List (List Char)) :
    sep.intercalate (a :: as) = a ++ (as.map (sep ++ ·)).flatten := by
  induction as generalizing a with
  | nil => simp
  | cons b bs ih => rw [List.intercalate_cons_cons, ih]; simp

/-- With a separator before it, an item is told apart as without. -/
theorem Divides.separated (h : Divides enc view ok follow) (sep : List Char) :
    Divides (fun a => sep ++ enc a) view ok follow := by
  intro a b tail tail' hoka hokb hf hf' hab
  rw [List.append_assoc, List.append_assoc] at hab
  exact h a b tail tail' hoka hokb hf hf' (List.append_cancel_left hab)

theorem closes_separated {sep : List Char} (hr : follow rest) (hs : ∀ tail, sep ++ tail ≠ rest) :
    Closes (fun a => sep ++ enc a) ok follow rest := by
  refine ⟨hr, fun a tail _ => ?_⟩
  rw [List.append_assoc]
  exact hs _

/-- Items with a separator between them, up to a text that starts with neither. -/
theorem Divides.intercalate (h : Divides enc view ok follow) {sep : List Char}
    (hsep : ∀ tail, follow (sep ++ tail)) {as bs : List α} (ha : ∀ a ∈ as, ok a)
    (hb : ∀ b ∈ bs, ok b) (hr : Closes enc ok follow rest) (hr' : Closes enc ok follow rest')
    (hs : ∀ tail, sep ++ tail ≠ rest) (hs' : ∀ tail, sep ++ tail ≠ rest')
    (heq : sep.intercalate (as.map enc) ++ rest = sep.intercalate (bs.map enc) ++ rest') :
    as.map view = bs.map view ∧ rest = rest' := by
  have hnext : ∀ a tail, ok a → follow (sep ++ enc a ++ tail) := by
    intro a tail _
    rw [List.append_assoc]
    exact hsep _
  cases as with
  | nil =>
    cases bs with
    | nil => exact ⟨rfl, heq⟩
    | cons b bs =>
      rw [List.map_cons, intercalate_cons_eq, List.append_assoc] at heq
      exact absurd heq.symm (hr.2 b _ (hb b List.mem_cons_self))
  | cons a as =>
    cases bs with
    | nil =>
      rw [List.map_cons, intercalate_cons_eq, List.append_assoc] at heq
      exact absurd heq (hr'.2 a _ (ha a List.mem_cons_self))
    | cons b bs =>
      obtain ⟨hfirst, ha⟩ := List.forall_mem_cons.1 ha
      obtain ⟨hfirst', hb⟩ := List.forall_mem_cons.1 hb
      simp only [List.map_cons, intercalate_cons_eq, List.append_assoc, List.map_map] at heq
      obtain ⟨hview, hrest⟩ := h a b _ _ hfirst hfirst' (follow_items hnext ha hr.1)
        (follow_items hnext hb hr'.1) heq
      -- after the first item, each one comes with the separator before it
      obtain ⟨hviews, hend⟩ := (h.separated sep).flatten hnext ha hb (closes_separated hr.1 hs)
        (closes_separated hr'.1 hs') hrest
      exact ⟨by rw [List.map_cons, List.map_cons, hview, hviews], hend⟩

end Items
end JavaSynth
