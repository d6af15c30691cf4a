import Mathlib.Data.List.Forall2

set_option autoImplicit false

/-!
# Lists with distinct names

Declarations are kept in lists and looked up by name. A list whose names are distinct stays so when
a new name is put at its end, and a look-up finds the declaration of its name.
-/
namespace JavaSynth

theorem forall_mem_concat {α : Type} {p : α → Prop} {items : List α} {a : α}
    (h : ∀ b ∈ items, p b) (ha : p a) : ∀ b ∈ items ++ [a], p b := by
  intro b hb
  rcases List.mem_append.1 hb with hmem | hmem
  · exact h b hmem
  · rw [List.mem_singleton.1 hmem]
    exact ha

theorem map_eq_of_forall₂ {α β γ : Type} {f : α → γ} {g : β → γ} {rel : α → β → Prop}
    {as : List α} {bs : List β} (h : List.Forall₂ rel as bs)
    (hrel : ∀ a b, rel a b → g b = f a) : bs.map g = as.map f := by
  induction h with
  | nil => rfl
  | cons hab _ ih => rw [List.map_cons, List.map_cons, hrel _ _ hab, ih]

theorem exists_of_forall₂ {α β : Type} {rel : α → β → Prop} {as : List α} {bs : List β}
    (h : List.Forall₂ rel as bs) {b : β} (hb : b ∈ bs) : ∃ a ∈ as, rel a b := by
  induction h with
  | nil => cases hb
  | @cons a b' as bs hab _ ih =>
    rcases List.mem_cons.1 hb with rfl | hmem
    · exact ⟨a, List.mem_cons_self, hab⟩
    · obtain ⟨a', ha', hrel⟩ := ih hmem
      exact ⟨a', List.mem_cons_of_mem a ha', hrel⟩

theorem nodup_concat {names : List String} {name : String} (hn : names.Nodup)
    (h : name ∉ names) : (names ++ [name]).Nodup := by
  refine List.nodup_append.2 ⟨hn, List.nodup_cons.2 ⟨List.not_mem_nil, List.nodup_nil⟩, ?_⟩
  rintro other hother _ hname rfl
  exact h (List.mem_singleton.1 hname ▸ hother)

theorem nodup_map_concat {α : Type} {key : α → String} {items : List α} {a : α}
    (hn : (items.map key).Nodup) (ha : ∀ b ∈ items, key b ≠ key a) :
    ((items ++ [a]).map key).Nodup := by
  rw [List.map_append]
  refine nodup_concat hn fun hmem => ?_
  obtain ⟨b, hb, heq⟩ := List.mem_map.1 hmem
  exact ha b hb heq

theorem ne_of_find?_isSome {α : Type} {key : α → String} {items : List α} {name : String}
    (h : (items.find? (key · == name)).isSome = false) : ∀ a ∈ items, key a ≠ name := by
  intro a ha heq
  have hnone : items.find? (key · == name) = none := by simpa using h
  exact absurd (List.find?_eq_none.1 hnone a ha) (by simp [heq])

/-- In a list without repeated keys, a key finds its item. -/
theorem find?_eq_some_of_nodup {α : Type} (key : α → String) {items : List α} {a : α}
    (hn : (items.map key).Nodup) (ha : a ∈ items) :
    items.find? (key · == key a) = some a := by
  induction items with
  | nil => cases ha
  | cons b rest ih =>
    obtain ⟨hnot, hrest⟩ := List.nodup_cons.1 hn
    rcases List.mem_cons.1 ha with rfl | hmem
    · exact List.find?_cons_of_pos (by simp)
    · have hne : key b ≠ key a := by
        intro heq
        rw [heq] at hnot
        exact hnot (List.mem_map_of_mem hmem)
      rw [List.find?_cons_of_neg (by simpa using hne)]
      exact ih hrest hmem

end JavaSynth
