import Mathlib.Data.List.Nodup
import JavaSynth.Data.Record

set_option autoImplicit false

/-!
# Records read back

A table of fields reads a record part by part. Where its parts do not touch each other and say all
there is to say, the order of the pairs does not matter, and what comes out is the record that has
what the pairs give and otherwise what reading started from.
-/
namespace JavaSynth

variable {S R A : Type}

namespace Field

/-- Reading the value makes the part what it is in the target. -/
def Gives (f : Field S) (d : Dialect) (v : Value) (target : S) : Prop :=
  ∀ s, ∃ s', f.read d v s = some s' ∧ f.write s' = f.write target

/-- Reading the part leaves something else about the record alone. -/
def Spares (f : Field S) (other : S → R) : Prop :=
  ∀ d v s s', f.read d v s = some s' → other s' = other s

theorem Gives.congr {f : Field S} {d : Dialect} {v : Value} {s target : S} (h : f.Gives d v s)
    (heq : f.write s = f.write target) : f.Gives d v target := by
  intro t
  obtain ⟨s', hread, hwrite⟩ := h t
  exact ⟨s', hread, hwrite.trans heq⟩

theorem asSize?_ofNat {n : Nat} (h : n < UInt64.size) : (Value.integer n).asSize? = some n :=
  if_pos h

section Kinds

variable {name : String} {d : Dialect} {other : S → R}

theorem spares_of_map {f : Field S} {decode : Dialect → Value → Option A} {set : S → A → S}
    (hread : ∀ d v s, f.read d v s = (decode d v).map (set s))
    (h : ∀ s a, other (set s a) = other s) : f.Spares other := by
  intro d v s s' hs
  rw [hread, Option.map_eq_some_iff] at hs
  obtain ⟨a, -, rfl⟩ := hs
  exact h s a

theorem spares_real {get : S → Double} {set : S → Double → S}
    (h : ∀ s x, other (set s x) = other s) : (Field.real name get set).Spares other :=
  spares_of_map (fun _ _ _ => rfl) h

theorem spares_size {get : S → Nat} {set : S → Nat → S}
    (h : ∀ s n, other (set s n) = other s) : (Field.size name get set).Spares other :=
  spares_of_map (fun _ _ _ => rfl) h

theorem spares_boolean {get : S → Bool} {set : S → Bool → S}
    (h : ∀ s b, other (set s b) = other s) : (Field.boolean name get set).Spares other :=
  spares_of_map (fun _ _ _ => rfl) h

theorem spares_part {T : Type} {get : S → T} {set : S → T → S} {toValue : T → Value}
    {ofValue? : Dialect → Value → Option T} (h : ∀ s a, other (set s a) = other s) :
    (Field.part name get set toValue ofValue?).Spares other :=
  spares_of_map (fun _ _ _ => rfl) h

theorem gives_real {get : S → Double} {set : S → Double → S} (h : ∀ s x, get (set s x) = x)
    (s : S) : (Field.real name get set).Gives d (.float (get s)) s :=
  fun t => ⟨set t (get s), rfl, congrArg Value.float (h t _)⟩

theorem gives_size {get : S → Nat} {set : S → Nat → S}
    (h : ∀ s n, n < UInt64.size → get (set s n) = n) {s : S} (hs : get s < UInt64.size) :
    (Field.size name get set).Gives d (.integer (get s)) s := by
  intro t
  refine ⟨set t (get s), ?_, congrArg (fun n : Nat => Value.integer n) (h t _ hs)⟩
  change ((Value.integer (get s)).asSize?.map (set t)) = _
  rw [asSize?_ofNat hs]
  rfl

theorem gives_boolean {get : S → Bool} {set : S → Bool → S} (h : ∀ s b, get (set s b) = b)
    (s : S) : (Field.boolean name get set).Gives d (.boolean (get s)) s :=
  fun t => ⟨set t (get s), rfl, congrArg Value.boolean (h t _)⟩

theorem gives_part {T : Type} {get : S → T} {set : S → T → S} {toValue : T → Value}
    {ofValue? : Dialect → Value → Option T} (h : ∀ s a, get (set s a) = a) {v : Value} {a : T}
    {target : S} (hread : ofValue? d v = some a) (ha : toValue a = toValue (get target)) :
    (Field.part name get set toValue ofValue?).Gives d v target := by
  intro t
  refine ⟨set t a, ?_, ?_⟩
  · change (ofValue? d v).map (set t) = _
    rw [hread]
    rfl
  · change toValue (get (set t a)) = toValue (get target)
    rw [h, ha]

section Choice

variable {b : Bool} {s base t : S}

theorem write_real {get : S → Double} {set : S → Double → S}
    (h : get t = if b then get s else get base) : (Field.real name get set).write t =
      if b then (Field.real name get set).write s else (Field.real name get set).write base := by
  change Value.float (get t) = _
  rw [h]
  exact apply_ite Value.float _ _ _

theorem write_size {get : S → Nat} {set : S → Nat → S}
    (h : get t = if b then get s else get base) : (Field.size name get set).write t =
      if b then (Field.size name get set).write s else (Field.size name get set).write base := by
  change Value.integer (get t) = _
  rw [h]
  exact apply_ite (fun n : Nat => Value.integer n) _ _ _

theorem write_boolean {get : S → Bool} {set : S → Bool → S}
    (h : get t = if b then get s else get base) : (Field.boolean name get set).write t =
      if b then (Field.boolean name get set).write s
      else (Field.boolean name get set).write base := by
  change Value.boolean (get t) = _
  rw [h]
  exact apply_ite Value.boolean _ _ _

theorem write_part {T : Type} {get : S → T} {set : S → T → S} {toValue : T → Value}
    {ofValue? : Dialect → Value → Option T} (h : get t = if b then get s else get base) :
    (Field.part name get set toValue ofValue?).write t =
      if b then (Field.part name get set toValue ofValue?).write s
      else (Field.part name get set toValue ofValue?).write base := by
  change toValue (get t) = _
  rw [h]
  exact apply_ite toValue _ _ _

end Choice
end Kinds
end Field

namespace Record

/-- A table whose parts are apart from each other. Records are told apart by their parts and by
`rest`, which no part touches. -/
structure Lawful (fields : List (Field S)) (rest : S → R) : Prop where
  nodup : (fields.map (·.name)).Nodup
  apart : ∀ f ∈ fields, ∀ g ∈ fields, f.name ≠ g.name → f.Spares g.write
  keeps : ∀ f ∈ fields, f.Spares rest
  ext : ∀ s t, (∀ f ∈ fields, f.write s = f.write t) → rest s = rest t → s = t

/-- The pairs are the chosen ones, in any order and among others that no field reads. -/
def Holds (fields : List (Field S)) (chosen pairs : List (String × Value)) : Prop :=
  ∃ others, pairs.Perm (chosen ++ others) ∧ ∀ p ∈ others, ∀ f ∈ fields, f.name ≠ p.1

/-- The written parts that are kept. -/
def keptPairs (fields : List (Field S)) (kept : String → Bool) (s : S) : List (String × Value) :=
  (fields.filter (kept ·.name)).map fun f => (f.name, f.write s)

/-- What an object holds of a record that is nested under a name: an object with the parts that are
kept, or nothing where none are. -/
inductive Nested (name : String) (fields : List (Field S)) (kept : String → Bool) (s : S) :
    List (String × Value) → Prop where
  | absent (h : ∀ f ∈ fields, kept f.name = false) : Nested name fields kept s []
  | object {pairs : List (String × Value)} (h : Holds fields (keptPairs fields kept s) pairs) :
      Nested name fields kept s [(name, .object pairs)]

/-- The keys that belong to fields. -/
def knownKeys (fields : List (Field S)) (pairs : List (String × Value)) : List String :=
  (pairs.map (·.1)).filter fun key => fields.any (·.name == key)

section Reading

variable {fields : List (Field S)} {rest : S → R} {d : Dialect} {start target : S}
  {chosen pairs : List (String × Value)}

theorem find?_eq_none_iff {key : String} :
    fields.find? (·.name == key) = none ↔ fields.any (·.name == key) = false := by
  simp

theorem eq_of_name (hn : (fields.map (·.name)).Nodup) {f g : Field S} (hf : f ∈ fields)
    (hg : g ∈ fields) (h : f.name = g.name) : f = g :=
  List.inj_on_of_nodup_map hn hf hg h

/-- Pairs that give the parts of the target, each once, are read in any order. What they do not
give is there from the start. -/
theorem readPairs_eq (hl : Lawful fields rest) (hrest : rest start = rest target)
    (seen : List String) (hn : (knownKeys fields pairs).Nodup)
    (hseen : ∀ key ∈ knownKeys fields pairs, key ∉ seen)
    (hgives : ∀ p ∈ pairs, ∀ f ∈ fields, f.name = p.1 → f.Gives d p.2 target)
    (habsent : ∀ f ∈ fields, f.name ∉ pairs.map (·.1) → f.write start = f.write target) :
    readPairs d fields pairs seen start =
      some ((knownKeys fields pairs).reverse ++ seen, target) := by
  induction pairs generalizing start seen with
  | nil =>
    have heq : start = target := hl.ext _ _ (fun f hf => habsent f hf List.not_mem_nil) hrest
    rw [heq]
    rfl
  | cons p pairs ih =>
    obtain ⟨key, value⟩ := p
    obtain ⟨hfirst, hothers⟩ := List.forall_mem_cons.1 hgives
    rw [readPairs]
    cases hfind : fields.find? (·.name == key) with
    | none =>
      have hany := find?_eq_none_iff.1 hfind
      have hkeys : knownKeys fields ((key, value) :: pairs) = knownKeys fields pairs := by
        simp [knownKeys, hany]
      rw [hkeys] at hn hseen ⊢
      refine ih hrest seen hn hseen hothers fun f hf hnot => habsent f hf ?_
      rw [List.map_cons, List.mem_cons, not_or]
      have hne := List.find?_eq_none.1 hfind f hf
      exact ⟨fun heq => hne (beq_iff_eq.2 heq), hnot⟩
    | some f =>
      have hf := List.mem_of_find?_eq_some hfind
      have hname : f.name = key := by simpa using List.find?_some hfind
      have hany : fields.any (·.name == key) = true :=
        List.any_eq_true.2 ⟨f, hf, beq_iff_eq.2 hname⟩
      have hkeys : knownKeys fields ((key, value) :: pairs) = key :: knownKeys fields pairs := by
        simp [knownKeys, hany]
      rw [hkeys] at hn hseen ⊢
      obtain ⟨hnot, hn⟩ := List.nodup_cons.1 hn
      obtain ⟨hnew, hlater⟩ := List.forall_mem_cons.1 hseen
      obtain ⟨s', hread, hwrite⟩ := hfirst f hf hname start
      have hkeep : rest s' = rest target := (hl.keeps f hf d value start s' hread).trans hrest
      have hafter : ∀ g ∈ fields, g.name ∉ pairs.map (·.1) → g.write s' = g.write target := by
        intro g hg hout
        by_cases hsame : f.name = g.name
        · rw [← eq_of_name hl.nodup hf hg hsame]
          exact hwrite
        · rw [hl.apart f hf g hg hsame d value start s' hread]
          refine habsent g hg ?_
          rw [List.map_cons, List.mem_cons, not_or]
          exact ⟨fun heq => hsame (hname.trans heq.symm), hout⟩
      have hfresh : ∀ other ∈ knownKeys fields pairs, other ∉ key :: seen := by
        intro other hother hmem
        rcases List.mem_cons.1 hmem with rfl | hmem
        · exact hnot hother
        · exact hlater other hother hmem
      simp only [List.contains_eq_mem, decide_eq_true_eq, hnew, ↓reduceIte, hread,
        Option.bind_some]
      rw [ih hkeep (key :: seen) hn hfresh hothers hafter, List.reverse_cons, List.append_assoc]
      rfl

theorem Holds.mem_keys (h : Holds fields chosen pairs) {f : Field S} (hf : f ∈ fields) :
    f.name ∈ pairs.map (·.1) ↔ f.name ∈ chosen.map (·.1) := by
  obtain ⟨others, hperm, hothers⟩ := h
  rw [(hperm.map _).mem_iff, List.map_append, List.mem_append, or_iff_left]
  intro hmem
  obtain ⟨p, hp, heq⟩ := List.mem_map.1 hmem
  exact hothers p hp f hf heq.symm

theorem Holds.knownKeys (h : Holds fields chosen pairs) :
    (knownKeys fields pairs).Perm (Record.knownKeys fields chosen) := by
  obtain ⟨others, hperm, hothers⟩ := h
  have hnone : Record.knownKeys fields others = [] := by
    rw [Record.knownKeys, List.filter_eq_nil_iff]
    intro key hkey hany
    obtain ⟨p, hp, rfl⟩ := List.mem_map.1 hkey
    obtain ⟨f, hf, heq⟩ := List.any_eq_true.1 hany
    exact hothers p hp f hf (beq_iff_eq.1 heq)
  have hall := (hperm.map (·.1)).filter fun key => fields.any (·.name == key)
  rw [List.map_append, List.filter_append] at hall
  change _ = [] at hnone
  unfold Record.knownKeys at hnone ⊢
  rwa [hnone, List.append_nil] at hall

/-- An object that holds what gives the target is read as the target. -/
theorem ofValue?_of_holds (hl : Lawful fields rest) (hrest : rest start = rest target)
    (hn : (chosen.map (·.1)).Nodup)
    (hgives : ∀ p ∈ chosen, ∀ f ∈ fields, f.name = p.1 → f.Gives d p.2 target)
    (habsent : ∀ f ∈ fields, f.name ∉ chosen.map (·.1) → f.write start = f.write target)
    (h : Holds fields chosen pairs) :
    ofValue? d fields start (.object pairs) = some target := by
  have hknown : (knownKeys fields pairs).Nodup := h.knownKeys.nodup_iff.2 (hn.filter _)
  have hall : ∀ p ∈ pairs, ∀ f ∈ fields, f.name = p.1 → f.Gives d p.2 target := by
    intro p hp f hf heq
    obtain ⟨others, hperm, hothers⟩ := h
    rcases List.mem_append.1 (hperm.mem_iff.1 hp) with hmem | hmem
    · exact hgives p hmem f hf heq
    · exact absurd heq (hothers p hmem f hf)
  have hread := readPairs_eq hl hrest [] hknown (fun _ _ => List.not_mem_nil) hall
    fun f hf hnot => habsent f hf (mt (h.mem_keys hf).2 hnot)
  rw [ofValue?, hread]
  rfl

theorem keys_keptPairs (kept : String → Bool) (s : S) :
    (keptPairs fields kept s).map (·.1) = (fields.map (·.name)).filter kept := by
  rw [keptPairs, List.map_map, List.filter_map]
  rfl

theorem gives_keptPairs {kept : String → Bool} {s : S} (hn : (fields.map (·.name)).Nodup)
    (hs : ∀ f ∈ fields, kept f.name = true → f.Gives d (f.write s) s)
    (htarget : ∀ f ∈ fields, kept f.name = true → f.write s = f.write target) :
    ∀ p ∈ keptPairs fields kept s, ∀ f ∈ fields, f.name = p.1 → f.Gives d p.2 target := by
  intro p hp f hf heq
  obtain ⟨g, hg, rfl⟩ := List.mem_map.1 hp
  obtain ⟨hmem, hkept⟩ := List.mem_filter.1 hg
  obtain rfl := eq_of_name hn hf hmem heq
  exact (hs f hf hkept).congr (htarget f hf hkept)

/-- Any of the written parts of a record give a record with these parts, and with those that
reading started from in the place of the others. -/
theorem ofValue?_keptPairs (hl : Lawful fields rest) {kept : String → Bool} {s : S}
    (hrest : rest start = rest target) (hs : ∀ f ∈ fields, f.Gives d (f.write s) s)
    (htarget : ∀ f ∈ fields,
      f.write target = if kept f.name then f.write s else f.write start)
    (h : Holds fields (keptPairs fields kept s) pairs) :
    ofValue? d fields start (.object pairs) = some target := by
  refine ofValue?_of_holds hl hrest ?_
    (gives_keptPairs hl.nodup (fun f hf _ => hs f hf) fun f hf hkept => ?_)
    (fun f hf hnot => ?_) h
  · rw [keys_keptPairs]
    exact hl.nodup.filter _
  · rw [htarget f hf, if_pos hkept]
  · have hout : kept f.name = false := by
      rw [keys_keptPairs] at hnot
      simpa using fun hmem => hnot (List.mem_filter.2 ⟨List.mem_map_of_mem hf, hmem⟩)
    rw [htarget f hf, hout]
    rfl

theorem readPairs_written (hn : (fields.map (·.name)).Nodup) (s : S) {todo : List (Field S)}
    (hsub : todo.Sublist fields) (seen : List String)
    (hseen : ∀ key ∈ todo.map (·.name), key ∉ seen) :
    readPairs d fields (todo.map fun f => (f.name, f.write s)) seen start =
      (todo.foldlM (fun t (f : Field S) => f.read d (f.write s) t) start).map fun t =>
        ((todo.map (·.name)).reverse ++ seen, t) := by
  induction todo generalizing start seen with
  | nil => rfl
  | cons f todo ih =>
    have hf := hsub.subset List.mem_cons_self
    have hfind : fields.find? (·.name == f.name) = some f := by
      cases hfind : fields.find? (·.name == f.name) with
      | none => exact absurd (beq_self_eq_true f.name) (List.find?_eq_none.1 hfind f hf)
      | some g =>
        have hname : g.name = f.name := by simpa using List.find?_some hfind
        rw [eq_of_name hn (List.mem_of_find?_eq_some hfind) hf hname]
    obtain ⟨hnew, hlater⟩ := List.forall_mem_cons.1 hseen
    obtain ⟨hnot, -⟩ := List.nodup_cons.1 (hn.sublist (hsub.map (·.name)))
    have hfresh : ∀ key ∈ todo.map (·.name), key ∉ f.name :: seen := by
      intro key hkey hmem
      rcases List.mem_cons.1 hmem with rfl | hmem
      · exact hnot hkey
      · exact hlater key hkey hmem
    rw [List.map_cons, readPairs, hfind, List.foldlM_cons]
    simp only [List.contains_eq_mem, decide_eq_true_eq, hnew, ↓reduceIte]
    cases hread : f.read d (f.write s) start with
    | none => rfl
    | some t =>
      have hsub' : todo.Sublist fields := (List.sublist_cons_self f todo).trans hsub
      change readPairs d fields (todo.map fun f => (f.name, f.write s)) (f.name :: seen) t = _
      rw [ih hsub' _ hfresh, List.map_cons, List.reverse_cons, List.append_assoc]
      rfl

/-- A whole record is read field by field. -/
theorem ofWholeValue?_toValue (hn : (fields.map (·.name)).Nodup) (s : S) :
    ofWholeValue? d fields start (toValue fields s) =
      fields.foldlM (fun t (f : Field S) => f.read d (f.write s) t) start := by
  rw [toValue, ofWholeValue?, readPairs_written hn s (List.Sublist.refl _) [] fun _ _ =>
    List.not_mem_nil]
  cases fields.foldlM (fun t (f : Field S) => f.read d (f.write s) t) start with
  | none => rfl
  | some t =>
    simp

theorem hasOnly_toValue (s : S) : hasOnly fields (toValue fields s) = true := by
  refine List.all_eq_true.2 fun p hp => ?_
  obtain ⟨f, hf, rfl⟩ := List.mem_map.1 hp
  exact List.any_eq_true.2 ⟨f, hf, beq_self_eq_true _⟩

theorem toValue_injective (hl : Lawful fields rest) {s t : S}
    (h : toValue fields s = toValue fields t) (hrest : rest s = rest t) : s = t := by
  refine hl.ext s t (fun f hf => ?_) hrest
  have hpairs := List.map_inj_left.1 (Value.object.inj h) f hf
  exact congrArg Prod.snd hpairs

section Nesting

variable {name : String} {kept : String → Bool} {s : S} {part : List (String × Value)}

theorem Nested.reads (h : Nested name fields kept s part) (hl : Lawful fields rest)
    (hrest : rest start = rest target) (hs : ∀ f ∈ fields, f.Gives d (f.write s) s)
    (htarget : ∀ f ∈ fields,
      f.write target = if kept f.name then f.write s else f.write start) :
    ∀ p ∈ part, p.1 = name ∧ ofValue? d fields start p.2 = some target := by
  cases h with
  | absent => exact List.forall_mem_nil _
  | object h =>
    exact List.forall_mem_singleton.2 ⟨rfl, ofValue?_keptPairs hl hrest hs htarget h⟩

theorem Nested.eq_of_absent (h : Nested name fields kept s part) (hl : Lawful fields rest)
    (hrest : rest start = rest target) (hnot : name ∉ part.map (·.1))
    (htarget : ∀ f ∈ fields,
      f.write target = if kept f.name then f.write s else f.write start) :
    start = target := by
  cases h with
  | absent hnone =>
    refine hl.ext start target (fun f hf => ?_) hrest
    rw [htarget f hf, hnone f hf]
    rfl
  | object => exact absurd (List.mem_singleton.2 rfl) hnot

theorem Nested.keys (h : Nested name fields kept s part) : (part.map (·.1)).Sublist [name] := by
  cases h with
  | absent => exact List.nil_sublist _
  | object => exact List.Sublist.refl _

end Nesting
end Reading
end Record
end JavaSynth
