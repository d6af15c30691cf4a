import Mathlib.Data.String.Basic
import JavaSynth.Proofs.Naming.Letters
import JavaSynth.Proofs.Naming.Spelling
import JavaSynth.Proofs.Reading.Splitting

set_option autoImplicit false

/-!
# Words in camel case

Words are made of lower-case letters, so in a name each capital starts a word and a digit ends the
last one. A name therefore shows which words it is made of. Only a reserved word needs a number, and
with the number it is none.
-/
namespace JavaSynth

/-- How a name starts: with a capital, or with a word as it is. -/
inductive Casing where
  | upper
  | lower

namespace Casing

variable (k : Casing)

def letter : Casing → Char → Char
  | upper => Char.toUpper
  | lower => id

/-- The first word of a name. The others are capitalized. -/
def first : Casing → String → String
  | upper => capitalized
  | lower => id

/-- Words in camel case. -/
def join : List String → String
  | [] => ""
  | w :: rest => k.first w ++ String.join (rest.map capitalized)

/-- The letters that a name may start with. -/
def isInitial : Casing → Char → Bool
  | upper => Char.isUpper
  | lower => Char.isLower

theorem isInitial_letter {c : Char} (h : c.isLower = true) : k.isInitial (k.letter c) = true := by
  cases k with
  | upper => exact isUpper_toUpper h
  | lower => exact h

theorem letter_injective {c d : Char} (hc : c.isLower = true) (hd : d.isLower = true)
    (h : k.letter c = k.letter d) : c = d := by
  cases k with
  | upper => exact toUpper_injective hc hd h
  | lower => exact h

theorem isAlpha_of_isInitial {k : Casing} {c : Char} (h : k.isInitial c = true) :
    c.isAlpha = true := by
  cases k with
  | upper => exact isAlpha_of_isUpper h
  | lower => exact isAlpha_of_isLower h

theorem toList_first {w : String} {c : Char} {cs : List Char} (hw : w.toList = c :: cs)
    (hc : c.isLower = true) : (k.first w).toList = k.letter c :: cs := by
  cases k with
  | upper =>
    have hrange := isLower_iff.1 hc
    have hcapital : Text.upperCase c = [c.toUpper] := Text.upperCase_of_ascii (by omega)
    rw [first, capitalized, hw]
    simp only [hcapital, String.toList_ofList, List.cons_append, List.nil_append]
    rfl
  | lower => exact hw

theorem length_first {w : String} (h : isWord w = true) : (k.first w).length = w.length := by
  obtain ⟨c, cs, hw, hc, -⟩ := letters_of_isWord h
  rw [← String.length_toList, ← String.length_toList, k.toList_first hw hc, hw, List.length_cons,
    List.length_cons]

theorem isAlpha_first {w : String} (h : isWord w = true) :
    ∀ c ∈ (k.first w).toList, c.isAlpha = true := by
  obtain ⟨c, cs, hw, hc, hcs⟩ := letters_of_isWord h
  rw [k.toList_first hw hc]
  refine List.forall_mem_cons.2 ⟨isAlpha_of_isInitial (k.isInitial_letter hc), fun d hd => ?_⟩
  exact isAlpha_of_isLower (hcs d hd)

/-- A word is complete before this text. -/
def EndsWord (rest : List Char) : Prop := ∀ d ∈ rest.head?, d.isLower = false

theorem divides_first :
    Divides (fun w => (k.first w).toList) id (isWord · = true) EndsWord := by
  intro a b rest rest' ha hb hr hr' heq
  obtain ⟨c, cs, hw, hc, hcs⟩ := letters_of_isWord ha
  obtain ⟨d, ds, hw', hd, hds⟩ := letters_of_isWord hb
  simp only [k.toList_first hw hc, k.toList_first hw' hd, List.cons_append,
    List.cons.injEq] at heq
  obtain ⟨hfirst, htail⟩ := heq
  obtain ⟨hletters, hrest⟩ := run_split hcs hds hr hr' htail
  refine ⟨String.toList_inj.1 ?_, hrest⟩
  rw [id, id, hw, hw', k.letter_injective hc hd hfirst, hletters]

theorem endsWord_upper (w : String) (tail : List Char) (h : isWord w = true) :
    EndsWord ((upper.first w).toList ++ tail) := by
  obtain ⟨c, cs, hw, hc, -⟩ := letters_of_isWord h
  intro d hd
  rw [upper.toList_first hw hc] at hd
  cases hd
  exact isLower_of_isUpper (isUpper_toUpper hc)

theorem toList_capitals (ws : List String) : (String.join (ws.map capitalized)).toList =
    (ws.map fun w => (upper.first w).toList).flatten := by
  rw [String.toList_join, List.flatMap_def, List.map_map]
  rfl

theorem closes_nil : Closes (fun w => (upper.first w).toList) (isWord · = true) EndsWord [] := by
  refine ⟨?_, fun w tail h => ?_⟩
  · intro d hd
    cases hd
  · obtain ⟨c, cs, hw, hc, -⟩ := letters_of_isWord h
    simp [upper.toList_first hw hc]

section Capitals

variable {ws ws' : List String}

theorem endsWord_capitals (h : ∀ w ∈ ws, isWord w = true) :
    EndsWord (ws.map fun w => (upper.first w).toList).flatten := by
  have hnil := follow_items endsWord_upper h closes_nil.1
  rwa [List.append_nil] at hnil

theorem capitals_injective (h : ∀ w ∈ ws, isWord w = true) (h' : ∀ w ∈ ws', isWord w = true)
    (heq : (ws.map fun w => (upper.first w).toList).flatten =
      (ws'.map fun w => (upper.first w).toList).flatten) : ws = ws' := by
  rw [← List.append_nil (List.flatten _), ← List.append_nil (List.flatten (ws'.map _))] at heq
  obtain ⟨hws, -⟩ := upper.divides_first.flatten endsWord_upper h h' closes_nil closes_nil heq
  rwa [List.map_id, List.map_id] at hws

end Capitals

/-- A name shows which words it is made of. -/
theorem join_injective {ws ws' : List String} (hne : ws ≠ []) (hne' : ws' ≠ [])
    (h : ∀ w ∈ ws, isWord w = true) (h' : ∀ w ∈ ws', isWord w = true)
    (heq : k.join ws = k.join ws') : ws = ws' := by
  obtain ⟨w, rest, rfl⟩ := List.exists_cons_of_ne_nil hne
  obtain ⟨w', rest', rfl⟩ := List.exists_cons_of_ne_nil hne'
  obtain ⟨hw, hrest⟩ := List.forall_mem_cons.1 h
  obtain ⟨hw', hrest'⟩ := List.forall_mem_cons.1 h'
  have htexts := congrArg String.toList heq
  simp only [join, String.toList_append, toList_capitals] at htexts
  obtain ⟨hfirst, hothers⟩ := k.divides_first w w' _ _ hw hw' (endsWord_capitals hrest)
    (endsWord_capitals hrest') htexts
  rw [show w = w' from hfirst, capitals_injective hrest hrest' hothers]

theorem isAlpha_join {ws : List String} (h : ∀ w ∈ ws, isWord w = true) :
    ∀ c ∈ (k.join ws).toList, c.isAlpha = true := by
  cases ws with
  | nil => exact List.forall_mem_nil _
  | cons w rest =>
    obtain ⟨hw, hrest⟩ := List.forall_mem_cons.1 h
    rw [join, String.toList_append, toList_capitals]
    refine List.forall_mem_append.2 ⟨k.isAlpha_first hw, fun c hc => ?_⟩
    obtain ⟨cs, hcs, hmem⟩ := List.mem_flatten.1 hc
    obtain ⟨u, hu, rfl⟩ := List.mem_map.1 hcs
    exact upper.isAlpha_first (hrest u hu) c hmem

theorem exists_initial {ws : List String} (hne : ws ≠ []) (h : ∀ w ∈ ws, isWord w = true) :
    ∃ c cs, (k.join ws).toList = c :: cs ∧ k.isInitial c = true := by
  obtain ⟨w, rest, rfl⟩ := List.exists_cons_of_ne_nil hne
  obtain ⟨c, cs, hw, hc, -⟩ := letters_of_isWord (h w List.mem_cons_self)
  refine ⟨k.letter c, cs ++ (String.join (rest.map capitalized)).toList, ?_, k.isInitial_letter hc⟩
  rw [join, String.toList_append, k.toList_first hw hc, List.cons_append]

theorem isWord_join_append {ws : List String} (hne : ws ≠ []) (h : ∀ w ∈ ws, isWord w = true)
    {digits : List Char} (hd : ∀ d ∈ digits, d.isDigit = true) :
    Identifier.isWord ((k.join ws).toList ++ digits) = true := by
  obtain ⟨c, cs, hchars, -⟩ := k.exists_initial hne h
  have hletters := k.isAlpha_join h
  rw [hchars] at hletters ⊢
  obtain ⟨hc, hcs⟩ := List.forall_mem_cons.1 hletters
  refine isWord_of_alphanum hc (List.forall_mem_append.2 ⟨fun d hmem => ?_, fun d hmem => ?_⟩)
  · exact isAlphanum_iff.2 (.inl (hcs d hmem))
  · exact isAlphanum_iff.2 (.inr (hd d hmem))

/-- An identifier that starts as its case has it. -/
structure Names (name : String) : Prop where
  valid : Identifier.isValid name = true
  initial : name.toList.head?.any k.isInitial = true

/-- The name is words of the list in camel case, and digits after them. -/
structure Spells (words : List String) (name : String) (ws : List String) (digits : String) :
    Prop where
  ne_nil : ws ≠ []
  mem : ∀ w ∈ ws, w ∈ words
  isDigit : ∀ c ∈ digits.toList, c.isDigit = true
  name_eq : name = k.join ws ++ digits

/-- A name that is spelled in one way only. There are digits, and at most two, only after a reserved
word. -/
structure Proper (words : List String) (limit : Nat) (name : String) : Prop extends
    k.Names name where
  spelled : ∃ ws digits, k.Spells words name ws digits ∧ (k.join ws).length ≤ limit ∧
    digits.length ≤ 2 ∧ (digits ≠ "" → k.join ws ∈ reservedWords)
  unique : ∀ ws ws' digits digits', k.Spells words name ws digits →
    k.Spells words name ws' digits' → ws = ws' ∧ digits = digits'

variable {k} {words ws ws' : List String} {name digits digits' : String}

theorem Spells.initial (hwords : ∀ w ∈ words, isWord w = true)
    (h : k.Spells words name ws digits) : name.toList.head?.any k.isInitial = true := by
  obtain ⟨c, cs, hchars, hc⟩ := k.exists_initial h.ne_nil fun u hu => hwords u (h.mem u hu)
  rw [h.name_eq, String.toList_append, hchars]
  exact hc

/-- The digits end the words, and the words are shown by their capitals. -/
theorem Spells.unique (hwords : ∀ w ∈ words, isWord w = true)
    (h : k.Spells words name ws digits) (h' : k.Spells words name ws' digits') :
    ws = ws' ∧ digits = digits' := by
  have hisWord : ∀ u ∈ ws, isWord u = true := fun u hu => hwords u (h.mem u hu)
  have hisWord' : ∀ u ∈ ws', isWord u = true := fun u hu => hwords u (h'.mem u hu)
  have hstop : ∀ {ds : List Char}, (∀ d ∈ ds, d.isDigit = true) →
      ∀ d ∈ ds.head?, d.isAlpha = false :=
    fun hds d hd => isAlpha_of_isDigit (hds d (List.mem_of_mem_head? hd))
  have heq := congrArg String.toList (h.name_eq.symm.trans h'.name_eq)
  rw [String.toList_append, String.toList_append] at heq
  obtain ⟨hletters, hrest⟩ := run_split (k.isAlpha_join hisWord) (k.isAlpha_join hisWord')
    (hstop h.isDigit) (hstop h'.isDigit) heq
  exact ⟨k.join_injective h.ne_nil h'.ne_nil hisWord hisWord' (String.toList_inj.1 hletters),
    String.toList_inj.1 hrest⟩

end Casing

namespace WordList

/-- The length of the longest word. -/
def longest : List String → Nat
  | [] => 0
  | w :: rest => max w.length (longest rest)

theorem length_le_longest {words : List String} {w : String} (h : w ∈ words) :
    w.length ≤ longest words := by
  induction words with
  | nil => cases h
  | cons u rest ih =>
    rcases List.mem_cons.1 h with rfl | hrest
    · exact Nat.le_max_left _ _
    · exact Nat.le_trans (ih hrest) (Nat.le_max_right _ _)

theorem isWord_of_mem_ofText {text w : String} (h : w ∈ ofText text) : isWord w = true :=
  (List.mem_filter.1 h).2

end WordList

theorem length_le_utf8ByteSize (s : String) : s.length ≤ s.utf8ByteSize := by
  rw [← String.utf8Len_toList, ← String.length_toList]
  induction s.toList with
  | nil => exact Nat.le_refl 0
  | cons c cs ih =>
    have hpos := c.utf8Size_pos
    rw [List.length_cons, String.utf8Len_cons]
    omega

namespace Namer

variable {n : Namer} {target : Nat} {name stem : String}

theorem Grows.joined (hn : ∀ w ∈ n.words, isWord w = true) (h : n.Grows target name stem) :
    ∃ ws, (∀ w ∈ ws, w ∈ n.words) ∧ stem = name ++ String.join (ws.map capitalized) ∧
      (ws = [] ∨ stem.length < target + WordList.longest n.words) := by
  induction h with
  | stop name => exact ⟨[], List.forall_mem_nil _, String.append_empty.symm, .inl rfl⟩
  | @word name w stem hlt hw _ ih =>
    obtain ⟨ws, hws, hstem, hlength⟩ := ih
    refine ⟨w :: ws, List.forall_mem_cons.2 ⟨hw, hws⟩, ?_, .inr ?_⟩
    · rw [hstem, List.map_cons, String.join_cons, String.append_assoc]
    · obtain rfl | hlength := hlength
      · have hbytes := length_le_utf8ByteSize name
        have hword := WordList.length_le_longest hw
        have hsame : (capitalized w).length = w.length := Casing.upper.length_first (hn w hw)
        rw [hstem, List.map_nil, String.join_nil, String.append_empty, String.length_append, hsame]
        omega
      · exact hlength

theorem toString_suffix {suffix : Nat} (h : suffix < suffixBound) :
    (toString suffix).length ≤ 2 ∧ (∀ c ∈ (toString suffix).toList, c.isDigit = true) ∧
      (toString suffix).toList ≠ [] := by
  have hbound : suffix < 10 ^ 2 := Nat.lt_trans h (by decide)
  rw [Nat.toString_eq_ofList_toDigits, String.length_ofList, String.toList_ofList]
  exact ⟨(Nat.length_toDigits_le_iff (by decide) (by decide)).2 hbound,
    fun c hc => Nat.isDigit_of_mem_toDigits (by decide) (by decide) hc, Nat.toDigits_ne_nil⟩

variable {k : Casing} {ws : List String} {limit : Nat}

theorem Finishes.proper (hn : ∀ w ∈ n.words, isWord w = true) (hne : ws ≠ [])
    (hws : ∀ w ∈ ws, w ∈ n.words) (hl : (k.join ws).length ≤ limit)
    (h : Finishes (k.join ws) name) : k.Proper n.words limit name := by
  have hisWord : ∀ w ∈ ws, isWord w = true := fun w hw => hn w (hws w hw)
  have hproper : ∀ digits, k.Spells n.words name ws digits → Identifier.isValid name = true →
      digits.length ≤ 2 → (digits ≠ "" → k.join ws ∈ reservedWords) →
      k.Proper n.words limit name := fun digits hspells hv hlength hreserved =>
    ⟨⟨hv, hspells.initial hn⟩, ⟨ws, digits, hspells, hl, hlength, hreserved⟩,
      fun _ _ _ _ h h' => h.unique hn h'⟩
  cases h with
  | whole hv =>
    have hspells : k.Spells n.words (k.join ws) ws "" :=
      ⟨hne, hws, List.forall_mem_nil _, String.append_empty.symm⟩
    exact hproper "" hspells hv (Nat.zero_le 2) fun h => absurd rfl h
  | @numbered suffix hinvalid hs =>
    obtain ⟨hlength, hdigits, hnonempty⟩ := toString_suffix hs
    have hreserved : k.join ws ∈ reservedWords := by
      refine mem_reservedWords_of_isWord ?_ hinvalid
      rw [← List.append_nil (k.join ws).toList]
      exact k.isWord_join_append hne hisWord (List.forall_mem_nil _)
    -- the number makes it a word that is not reserved, since no reserved word has a digit
    have hv : Identifier.isValid (k.join ws ++ toString suffix) = true := by
      obtain ⟨d, hd⟩ := List.exists_mem_of_ne_nil _ hnonempty
      refine isValid_of_isWord ?_ (not_mem_reservedWords_of_isDigit ?_ (hdigits d hd))
      · rw [String.toList_append]
        exact k.isWord_join_append hne hisWord hdigits
      · rw [String.toList_append]
        exact List.mem_append_right _ hd
    exact hproper _ ⟨hne, hws, hdigits, rfl⟩ hv hlength fun _ => hreserved

/-- A name stays shorter than its target until the last word. -/
theorem proper_of_grows {w : String} (hn : ∀ w ∈ n.words, isWord w = true)
    (hpos : 0 < n.approximateLength) (ht : target ≤ max n.approximateLength 1)
    (hw : w ∈ n.words) (hg : n.Grows target (k.first w) stem) (hf : Finishes stem name) :
    k.Proper n.words (n.approximateLength + WordList.longest n.words - 1) name := by
  obtain ⟨ws, hws, hstem, hlength⟩ := hg.joined hn
  have hjoin : stem = k.join (w :: ws) := hstem
  subst hjoin
  refine hf.proper hn (List.cons_ne_nil w ws) (List.forall_mem_cons.2 ⟨hw, hws⟩) ?_
  rcases hlength with rfl | hlt
  · have hword := WordList.length_le_longest hw
    rw [hstem, List.map_nil, String.join_nil, String.append_empty, k.length_first (hn w hw)]
    omega
  · omega

theorem Upper.proper (hn : ∀ w ∈ n.words, isWord w = true) (hpos : 0 < n.approximateLength)
    (h : n.Upper name) :
    Casing.upper.Proper n.words (n.approximateLength + WordList.longest n.words - 1) name := by
  obtain ⟨target, w, stem, ht, hw, hg, hf⟩ := h
  exact proper_of_grows hn hpos ht hw hg hf

theorem Lower.proper (hn : ∀ w ∈ n.words, isWord w = true) (hpos : 0 < n.approximateLength)
    (h : n.Lower name) :
    Casing.lower.Proper n.words (n.approximateLength + WordList.longest n.words - 1) name := by
  obtain ⟨target, w, stem, ht, hw, hg, hf⟩ := h
  exact proper_of_grows hn hpos ht hw hg hf

end Namer
end JavaSynth
