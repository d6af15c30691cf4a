import Mathlib.Tactic.SplitIfs
import JavaSynth.Files.Table

set_option autoImplicit false

/-!
# Contents of a table of files

What reading gives after writing. Writing makes no directory and no link, and hides none, so every
path leads where it led before. A path that leads to the file that was written reads what was
written, and every other path reads what it read before.
-/
namespace JavaSynth

namespace Files

def Place.names? : Place → Option (List String)
  | .file names _ _ | .vacant names => some names
  | .directory _ => none

def Place.content? : Place → Option ByteArray
  | .file _ content _ => some content
  | .directory _ | .vacant _ => none

/-- The names of the file that a path leads to, be it there or not. -/
def target? (files : Files) (path : String) : Option (List String) :=
  (files.place false path).toOption.bind Place.names?

/-- What the file at a path holds, if there is one. -/
def content? (files : Files) (path : String) : Option ByteArray :=
  (files.place false path).toOption.bind Place.content?

/-- Both paths lead to one file, be it there or not. -/
def SameFile (files : Files) (path other : String) : Prop :=
  ∃ names, files.target? path = some names ∧ files.target? other = some names

section Entries

variable {files : Files} {names : List String} {content : ByteArray}

/-- What stands under some names once a content was put there. -/
def Entry.written (content : ByteArray) : Option Entry → Entry
  | some e => e.withContent content
  | none => .file content {}

/-- An entry of a table after a content is put under some names. -/
def replaced (names : List String) (content : ByteArray) (e : List String × Entry) :
    List String × Entry :=
  if e.1 == names then (e.1, e.2.withContent content) else e

theorem replaced_names (e : List String × Entry) : (replaced names content e).1 = e.1 := by
  unfold replaced
  split <;> rfl

theorem find?_put (name : List String) : (files.put names content).find? name =
    if name = names then some (.written content (files.find? names)) else files.find? name := by
  unfold put
  split
  · rename_i hthere
    change ((files.entries.map (replaced names content)).find? (·.1 == name)).map (·.2) = _
    rw [List.find?_map, Option.map_map]
    simp only [Function.comp_def, replaced_names]
    cases hfound : files.entries.find? (·.1 == name) with
    | none =>
      have hne : name ≠ names := by
        rintro rfl
        simp [find?, hfound] at hthere
      rw [if_neg hne]
      simp [find?, hfound]
    | some e =>
      have hname : e.1 = name := by simpa using List.find?_some hfound
      by_cases heq : name = names
      · subst heq
        simp [replaced, hname, find?, hfound, Entry.written]
      · simp [replaced, hname, heq, find?, hfound]
  · rename_i habsent
    have hnone : files.find? names = none := by simpa using habsent
    by_cases heq : name = names
    · subst heq
      have hfound : files.entries.find? (·.1 == name) = none := by simpa [find?] using hnone
      simp [find?, List.find?_append, hfound, Entry.written]
    · have hne : ¬ names = name := fun h => heq h.symm
      simp [find?, List.find?_append, heq, hne]

theorem find?_put_none {name : List String} (h : files.find? name = none) :
    (files.put names content).find? name =
      if name = names then some (.file content {}) else none := by
  rw [find?_put, h]
  by_cases heq : name = names
  · rw [if_pos heq, if_pos heq, ← heq, h]
    rfl
  · rw [if_neg heq, if_neg heq]

theorem find?_put_some {name : List String} {e : Entry} (h : files.find? name = some e) :
    (files.put names content).find? name =
      some (if name = names then e.withContent content else e) := by
  rw [find?_put, h]
  by_cases heq : name = names
  · rw [if_pos heq, if_pos heq, ← heq, h]
    rfl
  · rw [if_neg heq, if_neg heq]

/-- No directory is made or lost where a file is written. -/
theorem directory?_put (dir : List String) :
    (files.put names content).directory? dir = files.directory? dir := by
  unfold directory?
  cases hfound : files.find? dir with
  | none =>
    rw [find?_put_none hfound]
    split_ifs <;> rfl
  | some e =>
    rw [find?_put_some hfound]
    cases e <;> split_ifs <;> rfl

end Entries

section Paths

variable {files : Files} {names : List String} {content : ByteArray} {creating : Bool}

/-- What a path leads to after a content is put under some names. -/
def Place.after (names : List String) (content : ByteArray) : Place → Place
  | .file others old access => .file others (if others = names then content else old) access
  | .vacant others => if others = names then .file names content {} else .vacant others
  | .directory others => .directory others

@[simp] theorem Place.names?_after (place : Place) :
    (place.after names content).names? = place.names? := by
  cases place with
  | file others old access => rfl
  | vacant others =>
    by_cases h : others = names
    · subst h
      simp [Place.after, names?]
    · simp [Place.after, h]
  | directory others => rfl

theorem Place.content?_after (place : Place) : (place.after names content).content? =
    if place.names? = some names then some content else place.content? := by
  cases place with
  | file others old access | vacant others =>
    by_cases h : others = names
    · simp [Place.after, names?, content?, h]
    · simp [Place.after, names?, content?, h]
  | directory others => rfl

/-- What a name comes to after a content is put under some names. -/
def Step.after (names : List String) (content : ByteArray) : Step → Step
  | .onward others => .onward others
  | .through path => .through path
  | .arrived place => .arrived (place.after names content)

theorem found_put (others rest : List String) :
    ((files.put names content).found others rest).toOption =
      (files.found others rest).toOption.map (Step.after names content) := by
  unfold found
  cases hfound : files.find? others with
  | none =>
    rw [find?_put_none hfound]
    cases rest with
    | nil => split_ifs with heq <;> simp [Step.after, Place.after, Except.toOption, heq]
    | cons next rest => split_ifs <;> rfl
  | some e =>
    rw [find?_put_some hfound]
    cases e with
    | directory access | link target => split_ifs <;> rfl
    | file old access =>
      cases rest with
      | nil =>
        split_ifs with heq <;>
          simp [Entry.withContent, Step.after, Place.after, Except.toOption, heq]
      | cons next rest => split_ifs <;> rfl

theorem step_put (here : List String) (name : String) (rest : List String) :
    ((files.put names content).step creating here name rest).toOption =
      (files.step creating here name rest).toOption.map (Step.after names content) := by
  unfold step
  rw [directory?_put]
  by_cases hempty : name.isEmpty
  · rw [if_pos hempty, if_pos hempty]
    rfl
  rw [if_neg hempty, if_neg hempty]
  cases files.directory? here with
  | none => rfl
  | some access =>
    dsimp only
    split_ifs <;> first | rfl | exact found_put _ _

/-- Where a path leads, by where its first name leads. -/
theorem toOption_walk_cons {jump : List String → List String → Except FileError Place}
    (here : List String) (name : String) (rest : List String) :
    (files.walk creating jump here (name :: rest)).toOption =
      (files.step creating here name rest).toOption.bind fun
        | .onward names => (files.walk creating jump names rest).toOption
        | .through path => (jump (startOf here path) (namesOf path ++ rest)).toOption
        | .arrived place => some place := by
  rw [walk]
  cases files.step creating here name rest with
  | error e => rfl
  | ok s => cases s <;> rfl

/-- Names lead on as before, but find what was put where it was put. -/
theorem walk_put {jump jump' : List String → List String → Except FileError Place}
    (hjump : ∀ here path,
      (jump' here path).toOption = (jump here path).toOption.map (Place.after names content))
    (here path : List String) :
    ((files.put names content).walk creating jump' here path).toOption =
      (files.walk creating jump here path).toOption.map (Place.after names content) := by
  induction path generalizing here with
  | nil => rfl
  | cons name rest ih =>
    rw [toOption_walk_cons, toOption_walk_cons, step_put]
    cases (files.step creating here name rest).toOption with
    | none => rfl
    | some s =>
      cases s with
      | onward others => exact ih others
      | through target => exact hjump _ _
      | arrived place => rfl

theorem follow_put (links : Nat) (here path : List String) :
    ((files.put names content).follow creating links here path).toOption =
      (files.follow creating links here path).toOption.map (Place.after names content) := by
  induction links generalizing here path with
  | zero => exact walk_put (fun _ _ => rfl) here path
  | succ links ih => exact walk_put ih here path

theorem place_put (path : String) :
    ((files.put names content).place creating path).toOption =
      (files.place creating path).toOption.map (Place.after names content) := by
  have hcurrent : (files.put names content).current = files.current := by
    unfold put
    split <;> rfl
  unfold place
  rw [hcurrent]
  cases checkPath path with
  | error e => rfl
  | ok _ => exact follow_put _ _ _

theorem step_of_creating {s : Step} {here : List String} {name : String} {rest : List String}
    (h : files.step true here name rest = .ok s) : files.step false here name rest = .ok s := by
  unfold step at h ⊢
  by_cases hempty : name.isEmpty
  · rwa [if_pos hempty] at h ⊢
  rw [if_neg hempty] at h ⊢
  cases hdir : files.directory? here with
  | none =>
    rw [hdir] at h
    cases h
  | some access =>
    rw [hdir] at h
    dsimp only at h ⊢
    rw [Bool.false_and, Bool.false_and, if_neg Bool.false_ne_true]
    split_ifs at h ⊢ <;> exact h

/-- Where a path leads to make a file, it leads otherwise as well. -/
theorem walk_of_creating {jump jump' : List String → List String → Except FileError Place}
    {place : Place} (hjump : ∀ here path, jump' here path = .ok place → jump here path = .ok place)
    {here path : List String} (h : files.walk true jump' here path = .ok place) :
    files.walk false jump here path = .ok place := by
  induction path generalizing here with
  | nil => exact h
  | cons name rest ih =>
    unfold walk at h ⊢
    cases hstep : files.step true here name rest with
    | error e =>
      rw [hstep] at h
      cases h
    | ok s =>
      rw [hstep] at h
      rw [step_of_creating hstep]
      cases s with
      | onward names => exact ih h
      | through target => exact hjump _ _ h
      | arrived place => exact h

theorem follow_of_creating {place : Place} {links : Nat} {here path : List String}
    (h : files.follow true links here path = .ok place) :
    files.follow false links here path = .ok place := by
  induction links generalizing here path with
  | zero => exact walk_of_creating (fun _ _ h => h) h
  | succ links ih => exact walk_of_creating (fun _ _ => ih) h

theorem place_of_creating {place : Place} {path : String}
    (h : files.place true path = .ok place) : files.place false path = .ok place := by
  unfold Files.place at h ⊢
  cases hcheck : checkPath path with
  | error e =>
    rw [hcheck] at h
    cases h
  | ok _ =>
    rw [hcheck] at h
    exact follow_of_creating h

end Paths

section Writes

variable {files files' : Files} {path : String} {names : List String} {content : ByteArray}

theorem content?_of_read (h : files.read path = .ok content) :
    files.content? path = some content := by
  unfold read at h
  unfold content?
  cases hplace : files.place false path with
  | error e =>
    rw [hplace] at h
    cases h
  | ok place =>
    rw [hplace] at h
    cases place with
    | vacant names => cases h
    | directory names =>
      change (if _ then _ else _) = _ at h
      split_ifs at h
    | file names old access =>
      change (if _ then _ else _) = _ at h
      split_ifs at h
      exact congrArg some (Except.ok.inj h)

theorem isThere_of_content? (h : files.content? path = some content) :
    files.isThere path = true := by
  unfold content? at h
  unfold isThere
  cases hplace : files.place false path with
  | error e =>
    rw [hplace] at h
    cases h
  | ok place =>
    rw [hplace] at h
    cases place <;> first | rfl | cases h

theorem target?_put (other : String) :
    (files.put names content).target? other = files.target? other := by
  unfold target?
  rw [place_put]
  cases (files.place false other).toOption with
  | none => rfl
  | some place => exact Place.names?_after place

theorem content?_put (other : String) :
    (files.put names content).content? other =
      if files.target? other = some names then some content else files.content? other := by
  unfold content? target?
  rw [place_put]
  cases (files.place false other).toOption with
  | none => rfl
  | some place => exact Place.content?_after place

/-- What is written is put where the path leads. -/
theorem eq_put_of_write (h : files.write path content = .ok files') :
    ∃ names, files.target? path = some names ∧ files' = files.put names content := by
  unfold write at h
  cases hplace : files.place true path with
  | error e =>
    rw [hplace] at h
    cases h
  | ok place =>
    rw [hplace] at h
    have htarget : files.target? path = place.names? := by
      rw [target?, place_of_creating hplace]
      rfl
    cases place with
    | directory names => cases h
    | file names old access | vacant names =>
      change (if _ then _ else _) = _ at h
      split_ifs at h
      exact ⟨names, htarget, (Except.ok.inj h).symm⟩

/-- What every path reads after a write. -/
theorem content?_of_write (h : files.write path content = .ok files') (other : String) :
    (files.SameFile other path → files'.content? other = some content) ∧
      (¬ files.SameFile other path → files'.content? other = files.content? other) := by
  obtain ⟨names, htarget, rfl⟩ := eq_put_of_write h
  rw [content?_put]
  constructor
  · rintro ⟨same, hother, hpath⟩
    rw [htarget] at hpath
    cases hpath
    rw [if_pos hother]
  · intro hapart
    exact if_neg fun hother => hapart ⟨names, hother, htarget⟩

theorem sameFile_of_write (h : files.write path content = .ok files') (one other : String) :
    files'.SameFile one other ↔ files.SameFile one other := by
  obtain ⟨names, -, rfl⟩ := eq_put_of_write h
  unfold SameFile
  simp only [target?_put]

theorem content?_self_of_write (h : files.write path content = .ok files') :
    files'.content? path = some content := by
  obtain ⟨names, htarget, -⟩ := eq_put_of_write h
  exact (content?_of_write h path).1 ⟨names, htarget, htarget⟩

end Writes

end Files
end JavaSynth
