import JavaSynth.Proofs.CommandLine.Stages
import JavaSynth.Proofs.Generate.Filling
import JavaSynth.Proofs.Naming.CamelCase
import JavaSynth.Proofs.Typing.Locals

set_option autoImplicit false

/-!
# The names of a program

Whatever a file holds, a word list that loads from it gives a program whose names are identifiers in
camel case. Each name shows the words that it is made of, and the last of them is all that may exceed
the length that names aim at.
-/
namespace JavaSynth

section Properties

variable (words : List String) (limit : Nat)

/-- The name of the entry point and of its parameter are given. The words spell all others. -/
structure Method.ProperNames (m : Method) : Prop where
  name : Casing.lower.Names m.name
  params : ∀ n ∈ m.paramNames, Casing.lower.Names n
  planned : m.isStatic = false → Casing.lower.Proper words limit m.name ∧
    ∀ n ∈ m.paramNames, Casing.lower.Proper words limit n
  entry : m.isStatic = true → m.name = "main" ∧ m.paramNames = ["args"]
  thrown : ∀ n ∈ m.thrown, Casing.upper.Proper words limit n
  locals : ∀ n ∈ m.locals, Casing.lower.Proper words limit n

structure ClassDecl.ProperNames (c : ClassDecl) : Prop where
  name : Casing.upper.Proper words limit c.name
  fields : ∀ f ∈ c.fields, Casing.lower.Proper words limit f.name
  methods : ∀ m ∈ c.methods, m.ProperNames words limit

end Properties

namespace Synthesis

variable {x : StmtContext} {c c' : ClassDecl} {m m' : Method} {words : List String} {limit : Nat}

theorem entryPointName_names : Casing.lower.Names Plan.entryPointName := ⟨by decide, by decide⟩

theorem entryPointParam_names : Casing.lower.Names entryPointParam.name := ⟨by decide, by decide⟩

section Spelled

variable (hupper : ∀ name, x.namer.Upper name → Casing.upper.Proper words limit name)
  (hlower : ∀ name, x.namer.Lower name → Casing.lower.Proper words limit name)
include hupper hlower

theorem FilledMethod.properNames (h : FilledMethod x c m m')
    (hm : Plan.PlannedMethod x.settings x.types m) : m'.ProperNames words limit := by
  obtain ⟨body, s', rfl, hbody⟩ := h.body
  have hname := hlower m.name hm.name
  have hparams : ∀ n ∈ m.paramNames, Casing.lower.Proper words limit n := by
    intro n hn
    obtain ⟨b, hb, rfl⟩ := List.mem_map.1 hn
    exact hlower b.name (hm.params.names b hb)
  exact {
    name := hname.toNames
    params := fun n hn => (hparams n hn).toNames
    planned := fun _ => ⟨hname, hparams⟩
    entry := fun hstatic => Bool.noConfusion (hm.isStatic.symm.trans hstatic)
    thrown := fun n hn => hupper n (hm.thrown.names n hn)
    locals := fun n hn => hlower n (hbody.locals_lower n hn) }

theorem EntryPoint.properNames (h : EntryPoint x c m) : m.ProperNames words limit := by
  obtain ⟨thrown, body, s', hthrown, hbody, rfl⟩ := h.method
  exact {
    name := entryPointName_names
    params := List.forall_mem_singleton.2 entryPointParam_names
    planned := fun hplanned => Bool.noConfusion hplanned
    entry := fun _ => ⟨rfl, rfl⟩
    thrown := fun n hn => hupper n (hthrown.names n hn)
    locals := fun n hn => hlower n (hbody.locals_lower n hn) }

theorem FinishedClass.properNames {members : Nat} (h : FinishedClass x c c')
    (hname : x.namer.Upper c.name) (hc : Plan.PlannedClass x.settings x.types members c) :
    c'.ProperNames words limit := by
  obtain ⟨methods, mains, rfl, hmethods, hmains, -⟩ := h.methods
  refine ⟨hupper c.name hname, fun f hf => hlower f.name (hc.fields.names f hf), fun m hm => ?_⟩
  rcases List.mem_append.1 hm with hplanned | hentry
  · obtain ⟨planned, hmem, hfill⟩ := exists_of_forall₂ hmethods hplanned
    exact hfill.properNames hupper hlower (hc.methods planned hmem)
  · exact (hmains m hentry).properNames hupper hlower

end Spelled

/-- Where the words are letters in lower case, all names are made of them. -/
theorem Synthesized.properNames {s : Settings} {p : Program} (h : Synthesized s p)
    (hs : s.Valid) (hw : ∀ w ∈ s.words, isWord w = true) : ∀ c ∈ p.classes,
      c.ProperNames s.words (s.approximateNameLength + WordList.longest s.words - 1) := by
  intro c' hc'
  obtain ⟨plan, kinds, hplan, c, hc, hclass⟩ := h.exists_planned hc'
  have hname := hplan.names.upper c.name (List.mem_map_of_mem hc)
  exact hclass.properNames (x := plan.context s kinds) (fun _ hn => hn.proper hw hs.length_pos)
    (fun _ hn => hn.proper hw hs.length_pos) hname (hplan.classes c hc)

end Synthesis

/-- A word list that loads has words, and nothing else. -/
theorem WordList.words_of_load {session : CommandLine.Session} {path : String}
    {words : List String} (h : (CommandLine.within (WordList.load path) session).1 = .ok words) :
    words ≠ [] ∧ ∀ w ∈ words, isWord w = true := by
  have hleads : CommandLine.Leads (WordList.load path) session _ _ := CommandLine.leads_words
  unfold CommandLine.Leads at hleads
  split at hleads
  · rename_i hrun
    rw [hrun] at h
    cases h
    obtain ⟨⟨text, -, rfl, hne⟩, -⟩ := hleads
    exact ⟨hne, fun w hw => WordList.isWord_of_mem_ofText hw⟩
  · rename_i hrun
    rw [hrun] at h
    cases h

/-- With the words of a file, every name of a program is an identifier in camel case, and the words
can be read off it. -/
theorem synthesize_properNames {σ : Type} [Source σ] {session : CommandLine.Session}
    {path : String} {words : List String}
    (hload : (CommandLine.within (WordList.load path) session).1 = .ok words) {s : Settings}
    (h : s.validate = .ok ()) :
    ∃ g : Gen σ Program, synthesize { s with words } = .ok g ∧
      Gen.Ensures s.Exhausts g (fun p => ∀ c ∈ p.classes,
        c.ProperNames words (s.approximateNameLength + WordList.longest words - 1)) := by
  obtain ⟨hne, hisWord⟩ := WordList.words_of_load hload
  have hvalid := Settings.validate_withWords h hne fun w hw => isEmpty_of_isWord (hisWord w hw)
  obtain ⟨g, hg, hprogram⟩ := synthesize_of_validate (σ := σ) hvalid
  refine ⟨g, hg, hprogram.mono fun p hp => ?_⟩
  exact hp.properNames (Settings.valid_of_validate hvalid) hisWord

/-- A file of words, of which one is reserved and one is not usable. -/
def wordFile : CommandLine.Session :=
  { files := { entries := [(["words.txt"], .file "ash\n \tint\r\nElm\n".toUTF8 {})] } }

theorem synthesize_properNames_wordFile : ∃ g : Gen WordStream Program,
    synthesize { approximateNameLength := 3, words := ["ash", "int"] } = .ok g ∧
      Gen.Yields g (fun p => ∀ c ∈ p.classes, c.ProperNames ["ash", "int"] 5) := by
  have hload : (CommandLine.within (WordList.load "words.txt") wordFile).1 =
      .ok ["ash", "int"] := by rfl
  have hvalid : Settings.validate { approximateNameLength := 3, words := ["oak"] } = .ok () := by
    rfl
  obtain ⟨g, hg, hprogram⟩ := synthesize_properNames (σ := WordStream) hload hvalid
  exact ⟨g, hg, hprogram.yields (Settings.not_exhausts (by decide) (by decide) (by decide))⟩

end JavaSynth
