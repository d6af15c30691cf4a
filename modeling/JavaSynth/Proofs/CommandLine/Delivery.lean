import JavaSynth.Proofs.CommandLine.Stages

set_option autoImplicit false

/-!
# What a successful run delivers

A run that succeeds has made its program from the seed and the settings in force. The program is
printed or stands in the output, and the manifest stands in its file. The manifest is written last
and its path is not checked, so an output that is the same file holds the manifest instead.
-/
namespace JavaSynth

theorem Program.head?_chars (p : Program) : p.chars.head? ≠ some '\x7b' := by
  unfold chars
  cases p.classes with
  | nil => simp [List.intercalate]
  | cons c rest =>
    have hword : "class ".toList = 'c' :: "lass ".toList := by decide
    obtain ⟨tail, hclass⟩ : ∃ tail, c.chars = 'c' :: tail := by
      unfold ClassDecl.chars
      rw [hword]
      simp only [List.cons_append]
      exact ⟨_, rfl⟩
    rw [List.map_cons, hclass]
    cases rest with
    | nil =>
      rw [List.map_nil, List.intercalate_singleton]
      simp
    | cons d rest =>
      rw [List.map_cons, List.intercalate_cons_cons]
      simp

theorem Manifest.head?_write (m : Manifest) : m.write.toList.head? = some '\x7b' := by
  change (String.ofList ('\x7b' :: _)).toList.head? = _
  rw [String.toList_ofList]
  rfl

/-- No file holds a manifest and a program. -/
theorem Manifest.write_ne_render (m : Manifest) (p : Program) :
    m.write.toUTF8 ≠ p.render.toUTF8 := by
  intro h
  have htext : m.write = p.render := String.toByteArray_inj.1 h
  apply p.head?_chars
  rw [← m.head?_write, htext, Program.render, String.toList_ofList]

namespace CommandLine

theorem Ending.code_failure_ne (e : Failure) : (Ending.failure e).code ≠ 0 := by
  cases e <;> exact fun h => by cases h

section Deliveries

variable {o : Options} {p : Program} {manifest : Manifest} {before between after : Session}
  {path : String}

theorem Delivered.printed_after (h : Delivered o p before between) : between.printed =
    if o.output.isNone then before.printed ++ p.render else before.printed := by
  cases h with
  | printed houtput => simp [houtput]
  | written houtput hwrite => simp [houtput]

theorem Delivered.content? (h : Delivered o p before between) (hpath : o.output = some path) :
    between.files.content? path = some p.render.toUTF8 := by
  cases h with
  | printed houtput => simp [houtput] at hpath
  | written houtput hwrite =>
    cases houtput.symm.trans hpath
    exact Files.content?_self_of_write hwrite

theorem Delivered.sameFile (h : Delivered o p before between) (one other : String) :
    between.files.SameFile one other ↔ before.files.SameFile one other := by
  cases h with
  | printed houtput => exact Iff.rfl
  | written houtput hwrite => exact Files.sameFile_of_write hwrite one other

theorem Recorded.printed_after (h : Recorded o manifest between after) :
    after.printed = between.printed := by
  cases h <;> rfl

theorem Recorded.content? (h : Recorded o manifest between after)
    (hpath : o.manifest = some path) :
    after.files.content? path = some manifest.write.toUTF8 := by
  cases h with
  | none hmanifest => simp [hmanifest] at hpath
  | written hmanifest hwrite =>
    cases hmanifest.symm.trans hpath
    exact Files.content?_self_of_write hwrite

/-- A program stays where it is unless the manifest is written to the same file. -/
theorem Recorded.keeps_iff (h : Recorded o manifest between after)
    (hbetween : between.files.content? path = some p.render.toUTF8) :
    after.files.content? path = some p.render.toUTF8 ↔
      ∀ other, o.manifest = some other → ¬ between.files.SameFile path other := by
  cases h with
  | none hmanifest =>
    refine ⟨fun _ other hother => ?_, fun _ => hbetween⟩
    cases hmanifest.symm.trans hother
  | @written file files hmanifest hwrite =>
    have hread := Files.content?_of_write hwrite path
    constructor
    · intro hafter other hother hsame
      cases hmanifest.symm.trans hother
      rw [hread.1 hsame] at hafter
      exact manifest.write_ne_render p (Option.some_inj.1 hafter)
    · intro hapart
      rw [hread.2 (hapart file hmanifest)]
      exact hbetween

end Deliveries

/-- What a run of a program leaves in a session: the program, printed or in the output, and the
manifest of the run. -/
structure Delivers (o : Options) (seed : UInt64) (s : Settings) (p : Program)
    (before after : Session) : Prop where
  printed : after.printed = if o.output.isNone then before.printed ++ p.render else before.printed
  output : ∀ path, o.output = some path →
    (after.files.content? path = some p.render.toUTF8 ↔
      ∀ other, o.manifest = some other → ¬ before.files.SameFile path other)
  manifest : ∀ path, o.manifest = some path → ∃ m : Manifest,
    after.files.content? path = some m.write.toUTF8 ∧ m.seed = seed ∧ m.profile = o.profile ∧
      m.settings = s ∧ m.classCount = p.classCount ∧ m.methodCount = p.methodCount

theorem Succeeds.delivers {now : Moment} {o : Options} {before after : Session}
    {summary : Summary} (h : Succeeds now o before summary after) :
    ∃ s p, Effective before.files o s ∧ Generated s (seedOf o now) p ∧
      summary = { seed := seedOf o now, profile := o.profile, classCount := p.classCount,
                  methodCount := p.methodCount } ∧
      Delivers o (seedOf o now) s p before after := by
  obtain ⟨-, hsettings, hprogram, hdelivered, hrecorded⟩ := h
  refine ⟨_, _, hsettings, hprogram, rfl, ?_, fun path houtput => ?_, fun path hmanifest => ?_⟩
  · rw [hrecorded.printed_after, hdelivered.printed_after]
  · rw [hrecorded.keeps_iff (hdelivered.content? houtput)]
    simp only [hdelivered.sameFile]
  · exact ⟨_, hrecorded.content? hmanifest, rfl, rfl, rfl, rfl, rfl⟩

/-- A run that succeeds either prints the help, or delivers what it reports. -/
theorem run_delivers {now : Moment} {args : List String} {before after : Session}
    {ending : Ending} (h : before.run now args = (ending, after)) (hcode : ending.code = 0) :
    (request args = .help ∧ after.files = before.files) ∨
      ∃ o s p, request args = .generate o ∧ Effective before.files o s ∧
        Generated s (seedOf o now) p ∧
        ending = .success { seed := seedOf o now, profile := o.profile,
                            classCount := p.classCount, methodCount := p.methodCount } ∧
        Delivers o (seedOf o now) s p before after := by
  cases runs_of_run h with
  | misuse hrequest => cases hcode
  | helped hrequest => exact .inl ⟨hrequest, rfl⟩
  | @succeeded o summary _ hrequest hsucceeds =>
    obtain ⟨s, p, hsettings, hprogram, rfl, hdelivers⟩ := hsucceeds.delivers
    exact .inr ⟨o, s, p, hrequest, hsettings, hprogram, rfl, hdelivers⟩
  | failed hrequest hfails =>
    exact absurd hcode (Ending.code_failure_ne _)

/-- Arguments for one class without members, and for a manifest of the run. -/
def bareArgs (output manifest : String) : List String :=
  ["--seed", "1", "--profile", "small", "--max-types", "1", "--max-type-members", "0",
    "--no-entry-point", "--output", output, "--manifest", manifest]

/-- The paths that arguments give for the output and the manifest. -/
def pathsOf (args : List String) : Option String × Option String :=
  match request args with
  | .generate o => (o.output, o.manifest)
  | .help | .misuse => (none, none)

theorem pathsOf_eq {args : List String} {o : Options} (h : request args = .generate o) :
    pathsOf args = (o.output, o.manifest) := by
  rw [pathsOf, h]

/-- A session in one of two empty directories. -/
def roomySession : Session where
  files :=
    { entries := [(["home"], .directory {}), (["tmp"], .directory {})]
      current := ["home"] }

/-- Arguments for paths that lead out of the current directory. -/
def outerArgs : List String := bareArgs "/tmp/Program.java" "../tmp/run.json"

theorem run_delivers_bare :
    (roomySession.run {} outerArgs).1.code = 0 ∧
      ∃ (p : Program) (m : Manifest),
        let after := (roomySession.run {} outerArgs).2
        after.files.content? "/tmp/Program.java" = some p.render.toUTF8 ∧
          after.files.content? "../tmp/run.json" = some m.write.toUTF8 ∧
          m.classCount = p.classCount ∧ m.methodCount = p.methodCount := by
  have hcode : (roomySession.run {} outerArgs).1.code = 0 := by decide +kernel
  have hpaths : pathsOf outerArgs = (some "/tmp/Program.java", some "../tmp/run.json") := by
    decide +kernel
  refine ⟨hcode, ?_⟩
  rcases run_delivers (Prod.eta _).symm hcode with
    ⟨hhelp, -⟩ | ⟨o, s, p, hrequest, -, -, -, hdelivers⟩
  · rw [pathsOf, hhelp] at hpaths
    cases hpaths
  · rw [pathsOf_eq hrequest, Prod.mk.injEq] at hpaths
    obtain ⟨houtput, hmanifest⟩ := hpaths
    obtain ⟨m, hrecorded, -, -, -, hclasses, hmethods⟩ := hdelivers.manifest _ hmanifest
    refine ⟨p, m, (hdelivers.output _ houtput).2 ?_, hrecorded, hclasses, hmethods⟩
    rintro other hother ⟨names, hprogram, hsame⟩
    cases hmanifest.symm.trans hother
    have hapart : roomySession.files.target? "/tmp/Program.java" ≠
        roomySession.files.target? "../tmp/run.json" := by decide
    exact hapart (hprogram.trans hsame.symm)

/-- A run may succeed and leave no program, where the manifest goes to the output. -/
theorem exists_overwritten : ¬ ∀ (now : Moment) (args : List String) (before after : Session)
    (ending : Ending), before.run now args = (ending, after) → ending.code = 0 →
    ∀ o path, request args = .generate o → o.output = some path →
      ∃ s p, Effective before.files o s ∧ Generated s (seedOf o now) p ∧
        after.files.content? path = some p.render.toUTF8 := by
  intro h
  have hcode : (Session.run {} {} (bareArgs "Program.java" "Program.java")).1.code = 0 := by
    decide +kernel
  have hpaths : pathsOf (bareArgs "Program.java" "Program.java") =
    (some "Program.java", some "Program.java") := by decide +kernel
  cases hrun : Session.run {} {} (bareArgs "Program.java" "Program.java") with
  | mk ending after =>
    rw [hrun] at hcode
    cases runs_of_run hrun with
    | misuse hrequest => cases hcode
    | helped hrequest =>
      rw [pathsOf, hrequest] at hpaths
      cases hpaths
    | failed hrequest hfails => exact Ending.code_failure_ne _ hcode
    | @succeeded o summary _ hrequest hsucceeds =>
      rw [pathsOf_eq hrequest, Prod.mk.injEq] at hpaths
      obtain ⟨houtput, hmanifest⟩ := hpaths
      obtain ⟨s, p, -, -, hprogram⟩ := h _ _ _ _ _ hrun hcode o _ hrequest houtput
      obtain ⟨_, _, -, -, -, hdelivers⟩ := hsucceeds.delivers
      -- the manifest was written last, and what is there is no program
      obtain ⟨m, hrecorded, -⟩ := hdelivers.manifest _ hmanifest
      exact m.write_ne_render p (Option.some_inj.1 (hrecorded.symm.trans hprogram))

end CommandLine
end JavaSynth
