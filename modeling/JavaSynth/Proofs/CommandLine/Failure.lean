import JavaSynth.Proofs.CommandLine.Delivery

set_option autoImplicit false

/-!
# What a failing run leaves

A run that fails leaves its session as it was, unless it fails at the manifest. Then the program
has been delivered: it stands in the output, which was not there before, and where it stands it
stops every later run with the same arguments.
-/
namespace JavaSynth.CommandLine

/-- The program was made and its manifest could not be written. -/
def Ending.missesManifest : Ending → Bool
  | failure (.manifestNotWritten _) => true
  | _ => false

theorem Ending.code_of_missesManifest {ending : Ending} (h : ending.missesManifest = true) :
    ending.code = 1 := by
  unfold missesManifest at h
  split at h
  · rfl
  · cases h

theorem Ending.missesManifest_of_early {e : Failure}
    (early : ∀ cause, e ≠ .manifestNotWritten cause) : (failure e).missesManifest = false := by
  cases e with
  | manifestNotWritten cause => exact absurd rfl (early cause)
  | _ => rfl

/-- A new output that holds a program after a run. No other file was changed, and as long as the
output holds what it does, a run with these arguments is refused. -/
structure Strands (args : List String) (path : String) (p : Program) (before after : Session) :
    Prop where
  absent : before.files.content? path = none
  holds : after.files.content? path = some p.render.toUTF8
  others : ∀ other, ¬ before.files.SameFile other path →
    after.files.content? other = before.files.content? other
  refused : ∀ (later : Moment) (mended : Session),
    mended.files.content? path = after.files.content? path →
      mended.run later args = (.failure (.outputExists path), mended)

section Leftovers

variable {args : List String} {o : Options} {p : Program} {before after : Session} {path : String}

theorem Delivered.files_of_printed (h : Delivered o p before after) (houtput : o.output = none) :
    after.files = before.files := by
  cases h with
  | printed => rfl
  | written hpath hwrite => simp [houtput] at hpath

theorem Fresh.content?_eq_none (h : Fresh o before.files) (houtput : o.output = some path) :
    before.files.content? path = none := by
  cases hcontent : before.files.content? path with
  | none => rfl
  | some content =>
    have hthere := Files.isThere_of_content? hcontent
    rw [h path houtput] at hthere
    cases hthere

theorem Delivered.others (h : Delivered o p before after) (houtput : o.output = some path)
    {other : String} (hother : ¬ before.files.SameFile other path) :
    after.files.content? other = before.files.content? other := by
  cases h with
  | printed => rfl
  | written hpath hwrite =>
    cases hpath.symm.trans houtput
    exact (Files.content?_of_write hwrite other).2 hother

theorem Delivered.strands (h : Delivered o p before after) (hrequest : request args = .generate o)
    (hfresh : Fresh o before.files) (houtput : o.output = some path) :
    Strands args path p before after where
  absent := hfresh.content?_eq_none houtput
  holds := h.content? houtput
  others := fun _ hother => h.others houtput hother
  refused := by
    intro later mended hleft
    rw [h.content? houtput] at hleft
    exact run_of_isThere hrequest houtput (Files.isThere_of_content? hleft)

end Leftovers

section Runs

variable {now : Moment} {args : List String} {before after : Session} {ending : Ending}

theorem Runs.eq_of_clean (h : Runs now args before ending after) (hcode : ending.code ≠ 0)
    (hclean : ending.missesManifest = false) : after = before := by
  cases h with
  | misuse hrequest => rfl
  | helped hrequest | succeeded hrequest hsucceeds => exact absurd rfl hcode
  | failed hrequest hfails =>
    cases hfails with
    | untouched early => rfl
    | unrecorded => cases hclean

theorem Runs.stranded (h : Runs now args before ending after)
    (hmisses : ending.missesManifest = true) :
    ∃ o s p, request args = .generate o ∧ Effective before.files o s ∧
      Generated s (seedOf o now) p ∧ (o.output = none → after.files = before.files) ∧
      ∀ path, o.output = some path → Strands args path p before after := by
  cases h with
  | misuse hrequest | helped hrequest | succeeded hrequest hsucceeds => cases hmisses
  | failed hrequest hfails =>
    cases hfails with
    | untouched early =>
      rw [Ending.missesManifest_of_early early] at hmisses
      cases hmisses
    | unrecorded hfresh hsettings hprogram hdelivered =>
      exact ⟨_, _, _, hrequest, hsettings, hprogram, hdelivered.files_of_printed,
        fun path houtput => hdelivered.strands hrequest hfresh houtput⟩

/-- A run that fails leaves everything as it was, but a program whose manifest cannot be written
is left behind. -/
theorem run_leftovers (h : before.run now args = (ending, after)) (hcode : ending.code ≠ 0) :
    (ending.missesManifest = false → after = before) ∧
      (ending.missesManifest = true →
        ∃ o s p, request args = .generate o ∧ Effective before.files o s ∧
          Generated s (seedOf o now) p ∧ (o.output = none → after.files = before.files) ∧
          ∀ path, o.output = some path → Strands args path p before after) :=
  ⟨(runs_of_run h).eq_of_clean hcode, (runs_of_run h).stranded⟩

end Runs

/-- Arguments for a manifest in a directory that is not there, and an output in one that is. -/
def outerStrandedArgs : List String := bareArgs "/tmp/Program.java" "/missing/run.json"

theorem run_leftovers_stranded :
    (roomySession.run {} outerStrandedArgs).1.code ≠ 0 ∧
      ∃ p, Strands outerStrandedArgs "/tmp/Program.java" p roomySession
        (roomySession.run {} outerStrandedArgs).2 := by
  have hmisses : (roomySession.run {} outerStrandedArgs).1.missesManifest = true := by
    decide +kernel
  have hpaths : pathsOf outerStrandedArgs =
      (some "/tmp/Program.java", some "/missing/run.json") := by
    decide +kernel
  have hcode : (roomySession.run {} outerStrandedArgs).1.code ≠ 0 := by
    rw [Ending.code_of_missesManifest hmisses]
    decide
  obtain ⟨o, s, p, hrequest, -, -, -, hstrands⟩ :=
    (run_leftovers (Prod.eta _).symm hcode).2 hmisses
  rw [pathsOf_eq hrequest, Prod.mk.injEq] at hpaths
  exact ⟨hcode, p, hstrands _ hpaths.1⟩

/-- A run that fails may leave a file behind. -/
theorem exists_leftover : ¬ ∀ (now : Moment) (args : List String) (before after : Session)
    (ending : Ending), before.run now args = (ending, after) → ending.code ≠ 0 →
    ∀ path, after.files.content? path = before.files.content? path := by
  intro h
  have hmisses : (Session.run {} {} (bareArgs "Program.java" "missing/run.json")).1.missesManifest =
      true := by
    decide +kernel
  have hpaths : pathsOf (bareArgs "Program.java" "missing/run.json") =
      (some "Program.java", some "missing/run.json") := by
    decide +kernel
  cases hrun : Session.run {} {} (bareArgs "Program.java" "missing/run.json") with
  | mk ending after =>
    rw [hrun] at hmisses
    have hcode : ending.code ≠ 0 := by
      rw [Ending.code_of_missesManifest hmisses]
      decide
    obtain ⟨o, s, p, hrequest, -, -, -, hstrands⟩ := (runs_of_run hrun).stranded hmisses
    rw [pathsOf_eq hrequest, Prod.mk.injEq] at hpaths
    have hleft := hstrands _ hpaths.1
    have hkept := h _ _ _ _ _ hrun hcode "Program.java"
    rw [hleft.holds, hleft.absent] at hkept
    cases hkept

end JavaSynth.CommandLine
