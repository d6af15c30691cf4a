import JavaSynth.CommandLine.Session
import JavaSynth.Proofs.Files.Contents

set_option autoImplicit false

/-!
# The stages of a run

Each stage goes on or ends the run, and leaves a session. Stages that read leave it alone, and so
does a delivery that fails. So a run that fails leaves the session alone as well, but for one
failure: when the manifest cannot be written, the program has been delivered.
-/
namespace JavaSynth

/-- The text of the file at a path, if there is one and it holds a text. -/
def Files.textAt? (files : Files) (path : String) : Option String :=
  (files.content? path).bind String.fromUTF8?

/-- The profile of a name: one that is built in, or the one that a file spells out. -/
inductive Profile.Names (files : Files) (name : String) : Settings → Prop where
  | builtIn {s : Settings} (hname : Profile.isPath name = false)
      (hfind : Profile.find? name = some s) : Names files name s
  | file {text : String} {s : Settings} (hname : Profile.isPath name = true)
      (htext : files.textAt? name = some text) (hparse : Profile.parse name text = .ok s) :
      Names files name s

namespace CommandLine

/-- The settings of a run: those of the profile, with what the options give in their place, and with
the words of the word list if there is one. -/
inductive Effective (files : Files) (o : Options) : Settings → Prop where
  | ofProfile {base : Settings} (hbase : Profile.Names files o.profile base)
      (hwords : o.words = none) : Effective files o (o.apply base)
  | withWords {base : Settings} {path text : String} (hbase : Profile.Names files o.profile base)
      (hwords : o.words = some path) (htext : files.textAt? path = some text)
      (husable : WordList.ofText text ≠ []) :
      Effective files o { o.apply base with words := WordList.ofText text }

/-- The program that a seed gives with some settings. -/
def Generated (s : Settings) (seed : UInt64) (p : Program) : Prop :=
  ∃ g rest, synthesize s = .ok g ∧ g (WordStream.ofSeed seed) = .ok (p, rest)

theorem generated_of_programOf {s : Settings} {seed : UInt64} {p : Program}
    (h : programOf s seed = .ok p) : Generated s seed p := by
  unfold programOf at h
  split at h
  · cases h
  · rename_i g hg
    split at h
    · rename_i q rest hrun
      cases h
      exact ⟨g, rest, hg, hrun⟩
    · cases h

section Rules

variable {ε δ α β : Type}

/-- How a stage ends that starts in a session, and the session it leaves. -/
def within (x : ExceptT ε (StateM Session) α) (before : Session) : Except ε α × Session :=
  x.run before

theorem within_bind (x : ExceptT ε (StateM Session) β) (f : β → ExceptT ε (StateM Session) α)
    (before : Session) : within (x >>= f) before =
      match within x before with
      | (.ok b, after) => within (f b) after
      | (.error e, after) => (.error e, after) := by
  change (match (within x before).1 with
    | .ok b => within (f b)
    | .error e => fun after => (.error e, after)) (within x before).2 = _
  cases within x before with
  | mk r after => cases r <;> rfl

/-- A stage that starts in a session goes on as `goes` says, or fails as `fails` says. -/
def Leads (x : ExceptT ε (StateM Session) α) (before : Session) (goes : α → Session → Prop)
    (fails : ε → Session → Prop) : Prop :=
  match within x before with
  | (.ok a, after) => goes a after
  | (.error e, after) => fails e after

variable {before : Session} {goes : α → Session → Prop} {fails : ε → Session → Prop}

theorem leads_pure {a : α} (h : goes a before) :
    Leads (pure a : ExceptT ε (StateM Session) α) before goes fails := h

theorem leads_throw {e : ε} (h : fails e before) :
    Leads (throw e : ExceptT ε (StateM Session) α) before goes fails := h

theorem leads_mk {r : Except ε α} (h : ∀ a, r = .ok a → goes a before)
    (hfails : ∀ e, r = .error e → fails e before) :
    Leads (ExceptT.mk (pure r)) before goes fails := by
  cases r with
  | ok a => exact h a rfl
  | error e => exact hfails e rfl

theorem Leads.goes_mono {x : ExceptT ε (StateM Session) α} {goes' : α → Session → Prop}
    (hx : Leads x before goes fails) (h : ∀ a after, goes a after → goes' a after) :
    Leads x before goes' fails := by
  unfold Leads at hx ⊢
  split at hx
  · exact h _ _ hx
  · exact hx

theorem Leads.fails_mono {x : ExceptT ε (StateM Session) α} {fails' : ε → Session → Prop}
    (hx : Leads x before goes fails) (h : ∀ e after, fails e after → fails' e after) :
    Leads x before goes fails' := by
  unfold Leads at hx ⊢
  split at hx
  · exact hx
  · exact h _ _ hx

theorem leads_bind {x : ExceptT ε (StateM Session) β} {f : β → ExceptT ε (StateM Session) α}
    {middle : β → Session → Prop} (hx : Leads x before middle fails)
    (hf : ∀ b after, middle b after → Leads (f b) after goes fails) :
    Leads (x >>= f) before goes fails := by
  unfold Leads at hx ⊢
  rw [within_bind]
  cases hr : within x before with
  | mk r after =>
    rw [hr] at hx
    cases r with
    | error e => exact hx
    | ok b => exact hf b after hx

theorem leads_adapt {x : ExceptT δ (StateM Session) α} {f : δ → ε} {inner : δ → Session → Prop}
    (hx : Leads x before goes inner) (hf : ∀ e after, inner e after → fails (f e) after) :
    Leads (x.adapt f) before goes fails := by
  have hadapt : within (x.adapt f) before =
    ((within x before).1.mapError f, (within x before).2) := rfl
  unfold Leads at hx ⊢
  rw [hadapt]
  cases hr : within x before with
  | mk r after =>
    rw [hr] at hx
    cases r with
    | error e => exact hf e after hx
    | ok a => exact hx

end Rules

section Reading

variable {before : Session} {path : String}

theorem leads_read : Leads (ExceptT.mk (FileStore.read path)) before
    (fun bytes after => before.files.content? path = some bytes ∧ after = before)
    (fun _ after => after = before) := by
  have hwithin : within (ExceptT.mk (FileStore.read path)) before =
      (before.files.read path, before) := rfl
  unfold Leads
  rw [hwithin]
  cases hread : before.files.read path with
  | error e => rfl
  | ok bytes => exact ⟨Files.content?_of_read hread, rfl⟩

theorem leads_readText : Leads (FileStore.readText path) before
    (fun text after => before.files.textAt? path = some text ∧ after = before)
    (fun _ after => after = before) := by
  refine leads_bind leads_read ?_
  rintro bytes after ⟨hcontent, rfl⟩
  refine leads_mk (fun text htext => ⟨?_, rfl⟩) fun _ _ => rfl
  unfold FileStore.textOf at htext
  split at htext
  · rename_i hutf
    cases htext
    rw [Files.textAt?, hcontent]
    exact hutf
  · cases htext

theorem leads_profile {name : String} : Leads (Profile.load name) before
    (fun s after => Profile.Names before.files name s ∧ after = before)
    (fun _ after => after = before) := by
  unfold Profile.load
  split
  · rename_i hpath
    refine leads_bind (leads_adapt leads_readText fun _ _ h => h) ?_
    rintro text after ⟨htext, rfl⟩
    exact leads_mk (fun s hparse => ⟨.file hpath htext hparse, rfl⟩) fun _ _ => rfl
  · rename_i hname
    split
    · rename_i s hfind
      exact leads_pure ⟨.builtIn (by simpa using hname) hfind, rfl⟩
    · exact leads_throw rfl

theorem leads_words : Leads (WordList.load path) before
    (fun words after => (∃ text, before.files.textAt? path = some text ∧
      WordList.ofText text = words ∧ words ≠ []) ∧ after = before)
    (fun _ after => after = before) := by
  unfold WordList.load
  refine leads_bind (leads_adapt leads_readText fun _ _ h => h) ?_
  rintro text after ⟨htext, rfl⟩
  simp only
  split
  · exact leads_throw rfl
  · rename_i husable
    exact leads_pure ⟨⟨text, htext, rfl, by simpa using husable⟩, rfl⟩

end Reading

section Stages

variable {o : Options} {before : Session}

/-- The output is a new file, if it is one. -/
def Fresh (o : Options) (files : Files) : Prop :=
  ∀ path, o.output = some path → files.isThere path = false

/-- A run that ends before its manifest is due leaves the session as it was. -/
structure Untouched (before : Session) (e : Failure) (after : Session) : Prop where
  same : after = before
  early : ∀ cause, e ≠ .manifestNotWritten cause

/-- The session once a program was printed or written. -/
inductive Delivered (o : Options) (p : Program) (before : Session) : Session → Prop where
  | printed (houtput : o.output = none) :
      Delivered o p before { before with printed := before.printed ++ p.render }
  | written {path : String} {files : Files} (houtput : o.output = some path)
      (hwrite : before.files.write path p.render.toUTF8 = .ok files) :
      Delivered o p before { before with files }

/-- The session once a manifest was written, where there is to be one. -/
inductive Recorded (o : Options) (manifest : Manifest) (before : Session) : Session → Prop where
  | none (hmanifest : o.manifest = none) : Recorded o manifest before before
  | written {path : String} {files : Files} (hmanifest : o.manifest = some path)
      (hwrite : before.files.write path manifest.write.toUTF8 = .ok files) :
      Recorded o manifest before { before with files }

theorem within_isThere (path : String) (before : Session) :
    within (ε := Failure) (liftM (FileStore.isThere path : StateM Session Bool)) before =
      (.ok (before.files.isThere path), before) := rfl

theorem leads_checkOutput : Leads (checkOutput o) before
    (fun _ after => Fresh o before.files ∧ after = before) (Untouched before) := by
  unfold checkOutput
  split
  · rename_i houtput
    exact leads_pure ⟨fun path hpath => by simp [houtput] at hpath, rfl⟩
  · rename_i path houtput
    have hlook : Leads (liftM (FileStore.isThere path : StateM Session Bool)) before
        (fun there after => before.files.isThere path = there ∧ after = before)
        (Untouched before) := by
      rw [Leads, within_isThere]
      exact ⟨rfl, rfl⟩
    refine leads_bind hlook ?_
    rintro there after ⟨hthere, rfl⟩
    cases there with
    | true => exact leads_throw ⟨rfl, fun cause h => by cases h⟩
    | false =>
      refine leads_pure ⟨fun other hother => ?_, rfl⟩
      rw [houtput] at hother
      cases hother
      exact hthere

theorem leads_settingsOf : Leads (settingsOf o) before
    (fun s after => Effective before.files o s ∧ after = before) (Untouched before) := by
  refine leads_bind (leads_adapt leads_profile fun e after h => ⟨h, fun _ h => by cases h⟩) ?_
  rintro base after ⟨hbase, rfl⟩
  split
  · rename_i hwords
    exact leads_pure ⟨.ofProfile hbase hwords, rfl⟩
  · rename_i path hwords
    refine leads_bind (leads_adapt leads_words fun e after h => ⟨h, fun _ h => by cases h⟩) ?_
    rintro words after ⟨⟨text, htext, rfl, husable⟩, rfl⟩
    exact leads_pure ⟨.withWords hbase hwords htext husable, rfl⟩

theorem leads_programOf {s : Settings} {seed : UInt64} :
    Leads (ExceptT.mk (pure (programOf s seed))) before
      (fun p after => Generated s seed p ∧ after = before) (Untouched before) := by
  refine leads_mk (fun p h => ⟨generated_of_programOf h, rfl⟩) fun e h => ⟨rfl, ?_⟩
  rintro cause rfl
  unfold programOf at h
  split at h
  · cases h
  · split at h <;> cases h

theorem leads_write {path : String} {content : ByteArray} :
    Leads (ExceptT.mk (FileStore.write path content)) before
      (fun _ after => ∃ files, before.files.write path content = .ok files ∧
        after = { before with files })
      (fun _ after => after = before) := by
  cases hwrite : before.files.write path content with
  | error e =>
    have hwithin : within (ExceptT.mk (FileStore.write path content)) before =
        (.error e, before) := by
      simp only [within, ExceptT.run, ExceptT.mk, FileStore.write, hwrite]
    rw [Leads, hwithin]
  | ok files =>
    have hwithin : within (ExceptT.mk (FileStore.write path content)) before =
        (.ok (), { before with files }) := by
      simp only [within, ExceptT.run, ExceptT.mk, FileStore.write, hwrite]
    rw [Leads, hwithin]
    exact ⟨files, rfl, rfl⟩

theorem leads_deliverProgram {p : Program} : Leads (deliverProgram o p) before
    (fun _ after => Delivered o p before after) (Untouched before) := by
  refine leads_adapt (show Leads _ before _ fun _ after => after = before from ?_)
    fun e after h => ⟨h, fun _ h => by cases h⟩
  split
  · rename_i path houtput
    refine leads_write.goes_mono ?_
    rintro - after ⟨files, hwrite, rfl⟩
    exact .written houtput hwrite
  · rename_i houtput
    exact Delivered.printed houtput

theorem leads_deliverManifest {manifest : Manifest} : Leads (deliverManifest o manifest) before
    (fun _ after => Recorded o manifest before after)
    (fun e after => after = before ∧ ∃ cause, e = .manifestNotWritten cause) := by
  unfold deliverManifest
  split
  · rename_i hmanifest
    exact leads_pure (.none hmanifest)
  · rename_i path hmanifest
    refine (leads_adapt leads_write fun cause _ h => ⟨h, cause, rfl⟩).goes_mono ?_
    rintro - after ⟨files, hwrite, rfl⟩
    exact .written hmanifest hwrite

/-- How a run of the options succeeds. -/
inductive Succeeds (now : Moment) (o : Options) (before : Session) : Summary → Session → Prop where
  | intro {s : Settings} {p : Program} {between after : Session} (hfresh : Fresh o before.files)
      (hsettings : Effective before.files o s) (hprogram : Generated s (seedOf o now) p)
      (hdelivered : Delivered o p before between)
      (hrecorded : Recorded o (.ofRun (seedOf o now) o.profile s p now) between after) :
      Succeeds now o before
        { seed := seedOf o now
          profile := o.profile
          classCount := p.classCount
          methodCount := p.methodCount }
        after

/-- How a run of the options fails: before anything is delivered, or at the manifest. -/
inductive Fails (now : Moment) (o : Options) (before : Session) : Failure → Session → Prop where
  | untouched {e : Failure} (early : ∀ cause, e ≠ .manifestNotWritten cause) :
      Fails now o before e before
  | unrecorded {cause : FileError} {s : Settings} {p : Program} {after : Session}
      (hfresh : Fresh o before.files) (hsettings : Effective before.files o s)
      (hprogram : Generated s (seedOf o now) p) (hdelivered : Delivered o p before after) :
      Fails now o before (.manifestNotWritten cause) after

theorem Untouched.fails {now : Moment} {e : Failure} {after : Session}
    (h : Untouched before e after) : Fails now o before e after := by
  obtain ⟨rfl, hearly⟩ := h
  exact .untouched hearly

theorem leads_generate {now : Moment} :
    Leads (generate now o) before (Succeeds now o before) (Fails now o before) := by
  unfold generate
  -- up to the delivery each stage starts in `before`, so that what it leaves is `before` as well
  refine leads_bind (leads_checkOutput.fails_mono fun _ _ h => h.fails) ?_
  rintro - after ⟨hfresh, rfl⟩
  refine leads_bind (leads_settingsOf.fails_mono fun _ _ h => h.fails) ?_
  rintro s after ⟨hsettings, rfl⟩
  refine leads_bind (leads_programOf.fails_mono fun _ _ h => h.fails) ?_
  rintro p after ⟨hprogram, rfl⟩
  refine leads_bind (leads_deliverProgram.fails_mono fun _ _ h => h.fails) ?_
  intro _ between hdelivered
  refine leads_bind (leads_deliverManifest.fails_mono ?_) ?_
  · rintro e after ⟨rfl, cause, rfl⟩
    exact .unrecorded hfresh hsettings hprogram hdelivered
  · intro _ after hrecorded
    exact leads_pure (.intro hfresh hsettings hprogram hdelivered hrecorded)

end Stages

section Runs

variable {now : Moment} {args : List String} {o : Options} {before after : Session}
  {ending : Ending}

/-- How a run ends that starts in a session, and the session it leaves. -/
def Session.run (before : Session) (now : Moment) (args : List String) : Ending × Session :=
  StateT.run (m := Id) (CommandLine.run (m := StateM Session) now args) before

theorem run_of_misuse (h : request args = .misuse) : before.run now args = (.misuse, before) := by
  unfold Session.run CommandLine.run
  rw [h]
  rfl

theorem run_of_help (h : request args = .help) : before.run now args =
    (.helped, { before with printed := before.printed ++ helpText }) := by
  unfold Session.run CommandLine.run
  rw [h]
  rfl

theorem run_of_generate (h : request args = .generate o) : before.run now args =
    match within (generate now o) before with
    | (.ok s, after) => (.success s, after)
    | (.error e, after) => (.failure e, after) := by
  unfold Session.run CommandLine.run
  rw [h, StateT.run_bind]
  cases hr : within (generate now o) before with
  | mk r after =>
    have hrun : StateT.run (m := Id) (generate now o).run before = (r, after) := hr
    rw [hrun]
    cases r <;> rfl

/-- With an output that is there, a run ends at once. -/
theorem run_of_isThere {path : String} (h : request args = .generate o)
    (houtput : o.output = some path) (hthere : before.files.isThere path = true) :
    before.run now args = (.failure (.outputExists path), before) := by
  have hcheck : within (checkOutput o) before = (.error (.outputExists path), before) := by
    unfold checkOutput
    rw [houtput]
    dsimp only
    rw [within_bind, within_isThere, hthere]
    rfl
  rw [run_of_generate h, generate, within_bind, hcheck]

/-- How a run may end, and the session it leaves. -/
inductive Runs (now : Moment) (args : List String) (before : Session) : Ending → Session → Prop where
  | misuse (hrequest : request args = .misuse) : Runs now args before .misuse before
  | helped (hrequest : request args = .help) :
      Runs now args before .helped { before with printed := before.printed ++ helpText }
  | succeeded {o : Options} {summary : Summary} {after : Session}
      (hrequest : request args = .generate o) (h : Succeeds now o before summary after) :
      Runs now args before (.success summary) after
  | failed {o : Options} {e : Failure} {after : Session} (hrequest : request args = .generate o)
      (h : Fails now o before e after) : Runs now args before (.failure e) after

theorem runs_of_run (h : before.run now args = (ending, after)) :
    Runs now args before ending after := by
  cases hrequest : request args with
  | misuse =>
    rw [run_of_misuse hrequest] at h
    cases h
    exact .misuse hrequest
  | help =>
    rw [run_of_help hrequest] at h
    cases h
    exact .helped hrequest
  | generate o =>
    have hleads : Leads (generate now o) before _ _ := leads_generate
    rw [run_of_generate hrequest] at h
    unfold Leads at hleads
    cases hr : within (generate now o) before with
    | mk r left =>
      rw [hr] at h hleads
      cases r with
      | ok s =>
        cases h
        exact .succeeded hrequest hleads
      | error e =>
        cases h
        exact .failed hrequest hleads

end Runs

end CommandLine
end JavaSynth
