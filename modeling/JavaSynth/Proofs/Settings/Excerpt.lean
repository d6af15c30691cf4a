import JavaSynth.CommandLine.Run
import JavaSynth.Proofs.Data.Record
import JavaSynth.Proofs.Settings.Guarantees

set_option autoImplicit false

/-!
# Settings from parts of their data

An object that holds some of the fields of written settings gives settings with these fields, and
with the defaults in the place of the others. With all of them it gives the settings back, but for
the words, which are never written.
-/
namespace JavaSynth

open Record

namespace StmtKind

theorem ofName?_name (k : StmtKind) : ofName? k.name = some k := by
  cases k <;> decide

theorem ofValue?_toValue (d : Dialect) (k : StmtKind) : ofValue? d k.toValue = some k :=
  ofName?_name k

end StmtKind

namespace ExprSettings

/-- The fields that are kept, and those of other settings for the rest. -/
def restrict (s base : ExprSettings) (kept : String → Bool) : ExprSettings where
  logicalOrProbability :=
    if kept "logical_or_probability" then s.logicalOrProbability else base.logicalOrProbability
  logicalAndProbability :=
    if kept "logical_and_probability" then s.logicalAndProbability else base.logicalAndProbability
  equalityProbability :=
    if kept "equality_probability" then s.equalityProbability else base.equalityProbability
  equalityArrayProbability :=
    if kept "equality_array_probability" then s.equalityArrayProbability
    else base.equalityArrayProbability
  maxEqualityArrayWraps :=
    if kept "max_equality_array_wraps" then s.maxEqualityArrayWraps
    else base.maxEqualityArrayWraps
  relationalProbability :=
    if kept "relational_probability" then s.relationalProbability else base.relationalProbability
  additiveProbability :=
    if kept "additive_probability" then s.additiveProbability else base.additiveProbability
  multiplicativeProbability :=
    if kept "multiplicative_probability" then s.multiplicativeProbability
    else base.multiplicativeProbability
  unaryProbability :=
    if kept "unary_probability" then s.unaryProbability else base.unaryProbability
  maxComplexity := if kept "max_complexity" then s.maxComplexity else base.maxComplexity
  primaryLiteralComplexity :=
    if kept "primary_literal_complexity" then s.primaryLiteralComplexity
    else base.primaryLiteralComplexity
  maxPostfixChain :=
    if kept "max_postfix_chain" then s.maxPostfixChain else base.maxPostfixChain

theorem lawful : Lawful fields fun _ => () where
  nodup := by decide
  apart := by
    intro f hf g hg hne
    simp only [fields, List.mem_cons, List.not_mem_nil, or_false] at hf hg
    rcases hf with rfl | rfl | rfl | rfl | rfl | rfl | rfl | rfl | rfl | rfl | rfl | rfl
    all_goals
      rcases hg with rfl | rfl | rfl | rfl | rfl | rfl | rfl | rfl | rfl | rfl | rfl | rfl
      all_goals first
        | exact absurd rfl hne
        | exact Field.spares_real fun _ _ => rfl
        | exact Field.spares_size fun _ _ => rfl
  keeps _ _ _ _ _ _ _ := rfl
  ext := by
    rintro ⟨⟩ ⟨⟩ h -
    simpa [fields, Field.real, Field.size, Int.natCast_inj] using h

theorem gives (d : Dialect) {s : ExprSettings} (hs : s.Valid) :
    ∀ f ∈ fields, f.Gives d (f.write s) s := by
  have hsize (n : Nat) (hn : n ≤ 16) : n < UInt64.size := Nat.lt_of_le_of_lt hn (by decide)
  have hcomplexity := hs.complexity_le
  have hprimary := hs.primary_le
  have hchain := hs.chain_le
  have hwraps := hs.wraps_le
  unfold complexityCap at hcomplexity
  unfold postfixChainCap at hchain
  unfold arrayWrapsCap at hwraps
  simp only [fields, List.forall_mem_cons]
  refine ⟨?_, ?_, ?_, ?_, ?_, ?_, ?_, ?_, ?_, ?_, ?_, ?_, List.forall_mem_nil _⟩
  all_goals first
    | exact Field.gives_real (fun _ _ => rfl) s
    | exact Field.gives_size (fun _ _ _ => rfl) (hsize _ (by omega))

theorem write_restrict (s base : ExprSettings) (kept : String → Bool) : ∀ f ∈ fields,
    f.write (s.restrict base kept) = if kept f.name then f.write s else f.write base := by
  simp only [fields, List.forall_mem_cons]
  refine ⟨?_, ?_, ?_, ?_, ?_, ?_, ?_, ?_, ?_, ?_, ?_, ?_, List.forall_mem_nil _⟩
  all_goals first
    | exact Field.write_real rfl
    | exact Field.write_size rfl

end ExprSettings

namespace StmtSettings

/-- The fields that are kept, and those of other settings for the rest. -/
def restrict (s base : StmtSettings) (kept : String → Bool) : StmtSettings where
  initializerProbability :=
    if kept "initializer_probability" then s.initializerProbability
    else base.initializerProbability
  invocationProbability :=
    if kept "invocation_probability" then s.invocationProbability else base.invocationProbability
  maxStatementComplexity :=
    if kept "max_statement_complexity" then s.maxStatementComplexity
    else base.maxStatementComplexity
  maxResampleAttempts :=
    if kept "max_resample_attempts" then s.maxResampleAttempts else base.maxResampleAttempts

theorem lawful : Lawful fields fun _ => () where
  nodup := by decide
  apart := by
    intro f hf g hg hne
    simp only [fields, List.mem_cons, List.not_mem_nil, or_false] at hf hg
    rcases hf with rfl | rfl | rfl | rfl
    all_goals
      rcases hg with rfl | rfl | rfl | rfl
      all_goals first
        | exact absurd rfl hne
        | exact Field.spares_real fun _ _ => rfl
        | exact Field.spares_size fun _ _ => rfl
  keeps _ _ _ _ _ _ _ := rfl
  ext := by
    rintro ⟨⟩ ⟨⟩ h -
    simpa [fields, Field.real, Field.size, Int.natCast_inj] using h

theorem gives (d : Dialect) {s : StmtSettings} (hs : s.Valid) :
    ∀ f ∈ fields, f.Gives d (f.write s) s := by
  have hsize (n : Nat) (hn : n ≤ 256) : n < UInt64.size := Nat.lt_of_le_of_lt hn (by decide)
  have hcomplexity := hs.complexity_le
  have hattempts := hs.attempts_le
  unfold complexityCap at hcomplexity
  unfold resampleAttemptsCap at hattempts
  simp only [fields, List.forall_mem_cons]
  refine ⟨?_, ?_, ?_, ?_, List.forall_mem_nil _⟩
  all_goals first
    | exact Field.gives_real (fun _ _ => rfl) s
    | exact Field.gives_size (fun _ _ _ => rfl) (hsize _ (by omega))

theorem write_restrict (s base : StmtSettings) (kept : String → Bool) : ∀ f ∈ fields,
    f.write (s.restrict base kept) = if kept f.name then f.write s else f.write base := by
  simp only [fields, List.forall_mem_cons]
  refine ⟨?_, ?_, ?_, ?_, List.forall_mem_nil _⟩
  all_goals first
    | exact Field.write_real rfl
    | exact Field.write_size rfl

end StmtSettings

namespace Settings

theorem weightsOfValue?_weightsToValue (d : Dialect) (weights : List (Double × StmtKind)) :
    weightsOfValue? d (weightsToValue weights) = some weights := by
  change (weights.map (Record.toValue weightFields)).mapM
    (ofWholeValue? d weightFields (0, .empty)) = _
  induction weights with
  | nil => rfl
  | cons e rest ih =>
    have hread : ofWholeValue? d weightFields (0, .empty) (Record.toValue weightFields e) =
        some e := by
      rw [ofWholeValue?_toValue (by decide)]
      change (((StmtKind.ofValue? d e.2.toValue).map _).bind _) = _
      rw [StmtKind.ofValue?_toValue]
      rfl
    rw [List.map_cons, List.mapM_cons, hread, ih]
    rfl

theorem weightsToValue_injective {weights others : List (Double × StmtKind)}
    (h : weightsToValue weights = weightsToValue others) : weights = others := by
  have hread := congrArg (weightsOfValue? Json.dialect) h
  rw [weightsOfValue?_weightsToValue, weightsOfValue?_weightsToValue] at hread
  exact Option.some.inj hread

/-- The sizes that validation does not bound are machine words. -/
structure Sized (s : Settings) : Prop where
  nameLength : s.approximateNameLength < UInt64.size
  members : s.maxTypeMembers < UInt64.size
  types : s.maxTypes < UInt64.size
  parameters : s.maxParameters < UInt64.size
  statements : s.maxStatementsPerBlock < UInt64.size

/-- The fields that are kept, and those of other settings for the rest. A nested field is named
together with the record that it is in. The words are never kept. -/
def restrict (s base : Settings) (kept : String → Bool) : Settings where
  fieldToMethodRatio :=
    if kept "field_to_method_ratio" then s.fieldToMethodRatio else base.fieldToMethodRatio
  arrayTypePercentage :=
    if kept "array_type_percentage" then s.arrayTypePercentage else base.arrayTypePercentage
  approximateNameLength :=
    if kept "approximate_name_length" then s.approximateNameLength else base.approximateNameLength
  maxTypeMembers := if kept "max_type_members" then s.maxTypeMembers else base.maxTypeMembers
  maxTypes := if kept "max_types" then s.maxTypes else base.maxTypes
  maxParameters := if kept "max_parameters" then s.maxParameters else base.maxParameters
  maxStatementsPerBlock :=
    if kept "max_statements_per_block" then s.maxStatementsPerBlock else base.maxStatementsPerBlock
  thrownTypeProbability :=
    if kept "thrown_type_probability" then s.thrownTypeProbability else base.thrownTypeProbability
  entryPoint := if kept "entry_point" then s.entryPoint else base.entryPoint
  statementWeights := if kept "statement_weights" then s.statementWeights else base.statementWeights
  expr := s.expr.restrict base.expr fun name => kept ("expr." ++ name)
  stmt := s.stmt.restrict base.stmt fun name => kept ("stmt." ++ name)
  words := base.words

theorem lawful : Lawful fields (·.words) where
  nodup := by decide
  apart := by
    intro f hf g hg hne
    simp only [fields, List.mem_cons, List.not_mem_nil, or_false] at hf hg
    rcases hf with rfl | rfl | rfl | rfl | rfl | rfl | rfl | rfl | rfl | rfl | rfl | rfl
    all_goals
      rcases hg with rfl | rfl | rfl | rfl | rfl | rfl | rfl | rfl | rfl | rfl | rfl | rfl
      all_goals first
        | exact absurd rfl hne
        | exact Field.spares_real fun _ _ => rfl
        | exact Field.spares_size fun _ _ => rfl
        | exact Field.spares_boolean fun _ _ => rfl
        | exact Field.spares_part fun _ _ => rfl
  keeps := by
    simp only [fields, List.forall_mem_cons]
    refine ⟨?_, ?_, ?_, ?_, ?_, ?_, ?_, ?_, ?_, ?_, ?_, ?_, List.forall_mem_nil _⟩
    all_goals first
      | exact Field.spares_real fun _ _ => rfl
      | exact Field.spares_size fun _ _ => rfl
      | exact Field.spares_boolean fun _ _ => rfl
      | exact Field.spares_part fun _ _ => rfl
  ext := by
    rintro ⟨_, _, _, _, _, _, _, _, _, weights, expr, stmt, words⟩
      ⟨_, _, _, _, _, _, _, _, _, weights', expr', stmt', words'⟩ h hwords
    simp only [fields, List.forall_mem_cons] at h
    obtain ⟨hratio, harray, hlength, hmembers, htypes, hparameters, hstatements, hthrown, hentry,
      hweights, hexpr, hstmt, -⟩ := h
    obtain rfl := Value.float.inj hratio
    obtain rfl := Value.float.inj harray
    obtain rfl := Int.ofNat.inj (Value.integer.inj hlength)
    obtain rfl := Int.ofNat.inj (Value.integer.inj hmembers)
    obtain rfl := Int.ofNat.inj (Value.integer.inj htypes)
    obtain rfl := Int.ofNat.inj (Value.integer.inj hparameters)
    obtain rfl := Int.ofNat.inj (Value.integer.inj hstatements)
    obtain rfl := Value.float.inj hthrown
    obtain rfl := Value.boolean.inj hentry
    obtain rfl : weights = weights' := weightsToValue_injective hweights
    obtain rfl : expr = expr' := toValue_injective ExprSettings.lawful hexpr rfl
    obtain rfl : stmt = stmt' := toValue_injective StmtSettings.lawful hstmt rfl
    obtain rfl : words = words' := hwords
    rfl

theorem gives_flat (d : Dialect) {s : Settings} (hs : s.Sized) :
    ∀ f ∈ fields, f.name ≠ "expr" → f.name ≠ "stmt" → f.Gives d (f.write s) s := by
  simp only [fields, List.forall_mem_cons]
  refine ⟨fun _ _ => Field.gives_real (fun _ _ => rfl) s,
    fun _ _ => Field.gives_real (fun _ _ => rfl) s,
    fun _ _ => Field.gives_size (fun _ _ _ => rfl) hs.nameLength,
    fun _ _ => Field.gives_size (fun _ _ _ => rfl) hs.members,
    fun _ _ => Field.gives_size (fun _ _ _ => rfl) hs.types,
    fun _ _ => Field.gives_size (fun _ _ _ => rfl) hs.parameters,
    fun _ _ => Field.gives_size (fun _ _ _ => rfl) hs.statements,
    fun _ _ => Field.gives_real (fun _ _ => rfl) s,
    fun _ _ => Field.gives_boolean (fun _ _ => rfl) s,
    fun _ _ => Field.gives_part (fun _ _ => rfl) (weightsOfValue?_weightsToValue d _) rfl,
    fun h _ => absurd rfl h, fun _ h => absurd rfl h, List.forall_mem_nil _⟩

theorem write_restrict (s base : Settings) (kept : String → Bool) :
    ∀ f ∈ fields, f.name ≠ "expr" → f.name ≠ "stmt" →
      f.write (s.restrict base kept) = if kept f.name then f.write s else f.write base := by
  simp only [fields, List.forall_mem_cons]
  refine ⟨fun _ _ => Field.write_real rfl, fun _ _ => Field.write_real rfl,
    fun _ _ => Field.write_size rfl, fun _ _ => Field.write_size rfl,
    fun _ _ => Field.write_size rfl, fun _ _ => Field.write_size rfl,
    fun _ _ => Field.write_size rfl, fun _ _ => Field.write_real rfl,
    fun _ _ => Field.write_boolean rfl, fun _ _ => Field.write_part rfl,
    fun h _ => absurd rfl h, fun _ h => absurd rfl h, List.forall_mem_nil _⟩

/-- A key of the settings themselves, and not of a record in them. -/
def isFlat (key : String) : Bool := key != "expr" && key != "stmt"

/-- What an object holds that has just the kept fields of written settings, in any order, and
perhaps keys that are unknown where they stand. -/
def Excerpt (s : Settings) (kept : String → Bool) (pairs : List (String × Value)) : Prop :=
  ∃ exprPart stmtPart,
    Nested "expr" ExprSettings.fields (fun name => kept ("expr." ++ name)) s.expr exprPart ∧
    Nested "stmt" StmtSettings.fields (fun name => kept ("stmt." ++ name)) s.stmt stmtPart ∧
    Holds fields
      (keptPairs fields (fun name => kept name && isFlat name) s ++ (exprPart ++ stmtPart)) pairs

theorem mem_fields_expr : Field.part "expr" (·.expr) (fun s e => { s with expr := e })
    ExprSettings.toValue ExprSettings.ofValue? ∈ fields := by
  simp [fields]

theorem mem_fields_stmt : Field.part "stmt" (·.stmt) (fun s e => { s with stmt := e })
    StmtSettings.toValue StmtSettings.ofValue? ∈ fields := by
  simp [fields]

theorem ofValue?_excerpt (d : Dialect) {s : Settings} (hs : s.Valid) (hsized : s.Sized)
    {kept : String → Bool} {pairs : List (String × Value)} (h : s.Excerpt kept pairs) :
    ofValue? d (.object pairs) = some (s.restrict {} kept) := by
  obtain ⟨exprPart, stmtPart, hexpr, hstmt, hpairs⟩ := h
  have hexprWrites := ExprSettings.write_restrict s.expr {} fun name => kept ("expr." ++ name)
  have hstmtWrites := StmtSettings.write_restrict s.stmt {} fun name => kept ("stmt." ++ name)
  have hexprReads := hexpr.reads ExprSettings.lawful rfl (ExprSettings.gives d hs.expr) hexprWrites
  have hstmtReads := hstmt.reads StmtSettings.lawful rfl (StmtSettings.gives d hs.stmt) hstmtWrites
  refine ofValue?_of_holds lawful rfl ?nodup ?gives ?absent hpairs
  case nodup =>
    rw [List.map_append, List.map_append, keys_keptPairs]
    have hall : ((fields.map (·.name)).filter isFlat ++ (["expr"] ++ ["stmt"])).Nodup := by decide
    refine hall.sublist (.append ?_ (.append hexpr.keys hstmt.keys))
    exact List.monotone_filter_right _ fun name hname => (Bool.and_eq_true_iff.1 hname).2
  case gives =>
    intro p hp f hf hname
    rcases List.mem_append.1 hp with hp | hp
    · refine gives_keptPairs lawful.nodup (fun g hg hkept => ?_) (fun g hg hkept => ?_)
        p hp f hf hname
      all_goals
        obtain ⟨hkept, hflat⟩ := Bool.and_eq_true_iff.1 hkept
        obtain ⟨hexpr, hstmt⟩ := Bool.and_eq_true_iff.1 hflat
      · exact gives_flat d hsized g hg (bne_iff_ne.1 hexpr) (bne_iff_ne.1 hstmt)
      · rw [write_restrict s {} kept g hg (bne_iff_ne.1 hexpr) (bne_iff_ne.1 hstmt), if_pos hkept]
    · rcases List.mem_append.1 hp with hp | hp
      · obtain ⟨hkey, hread⟩ := hexprReads p hp
        obtain rfl := eq_of_name lawful.nodup hf mem_fields_expr (hname.trans hkey)
        exact Field.gives_part (fun _ _ => rfl) hread rfl
      · obtain ⟨hkey, hread⟩ := hstmtReads p hp
        obtain rfl := eq_of_name lawful.nodup hf mem_fields_stmt (hname.trans hkey)
        exact Field.gives_part (fun _ _ => rfl) hread rfl
  case absent =>
    intro f hf hnot
    simp only [List.map_append, List.mem_append, not_or, keys_keptPairs] at hnot
    obtain ⟨hflat, hexprNot, hstmtNot⟩ := hnot
    by_cases hexprName : f.name = "expr"
    · obtain rfl := eq_of_name lawful.nodup hf mem_fields_expr hexprName
      exact congrArg ExprSettings.toValue
        (hexpr.eq_of_absent ExprSettings.lawful rfl hexprNot hexprWrites)
    by_cases hstmtName : f.name = "stmt"
    · obtain rfl := eq_of_name lawful.nodup hf mem_fields_stmt hstmtName
      exact congrArg StmtSettings.toValue
        (hstmt.eq_of_absent StmtSettings.lawful rfl hstmtNot hstmtWrites)
    have hout : kept f.name = false := by
      refine Bool.eq_false_iff.2 fun hkept => hflat (List.mem_filter.2 ⟨List.mem_map_of_mem hf, ?_⟩)
      simp [isFlat, hkept, hexprName, hstmtName]
    rw [write_restrict s {} kept f hf hexprName hstmtName, hout]
    rfl

/-- Written settings hold all their fields. -/
theorem excerpt_toValue (s : Settings) : ∃ pairs, s.toValue = .object pairs ∧
    s.Excerpt (fun _ => true) pairs := by
  refine ⟨_, rfl, [("expr", s.expr.toValue)], [("stmt", s.stmt.toValue)], .object ⟨[], ?_, ?_⟩,
    .object ⟨[], ?_, ?_⟩, [], ?_, ?_⟩
  · exact .refl _
  · exact List.forall_mem_nil _
  · exact .refl _
  · exact List.forall_mem_nil _
  · exact .refl _
  · exact List.forall_mem_nil _

theorem ofValue?_toValue (d : Dialect) {s : Settings} (hs : s.Valid) (hsized : s.Sized) :
    ofValue? d s.toValue = some { s with words := defaultWords } := by
  obtain ⟨pairs, hwritten, hall⟩ := s.excerpt_toValue
  rw [hwritten, ofValue?_excerpt d hs hsized hall]
  rfl

end Settings

namespace Moment

theorem ofValue?_toValue (d : Dialect) {t : Moment} (hseconds : t.seconds < secondsLimit)
    (hnanoseconds : t.nanoseconds < second) : ofValue? d t.toValue = some t := by
  have hwords : secondsLimit < UInt64.size := by decide
  have hsmall : second < UInt32.size := by decide
  have hword : second < UInt64.size := by decide
  have hread : ofWholeValue? d fields {} t.toValue = some t := by
    refine (ofWholeValue?_toValue (by decide) t).trans ?_
    change ((Value.integer t.seconds).asSize?.map _).bind (fun start =>
      ((Value.integer t.nanoseconds).asSize?.map _).bind _) = _
    rw [Field.asSize?_ofNat (by omega), Field.asSize?_ofNat (by omega)]
    rfl
  have honly : hasOnly fields t.toValue = true := hasOnly_toValue t
  have hafter : after? t.seconds t.nanoseconds = some t := by
    have hdiv : t.nanoseconds / second = 0 := Nat.div_eq_of_lt hnanoseconds
    have hmod : t.nanoseconds % second = t.nanoseconds := Nat.mod_eq_of_lt hnanoseconds
    rw [after?, hdiv, hmod]
    exact if_pos hseconds
  rw [ofValue?, hread]
  change (if hasOnly fields t.toValue = true ∧ t.nanoseconds < UInt32.size then _ else none) = _
  rw [if_pos ⟨honly, by omega⟩, hafter]

end Moment

namespace Manifest

/-- The figures are machine words, and the moment is one that a clock gives. -/
structure Representable (m : Manifest) : Prop where
  classCount : m.classCount < UInt64.size
  methodCount : m.methodCount < UInt64.size
  seconds : m.generatedAt.seconds < Moment.secondsLimit
  nanoseconds : m.generatedAt.nanoseconds < Moment.second

theorem ofValue?_toValue (d : Dialect) {m : Manifest} (hm : m.Representable)
    (hs : m.settings.Valid) (hsized : m.settings.Sized) :
    ofValue? d m.toValue =
      some { m with settings := { m.settings with words := defaultWords } } := by
  have hseed : m.seed.toNat < UInt64.size := m.seed.toNat_lt
  refine (ofWholeValue?_toValue (by decide) m).trans ?_
  simp only [fields, List.foldlM_cons, List.foldlM_nil, Field.size, Field.string, Field.part,
    Field.asSize?_ofNat hseed, Field.asSize?_ofNat hm.classCount,
    Field.asSize?_ofNat hm.methodCount, Settings.ofValue?_toValue d hs hsized,
    Moment.ofValue?_toValue d hm.seconds hm.nanoseconds, Value.asString?, Option.map_some,
    Option.bind_eq_bind, Option.bind_some, Nat.toUInt64_eq, UInt64.ofNat_toNat]
  rfl

end Manifest

namespace Settings

/-- Of accepted settings, any of the written fields are read as these fields among the defaults, and
a manifest gives the settings of its run back, with the built-in words. So it gives the program of
the run back, where the run had these words. -/
theorem excerpts_readBack (d : Dialect) {s : Settings} (h : s.validate = .ok ())
    (hsized : s.Sized) :
    (∀ kept pairs, s.Excerpt kept pairs →
        ofValue? d (.object pairs) = some (s.restrict {} kept)) ∧
      ∀ m : Manifest, m.settings = s → m.Representable →
        ∃ m', Manifest.ofValue? d m.toValue = some m' ∧ m'.seed = m.seed ∧
          m'.settings = { s with words := defaultWords } ∧
          (s.words = defaultWords → CommandLine.programOf m'.settings m'.seed =
            CommandLine.programOf s m.seed) := by
  have hs := valid_of_validate h
  refine ⟨fun kept pairs hpairs => ofValue?_excerpt d hs hsized hpairs, ?_⟩
  rintro m rfl hm
  refine ⟨_, Manifest.ofValue?_toValue d hm hs hsized, rfl, rfl, fun hwords => ?_⟩
  rw [← hwords]

/-- The manifest of a run with a word of its own. -/
def riverManifest : Manifest where
  seed := 7
  profile := "small"
  settings := { words := ["river"], maxTypes := 3, expr := { maxComplexity := 12 } }
  classCount := 2
  methodCount := 5
  generatedAt := { seconds := 60, nanoseconds := 5 }
  generatorVersion := "0.1.0"

theorem excerpts_readBack_river :
    ofValue? Json.dialect
        (.object [("words", .array []),
          ("expr", .object [("colour", .null), ("max_complexity", .integer 12)])]) =
      some { expr := { maxComplexity := 12 } } ∧
    ∃ m', Manifest.ofValue? Json.dialect riverManifest.toValue = some m' ∧ m'.seed = 7 ∧
      m'.settings = { maxTypes := 3, expr := { maxComplexity := 12 } } := by
  have hvalid : riverManifest.settings.validate = .ok () := by rfl
  obtain ⟨hread, hmanifest⟩ := excerpts_readBack Json.dialect hvalid
    ⟨by decide, by decide, by decide, by decide, by decide⟩
  constructor
  · refine hread (· == "expr.max_complexity") _
      ⟨[("expr", .object [("colour", .null), ("max_complexity", .integer 12)])], [],
        .object ⟨[("colour", .null)], .swap _ _ _, by decide⟩, .absent (by decide),
        [("words", .array [])], .swap _ _ _, by decide⟩
  · obtain ⟨m', hm, hseed, hsettings, -⟩ := hmanifest riverManifest rfl
      ⟨by decide, by decide, by decide, by decide⟩
    exact ⟨m', hm, hseed, hsettings⟩

end Settings
end JavaSynth
