import JavaSynth.Proofs.Reading.Reader

set_option autoImplicit false

/-!
# Reading rendered expressions

The text of an expression is read back. Each way of writing a node is a rule of the grammar whose
parts are written in places of its levels; parentheses make up for a part that binds looser.
-/
namespace JavaSynth

def Literal.tree : Literal → Tree
  | .int v => if v < 0 then .unary .neg (.number v.natAbs) else .number v.natAbs
  | .boolean b => .boolean b
  | .null => .null

mutual

/-- An expression up to what its text leaves out: static types other than those of new values,
where a variable was declared, a negative literal for a negated number, and an implicit receiver. -/
def Expr.tree : Expr → Tree
  | .literal value _ => value.tree
  | .var _ name _ => .name name
  | .ownField name _ => .field .this name
  | .field target name _ => .field target.tree name
  | .index target position _ => .index target.tree position.tree
  | .ownCall name args _ => .call .this name (Expr.argTrees args)
  | .call target name args _ => .call target.tree name (Expr.argTrees args)
  | .this _ => .this
  | .newObject ty => .newObject ty
  | .newArray size ty => .newArray size.tree ty
  | .unary op operand _ => .unary op operand.tree
  | .binary op left right _ => .binary op left.tree right.tree
  | .assign target value _ => .assign target.tree value.tree

def Expr.argTrees : List Expr → List Tree
  | [] => []
  | e :: rest => e.tree :: Expr.argTrees rest

end

/-- A class with a name that can be declared. -/
def Ty.isClass : Ty → Bool
  | .named name => Identifier.isValid name
  | _ => false

/-- An array with a size over what can be the element of one. -/
def Ty.isCreated : Ty → Bool
  | .array element dims => decide (0 < dims) && (element.isPrimitive || element.isClass)
  | _ => false

mutual

/-- Names are identifiers, objects are of classes and arrays of dimensions. Types do not matter
otherwise. -/
def Expr.isWritten : Expr → Bool
  | .literal _ _ | .this _ => true
  | .var _ name _ | .ownField name _ => Identifier.isValid name
  | .field target name _ => target.isWritten && Identifier.isValid name
  | .index target position _ => target.isWritten && position.isWritten
  | .ownCall name args _ => Identifier.isValid name && Expr.areWritten args
  | .call target name args _ =>
    target.isWritten && Identifier.isValid name && Expr.areWritten args
  | .newObject ty => ty.isClass
  | .newArray size ty => size.isWritten && ty.isCreated
  | .unary _ operand _ => operand.isWritten
  | .binary _ left right _ | .assign left right _ => left.isWritten && right.isWritten

def Expr.areWritten : List Expr → Bool
  | [] => true
  | e :: rest => e.isWritten && Expr.areWritten rest

end

/-- The level of the grammar at which an expression is written. -/
def Expr.level : Expr → Level
  | .assign _ _ _ => .assignment
  | .binary op _ _ _ => op.level
  | .unary _ _ _ => .unary
  | .literal (.int v) _ => if v < 0 then .unary else .primary
  | .newArray _ _ => .operand
  | _ => .primary

theorem Expr.level_rank (e : Expr) : e.level.rank = e.precedence := by
  cases e with
  | binary op => exact op.level_rank
  | literal value =>
    cases value with
    | int v =>
      rw [Expr.level, Expr.precedence]
      split <;> rfl
    | _ => rfl
  | _ => rfl

/-- A place that asks for a precedence takes the levels that bind as tightly. -/
def Asks (least : Nat) (place : Level) : Prop :=
  ∀ level : Level, least ≤ level.rank → place.rank ≤ level.rank

theorem asks_rank (place : Level) : Asks place.rank place := fun _ h => h

theorem asks_zero : Asks 0 .assignment := fun level _ => by cases level <;> decide

theorem BinaryOp.asks_left (op : BinaryOp) : Asks op.precedence op.level :=
  op.level_rank ▸ asks_rank op.level

theorem BinaryOp.asks_right (op : BinaryOp) : Asks (op.precedence + 1) op.rightLevel := by
  intro level hlt
  rw [← op.level_rank] at hlt
  obtain ⟨next, hnext, hle⟩ := Level.below_of_rank_lt (Nat.lt_of_succ_le hlt)
  rw [op.level_below] at hnext
  cases hnext
  exact hle

/-- The text gives the tree at the level, and its start does not go on with a unary operator. -/
structure Reads (level : Level) (cs : List Char) (a : Tree) : Prop where
  tokens : ∃ ts, Lexes cs ts ∧ Derives level ts a
  opens : Level.operand.rank ≤ level.rank → Opens cs

/-- Arguments with commas between them. -/
def ReadsAll (cs : List Char) (args : List Tree) : Prop :=
  ∃ argTokens, Lexes cs ([Token.sign ','].intercalate argTokens) ∧
    argTokens.length = args.length ∧
    ∀ arg ∈ argTokens.zip args, Derives .assignment arg.1 arg.2

section Rules

variable {level place : Level} {cs cs' : List Char} {ts ts' : List Token} {a b : Tree}
  {name : String}

theorem Opens.append (h : Opens cs) (cs' : List Char) : Opens (cs ++ cs') := by
  obtain ⟨d, tail, rfl, hd⟩ := h
  exact ⟨d, tail ++ cs', rfl, hd⟩

/-- A symbol by itself between two texts. -/
theorem Lexes.between {c : Char} (hc : isPlain c = true ∧ Identifier.isPart c = false)
    (h : Lexes cs ts) (h' : Lexes cs' ts') : Lexes (cs ++ c :: cs') (ts ++ .sign c :: ts') := by
  refine h.append (h'.plain hc.1) fun d hd => ?_
  cases hd
  exact hc.2

theorem Lexes.new (h : Lexes cs ts) : Lexes ("new ".toList ++ cs) (.word "new" :: ts) := by
  have hnew : Lexes "new".toList [.word "new"] := .word (by decide)
  refine hnew.append h.blank fun d hd => ?_
  cases hd
  decide

theorem Lexes.assignment (h : Lexes cs ts) : Lexes (" = ".toList ++ cs) (.sign '=' :: ts) := by
  refine blank fun rest hr => ?_
  rw [List.cons_append, ← h rest hr]
  exact lex_before_blank (by decide) (by decide) (by decide) (by decide) _

theorem Lexes.brackets (n : Nat) : Lexes (Ty.brackets n) (bracketTokens n) := by
  induction n with
  | zero => exact .nil
  | succ n ih => exact (ih.plain (by decide)).plain (by decide)

theorem isWord_of_isValid (h : Identifier.isValid name = true) :
    Identifier.isWord name.toList = true :=
  (Bool.and_eq_true_iff.1 h).1

theorem ElementName.of_created {element : Ty}
    (h : (element.isPrimitive || element.isClass) = true) :
    ∃ name, element.chars = name.toList ∧ ElementName name element := by
  cases element with
  | int => exact ⟨"int", rfl, .int⟩
  | boolean => exact ⟨"boolean", rfl, .boolean⟩
  | named name => exact ⟨name, rfl, .named h⟩
  | _ => cases h

theorem ElementName.isWord {t : Ty} (h : ElementName name t) :
    Identifier.isWord name.toList = true := by
  cases h with
  | int => decide
  | boolean => decide
  | named h => exact isWord_of_isValid h

theorem opens_word (h : Identifier.isWord name.toList = true) : Opens name.toList := by
  cases hname : name.toList with
  | nil => rw [hname] at h; cases h
  | cons c cs =>
    rw [hname, Identifier.isWord, Bool.and_eq_true] at h
    refine ⟨c, cs, rfl, ?_, ?_⟩
    · rintro rfl
      exact absurd h.1 (by decide)
    · rintro rfl
      exact absurd h.1 (by decide)

namespace Reads

theorem lift (h : Reads level cs a) (hle : place.rank ≤ level.rank) : Reads place cs a := by
  obtain ⟨⟨ts, hts, hd⟩, hopens⟩ := h
  exact ⟨⟨ts, hts, hd.lift hle⟩, fun hplace => hopens (Nat.le_trans hplace hle)⟩

theorem parens (h : Reads .assignment cs a) : Reads .primary ('(' :: cs ++ [')']) a := by
  obtain ⟨⟨ts, hts, hd⟩, -⟩ := h
  exact ⟨⟨_, (hts.between (by decide) .nil).plain (by decide), hd.parens⟩,
    fun _ => ⟨'(', _, rfl, by decide⟩⟩

/-- Parentheses stand where the place asks for more than the expression gives. -/
theorem guarded {e : Expr} {least : Nat} (h : Reads e.level e.chars e.tree)
    (hp : Asks least place) : Reads place (e.guarded least e.chars) e.tree := by
  rw [Expr.guarded]
  split
  · exact (h.lift (asks_zero _ (Nat.zero_le _))).parens.lift place.rank_le_primary
  · rename_i hle
    exact h.lift (hp _ (e.level_rank ▸ Nat.le_of_not_lt hle))

theorem word (hw : Identifier.isWord name.toList = true) (hd : Derives .primary [.word name] a) :
    Reads .primary name.toList a :=
  ⟨⟨_, .word hw, hd⟩, fun _ => opens_word hw⟩

theorem number (n : Nat) : Reads .primary (Nat.toDigits 10 n) (.number n) := by
  refine ⟨⟨_, .number n, .number n⟩, fun _ => ?_⟩
  have hall : ∀ c ∈ Nat.toDigits 10 n, c.isDigit = true :=
    fun c hc => Nat.isDigit_of_mem_toDigits (by decide) (Nat.le_refl 10) hc
  cases hn : Nat.toDigits 10 n with
  | nil => exact absurd hn Nat.toDigits_ne_nil
  | cons c cs =>
    have hfirst : c.isDigit = true := hall c (hn ▸ List.mem_cons_self)
    obtain ⟨-, -, -, hc⟩ := isDigit_cases hfirst
    exact ⟨c, cs, rfl, hc⟩

/-- An operand that binds tighter never starts with an operator. -/
theorem unary (op : UnaryOp) (h : Reads .operand cs a) :
    Reads .unary (op.text.toList ++ cs) (.unary op a) := by
  obtain ⟨⟨ts, hts, hd⟩, hopens⟩ := h
  exact ⟨⟨_, .unaryOperator op hts (hopens (Nat.le_refl _)), .unary op (.next rfl hd)⟩,
    fun hle => absurd hle (by decide)⟩

theorem binary (op : BinaryOp) (hl : Reads op.level cs a) (hr : Reads op.rightLevel cs' b) :
    Reads op.level (cs ++ ' ' :: (op.text.toList ++ ' ' :: cs')) (.binary op a b) := by
  obtain ⟨⟨ts, hts, hleft⟩, -⟩ := hl
  obtain ⟨⟨ts', hts', hright⟩, -⟩ := hr
  refine ⟨⟨_, hts.append (.binaryOperator op hts') fun d hd => ?_, .binary op hleft hright⟩,
    fun hle => absurd hle (by cases op <;> decide)⟩
  cases hd
  decide

theorem assign (ht : Reads .primary cs a) (hv : Reads .assignment cs' b) :
    Reads .assignment (cs ++ " = ".toList ++ cs') (.assign a b) := by
  obtain ⟨⟨ts, hts, htarget⟩, -⟩ := ht
  obtain ⟨⟨ts', hts', hvalue⟩, -⟩ := hv
  have hsign : Lexes (" = ".toList ++ cs') (.sign '=' :: ts') := .assignment hts'
  refine ⟨⟨_, ?_, .assign htarget hvalue⟩, fun hle => absurd hle (by decide)⟩
  rw [List.append_assoc]
  refine hts.append hsign fun d hd => ?_
  cases hd
  decide

theorem field (h : Reads .primary cs a) (hn : Identifier.isValid name = true) :
    Reads .primary (cs ++ '.' :: name.toList) (.field a name) := by
  obtain ⟨⟨ts, hts, hd⟩, hopens⟩ := h
  exact ⟨⟨_, hts.between (by decide) (.word (isWord_of_isValid hn)), hd.field hn⟩,
    fun hle => (hopens hle).append _⟩

theorem index (h : Reads .primary cs a) (hp : Reads .assignment cs' b) :
    Reads .primary (cs ++ '[' :: (cs' ++ [']'])) (.index a b) := by
  obtain ⟨⟨ts, hts, hd⟩, hopens⟩ := h
  obtain ⟨⟨ts', hts', hposition⟩, -⟩ := hp
  exact ⟨⟨_, hts.between (by decide) (hts'.between (by decide) .nil), hd.index hposition⟩,
    fun hle => (hopens hle).append _⟩

theorem call {args : List Tree} (h : Reads .primary cs a) (hn : Identifier.isValid name = true)
    (ha : ReadsAll cs' args) :
    Reads .primary (cs ++ '.' :: (name.toList ++ '(' :: (cs' ++ [')']))) (.call a name args) := by
  obtain ⟨⟨ts, hts, hd⟩, hopens⟩ := h
  obtain ⟨argTokens, hargTokens, hlength, hargs⟩ := ha
  have hname : Lexes name.toList [.word name] := .word (isWord_of_isValid hn)
  exact ⟨⟨_, hts.between (by decide)
      (hname.between (by decide) (hargTokens.between (by decide) .nil)),
    hd.call hn hlength hargs⟩, fun hle => (hopens hle).append _⟩

theorem newObject (hn : Identifier.isValid name = true) :
    Reads .primary ("new ".toList ++ name.toList ++ "()".toList) (.newObject (.named name)) := by
  have hname : Lexes name.toList [.word name] := .word (isWord_of_isValid hn)
  have htext : Lexes (name.toList ++ '(' :: [')']) [.word name, .sign '(', .sign ')'] :=
    hname.between (by decide) (Lexes.nil.plain (by decide))
  refine ⟨⟨_, ?_, .newObject hn⟩, fun _ => ⟨'n', _, rfl, by decide⟩⟩
  rw [List.append_assoc]
  exact htext.new

theorem newArray {element : Ty} (he : ElementName name element) (hs : Reads .assignment cs a)
    (more : Nat) :
    Reads .operand
      ("new ".toList ++ name.toList ++ '[' :: (cs ++ ']' :: Ty.brackets more))
      (.newArray a (.array element (more + 1))) := by
  obtain ⟨⟨ts, hts, hd⟩, -⟩ := hs
  have hname : Lexes name.toList [.word name] := .word he.isWord
  have htext : Lexes (name.toList ++ '[' :: (cs ++ ']' :: Ty.brackets more))
      (.word name :: .sign '[' :: (ts ++ .sign ']' :: bracketTokens more)) :=
    hname.between (by decide) (hts.between (by decide) (.brackets more))
  refine ⟨⟨_, ?_, .newArray he hd more⟩, fun _ => ⟨'n', _, rfl, by decide⟩⟩
  rw [List.append_assoc]
  exact htext.new

end Reads

theorem ReadsAll.nil : ReadsAll [] [] := ⟨[], .nil, rfl, fun _ h => by cases h⟩

theorem ReadsAll.single (h : Reads .assignment cs a) : ReadsAll cs [a] := by
  obtain ⟨⟨ts, hts, hd⟩, -⟩ := h
  refine ⟨[ts], ?_, rfl, fun arg harg => ?_⟩
  · rwa [List.intercalate_singleton]
  · cases List.mem_singleton.1 harg
    exact hd

theorem Reads.argument {args : List Tree} (h : Reads .assignment cs a) (hne : args ≠ [])
    (hall : ReadsAll cs' args) : ReadsAll (cs ++ ", ".toList ++ cs') (a :: args) := by
  obtain ⟨⟨ts, hts, hd⟩, -⟩ := h
  obtain ⟨argTokens, hargTokens, hlength, hargs⟩ := hall
  refine ⟨ts :: argTokens, ?_, congrArg (· + 1) hlength, List.forall_mem_cons.2 ⟨hd, hargs⟩⟩
  cases argTokens with
  | nil => exact absurd (List.length_eq_zero_iff.1 hlength.symm) hne
  | cons second others =>
    rw [List.intercalate_cons_cons, List.append_assoc, List.append_assoc]
    exact hts.between (by decide) hargTokens.blank

end Rules

/-- A number is written with its digits, and a negative one with a minus before them. -/
theorem Literal.chars_int (v : Int) : (Literal.int v).chars =
    if v < 0 then '-' :: Nat.toDigits 10 v.natAbs else Nat.toDigits 10 v.natAbs := by
  cases v with
  | ofNat n => exact String.toList_ofList
  | negSucc n =>
    rw [if_pos (Int.negSucc_lt_zero n)]
    change ("-" ++ String.ofList (Nat.toDigits 10 (n + 1))).toList = _
    rw [String.toList_append]
    exact congrArg ('-' :: ·) String.toList_ofList

theorem Literal.reads (value : Literal) (ty : Ty) :
    Reads (Expr.literal value ty).level value.chars value.tree := by
  cases value with
  | int v =>
    have hdigits : Reads .primary (Nat.toDigits 10 v.natAbs) (.number v.natAbs) := .number _
    rw [Expr.level, Literal.tree, Literal.chars_int]
    split
    · exact (hdigits.lift (by decide)).unary .neg
    · exact hdigits
  | boolean b =>
    cases b with
    | false => exact .word (by decide) (.boolean false)
    | true => exact .word (by decide) (.boolean true)
  | null => exact .word (by decide) .null

mutual

theorem Expr.reads (e : Expr) (h : e.isWritten = true) : Reads e.level e.chars e.tree := by
  cases e with
  | literal value ty => exact value.reads ty
  | var _ name _ => exact .word (isWord_of_isValid h) (.name h)
  | this _ => exact .word (by decide) .this
  | ownField name _ => exact Reads.field (.word (by decide) .this) h
  | field target name _ =>
    obtain ⟨htarget, hname⟩ := Bool.and_eq_true_iff.1 h
    exact (target.reads htarget).guarded (asks_rank .primary) |>.field hname
  | index target position _ =>
    obtain ⟨htarget, hposition⟩ := Bool.and_eq_true_iff.1 h
    exact ((target.reads htarget).guarded (asks_rank .primary)).index
      ((position.reads hposition).guarded asks_zero)
  | ownCall name args _ =>
    obtain ⟨hname, hargs⟩ := Bool.and_eq_true_iff.1 h
    exact Reads.call (.word (by decide) .this) hname (Expr.args_read args hargs)
  | call target name args _ =>
    obtain ⟨hcall, hargs⟩ := Bool.and_eq_true_iff.1 h
    obtain ⟨htarget, hname⟩ := Bool.and_eq_true_iff.1 hcall
    exact ((target.reads htarget).guarded (asks_rank .primary)).call hname
      (Expr.args_read args hargs)
  | newObject ty =>
    cases ty with
    | named name => exact .newObject h
    | _ => cases h
  | newArray size ty =>
    obtain ⟨hsize, hty⟩ := Bool.and_eq_true_iff.1 h
    cases ty with
    | array element dims =>
      obtain ⟨hdims, helement⟩ := Bool.and_eq_true_iff.1 hty
      obtain ⟨name, hname, he⟩ := ElementName.of_created helement
      obtain ⟨more, rfl⟩ := Nat.exists_eq_add_one.2 (of_decide_eq_true hdims)
      have htext := Reads.newArray he ((size.reads hsize).guarded asks_zero) more
      rwa [← hname] at htext
    | _ => cases hty
  | unary op operand _ =>
    exact ((operand.reads h).guarded (asks_rank .operand)).unary op
  | binary op left right _ =>
    obtain ⟨hleft, hright⟩ := Bool.and_eq_true_iff.1 h
    exact ((left.reads hleft).guarded op.asks_left).binary op
      ((right.reads hright).guarded op.asks_right)
  | assign target value _ =>
    obtain ⟨htarget, hvalue⟩ := Bool.and_eq_true_iff.1 h
    exact ((target.reads htarget).guarded (asks_rank .primary)).assign
      ((value.reads hvalue).guarded (asks_rank .assignment))

theorem Expr.args_read (args : List Expr) (h : Expr.areWritten args = true) :
    ReadsAll (Expr.argChars args) (Expr.argTrees args) := by
  cases args with
  | nil => exact .nil
  | cons e rest =>
    obtain ⟨hfirst, hrest⟩ := Bool.and_eq_true_iff.1 h
    have he : Reads .assignment (e.guarded Expr.assignPrecedence e.chars) e.tree :=
      (e.reads hfirst).guarded (asks_rank .assignment)
    cases rest with
    | nil => exact .single he
    | cons second others =>
      exact he.argument (List.cons_ne_nil _ _) (Expr.args_read (second :: others) hrest)

end

/-- The text of an expression has its tree and no other. -/
theorem Expr.derives_render {e : Expr} (h : e.isWritten = true) (a : Tree) :
    Derives .assignment (lex e.render.toList) a ↔ a = e.tree := by
  obtain ⟨⟨ts, hts, hd⟩, -⟩ : Reads .assignment (e.charsAt 0) e.tree :=
    (e.reads h).guarded asks_zero
  have htext : e.render.toList = e.charsAt 0 := String.toList_ofList
  have hlex : lex (e.charsAt 0) = ts := by
    have hend := hts [] fun d hd => by cases hd
    rwa [List.append_nil, lex_nil, List.append_nil] at hend
  rw [htext, hlex]
  constructor
  · exact fun ha => ha.unique hd
  · rintro rfl
    exact hd

/-- The text is `-(a.b - -5)`. -/
theorem Expr.derives_render_negated :
    let e := Expr.unary .neg (.binary .sub (.field (.var .parameter "a" .int) "b" .int)
      (.literal (.int (-5)) .int) .int) .int
    e.isWritten = true ∧ Derives .assignment (lex e.render.toList)
      (.unary .neg (.binary .sub (.field (.name "a") "b") (.unary .neg (.number 5)))) := by
  intro e
  have hwritten : e.isWritten = true := by decide
  exact ⟨hwritten, (Expr.derives_render hwritten _).2 rfl⟩

end JavaSynth
