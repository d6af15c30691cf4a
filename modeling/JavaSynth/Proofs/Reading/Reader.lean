import JavaSynth.Proofs.Reading.Grammar

set_option autoImplicit false

/-!
# The grammar is unambiguous

A reader goes through tokens from the left and gives a tree and what is left, as long as its fuel
lasts. At each level it reads the next tighter level and then goes on while the next token continues
the level. It reads every derivation back, so tokens have one tree at most.
-/
namespace JavaSynth

/-- With enough fuel the value comes out. -/
def Gives {α : Type} (f : Nat → Option α) (a : α) : Prop :=
  ∃ least, ∀ fuel, least ≤ fuel → f fuel = some a

namespace Gives

variable {α β γ : Type} {f : Nat → Option α} {g : Nat → Option β} {h : Nat → Option γ}
  {a a' : α} {b : β} {c : γ}

theorem done (hstep : ∀ fuel, f (fuel + 1) = some a) : Gives f a := by
  refine ⟨1, fun fuel hle => ?_⟩
  obtain ⟨fuel, rfl⟩ := Nat.exists_eq_add_of_le' hle
  exact hstep fuel

theorem step (hf : Gives f a) (hstep : ∀ fuel, f fuel = some a → g (fuel + 1) = some b) :
    Gives g b := by
  obtain ⟨least, hf⟩ := hf
  refine ⟨least + 1, fun fuel hle => ?_⟩
  obtain ⟨more, rfl⟩ := Nat.exists_eq_add_of_le' hle
  exact hstep _ (hf _ (Nat.le_add_left least more))

theorem step₂ (hf : Gives f a) (hg : Gives g b)
    (hstep : ∀ fuel, f fuel = some a → g fuel = some b → h (fuel + 1) = some c) : Gives h c := by
  obtain ⟨least, hf⟩ := hf
  obtain ⟨least', hg⟩ := hg
  refine ⟨max least least' + 1, fun fuel hle => ?_⟩
  obtain ⟨more, rfl⟩ := Nat.exists_eq_add_of_le' hle
  exact hstep (more + max least least') (hf _ (by omega)) (hg _ (by omega))

theorem unique (hf : Gives f a) (hf' : Gives f a') : a = a' := by
  obtain ⟨least, hf⟩ := hf
  obtain ⟨least', hf'⟩ := hf'
  have heq := hf (max least least') (Nat.le_max_left _ _)
  rw [hf' _ (Nat.le_max_right _ _)] at heq
  exact (Option.some.inj heq).symm

end Gives

/-- The tree of a word that stands alone. -/
def wordTree (w : String) : Tree :=
  if w = "true" then .boolean true
  else if w = "false" then .boolean false
  else if w = "null" then .null
  else if w = "this" then .this
  else .name w

def elementOf (w : String) : Ty :=
  if w = "int" then .int else if w = "boolean" then .boolean else .named w

/-- The number of empty brackets that the tokens start with, and the tokens after them. -/
def readBrackets : List Token → Nat × List Token
  | .symbol ['['] :: .symbol [']'] :: rest => ((readBrackets rest).1 + 1, (readBrackets rest).2)
  | ts => (0, ts)

def BinaryOp.ofToken? (t : Token) : Option BinaryOp := all.find? (·.token == t)

mutual

def readLevel : Nat → Level → List Token → Option (Tree × List Token)
  | 0, _, _ => none
  | fuel + 1, level, ts =>
    match level.below with
    | none => do
      let (a, rest) ← readStart fuel ts
      readMore fuel level a rest
    | some tighter => do
      let (a, rest) ← readLevel fuel tighter ts
      readMore fuel level a rest

/-- Goes on at a level from what was read. -/
def readMore : Nat → Level → Tree → List Token → Option (Tree × List Token)
  | 0, _, _, _ => none
  | fuel + 1, level, a, ts =>
    match level with
    | .primary => readAccesses fuel a ts
    | .operand | .unary => some (a, ts)
    | .assignment =>
      match ts with
      | .symbol ['='] :: rest => do
        let (b, rest) ← readLevel fuel .assignment rest
        some (.assign a b, rest)
      | _ => some (a, ts)
    | level =>
      match ts with
      | t :: rest =>
        match BinaryOp.ofToken? t with
        | some op =>
          if op.level = level then do
            let (b, rest) ← readLevel fuel op.rightLevel rest
            readMore fuel level (.binary op a b) rest
          else some (a, ts)
        | none => some (a, ts)
      | [] => some (a, ts)

/-- What no operator has been applied to. -/
def readStart : Nat → List Token → Option (Tree × List Token)
  | 0, _ => none
  | fuel + 1, ts =>
    match ts with
    | .number n :: rest => some (.number n, rest)
    | .symbol ['-'] :: rest => do
      let (a, rest) ← readLevel fuel .unary rest
      some (.unary .neg a, rest)
    | .symbol ['!'] :: rest => do
      let (a, rest) ← readLevel fuel .unary rest
      some (.unary .not a, rest)
    | .symbol ['('] :: rest => do
      let (a, rest) ← readLevel fuel .assignment rest
      match rest with
      | .symbol [')'] :: rest => some (a, rest)
      | _ => none
    | .word w :: rest => if w = "new" then readCreation fuel rest else some (wordTree w, rest)
    | _ => none

def readCreation : Nat → List Token → Option (Tree × List Token)
  | 0, _ => none
  | fuel + 1, ts =>
    match ts with
    | .word w :: .symbol ['('] :: .symbol [')'] :: rest => some (.newObject (.named w), rest)
    | .word w :: .symbol ['['] :: rest => do
      let (size, rest) ← readLevel fuel .assignment rest
      match rest with
      | .symbol [']'] :: rest =>
        let (more, rest) := readBrackets rest
        some (.newArray size (.array (elementOf w) (more + 1)), rest)
      | _ => none
    | _ => none

def readAccesses : Nat → Tree → List Token → Option (Tree × List Token)
  | 0, _, _ => none
  | fuel + 1, a, ts =>
    match ts with
    | .symbol ['.'] :: .word name :: .symbol ['('] :: .symbol [')'] :: rest =>
      readAccesses fuel (.call a name []) rest
    | .symbol ['.'] :: .word name :: .symbol ['('] :: rest => do
      let (args, rest) ← readArguments fuel rest
      readAccesses fuel (.call a name args) rest
    | .symbol ['.'] :: .word name :: rest => readAccesses fuel (.field a name) rest
    | .symbol ['['] :: rest => do
      let (position, rest) ← readLevel fuel .assignment rest
      match rest with
      | .symbol [']'] :: rest => readAccesses fuel (.index a position) rest
      | _ => none
    | _ => some (a, ts)

/-- One argument or more, and the parenthesis after them. -/
def readArguments : Nat → List Token → Option (List Tree × List Token)
  | 0, _ => none
  | fuel + 1, ts => do
    let (a, rest) ← readLevel fuel .assignment ts
    match rest with
    | .symbol [','] :: rest => do
      let (args, rest) ← readArguments fuel rest
      some (a :: args, rest)
    | .symbol [')'] :: rest => some ([a], rest)
    | _ => none

end

namespace Level

/-- The strength of the tokens that a level goes on with. -/
def reach : Level → Nat
  | assignment => 2
  | level => level.rank

theorem reach_eq_rank {level tighter : Level} (h : level.below = some tighter) :
    tighter.reach = tighter.rank := by
  cases level <;> cases h <;> rfl

theorem rank_le_primary (level : Level) : level.rank ≤ primary.rank := by
  cases level <;> decide

end Level

/-- Which levels go on with the token: those of no greater reach. An opening parenthesis only
follows the name of a method, where it is read with the name. -/
def Token.strength : Token → Nat
  | .symbol ['='] => Level.assignment.reach
  | .symbol ['.'] | .symbol ['['] => Level.primary.reach
  | .symbol ['('] => Level.primary.reach + 1
  | t => match BinaryOp.ofToken? t with
    | some op => op.precedence
    | none => 0

@[simp] theorem BinaryOp.ofToken?_token (op : BinaryOp) : ofToken? op.token = some op := by
  cases op <;> decide

theorem BinaryOp.eq_token {t : Token} {op : BinaryOp} (h : ofToken? t = some op) :
    t = op.token := by
  have hfound := List.find?_some h
  exact (beq_iff_eq.1 hfound).symm

theorem BinaryOp.strength_token (op : BinaryOp) : op.token.strength = op.level.rank := by
  cases op <;> decide

@[simp] theorem BinaryOp.reach_level (op : BinaryOp) : op.level.reach = op.level.rank := by
  cases op <;> rfl

/-- No token follows that a tighter level goes on with. -/
def Stops (level : Level) (rest : List Token) : Prop :=
  ∀ t ∈ rest.head?, t.strength ≤ level.rank

/-- Wherever reading stops, the tokens are read and reading goes on at the level. -/
def ReadsBack (level : Level) (ts : List Token) (a : Tree) : Prop :=
  ∀ rest r, Stops level rest → Gives (readMore · level a rest) r →
    Gives (readLevel · level (ts ++ rest)) r

section Reading

variable {level tighter : Level} {ts ts' rest : List Token} {a b : Tree} {r : Tree × List Token}

theorem Stops.mono (h : Stops level rest) (hl : level.rank ≤ tighter.rank) :
    Stops tighter rest :=
  fun t ht => Nat.le_trans (h t ht) hl

theorem stops_cons {t : Token} (h : t.strength ≤ level.rank) : Stops level (t :: rest) := by
  intro t' ht'
  cases ht'
  exact h

theorem readAccesses_stop (h : ∀ t ∈ rest.head?, t.strength < Level.primary.reach) :
    Gives (readAccesses · a rest) (a, rest) := by
  refine .done fun fuel => ?_
  rw [readAccesses.eq_def]
  dsimp only
  split
  · exact absurd (h _ rfl) (by decide)
  · exact absurd (h _ rfl) (by decide)
  · exact absurd (h _ rfl) (by decide)
  · exact absurd (h _ rfl) (by decide)
  · rfl

theorem readMore_primary :
    Gives (readMore · .primary a ts) r ↔ Gives (readAccesses · a ts) r := by
  constructor
  · rintro ⟨least, hmore⟩
    exact ⟨least, fun fuel hle => hmore (fuel + 1) (Nat.le_succ_of_le hle)⟩
  · exact fun h => h.step fun _ hread => hread

/-- The levels of the binary operators go on with an operator of their own. -/
theorem readMore_operators (op : BinaryOp) (fuel : Nat) :
    readMore (fuel + 1) op.level a ts =
      match ts with
      | t :: rest =>
        match BinaryOp.ofToken? t with
        | some next =>
          if next.level = op.level then do
            let (b, rest) ← readLevel fuel next.rightLevel rest
            readMore fuel op.level (.binary next a b) rest
          else some (a, ts)
        | none => some (a, ts)
      | [] => some (a, ts) := by
  cases op <;> rfl

theorem Level.operator_cases (level : Level) : level = .assignment ∨ level = .unary ∨
    level = .operand ∨ level = .primary ∨ ∃ op : BinaryOp, level = op.level := by
  cases level with
  | assignment => exact .inl rfl
  | unary => exact .inr (.inl rfl)
  | operand => exact .inr (.inr (.inl rfl))
  | primary => exact .inr (.inr (.inr (.inl rfl)))
  | logicalOr => exact .inr (.inr (.inr (.inr ⟨.or, rfl⟩)))
  | logicalAnd => exact .inr (.inr (.inr (.inr ⟨.and, rfl⟩)))
  | equality => exact .inr (.inr (.inr (.inr ⟨.eq, rfl⟩)))
  | relational => exact .inr (.inr (.inr (.inr ⟨.lt, rfl⟩)))
  | additive => exact .inr (.inr (.inr (.inr ⟨.add, rfl⟩)))
  | multiplicative => exact .inr (.inr (.inr (.inr ⟨.mul, rfl⟩)))

/-- A weak token stops a level. -/
theorem readMore_stop (h : ∀ t ∈ rest.head?, t.strength < level.reach) :
    Gives (readMore · level a rest) (a, rest) := by
  obtain rfl | rfl | rfl | rfl | ⟨op, rfl⟩ := level.operator_cases
  · refine .done fun fuel => ?_
    rw [readMore.eq_def]
    dsimp only
    split
    · exact absurd (h _ rfl) (by decide)
    · rfl
  · exact .done fun _ => rfl
  · exact .done fun _ => rfl
  · exact readMore_primary.2 (readAccesses_stop h)
  · refine .done fun fuel => ?_
    rw [readMore_operators]
    split
    · rename_i t rest
      split
      · rename_i next hnext
        have hlt : next.level.rank < op.level.reach := by
          rw [← next.strength_token, ← BinaryOp.eq_token hnext]
          exact h t rfl
        have hne : next.level ≠ op.level := by
          intro heq
          rw [heq, op.reach_level] at hlt
          exact Nat.lt_irrefl _ hlt
        rw [if_neg hne]
      · rfl
    · rfl

theorem readLevel_below (hl : level.below = some tighter)
    (h : Gives (readLevel · tighter ts) (a, rest)) (hm : Gives (readMore · level a rest) r) :
    Gives (readLevel · level ts) r := by
  refine h.step₂ hm fun fuel hread hmore => ?_
  rw [readLevel, hl]
  simp only [hread, hmore, Option.bind_eq_bind, Option.bind_some]

theorem readLevel_start (h : Gives (readStart · ts) (a, rest))
    (hm : Gives (readMore · .primary a rest) r) : Gives (readLevel · .primary ts) r := by
  refine h.step₂ hm fun fuel hread hmore => ?_
  rw [readLevel]
  simp only [Level.below, hread, hmore, Option.bind_eq_bind, Option.bind_some]

theorem readStart_new (h : Gives (readCreation · ts) r) :
    Gives (readStart · (.word "new" :: ts)) r := by
  refine h.step fun fuel hread => ?_
  rw [readStart.eq_def]
  exact (if_pos rfl).trans hread

theorem Stops.below (hl : level.below = some tighter) (h : Stops level rest) :
    ∀ t ∈ rest.head?, t.strength < tighter.reach := by
  intro t ht
  rw [Level.reach_eq_rank hl]
  exact Nat.lt_of_le_of_lt (h t ht) (Level.below_rank hl)

namespace ReadsBack

theorem next (hl : level.below = some tighter) (h : ReadsBack tighter ts a) :
    ReadsBack level ts a := by
  intro rest r hr hmore
  have htighter : Gives (readLevel · tighter (ts ++ rest)) (a, rest) :=
    h rest _ (hr.mono (Nat.le_of_lt (Level.below_rank hl))) (readMore_stop (hr.below hl))
  exact readLevel_below hl htighter hmore

theorem lift (hl : level.rank ≤ tighter.rank) (h : ReadsBack tighter ts a) :
    ReadsBack level ts a :=
  Level.lift (fun _ _ hl h => next hl h) hl h

/-- What is read from the start on is an operand, and a unary expression. -/
theorem ofStart (hl : level.below = some tighter)
    (h : ∀ rest, Stops level rest → Gives (readStart · (ts ++ rest)) (a, rest))
    (hu : tighter = .operand ∨ tighter = .primary) : ReadsBack level ts a := by
  intro rest r hr hmore
  have hstop : ∀ t ∈ rest.head?, t.strength < Level.primary.reach := by
    intro t ht
    refine Nat.lt_of_lt_of_le (hr.below hl t ht) ?_
    rw [Level.reach_eq_rank hl]
    exact tighter.rank_le_primary
  have hprimary : Gives (readLevel · .primary (ts ++ rest)) (a, rest) :=
    readLevel_start (h rest hr) (readMore_stop hstop)
  obtain rfl | rfl := hu
  · exact readLevel_below hl (readLevel_below rfl hprimary (.done fun _ => rfl)) hmore
  · exact readLevel_below hl hprimary hmore

/-- What is read from the start on whatever follows can be accessed. -/
theorem primary (h : ∀ rest, Gives (readStart · (ts ++ rest)) (a, rest)) :
    ReadsBack .primary ts a :=
  fun rest _ _ hmore => readLevel_start (h rest) hmore

/-- An expression in brackets is read up to the bracket. -/
theorem enclosed (h : ReadsBack .assignment ts a) {t : Token} (ht : t.strength = 0)
    (rest : List Token) : Gives (readLevel · .assignment (ts ++ t :: rest)) (a, t :: rest) := by
  refine h _ _ (stops_cons (by rw [ht]; decide)) (readMore_stop fun t' ht' => ?_)
  cases ht'
  rw [ht]
  decide

theorem parens (h : ReadsBack .assignment ts a) :
    ReadsBack .primary (.sign '(' :: (ts ++ [.sign ')'])) a := by
  refine primary fun rest => ?_
  have hin : Gives (readLevel · .assignment (ts ++ .sign ')' :: rest)) (a, .sign ')' :: rest) :=
    h.enclosed rfl rest
  rw [List.cons_append, List.append_assoc, List.singleton_append]
  refine hin.step fun fuel hread => ?_
  rw [readStart.eq_def]
  simp only [hread, Option.bind_eq_bind, Option.bind_some]

theorem number (n : Nat) : ReadsBack .primary [.number n] (.number n) :=
  primary fun _ => .done fun _ => rfl

theorem word {w : String} (hw : w ≠ "new") : ReadsBack .primary [.word w] (wordTree w) :=
  primary fun _ => .done fun _ => if_neg hw

theorem newObject (w : String) :
    ReadsBack .primary [.word "new", .word w, .sign '(', .sign ')'] (.newObject (.named w)) := by
  refine primary fun rest => ?_
  have hin : Gives (readCreation · (.word w :: .sign '(' :: .sign ')' :: rest))
      (.newObject (.named w), rest) := .done fun _ => rfl
  exact readStart_new hin

theorem unary (op : UnaryOp) (h : ReadsBack .unary ts a) :
    ReadsBack .unary (op.token :: ts) (.unary op a) := by
  refine ofStart rfl (fun rest hr => ?_) (.inl rfl)
  have hin : Gives (readLevel · .unary (ts ++ rest)) (a, rest) := h rest _ hr (.done fun _ => rfl)
  refine hin.step fun fuel hread => ?_
  rw [List.cons_append, readStart.eq_def]
  cases op with
  | neg =>
    change (readLevel fuel .unary (ts ++ rest)).bind _ = _
    rw [hread]
    rfl
  | not =>
    change (readLevel fuel .unary (ts ++ rest)).bind _ = _
    rw [hread]
    rfl

theorem readBrackets_bracketTokens (n : Nat) (hr : ∀ t ∈ rest.head?, t ≠ .sign '[') :
    readBrackets (bracketTokens n ++ rest) = (n, rest) := by
  induction n with
  | zero =>
    change readBrackets rest = (0, rest)
    unfold readBrackets
    split
    · exact absurd rfl (hr _ rfl)
    · rfl
  | succ n ih =>
    change readBrackets (.symbol ['['] :: .symbol [']'] :: (bracketTokens n ++ rest)) = _
    rw [readBrackets, ih]

theorem newArray {w : String} (h : ReadsBack .assignment ts a) (n : Nat) :
    ReadsBack .operand (.word "new" :: .word w :: .sign '[' :: (ts ++ .sign ']' :: bracketTokens n))
      (.newArray a (.array (elementOf w) (n + 1))) := by
  refine ofStart rfl (fun rest hr => ?_) (.inr rfl)
  have hbrackets : readBrackets (bracketTokens n ++ rest) = (n, rest) := by
    refine readBrackets_bracketTokens n fun t ht heq => ?_
    have hstrength := hr t ht
    rw [heq] at hstrength
    exact absurd hstrength (by decide)
  have hin : Gives (readLevel · .assignment (ts ++ .sign ']' :: (bracketTokens n ++ rest)))
      (a, .sign ']' :: (bracketTokens n ++ rest)) := h.enclosed rfl _
  have hcreation : Gives
      (readCreation · (.word w :: .sign '[' :: (ts ++ .sign ']' :: (bracketTokens n ++ rest))))
      (.newArray a (.array (elementOf w) (n + 1)), rest) := by
    refine hin.step fun fuel hread => ?_
    rw [readCreation.eq_def]
    simp only [hread, Option.bind_eq_bind, Option.bind_some, hbrackets]
  rw [List.cons_append, List.cons_append, List.cons_append, List.append_assoc, List.cons_append]
  exact readStart_new hcreation

/-- Whatever goes on with a target is read by its accesses. -/
theorem accessed (h : ReadsBack .primary ts a) {t : Token} (ht : t.strength ≤ Level.primary.rank)
    (ha : Gives (readAccesses · a (t :: rest)) r) :
    Gives (readLevel · .primary (ts ++ t :: rest)) r :=
  h _ r (stops_cons ht) (readMore_primary.2 ha)

theorem field {name : String} (h : ReadsBack .primary ts a) :
    ReadsBack .primary (ts ++ [.sign '.', .word name]) (.field a name) := by
  intro rest r hr hmore
  have hopen : ∀ t ∈ rest.head?, t ≠ .sign '(' := by
    intro t ht heq
    have hstrength := hr t ht
    rw [heq] at hstrength
    exact absurd hstrength (by decide)
  rw [List.append_assoc]
  refine h.accessed (by decide) ((readMore_primary.1 hmore).step fun fuel hread => ?_)
  rw [readAccesses.eq_def, ← hread]
  cases rest with
  | nil => rfl
  | cons t rest =>
    have ht : t ≠ .sign '(' := hopen t rfl
    dsimp only [List.singleton_append]
    split
    · rename_i heq
      cases heq
      exact absurd rfl ht
    · rename_i heq
      cases heq
      exact absurd rfl ht
    · rename_i heq
      cases heq
      rfl
    · rename_i heq
      cases heq
    · rename_i hfield _
      exact absurd rfl (hfield name (t :: rest))

theorem index {position : Tree} (h : ReadsBack .primary ts a)
    (hp : ReadsBack .assignment ts' position) :
    ReadsBack .primary (ts ++ .sign '[' :: (ts' ++ [.sign ']'])) (.index a position) := by
  intro rest r _ hmore
  have hin : Gives (readLevel · .assignment (ts' ++ .sign ']' :: rest))
      (position, .sign ']' :: rest) := hp.enclosed rfl rest
  rw [List.append_assoc, List.cons_append, List.append_assoc, List.singleton_append]
  refine h.accessed (by decide) (hin.step₂ (readMore_primary.1 hmore) fun fuel hread hnext => ?_)
  rw [readAccesses.eq_def]
  simp only [hread, hnext, Option.bind_eq_bind, Option.bind_some]

theorem arguments {argTokens : List (List Token)} {args : List Tree}
    (hl : argTokens.length = args.length) (hne : argTokens ≠ [])
    (ha : ∀ arg ∈ argTokens.zip args, ReadsBack .assignment arg.1 arg.2) (rest : List Token) :
    Gives (readArguments · ([Token.sign ','].intercalate argTokens ++ .sign ')' :: rest))
      (args, rest) := by
  induction argTokens generalizing args with
  | nil => exact absurd rfl hne
  | cons first others ih =>
    obtain _ | ⟨a, as⟩ := args
    · cases hl
    have hfirst : ReadsBack .assignment first a := ha (first, a) List.mem_cons_self
    have hothers : ∀ arg ∈ others.zip as, ReadsBack .assignment arg.1 arg.2 :=
      fun arg harg => ha arg (List.mem_cons_of_mem _ harg)
    have hlength : others.length = as.length := Nat.succ.inj hl
    cases others with
    | nil =>
      obtain rfl := List.length_eq_zero_iff.1 hlength.symm
      have hin : Gives (readLevel · .assignment (first ++ .sign ')' :: rest))
          (a, .sign ')' :: rest) := hfirst.enclosed rfl rest
      rw [List.intercalate_singleton]
      refine hin.step fun fuel hread => ?_
      rw [readArguments]
      simp only [hread, Option.bind_eq_bind, Option.bind_some]
    | cons second others =>
      have hnext := ih hlength (List.cons_ne_nil _ _) hothers
      have hin := hfirst.enclosed (t := .sign ',') rfl
        ([Token.sign ','].intercalate (second :: others) ++ .sign ')' :: rest)
      rw [List.intercalate_cons_cons, List.append_assoc, List.append_assoc, List.singleton_append]
      refine hin.step₂ hnext fun fuel hread hall => ?_
      rw [readArguments]
      simp only [hread, hall, Option.bind_eq_bind, Option.bind_some]

theorem intercalate_first (sep t : Token) (tail : List Token) (others : List (List Token)) :
    ∃ tail', [sep].intercalate ((t :: tail) :: others) = t :: tail' := by
  cases others with
  | nil => exact ⟨tail, List.intercalate_singleton⟩
  | cons second others => exact ⟨_, List.intercalate_cons_cons⟩

/-- The first argument does not start with the parenthesis that ends an empty list. -/
theorem call {name : String} {argTokens : List (List Token)} {args : List Tree}
    (h : ReadsBack .primary ts a) (hl : argTokens.length = args.length)
    (ha : ∀ arg ∈ argTokens.zip args, ReadsBack .assignment arg.1 arg.2)
    (hfirst : ∀ arg ∈ argTokens.zip args, ∃ t tail, arg.1 = t :: tail ∧ t ≠ .sign ')') :
    ReadsBack .primary
      (ts ++ .sign '.' :: .word name :: .sign '(' ::
        ([Token.sign ','].intercalate argTokens ++ [.sign ')']))
      (.call a name args) := by
  intro rest r _ hmore
  have hafter := readMore_primary.1 hmore
  rw [List.append_assoc, List.cons_append, List.cons_append, List.cons_append, List.append_assoc,
    List.singleton_append]
  refine h.accessed (by decide) ?_
  cases argTokens with
  | nil =>
    obtain rfl := List.length_eq_zero_iff.1 hl.symm
    exact hafter.step fun _ hread => hread
  | cons first others =>
    have hargs := arguments hl (List.cons_ne_nil first others) ha rest
    obtain _ | ⟨a, as⟩ := args
    · cases hl
    obtain ⟨t, tail, rfl, ht⟩ := hfirst (first, a) List.mem_cons_self
    obtain ⟨tail', htail⟩ := intercalate_first (.sign ',') t tail others
    rw [htail, List.cons_append] at hargs ⊢
    refine hargs.step₂ hafter fun fuel hread hnext => ?_
    rw [readAccesses.eq_def]
    dsimp only
    split
    · rename_i heq
      cases heq
      exact absurd rfl ht
    · rename_i heq
      cases heq
      rw [hread]
      exact hnext
    · rename_i hcall heq
      cases heq
      exact absurd rfl (hcall _)
    · rename_i heq
      cases heq
    · rename_i hcall _ _
      exact absurd rfl (hcall name _)

theorem binary (op : BinaryOp) (hl : ReadsBack op.level ts a)
    (hr : ReadsBack op.rightLevel ts' b) :
    ReadsBack op.level (ts ++ op.token :: ts') (.binary op a b) := by
  intro rest r hstops hmore
  have hbelow := op.level_below
  have hright : Gives (readLevel · op.rightLevel (ts' ++ rest)) (b, rest) :=
    hr rest _ (hstops.mono (Nat.le_of_lt (Level.below_rank hbelow)))
      (readMore_stop (hstops.below hbelow))
  rw [List.append_assoc, List.cons_append]
  refine hl _ r (stops_cons (Nat.le_of_eq op.strength_token))
    (hright.step₂ hmore fun fuel hread hnext => ?_)
  rw [readMore_operators]
  simp only [op.ofToken?_token, hread, hnext, Option.bind_eq_bind, Option.bind_some, if_true]

theorem assign (ht : ReadsBack .primary ts a) (hv : ReadsBack .assignment ts' b) :
    ReadsBack .assignment (ts ++ .sign '=' :: ts') (.assign a b) := by
  intro rest r hr hmore
  have htarget : ReadsBack .logicalOr ts a := ht.lift (by decide)
  have hstop : ∀ t ∈ rest.head?, t.strength < Level.assignment.reach :=
    fun t ht => Nat.lt_succ_of_le (hr t ht)
  have hleft : Gives (readLevel · .logicalOr (ts ++ .sign '=' :: (ts' ++ rest)))
      (a, .sign '=' :: (ts' ++ rest)) :=
    htarget _ _ (stops_cons (by decide)) (readMore_stop fun t ht => by cases ht; decide)
  have hright : Gives (readLevel · .assignment (ts' ++ rest)) (b, rest) :=
    hv rest _ hr (readMore_stop hstop)
  -- Nothing follows an assignment, so what comes out is the assignment itself.
  obtain rfl := hmore.unique (readMore_stop hstop)
  rw [List.append_assoc, List.cons_append]
  refine readLevel_below rfl hleft (hright.step fun fuel hread => ?_)
  rw [readMore.eq_def]
  simp only [hread, Option.bind_eq_bind, Option.bind_some]

end ReadsBack

theorem ne_of_isValid {w reserved : String} (h : Identifier.isValid w = true)
    (hr : reserved ∈ reservedWords) : w ≠ reserved := by
  rintro rfl
  simp [Identifier.isValid, hr] at h

theorem wordTree_of_isValid {w : String} (h : Identifier.isValid w = true) :
    wordTree w = .name w := by
  rw [wordTree, if_neg (ne_of_isValid h (by decide)), if_neg (ne_of_isValid h (by decide)),
    if_neg (ne_of_isValid h (by decide)), if_neg (ne_of_isValid h (by decide))]

theorem ElementName.elementOf_eq {w : String} {t : Ty} (h : ElementName w t) :
    elementOf w = t := by
  cases h with
  | int => rfl
  | boolean => rfl
  | named h =>
    rw [elementOf, if_neg (ne_of_isValid h (by decide)), if_neg (ne_of_isValid h (by decide))]

/-- A derived expression starts with something, and not with a closing parenthesis. -/
theorem Derives.first (h : Derives level ts a) : ∃ t tail, ts = t :: tail ∧ t ≠ .sign ')' := by
  induction h with
  | next _ _ ih => exact ih
  | assign _ _ ih | binary _ _ _ ih | field _ _ ih | index _ _ ih | call _ _ _ _ ih =>
    obtain ⟨t, tail, rfl, ht⟩ := ih
    exact ⟨t, _, rfl, ht⟩
  | unary op => exact ⟨op.token, _, rfl, by cases op <;> decide⟩
  | _ => exact ⟨_, _, rfl, by simp⟩

theorem Derives.readsBack (h : Derives level ts a) : ReadsBack level ts a := by
  induction h with
  | next hl _ ih => exact ih.next hl
  | assign _ _ iht ihv => exact iht.assign ihv
  | binary op _ _ ihl ihr => exact ihl.binary op ihr
  | unary op _ ih => exact ih.unary op
  | newArray he _ more ih => exact he.elementOf_eq ▸ ih.newArray more
  | number n => exact .number n
  | boolean b => cases b <;> exact .word (by decide)
  | null => exact .word (by decide)
  | this => exact .word (by decide)
  | name h => exact wordTree_of_isValid h ▸ .word (ne_of_isValid h (by decide))
  | newObject _ => exact .newObject _
  | parens _ ih => exact ih.parens
  | field _ _ ih => exact ih.field
  | index _ _ ih ihp => exact ih.index ihp
  | call _ _ hl ha ih iha => exact ih.call hl iha fun arg harg => (ha arg harg).first

/-- Tokens have one tree at most. -/
theorem Derives.unique (h : Derives level ts a) (h' : Derives level ts b) : a = b := by
  have hstop : Stops level [] := fun t ht => by cases ht
  have hread := h.readsBack [] (a, []) hstop (readMore_stop fun t ht => by cases ht)
  have hread' := h'.readsBack [] (b, []) hstop (readMore_stop fun t ht => by cases ht)
  exact congrArg Prod.fst (hread.unique hread')

end Reading
end JavaSynth
