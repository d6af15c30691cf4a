import JavaSynth.Proofs.Reading.Lexer
import JavaSynth.Render

set_option autoImplicit false

/-!
# The grammar of expressions

`Derives` is the grammar of the language for the expressions that are written here, on tokens. Each
level holds what binds tighter; binary operators associate to the left and assignment to the right.
An array creation is an operand and not the target of an access. Parentheses stand anywhere and
leave no trace in the tree.
-/
namespace JavaSynth

/-- What can be read off the text of an expression. -/
inductive Tree where
  | number (value : Nat)
  | boolean (value : Bool)
  | null
  | name (name : String)
  | this
  | field (target : Tree) (name : String)
  | index (target position : Tree)
  | call (target : Tree) (name : String) (args : List Tree)
  | newObject (ty : Ty)
  | newArray (size : Tree) (ty : Ty)
  | unary (op : UnaryOp) (operand : Tree)
  | binary (op : BinaryOp) (left right : Tree)
  | assign (target value : Tree)

/-- The levels of the grammar, the loosest first. -/
inductive Level where
  | assignment
  | logicalOr
  | logicalAnd
  | equality
  | relational
  | additive
  | multiplicative
  | unary
  | operand
  | primary
  deriving DecidableEq

namespace Level

/-- The next tighter level, which the level includes. -/
def below : Level → Option Level
  | assignment => some logicalOr
  | logicalOr => some logicalAnd
  | logicalAnd => some equality
  | equality => some relational
  | relational => some additive
  | additive => some multiplicative
  | multiplicative => some unary
  | unary => some operand
  | operand => some primary
  | primary => none

/-- How tightly the level binds, on the scale of the printer. -/
def rank : Level → Nat
  | assignment => Expr.assignPrecedence
  | logicalOr => BinaryOp.or.precedence
  | logicalAnd => BinaryOp.and.precedence
  | equality => BinaryOp.eq.precedence
  | relational => BinaryOp.lt.precedence
  | additive => BinaryOp.add.precedence
  | multiplicative => BinaryOp.mul.precedence
  | unary => Expr.unaryPrecedence
  | operand => Expr.newArrayPrecedence
  | primary => Expr.postfixPrecedence

theorem below_rank {level tighter : Level} (h : level.below = some tighter) :
    level.rank < tighter.rank := by
  cases level <;> cases h <;> decide

/-- Between a level and a tighter one lies the level below. -/
theorem below_of_rank_lt {level tighter : Level} (h : level.rank < tighter.rank) :
    ∃ next, level.below = some next ∧ next.rank ≤ tighter.rank := by
  cases level <;> first
    | exact ⟨_, rfl, by revert h; cases tighter <;> decide⟩
    | exact absurd h (by cases tighter <;> decide)

theorem rank_injective {level level' : Level} (h : level.rank = level'.rank) :
    level = level' := by
  revert h
  cases level <;> cases level' <;> decide

/-- What passes from each level to the one above it passes to every looser level. -/
theorem lift {holds : Level → Prop}
    (hstep : ∀ level next, level.below = some next → holds next → holds level)
    {level tighter : Level} (hle : level.rank ≤ tighter.rank) (h : holds tighter) :
    holds level := by
  by_cases heq : level.rank = tighter.rank
  · rwa [rank_injective heq]
  · obtain ⟨next, hnext, hle'⟩ := below_of_rank_lt (Nat.lt_of_le_of_ne hle heq)
    have hdecreases := below_rank hnext
    exact hstep level next hnext (lift hstep hle' h)
termination_by tighter.rank - level.rank
decreasing_by
  have := below_rank hnext
  omega

end Level

namespace BinaryOp

def level : BinaryOp → Level
  | or => .logicalOr
  | and => .logicalAnd
  | eq | ne => .equality
  | lt | le | gt | ge => .relational
  | add | sub => .additive
  | mul | div | rem => .multiplicative

/-- The level of the right operand, which is tighter. -/
def rightLevel : BinaryOp → Level
  | or => .logicalAnd
  | and => .equality
  | eq | ne => .relational
  | lt | le | gt | ge => .additive
  | add | sub => .multiplicative
  | mul | div | rem => .unary

theorem level_below (op : BinaryOp) : op.level.below = some op.rightLevel := by
  cases op <;> rfl

@[simp] theorem level_rank (op : BinaryOp) : op.level.rank = op.precedence := by
  cases op <;> rfl

end BinaryOp

abbrev Token.sign (c : Char) : Token := .symbol [c]

def UnaryOp.token (op : UnaryOp) : Token := .symbol op.text.toList

def BinaryOp.token (op : BinaryOp) : Token := .symbol op.text.toList

/-- The brackets of dimensions without a size. -/
def bracketTokens (n : Nat) : List Token :=
  (List.replicate n [Token.sign '[', Token.sign ']']).flatten

/-- The element type of an array, as it is written. -/
inductive ElementName : String → Ty → Prop where
  | int : ElementName "int" .int
  | boolean : ElementName "boolean" .boolean
  | named {name : String} (h : Identifier.isValid name = true) : ElementName name (.named name)

inductive Derives : Level → List Token → Tree → Prop where
  | next {level tighter : Level} {ts : List Token} {a : Tree} (hl : level.below = some tighter)
      (h : Derives tighter ts a) : Derives level ts a
  | assign {ts ts' : List Token} {a b : Tree} (ht : Derives .primary ts a)
      (hv : Derives .assignment ts' b) :
      Derives .assignment (ts ++ .sign '=' :: ts') (.assign a b)
  | binary (op : BinaryOp) {ts ts' : List Token} {a b : Tree} (hl : Derives op.level ts a)
      (hr : Derives op.rightLevel ts' b) : Derives op.level (ts ++ op.token :: ts') (.binary op a b)
  | unary (op : UnaryOp) {ts : List Token} {a : Tree} (h : Derives .unary ts a) :
      Derives .unary (op.token :: ts) (.unary op a)
  | newArray {name : String} {element : Ty} {ts : List Token} {size : Tree}
      (he : ElementName name element) (hs : Derives .assignment ts size) (more : Nat) :
      Derives .operand
        (.word "new" :: .word name :: .sign '[' :: (ts ++ .sign ']' :: bracketTokens more))
        (.newArray size (.array element (more + 1)))
  | number (n : Nat) : Derives .primary [.number n] (.number n)
  | boolean (b : Bool) : Derives .primary [.word (toString b)] (.boolean b)
  | null : Derives .primary [.word "null"] .null
  | this : Derives .primary [.word "this"] .this
  | name {name : String} (h : Identifier.isValid name = true) :
      Derives .primary [.word name] (.name name)
  | newObject {name : String} (h : Identifier.isValid name = true) :
      Derives .primary [.word "new", .word name, .sign '(', .sign ')'] (.newObject (.named name))
  | parens {ts : List Token} {a : Tree} (h : Derives .assignment ts a) :
      Derives .primary (.sign '(' :: (ts ++ [.sign ')'])) a
  | field {name : String} {ts : List Token} {a : Tree} (h : Derives .primary ts a)
      (hn : Identifier.isValid name = true) :
      Derives .primary (ts ++ [.sign '.', .word name]) (.field a name)
  | index {ts ts' : List Token} {a position : Tree} (h : Derives .primary ts a)
      (hp : Derives .assignment ts' position) :
      Derives .primary (ts ++ .sign '[' :: (ts' ++ [.sign ']'])) (.index a position)
  | call {name : String} {ts : List Token} {a : Tree} {argTokens : List (List Token)}
      {args : List Tree} (h : Derives .primary ts a) (hn : Identifier.isValid name = true)
      (hl : argTokens.length = args.length)
      (ha : ∀ arg ∈ argTokens.zip args, Derives .assignment arg.1 arg.2) :
      Derives .primary
        (ts ++ .sign '.' :: .word name :: .sign '(' ::
          ([Token.sign ','].intercalate argTokens ++ [.sign ')']))
        (.call a name args)

theorem Derives.lift {level tighter : Level} {ts : List Token} {a : Tree}
    (h : Derives tighter ts a) (hle : level.rank ≤ tighter.rank) : Derives level ts a :=
  by
  have hstep (level next : Level) (hl : level.below = some next) (h : Derives next ts a) :
      Derives level ts a := .next hl h
  exact Level.lift hstep hle h

end JavaSynth
