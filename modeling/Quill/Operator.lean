/-
Module: Quill.Operator
Layer: Trees
Purpose: The operators of expressions: which symbols stand for them, how tightly they bind, and to which
  side chains of them group.
Main exports: UnaryOp, BinaryOp, Level, Symbol.binary?, Symbol.level, BinaryOp.rightLevel
-/
import Quill.Token

namespace Quill

/-- Operators in front of one operand. -/
inductive UnaryOp where
  | not
  | negate
deriving DecidableEq

/-- The symbol of a unary operator. -/
def UnaryOp.symbol : UnaryOp → Symbol
  | not => .bang
  | negate => .minus

/-- Operators between two operands. -/
inductive BinaryOp where
  | add
  | subtract
  | multiply
  | divide
  | floorDivide
  | remainder
  | power
  | equal
  | notEqual
  | less
  | greater
  | lessEqual
  | greaterEqual
  | and
  | or
deriving DecidableEq

/-- The symbol of a binary operator. -/
def BinaryOp.symbol : BinaryOp → Symbol
  | add => .plus
  | subtract => .minus
  | multiply => .star
  | divide => .slash
  | floorDivide => .slashSlash
  | remainder => .percent
  | power => .starStar
  | equal => .equalEqual
  | notEqual => .bangEqual
  | less => .less
  | greater => .greater
  | lessEqual => .lessEqual
  | greaterEqual => .greaterEqual
  | and => .andAnd
  | or => .orOr

/-- The written form of a unary operator. -/
def UnaryOp.spelling (op : UnaryOp) : String :=
  op.symbol.spelling

/-- The written form of a binary operator. -/
def BinaryOp.spelling (op : BinaryOp) : String :=
  op.symbol.spelling

/-- How tightly an operator binds, loosest first. -/
inductive Level where
  | lowest
  | logical
  | equality
  | relational
  | additive
  | multiplicative
  | exponent
  | unary
  | call
deriving DecidableEq

namespace Level

/-- The place of a level in the order. -/
def rank : Level → Nat
  | lowest => 0
  | logical => 1
  | equality => 2
  | relational => 3
  | additive => 4
  | multiplicative => 5
  | exponent => 6
  | unary => 7
  | call => 8

/-- Whether `b` binds more tightly than `a`. -/
def looser (a b : Level) : Bool :=
  decide (a.rank < b.rank)

end Level

namespace Symbol

/-- The binary operator that a symbol stands for. -/
def binary? : Symbol → Option BinaryOp
  | plus => some .add
  | minus => some .subtract
  | star => some .multiply
  | slash => some .divide
  | slashSlash => some .floorDivide
  | percent => some .remainder
  | starStar => some .power
  | equalEqual => some .equal
  | bangEqual => some .notEqual
  | less => some .less
  | greater => some .greater
  | lessEqual => some .lessEqual
  | greaterEqual => some .greaterEqual
  | andAnd => some .and
  | orOr => some .or
  | _ => none

/-- The operator that a compound assignment such as `+=` applies. -/
def compound? : Symbol → Option BinaryOp
  | plusAssign => some .add
  | minusAssign => some .subtract
  | starAssign => some .multiply
  | slashAssign => some .divide
  | slashSlashAssign => some .floorDivide
  | _ => none

/-- The operator that a step `++` or `--` applies with one as its second operand. -/
def step? : Symbol → Option BinaryOp
  | plusPlus => some .add
  | minusMinus => some .subtract
  | _ => none

end Symbol

/-- The level of a binary operator. -/
def BinaryOp.level : BinaryOp → Level
  | and | or => .logical
  | equal | notEqual => .equality
  | less | greater | lessEqual | greaterEqual => .relational
  | add | subtract => .additive
  | multiply | divide | floorDivide | remainder => .multiplicative
  | power => .exponent

/-- The level above which the right operand of a binary operator has to bind. For all operators but
    the power this is their own level, so that they group to the left; the power groups to the right. -/
def BinaryOp.rightLevel : BinaryOp → Level
  | power => .multiplicative
  | op => op.level

/-- The level at which a symbol continues an expression that stands before it. Calls, indexing and
    steps bind tightest; a symbol that continues nothing has the lowest level. -/
def Symbol.level (s : Symbol) : Level :=
  match s with
  | leftParen | leftBracket | plusPlus | minusMinus => .call
  | _ =>
    match s.binary? with
    | some op => op.level
    | none => .lowest

end Quill
