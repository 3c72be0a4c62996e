import EdxPlatform.Calc.Evaluator

/-!
# Expression trees and their texts

A tree is printed with parentheses where an operator binds less tightly than its place asks for.
-/

namespace EdxPlatform.Calc

/-! ## Literals and names -/

structure Exponent where
  mark : Char
  sign : Option Sign
  digits : List Char
  isMark : isExponentMark mark
  digits_ne : digits ≠ []
  isDigits : ∀ c ∈ digits, c.isDigit

/-- A decimal literal without the sign in front of it. -/
structure Literal where
  whole : List Char
  /-- What follows a point, if there is one. -/
  fraction : Option (List Char)
  exponent : Option Exponent
  suffix : Option (Char × ℤ)
  whole_isDigits : ∀ c ∈ whole, c.isDigit
  fraction_isDigits : ∀ digits ∈ fraction, ∀ c ∈ digits, c.isDigit
  mantissa_ne : whole ++ fraction.getD [] ≠ []
  isSuffix : ∀ entry ∈ suffix, entry ∈ suffixes

structure Identifier where
  first : Char
  rest : List Char
  isInitial : isInitial first
  isNameChars : ∀ c ∈ rest, isNameChar c

def Identifier.name (identifier : Identifier) : Name := identifier.first :: identifier.rest

def Sign.char : Sign → Char
  | .plus => '+'
  | .minus => '-'

def Factor.char : Factor → Char
  | .times => '*'
  | .over => '/'

def signText (sign : Option Sign) : List Char := (sign.map Sign.char).toList

namespace Exponent

def text (exponent : Exponent) : List Char := exponent.mark :: (signText exponent.sign ++ exponent.digits)

def value (exponent : Exponent) : ℤ :=
  match exponent.sign with
  | some .minus => -digitsValue exponent.digits
  | _ => digitsValue exponent.digits

end Exponent

namespace Literal

def mantissa (literal : Literal) : List Char := literal.whole ++ literal.fraction.elim [] ('.' :: ·)

def text (literal : Literal) : List Char :=
  literal.mantissa ++ (literal.exponent.elim [] Exponent.text ++ literal.suffix.elim [] fun entry => [entry.1])

local instance : Nat.AtLeastTwo 10 := Nat.instAtLeastTwoHAddOfNat 9

def value {K : Type} [Field K] (literal : Literal) : K :=
  decimal literal.whole (literal.fraction.getD []) (literal.exponent.elim 0 Exponent.value) *
    literal.suffix.elim 1 fun entry => 10 ^ entry.2

end Literal

/-! ## Trees -/

mutual

inductive Expr where
  | number (sign : Option Sign) (literal : Literal)
  | variable (name : Identifier)
  | call (name : Identifier) (argument : Expr)
  | power (base exponent : Expr)
  | parallel (operands : Operands)
  | product (left : Expr) (op : Factor) (right : Expr)
  | sum (left : Expr) (op : Sign) (right : Expr)
  | signed (sign : Sign) (argument : Expr)

/-- Two operands or more. -/
inductive Operands where
  | pair (first second : Expr)
  | more (operands : Operands) (last : Expr)

end

/-- How tightly an operator binds, from the loosest on. -/
inductive Level where
  | sum
  | product
  | parallel
  | power
  | atom
  deriving DecidableEq, Repr

def Level.rank : Level → Nat
  | .sum => 0
  | .product => 1
  | .parallel => 2
  | .power => 3
  | .atom => 4

def Expr.level : Expr → Bool → Level
  | .number (some _) _, true => .sum
  | .number _ _, _ => .atom
  | .variable _, _ => .atom
  | .call _ _, _ => .atom
  | .power _ _, _ => .power
  | .parallel _, _ => .parallel
  | .product _ _ _, _ => .product
  | .sum _ _ _, _ => .sum
  | .signed _ _, _ => .sum

def placed (level : Bool → Level) (bare : Bool → List Char) (place : Level) (start : Bool) : List Char :=
  if (level start).rank < place.rank then '(' :: (bare true ++ [')']) else bare start

mutual

def Expr.bare : Expr → Bool → List Char
  | .number sign literal, _ => signText sign ++ literal.text
  | .variable name, _ => name.name
  | .call name argument, _ => name.name ++ '(' :: (argument.bare true ++ [')'])
  | .power base exponent, start =>
    placed base.level base.bare .atom start ++ '^' :: placed exponent.level exponent.bare .power false
  | .parallel operands, start => operands.bare start
  | .product left op right, start =>
    placed left.level left.bare .product start ++ op.char :: placed right.level right.bare .parallel false
  | .sum left op right, start =>
    placed left.level left.bare .sum start ++ op.char :: placed right.level right.bare .product false
  | .signed sign argument, _ => sign.char :: placed argument.level argument.bare .product false

def Operands.bare : Operands → Bool → List Char
  | .pair first second, start =>
    placed first.level first.bare .power start ++ '|' :: '|' :: placed second.level second.bare .power false
  | .more operands last, start => operands.bare start ++ '|' :: '|' :: placed last.level last.bare .power false

end

def Expr.printed (expr : Expr) : List Char := expr.bare true

mutual

def Expr.used : Expr → List Used
  | .number _ _ => []
  | .variable name => [.variable name.name]
  -- The parse action of a call runs after those in its argument.
  | .call name argument => argument.used ++ [.function name.name]
  | .power base exponent => base.used ++ exponent.used
  | .parallel operands => operands.used
  | .product left _ right => left.used ++ right.used
  | .sum left _ right => left.used ++ right.used
  | .signed _ argument => argument.used

def Operands.used : Operands → List Used
  | .pair first second => first.used ++ second.used
  | .more operands last => operands.used ++ last.used

end

section

variable {K : Type} [Field K] [DecidableEq K]

/-- What a name stands for. -/
structure Meaning (K : Type) where
  ofVariable : Name → Value K
  ofFunction : Name → Value K → Value K
  power : Value K → Value K → Value K

def parallelValue (values : List (Value K)) : Value K :=
  if some 0 ∈ values then none
  else (values.mapM id).map fun operands => ((operands.map (·⁻¹)).sum)⁻¹

def Factor.value : Factor → Value K → Value K → Value K
  | .times => Value.mul
  | .over => Value.truediv

def Sign.value : Sign → Value K → Value K → Value K
  | .plus => Value.add
  | .minus => Value.sub

mutual

def Expr.value (meaning : Meaning K) : Expr → Value K
  | .number sign literal => some ((sign.getD .plus).apply literal.value)
  | .variable name => meaning.ofVariable name.name
  | .call name argument => meaning.ofFunction name.name (argument.value meaning)
  | .power base exponent => meaning.power (base.value meaning) (exponent.value meaning)
  | .parallel operands => parallelValue (operands.values meaning)
  | .product left op right => op.value (left.value meaning) (right.value meaning)
  | .sum left op right => op.value (left.value meaning) (right.value meaning)
  | .signed sign argument => (argument.value meaning).map sign.apply

def Operands.values (meaning : Meaning K) : Operands → List (Value K)
  | .pair first second => [first.value meaning, second.value meaning]
  | .more operands last => operands.values meaning ++ [last.value meaning]

end

end

end EdxPlatform.Calc
