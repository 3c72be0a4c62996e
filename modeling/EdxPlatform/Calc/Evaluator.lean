import Mathlib.Algebra.Field.Basic
import Mathlib.Algebra.BigOperators.Group.List.Basic
import Mathlib.Data.Option.NAry
import Mathlib.Data.String.Basic
import EdxPlatform.Lib.Dict
import EdxPlatform.Lib.OrderedChoice

/-!
# The calculator of formula and numerical responses

The grammar and the actions of `calc.py`.  Floats are a field `K` and a value that is no number;
what numpy and scipy define is a parameter, as is the order in which a dictionary is iterated.
-/

namespace EdxPlatform.Calc

open OrderedChoice

abbrev Name := List Char

inductive NodeName where
  | number
  | variable
  | function
  | atom
  | power
  | parallel
  | product
  | sum
  deriving DecidableEq, Repr

/-- What the parse actions store in `variables_used` and `functions_used`. -/
inductive Used where
  | variable (name : Name)
  | function (name : Name)
  deriving DecidableEq, Repr

abbrev Tree := ParseTree NodeName
abbrev Rule := Parser NodeName Used

/-! ## `parse_algebra` -/

/-- `SUFFIXES`, with the powers of ten they stand for. -/
def suffixes : List (Char × ℤ) :=
  [('%', -2), ('k', 3), ('M', 6), ('G', 9), ('T', 12), ('c', -2), ('m', -3), ('u', -6), ('n', -9), ('p', -12)]

def numberPart : Rule := word Char.isDigit Char.isDigit

def innerNumber : Rule :=
  combine (orElse (andThen numberPart (optional (andThen (exactly ['.']) (optional numberPart))))
    (andThen (exactly ['.']) numberPart))

def numberSuffix : Rule := matchFirst (suffixes.map fun suffix => literal [suffix.1])

def plusMinus : Rule := orElse (literal ['+']) (literal ['-'])

def exponentPart : Rule := andThen (lexeme (caseless 'E')) (andThen (optional plusMinus) (lexeme numberPart))

def number : Rule :=
  group .number (andThen (optional plusMinus)
    (andThen innerNumber (andThen (optional exponentPart) (optional numberSuffix))))

def isInitial (c : Char) : Bool := c.isAlpha || c = '_'

def isNameChar (c : Char) : Bool := c.isAlphanum || c = '_'

def innerVarname : Rule := lexeme (word isInitial isNameChar)

/-- `tokens[0][0]` -/
def tokenName : List Tree → List Name
  | .node _ (.token name :: _) :: _ => [name]
  | _ => []

def varname : Rule := recording (fun tokens => (tokenName tokens).map .variable) (group .variable innerVarname)

def function (expr : Rule) : Rule :=
  recording (fun tokens => (tokenName tokens).map .function) (group .function (andThen innerVarname
      (andThen (suppress (literal ['('])) (andThen expr (suppress (literal [')']))))))

def atom (expr : Rule) : Rule :=
  group .atom (orElse number (orElse (function expr) (orElse varname
    (andThen (literal ['(']) (andThen expr (literal [')']))))))

def powTerm (expr : Rule) : Rule :=
  group .power (andThen (atom expr) (zeroOrMore (andThen (literal ['^']) (atom expr))))

def parTerm (expr : Rule) : Rule :=
  group .parallel (andThen (powTerm expr) (zeroOrMore (andThen (literal ['|', '|']) (powTerm expr))))

def timesDivide : Rule := orElse (literal ['*']) (literal ['/'])

def prodTerm (expr : Rule) : Rule :=
  group .product (andThen (parTerm expr) (zeroOrMore (andThen timesDivide (parTerm expr))))

def sumTerm (expr : Rule) : Rule :=
  group .sum (andThen (optional plusMinus) (andThen (prodTerm expr) (zeroOrMore (andThen plusMinus (prodTerm expr)))))

/-- `expr << sum_term`, down to a depth of parentheses. -/
def expr : Nat → Rule
  | 0 => fail
  | depth + 1 => sumTerm (expr depth)

/-- The tree of a text that is an expression to its end; no text has more parentheses than
characters. -/
def parseAlgebra (mathExpr : List Char) : Option (Tree × List Used) :=
  match expr (mathExpr.length + 1) mathExpr with
  | ⟨some (tree :: _, rest), used⟩ => if rest.all isBlank then some (tree, used) else none
  | _ => none

/-! ## Evaluation actions -/

/-- A float: `none` is NaN. -/
abbrev Value (K : Type) := Option K

/-- A processed child node: a string, or a number. -/
inductive Handled (K : Type) where
  | text (text : List Char)
  | number (value : Value K)
  deriving DecidableEq

variable {K : Type} [Field K]

namespace Handled

def text? : Handled K → Option (List Char)
  | .text value => some value
  | .number _ => none

def number? : Handled K → Option (Value K)
  | .text _ => none
  | .number value => some value

end Handled

inductive Sign where
  | plus
  | minus
  deriving DecidableEq, Repr

def splitSign : List Char → Sign × List Char
  | '+' :: rest => (.plus, rest)
  | '-' :: rest => (.minus, rest)
  | rest => (.plus, rest)

def digitsValue (digits : List Char) : Nat :=
  digits.foldl (fun value digit => 10 * value + (digit.toNat - '0'.toNat)) 0

/-- The number `whole.fraction × 10 ^ exponent`. -/
def decimal (whole fraction : List Char) (exponent : ℤ) : K :=
  (digitsValue whole + digitsValue fraction / 10 ^ fraction.length) * 10 ^ exponent

def Sign.apply (sign : Sign) (value : K) : K :=
  match sign with
  | .plus => value
  | .minus => -value

def isExponentMark (c : Char) : Bool := c = 'e' || c = 'E'

def readExponent : List Char → Option ℤ
  | [] => some 0
  | _ :: text =>
    let (sign, digits) := splitSign text
    if digits ≠ [] ∧ digits.all Char.isDigit then
      some (match sign with
        | .plus => digitsValue digits
        | .minus => -digitsValue digits)
    else none

/-- `float(text)` on decimal numerals. -/
def readFloat (text : List Char) : Option K :=
  let (sign, body) := splitSign text
  let mantissa := body.takeWhile fun c => !isExponentMark c
  let whole := mantissa.takeWhile Char.isDigit
  let fraction := (mantissa.dropWhile Char.isDigit).drop 1
  if (mantissa.dropWhile Char.isDigit).head?.all (· = '.') ∧ fraction.all Char.isDigit ∧ whole ++ fraction ≠ [] then
    (readExponent (body.dropWhile fun c => !isExponentMark c)).map fun exponent =>
      sign.apply (decimal whole fraction exponent)
  else none

def superFloat (text : List Char) : Option K :=
  match text.getLast? with
  | none => none
  | some last =>
    match suffixes.lookup last with
    | some exponent => (readFloat text.dropLast).map (· * 10 ^ exponent)
    | none => readFloat text

section

variable (parseResult : List (Handled K))

def evalNumber : Option (Handled K) :=
  (parseResult.mapM Handled.text?).bind fun texts => (superFloat texts.flatten).map fun value => .number (some value)

def evalAtom : Option (Handled K) := (parseResult.findSome? Handled.number?).map .number

/-- `reduce` of the reversed list. -/
def powers (power : Value K → Value K → Value K) : List (Value K) → Option (Value K)
  | [] => none
  | [value] => some value
  | base :: exponents => (powers power exponents).map (power base)

def evalPower (power : Value K → Value K → Value K) (parseResult : List (Handled K)) : Option (Handled K) :=
  (powers power (parseResult.filterMap Handled.number?)).map .number

def Value.add : Value K → Value K → Value K := Option.map₂ (· + ·)

def Value.sub : Value K → Value K → Value K := Option.map₂ (· - ·)

def Value.mul : Value K → Value K → Value K := Option.map₂ (· * ·)

def Value.truediv : Value K → Value K → Value K := Option.map₂ (· / ·)

def evalParallel [DecidableEq K] (parseResult : List (Handled K)) : Option (Handled K) :=
  if parseResult.length = 1 then parseResult.head?
  else if .number (some 0) ∈ parseResult then some (.number none)
  else
    let reciprocals := (parseResult.filterMap Handled.number?).map (Value.truediv (some 1))
    some (.number (Value.truediv (some 1) (reciprocals.foldl Value.add (some 0))))

/-- `total` and `current_op` after a token: another string is no operand. -/
def sumToken (state : Option (Value K × Sign)) (token : Handled K) : Option (Value K × Sign) :=
  state.bind fun (total, currentOp) =>
    match token with
    | .text ['+'] => some (total, .plus)
    | .text ['-'] => some (total, .minus)
    | .text _ => none
    | .number value =>
      match currentOp with
      | .plus => some (total.add value, currentOp)
      | .minus => some (total.sub value, currentOp)

def evalSum : Option (Handled K) :=
  (parseResult.foldl sumToken (some (some 0, .plus))).map fun state => .number state.1

inductive Factor where
  | times
  | over
  deriving DecidableEq, Repr

def productToken (state : Option (Value K × Factor)) (token : Handled K) : Option (Value K × Factor) :=
  state.bind fun (prod, currentOp) =>
    match token with
    | .text ['*'] => some (prod, .times)
    | .text ['/'] => some (prod, .over)
    | .text _ => none
    | .number value =>
      match currentOp with
      | .times => some (prod.mul value, currentOp)
      | .over => some (prod.truediv value, currentOp)

def evalProduct : Option (Handled K) :=
  (parseResult.foldl productToken (some (some 1, .times))).map fun state => .number state.1

end

/-! ## `evaluator` -/

/-- What `strip` takes off a byte string. -/
def isSpace (c : Char) : Bool := isBlank c || c = '\x0b' || c = '\x0c'

/-- What numpy, scipy, `math` and the module `functions` define, and `**`. -/
structure Library (K : Type) where
  constant : String → Value K
  function : String → Value K → Value K
  power : Value K → Value K → Value K

def lower (name : Name) : Name := name.map Char.toLower

/-- The order in which a dictionary is iterated. -/
structure Iteration where
  items : ∀ {ν : Type}, Dict Name ν → List (Name × ν)
  perm : ∀ {ν : Type} (dict : Dict Name ν), (items dict).Perm (dict.entries.map fun entry => (entry.1, entry.2))

def lowerDict {ν : Type} (order : Iteration) (inputDict : Dict Name ν) : Dict Name ν :=
  Dict.ofList ((order.items inputDict).map fun item => (lower item.1, item.2))

inductive Failure where
  | parseException
  /-- With all bad variables. -/
  | undefinedVariable (message : List Char)
  /-- Any error of an action whose parts do not fit. -/
  | unhandled
  deriving DecidableEq

section

variable [DecidableEq K]

def defaultFunctions (library : Library K) : Dict Name (Value K → Value K) :=
  Dict.ofList ([("sin", "numpy.sin"), ("cos", "numpy.cos"), ("tan", "numpy.tan"), ("sec", "functions.sec"),
    ("csc", "functions.csc"),
    ("cot", "functions.cot"),
    ("sqrt", "numpy.sqrt"),
    ("log10", "numpy.log10"),
    ("log2", "numpy.log2"),
    ("ln", "numpy.log"),
    ("exp", "numpy.exp"),
    ("arccos", "numpy.arccos"),
    ("arcsin", "numpy.arcsin"),
    ("arctan", "numpy.arctan"),
    ("arcsec", "functions.arcsec"),
    ("arccsc", "functions.arccsc"),
    ("arccot", "functions.arccot"),
    ("abs", "numpy.abs"),
    ("fact", "math.factorial"),
    ("factorial", "math.factorial"),
    ("sinh", "numpy.sinh"),
    ("cosh", "numpy.cosh"),
    ("tanh", "numpy.tanh"),
    ("sech", "functions.sech"),
    ("csch", "functions.csch"),
    ("coth", "functions.coth"),
    ("arcsinh", "numpy.arcsinh"),
    ("arccosh", "numpy.arccosh"),
    ("arctanh", "numpy.arctanh"),
    ("arcsech", "functions.arcsech"),
    ("arccsch", "functions.arccsch"),
    ("arccoth", "functions.arccoth")].map fun entry => (entry.1.toList, library.function entry.2))

def defaultVariables (library : Library K) : Dict Name (Value K) :=
  Dict.ofList ([("i", library.constant "numpy.complex(0, 1)"), ("j", library.constant "numpy.complex(0, 1)"),
    ("e", library.constant "numpy.e"),
    ("pi", library.constant "numpy.pi"),
    ("k", library.constant "scipy.constants.k"),
    ("c", library.constant "scipy.constants.c"),
    ("T", some (decimal "298".toList "15".toList 0)),
    ("q", library.constant "scipy.constants.e")].map fun entry => (entry.1.toList, entry.2))

/-- The dictionaries of an evaluation, and how the names of an expression are looked up in them. -/
structure Scope (K : Type) where
  allVariables : Dict Name (Value K)
  allFunctions : Dict Name (Value K → Value K)
  casify : Name → Name

section

variable (library : Library K) (order : Iteration) (userVariables : Dict Name (Value K))
  (userFunctions : Dict Name (Value K → Value K))

def addDefaults (caseSensitive : Bool) : Scope K :=
  let allVariables := (defaultVariables library).update userVariables
  let allFunctions := (defaultFunctions library).update userFunctions
  if caseSensitive then ⟨allVariables, allFunctions, id⟩
  else ⟨lowerDict order allVariables, lowerDict order allFunctions, lower⟩

def Used.name : Used → Name
  | .variable name => name
  | .function name => name

def Scope.isBad (scope : Scope K) : Used → Bool
  | .variable name => decide (scope.casify name ∉ scope.allVariables)
  | .function name => decide (scope.casify name ∉ scope.allFunctions)

/-- `' '.join(sorted(bad_vars))` -/
def badMessage (badVars : List Name) : List Char :=
  [' '].intercalate (badVars.dedup.mergeSort fun name other => decide (name ≤ other))

def Scope.checkVariables (scope : Scope K) (used : List Used) : Except Failure Unit :=
  let badVars := (used.filter scope.isBad).map Used.name
  if badVars = [] then .ok () else .error (.undefinedVariable (badMessage badVars))

def evaluateActions (library : Library K) (scope : Scope K) : NodeName → List (Handled K) → Option (Handled K)
  | .number, x => evalNumber x
  | .variable, x =>
    (x.head?.bind Handled.text?).bind fun name => (scope.allVariables.lookup (scope.casify name)).map .number
  | .function, x =>
    (x.head?.bind Handled.text?).bind fun name =>
      (scope.allFunctions.lookup (scope.casify name)).bind fun apply =>
        (x[1]?.bind Handled.number?).map fun value => .number (apply value)
  | .atom, x => evalAtom x
  | .power, x => evalPower library.power x
  | .parallel, x => evalParallel x
  | .product, x => evalProduct x
  | .sum, x => evalSum x

mutual

def handleNode (actions : NodeName → List (Handled K) → Option (Handled K)) : Tree → Option (Handled K)
  | .token text => some (.text text)
  | .node name kids => (handleNodes actions kids).bind (actions name)

def handleNodes (actions : NodeName → List (Handled K) → Option (Handled K)) : List Tree → Option (List (Handled K))
  | [] => some []
  | kid :: kids => (handleNode actions kid).bind fun handled => (handleNodes actions kids).map (handled :: ·)

end

def reduceTree (library : Library K) (scope : Scope K) (tree : Tree) : Option (Value K) :=
  (handleNode (evaluateActions library scope) tree).bind Handled.number?

def evaluator (mathExpr : List Char) (caseSensitive : Bool) : Except Failure (Value K) :=
  -- No need to go further.
  if mathExpr.all isSpace then .ok none
  else
    match parseAlgebra mathExpr with
    | none => .error .parseException
    | some (tree, used) => do
      let scope := addDefaults library order userVariables userFunctions caseSensitive
      scope.checkVariables used
      match reduceTree library scope tree with
      | none => .error .unhandled
      | some value => .ok value

end

end

end EdxPlatform.Calc
