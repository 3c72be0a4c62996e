import Mathlib.Data.List.Defs

/-!
# The grammar of chemical expressions

The tokens, the grammar as the type of its parse trees with one constructor for each production, and the labelled
trees that the parser gives.  Some words have two parse trees: a molecule that is one group in brackets may be a group
with one member or the brackets themselves.
-/

namespace EdxPlatform.Chem

/-! ## Tokens -/

def elements : List String :=
  ["Ac", "Ag", "Al", "Am", "Ar", "As", "At", "Au", "B", "Ba", "Be",
    "Bh", "Bi", "Bk", "Br", "C", "Ca", "Cd", "Ce", "Cf", "Cl", "Cm",
    "Cn", "Co", "Cr", "Cs", "Cu", "Db", "Ds", "Dy", "Er", "Es", "Eu",
    "F", "Fe", "Fl", "Fm", "Fr", "Ga", "Gd", "Ge", "H", "He", "Hf",
    "Hg", "Ho", "Hs", "I", "In", "Ir", "K", "Kr", "La", "Li", "Lr",
    "Lu", "Lv", "Md", "Mg", "Mn", "Mo", "Mt", "N", "Na", "Nb", "Nd",
    "Ne", "Ni", "No", "Np", "O", "Os", "P", "Pa", "Pb", "Pd", "Pm",
    "Po", "Pr", "Pt", "Pu", "Ra", "Rb", "Re", "Rf", "Rg", "Rh", "Rn",
    "Ru", "S", "Sb", "Sc", "Se", "Sg", "Si", "Sm", "Sn", "Sr", "Ta",
    "Tb", "Tc", "Te", "Th", "Ti", "Tl", "Tm", "U", "Uuo", "Uup",
    "Uus", "Uut", "V", "W", "Xe", "Y", "Yb", "Zn", "Zr"]

def digits : List String := ["0", "1", "2", "3", "4", "5", "6", "7", "8", "9"]

def symbols : List String := ["[", "]", "(", ")", "\x7b", "\x7d", "^", "+", "-", "/"]

def phases : List String := ["(s)", "(l)", "(g)", "(aq)"]

def whitespace : List Char := [' ', '\n', '\t', '\r']

def longestToken (chars : List Char) : Option String :=
  ((elements ++ digits ++ symbols ++ phases).filter fun token => token.toList.isPrefixOf chars).foldl
    (fun best token =>
      match best with
      | none => some token
      | some found => if found.length < token.length then some token else some found) none

/-- The tokens of the characters after those that belong to the last token. -/
def tokensFrom : Nat → List Char → Option (List String)
  | _, [] => some []
  | skipped + 1, _ :: rest => tokensFrom skipped rest
  | 0, char :: rest =>
    if char ∈ whitespace then tokensFrom 0 rest
    else
      match longestToken (char :: rest) with
      | none => none
      | some token => (tokensFrom (token.length - 1) rest).map (token :: ·)

/-- `tokenizer.parseString`, or none for a `ParseException`. -/
def tokenize (text : String) : Option (List String) :=
  match tokensFrom 0 text.toList with
  | some (token :: tokens) => some (token :: tokens)
  | _ => none

def terminals : List String := elements ++ digits ++ phases ++ ["+", "-", "/", "(", ")", "[", "]", "^"]

/-! ## Labelled trees -/

/-- A tree of the parser; a leaf is a string. -/
inductive Tree where
  | leaf (text : String)
  | node (label : String) (children : List Tree)

namespace Tree

def label : Tree → String
  | .leaf _ => ""
  | .node label _ => label

def children : Tree → List Tree
  | .leaf _ => []
  | .node _ children => children

/-- `tree[index]` -/
def child (tree : Tree) (index : Nat) : Tree := tree.children.getD index (.leaf "")

/-- `tree[0]` where that is a string. -/
def text : Tree → String
  | .node _ (.leaf text :: _) => text
  | _ => ""

mutual

def leaves : Tree → List String
  | .leaf text => [text]
  | .node _ children => leavesAll children

def leavesAll : List Tree → List String
  | [] => []
  | tree :: trees => tree.leaves ++ leavesAll trees

end

mutual

def subtrees : Tree → List Tree
  | .leaf _ => []
  | .node label children => .node label children :: subtreesAll children

def subtreesAll : List Tree → List Tree
  | [] => []
  | tree :: trees => tree.subtrees ++ subtreesAll trees

end

mutual

def nodes : Tree → Nat
  | .leaf _ => 0
  | .node _ children => 1 + nodesAll children

def nodesAll : List Tree → Nat
  | [] => 0
  | tree :: trees => tree.nodes + nodesAll trees

end

end Tree

inductive Nonterminal where
  | S
  | multimolecule
  | count
  | molecule
  | unphased
  | element
  | digit
  | phase
  | number
  | group
  | parenGroupRound
  | parenGroupSquare
  | plusMinus
  | numberSuffix
  | ionSuffix
  | suffix
  | unsuffixed
  | suffixed

/-- The parse trees of a nonterminal, by its productions. -/
inductive Parse : Nonterminal → Type where
  | last (first : Parse .multimolecule) : Parse .S
  | more (first : Parse .multimolecule) (rest : Parse .S) : Parse .S
  | counted (count : Parse .count) (molecule : Parse .molecule) : Parse .multimolecule
  | uncounted (molecule : Parse .molecule) : Parse .multimolecule
  | whole (number : Parse .number) : Parse .count
  | fraction (numerator denominator : Parse .number) : Parse .count
  | unphased (molecule : Parse .unphased) : Parse .molecule
  | phased (molecule : Parse .unphased) (phase : Parse .phase) : Parse .molecule
  | ofGroup (group : Parse .group) : Parse .unphased
  | ofRound (group : Parse .parenGroupRound) : Parse .unphased
  | ofSquare (group : Parse .parenGroupSquare) : Parse .unphased
  | element (text : String) (hmem : text ∈ elements) : Parse .element
  | digit (text : String) (hmem : text ∈ digits) : Parse .digit
  | phase (text : String) (hmem : text ∈ phases) : Parse .phase
  | lastDigit (digit : Parse .digit) : Parse .number
  | moreDigits (digit : Parse .digit) (rest : Parse .number) : Parse .number
  | lastMember (member : Parse .suffixed) : Parse .group
  | moreMembers (member : Parse .suffixed) (rest : Parse .group) : Parse .group
  | round (group : Parse .group) : Parse .parenGroupRound
  | square (group : Parse .group) : Parse .parenGroupSquare
  | plus : Parse .plusMinus
  | minus : Parse .plusMinus
  | subscript (number : Parse .number) : Parse .numberSuffix
  | charge (number : Parse .number) (sign : Parse .plusMinus) : Parse .ionSuffix
  | sign (sign : Parse .plusMinus) : Parse .ionSuffix
  | ofNumber (number : Parse .numberSuffix) : Parse .suffix
  | ofBoth (number : Parse .numberSuffix) (ion : Parse .ionSuffix) : Parse .suffix
  | ofIon (ion : Parse .ionSuffix) : Parse .suffix
  | baseElement (element : Parse .element) : Parse .unsuffixed
  | baseRound (group : Parse .parenGroupRound) : Parse .unsuffixed
  | baseSquare (group : Parse .parenGroupSquare) : Parse .unsuffixed
  | base (base : Parse .unsuffixed) : Parse .suffixed
  | suffixed (base : Parse .unsuffixed) (suffix : Parse .suffix) : Parse .suffixed

def Parse.toTree : {nonterminal : Nonterminal} → Parse nonterminal → Tree
  | _, .last first => .node "S" [first.toTree]
  | _, .more first second => .node "S" [first.toTree, .leaf "+", second.toTree]
  | _, .counted first second => .node "multimolecule" [first.toTree, second.toTree]
  | _, .uncounted first => .node "multimolecule" [first.toTree]
  | _, .whole first => .node "count" [first.toTree]
  | _, .fraction first second => .node "count" [first.toTree, .leaf "/", second.toTree]
  | _, .unphased first => .node "molecule" [first.toTree]
  | _, .phased first second => .node "molecule" [first.toTree, second.toTree]
  | _, .ofGroup first => .node "unphased" [first.toTree]
  | _, .ofRound first => .node "unphased" [first.toTree]
  | _, .ofSquare first => .node "unphased" [first.toTree]
  | _, .element text _ => .node "element" [.leaf text]
  | _, .digit text _ => .node "digit" [.leaf text]
  | _, .phase text _ => .node "phase" [.leaf text]
  | _, .lastDigit first => .node "number" [first.toTree]
  | _, .moreDigits first second => .node "number" [first.toTree, second.toTree]
  | _, .lastMember first => .node "group" [first.toTree]
  | _, .moreMembers first second => .node "group" [first.toTree, second.toTree]
  | _, .round first => .node "paren_group_round" [.leaf "(", first.toTree, .leaf ")"]
  | _, .square first => .node "paren_group_square" [.leaf "[", first.toTree, .leaf "]"]
  | _, .plus => .node "plus_minus" [.leaf "+"]
  | _, .minus => .node "plus_minus" [.leaf "-"]
  | _, .subscript first => .node "number_suffix" [first.toTree]
  | _, .charge first second => .node "ion_suffix" [.leaf "^", first.toTree, second.toTree]
  | _, .sign first => .node "ion_suffix" [.leaf "^", first.toTree]
  | _, .ofNumber first => .node "suffix" [first.toTree]
  | _, .ofBoth first second => .node "suffix" [first.toTree, second.toTree]
  | _, .ofIon first => .node "suffix" [first.toTree]
  | _, .baseElement first => .node "unsuffixed" [first.toTree]
  | _, .baseRound first => .node "unsuffixed" [first.toTree]
  | _, .baseSquare first => .node "unsuffixed" [first.toTree]
  | _, .base first => .node "suffixed" [first.toTree]
  | _, .suffixed first second => .node "suffixed" [first.toTree, second.toTree]

/-- A chart parser for the grammar: it finds one of the parse trees of a word that has any. -/
structure ChartParser where
  parse : List String → Option (Parse .S)
  leaves_eq : ∀ tokens parsed, parse tokens = some parsed → parsed.toTree.leaves = tokens
  finds : ∀ parsed : Parse .S, (parse parsed.toTree.leaves).isSome

end EdxPlatform.Chem
