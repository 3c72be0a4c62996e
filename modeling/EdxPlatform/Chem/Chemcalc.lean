import Mathlib.Algebra.Order.Ring.Rat
import Mathlib.Data.Prod.Lex
import Mathlib.Data.String.Basic
import EdxPlatform.Lib.Python
import EdxPlatform.Chem.Grammar

/-!
# Comparing chemical equations

The parse tree of an expression is flattened and cleaned; what is compared are the groups, the counts and the phases
that are found in it.
-/

namespace EdxPlatform.Chem

namespace Tree

theorem nodesAll_append (trees others : List Tree) :
    nodesAll (trees ++ others) = nodesAll trees + nodesAll others := by
  induction trees with
  | nil => rw [List.nil_append, nodesAll, Nat.zero_add]
  | cons tree trees ih => rw [List.cons_append, nodesAll, nodesAll, ih, Nat.add_assoc]

theorem nodes_le_of_mem {tree : Tree} {trees : List Tree} (hmem : tree ∈ trees) : tree.nodes ≤ nodesAll trees := by
  induction trees with
  | nil => cases hmem
  | cons first trees ih =>
    rw [nodesAll]
    rcases List.mem_cons.mp hmem with rfl | hmem
    · exact Nat.le_add_right _ _
    · exact (ih hmem).trans (Nat.le_add_left _ _)

theorem nodesAll_children_le (tree : Tree) : nodesAll tree.children ≤ tree.nodes := by
  cases tree with
  | leaf text => exact Nat.le_refl 0
  | node label children => exact Nat.le_add_left _ _

theorem nodes_child_le (tree : Tree) (index : Nat) : (tree.child index).nodes ≤ nodesAll tree.children := by
  rw [child, List.getD_eq_getElem?_getD]
  cases hfnd : tree.children[index]? with
  | none => exact Nat.zero_le _
  | some found => exact nodes_le_of_mem (List.mem_of_getElem? hfnd)

theorem nodesAll_drop_le (trees : List Tree) (count : Nat) : nodesAll (trees.drop count) ≤ nodesAll trees := by
  have hspl := nodesAll_append (trees.take count) (trees.drop count)
  rw [List.take_append_drop] at hspl
  rw [hspl]
  exact Nat.le_add_left _ _

end Tree

def isMerged (tags : List String) (label : String) (child : Tree) : Bool :=
  match child with
  | .leaf _ => false
  | .node other _ => other = label && label ∈ tags

section

variable (tags : List String) (label : String) (children : List Tree)

def spliceChildren : List Tree :=
  children.flatMap fun child => if isMerged tags label child then child.children else [child]

theorem nodesAll_spliceChildren : Tree.nodesAll (spliceChildren tags label children) +
      children.countP (isMerged tags label) = Tree.nodesAll children := by
  induction children with
  | nil => rfl
  | cons child children ih =>
    rw [spliceChildren, List.flatMap_cons, Tree.nodesAll_append, Tree.nodesAll, ← ih, List.countP_cons,
      ← spliceChildren]
    split_ifs with hmgd
    · cases child with
      | leaf text => cases hmgd
      | node other below =>
        rw [Tree.children, Tree.nodes]
        omega
    · rw [Tree.nodesAll, Tree.nodesAll]
      omega

/-- The loop of `_merge_children`. -/
def mergeLevel (tags : List String) (label : String) (children : List Tree) : List Tree :=
  if children.any (isMerged tags label) then mergeLevel tags label (spliceChildren tags label children)
  else children
termination_by Tree.nodesAll children
decreasing_by
  rename_i hany
  have hpos : 0 < children.countP (isMerged tags label) := by
    rw [List.countP_pos_iff]
    simpa using hany
  have hnodes := nodesAll_spliceChildren tags label children
  omega

theorem nodesAll_mergeLevel_le : Tree.nodesAll (mergeLevel tags label children) ≤ Tree.nodesAll children := by
  induction children using mergeLevel.induct tags label with
  | case1 children hany ih =>
    rw [mergeLevel, if_pos hany]
    have hnodes := nodesAll_spliceChildren tags label children
    omega
  | case2 children hany => rw [mergeLevel, if_neg hany]

/-- `_merge_children` -/
def mergeChildren (tags : List String) : Tree → Tree
  | .leaf text => .leaf text
  | .node label children =>
    .node label ((mergeLevel tags label children).attach.map fun child => mergeChildren tags child.val)
termination_by tree => tree.nodes
decreasing_by
  have hle := (Tree.nodes_le_of_mem child.property).trans (nodesAll_mergeLevel_le tags label children)
  rw [Tree.nodes]
  omega

theorem mergeChildren_node : mergeChildren tags (.node label children) =
      .node label ((mergeLevel tags label children).map (mergeChildren tags)) := by
  rw [mergeChildren, List.attach_map_val]

end

/-! ## Cleaning -/

/-- `unparse_number` -/
def unparseNumber : Tree → String
  | .node _ [digit] => digit.text
  | .node _ (digit :: rest :: _) => digit.text ++ unparseNumber rest
  | _ => ""

/-- `ion_suffix` of what follows the caret: a number that begins with `1` is left out. -/
def withoutOne (rest : List Tree) : List Tree :=
  match rest with
  | [] => []
  | first :: others => if first.label = "number" ∧ (first.child 0).text = "1" then others else first :: others

/-- The labels that `dispatch` has. -/
def dispatched : List String :=
  ["number", "unphased", "unsuffixed", "number_suffix", "suffixed", "ion_suffix", "paren_group_square",
    "paren_group_round"]

section

variable (tree : Tree)

/-- `dispatch[tree.node](tree)` -/
def dispatch : Tree :=
  if tree.label = "number" then .node "number" [.leaf (unparseNumber tree)]
  else if tree.label = "unphased" ∨ tree.label = "unsuffixed" then tree.child 0
  else if tree.label = "number_suffix" then .node "number_suffix" [.leaf (unparseNumber (tree.child 0))]
  else if tree.label = "suffixed" then if tree.children.length > 1 then tree else tree.child 0
  else if tree.label = "ion_suffix" then .node tree.label (withoutOne (tree.children.drop 1))
  else .node tree.label (tree.child 1).children

theorem nodesAll_withoutOne_le (trees : List Tree) : Tree.nodesAll (withoutOne trees) ≤ Tree.nodesAll trees := by
  cases trees with
  | nil => exact Nat.le_refl _
  | cons first others =>
    rw [withoutOne]
    split_ifs
    · exact Nat.le_add_left _ _
    · exact Nat.le_refl _

theorem dispatch_cases (label : String) (children : List Tree) :
    (dispatch (.node label children)).nodes ≤ Tree.nodesAll children ∨
      (dispatch (.node label children)).label = label ∧
        (dispatch (.node label children)).nodes ≤ 1 + Tree.nodesAll children := by
  have hch (index : Nat) : ((Tree.node label children).child index).nodes ≤ Tree.nodesAll children :=
    Tree.nodes_child_le (.node label children) index
  rw [dispatch]
  split_ifs with hnum hnull hsuf hsuff hlen hion
  · exact .inr ⟨hnum.symm, by simp [Tree.nodes, Tree.nodesAll]⟩
  · exact .inl (hch 0)
  · exact .inr ⟨hsuf.symm, by simp [Tree.nodes, Tree.nodesAll]⟩
  · exact .inr ⟨rfl, Nat.le_refl _⟩
  · exact .inl (hch 0)
  · refine .inr ⟨rfl, Nat.add_le_add_left ?_ 1⟩
    exact (nodesAll_withoutOne_le _).trans (Tree.nodesAll_drop_le _ _)
  · refine .inr ⟨rfl, Nat.add_le_add_left ?_ 1⟩
    exact (Tree.nodesAll_children_le _).trans (hch 1)

/-- `_clean_parse_tree` of a node, after nodes of the label `old` have been processed. -/
def cleanFrom (old : Option String) : Tree → Tree
  | .leaf text => .leaf text
  | .node label children =>
    if label ∈ dispatched ∧ some label ≠ old then cleanFrom (some label) (dispatch (.node label children))
    else .node label (children.attach.map fun child => cleanFrom none child.val)
termination_by tree => (tree.nodes, if some tree.label = old then 0 else 1)
decreasing_by
  · rename_i hlabel
    rw [Prod.lex_def, Tree.nodes]
    rcases dispatch_cases label children with hle | ⟨hsame, hle⟩
    · exact .inl (by dsimp only; omega)
    · rcases Nat.lt_or_eq_of_le hle with hlt | heq
      · exact .inl hlt
      · refine .inr ⟨heq, ?_⟩
        rw [if_pos (congrArg some hsame), Tree.label, if_neg hlabel.2]
        exact Nat.zero_lt_one
  · rw [Prod.lex_def, Tree.nodes]
    have hle := Tree.nodes_le_of_mem child.property
    exact .inl (by dsimp only; omega)

theorem cleanFrom_node (old : Option String) (label : String) (children : List Tree) :
    cleanFrom old (.node label children) =
      if label ∈ dispatched ∧ some label ≠ old then cleanFrom (some label) (dispatch (.node label children))
      else .node label (children.map (cleanFrom none)) := by
  rw [cleanFrom, List.attach_map_val]

/-- `_clean_parse_tree` -/
def cleanParseTree : Tree := cleanFrom none tree

def mergedTags : List String := ["S", "group"]

inductive ChemError where
  | parseException
  | valueError
  | zeroDivisionError
  deriving DecidableEq

/-- `_get_final_tree`; the parser refuses words with a token that the grammar does not have. -/
def getFinalTree (parser : ChartParser) (text : String) : Except ChemError Tree :=
  match tokenize text with
  | none => .error .parseException
  | some tokens =>
    if tokens.all (· ∈ terminals) then
      match parser.parse tokens with
      | none => .error .parseException
      | some parsed => .ok (cleanParseTree (mergeChildren mergedTags parsed.toTree))
    else .error .valueError

/-! ## Dividing expressions -/

/-- What is compared of a molecule with its count: the groups, the factor and the phase. -/
abbrev Entry := Tree × Rat × String

/-- `int(text)` of digits. -/
def intOf (text : String) : Nat := text.toList.foldl (fun value digit => 10 * value + (digit.toNat - '0'.toNat)) 0

def subtreesOf (label : String) (tree : Tree) : List Tree := tree.subtrees.filter fun found => found.label = label

def factorOf (count : Tree) : Except ChemError Rat :=
  if count.children.length > 1 then
    if intOf (count.child 2).text = 0 then .error .zeroDivisionError
    else .ok (intOf (count.child 0).text / intOf (count.child 2).text)
  else .ok (intOf (count.child 0).text)

/-- The factor that is found in a `multimolecule`. -/
def factorIn : Except ChemError Rat :=
  match subtreesOf "count" tree with
  | [] => .ok 1
  | count :: _ => factorOf count

/-- The phase that is found in a `multimolecule`. -/
def phaseIn : String :=
  match subtreesOf "phase" tree with
  | [] => " "
  | phase :: _ => phase.text

/-- The entry of a `multimolecule`. -/
def entryOf : Except ChemError Entry := do
  let factor ← factorIn tree
  return (.node "multimolecule" [.node "molecule" (subtreesOf "group" tree)], factor, phaseIn tree)

def entries : Except ChemError (List Entry) := (subtreesOf "multimolecule" tree).mapM entryOf

end

/-- The quotient of the first factors, where all have it; none for `False`. -/
def divideFactors (factors others : List Rat) : Except ChemError (Option Rat) :=
  match factors, others with
  | factor :: _, other :: _ =>
    if (factors.zip others).any (·.2 = 0) then .error .zeroDivisionError
    else if (factors.zip others).any fun pair => pair.1 / pair.2 - factor / other ≠ 0 then .ok none
    else .ok (some (factor / other))
  | _, _ => .ok none

variable [LinearOrder Tree]

section Sorted

def entryKey (entry : Entry) : Tree ×ₗ Rat ×ₗ String := toLex (entry.1, toLex entry.2)

/-- `_check_equality` -/
def checkEquality (trees others : List Tree) : Bool := sortedBy id trees = sortedBy id others

/-- The end of `divide_chemical_expression`, for sorted entries; none for `False`. -/
def divideEntries (first second : List Entry) (ignoreState : Bool) : Except ChemError (Option Rat) :=
  if !checkEquality (first.map (·.1)) (second.map (·.1)) then .ok none
  else if !ignoreState && first.map (·.2.2) ≠ second.map (·.2.2) then .ok none
  else divideFactors (first.map (·.2.1)) (second.map (·.2.1))

section

variable (parser : ChartParser) (text other : String) (ignoreState : Bool)

/-- `divide_chemical_expression` -/
def divideChemicalExpression :
    Except ChemError (Option Rat) := do
  let tree ← getFinalTree parser text
  let otherTree ← getFinalTree parser other
  let first ← entries tree
  let second ← entries otherTree
  divideEntries (sortedBy entryKey first) (sortedBy entryKey second) ignoreState

/-- `compare_chemical_expression` -/
def compareChemicalExpression :
    Except ChemError Bool := do
  let factor ← divideChemicalExpression parser text other ignoreState
  return factor = some 1

end

end Sorted

/-- `partition` at the first place of a separator that is not empty. -/
def partition (separator : List Char) : List Char → Option (List Char × List Char)
  | [] => none
  | char :: rest =>
    if separator.isPrefixOf (char :: rest) then some ([], (char :: rest).drop separator.length)
    else (partition separator rest).map fun parts => (char :: parts.1, parts.2)

def arrows : List String := ["<->", "->"]

/-- `split_on_arrow` -/
def splitOnArrow (equation : String) : String × String × String :=
  match arrows.findSome? fun arrow => (partition arrow.toList equation.toList).map fun parts => (arrow, parts) with
  | some (arrow, left, right) => (String.ofList left, arrow, String.ofList right)
  | none => (equation, "", "")

def isFalse (factor : Option Rat) : Bool := factor = none || factor = some 0

section Sorted

/-- The `try` block of `chemical_equations_equal`. -/
def sidesEqual (parser : ChartParser) (left right otherLeft otherRight : String) (exact : Bool) :
    Except ChemError Bool := do
  let factorLeft ← divideChemicalExpression parser left otherLeft false
  if isFalse factorLeft then return false
  let factorRight ← divideChemicalExpression parser right otherRight false
  if isFalse factorRight then return false
  if factorLeft ≠ factorRight then return false
  return !(exact && factorLeft ≠ some 1)

/-- `chemical_equations_equal` -/
def chemicalEquationsEqual (parser : ChartParser) (equation other : String) (exact : Bool) : Except ChemError Bool :=
  let (left, arrow, right) := splitOnArrow equation
  let (otherLeft, otherArrow, otherRight) := splitOnArrow other
  if arrow = "" ∨ otherArrow = "" then .ok false
  else if arrow ≠ otherArrow then .ok false
  else
    match sidesEqual parser left right otherLeft otherRight exact with
    | .error .parseException => .ok false
    | result => result

end Sorted

end EdxPlatform.Chem
