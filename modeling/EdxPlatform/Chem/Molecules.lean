import EdxPlatform.Chem.FinalTrees

/-!
# Molecules

A molecule is a sequence of elements and brackets, each with its subscript and its charge.  Numbers are compared as
they are written; a charge number may be omitted.
-/

namespace EdxPlatform.Chem

inductive Sign where
  | plus
  | minus
  deriving DecidableEq

structure Charge where
  number : Option String
  sign : Sign
  deriving DecidableEq

structure Suffix where
  subscript : Option String
  charge : Option Charge
  deriving DecidableEq

inductive Bracket where
  | round
  | square
  deriving DecidableEq

inductive Part where
  | element (symbol : String) (suffix : Suffix)
  | bracket (kind : Bracket) (parts : List Part) (suffix : Suffix)

abbrev Molecule := List Part

inductive Phase where
  | solid
  | liquid
  | gas
  | aqueous
  deriving DecidableEq

/-! ## The molecule of a derivation -/

def isOne (text : String) : Bool := text = "1"

/-- A charge number that `ion_suffix` leaves out. -/
def beginsWithOne (text : String) : Bool := text.toList.head? = some '1'

namespace Parse

def signOf : Parse .plusMinus → Sign
  | .plus => .plus
  | .minus => .minus

def state : Parse .phase → Phase
  | .phase text _ =>
    if text = "(s)" then .solid
    else if text = "(l)" then .liquid
    else if text = "(g)" then .gas
    else .aqueous

section Omitted

variable (omits : String → Bool)

def chargeOf : Parse .ionSuffix → Charge
  | .charge number plusMinus => ⟨if omits number.numberText then none else some number.numberText, plusMinus.signOf⟩
  | .sign plusMinus => ⟨none, plusMinus.signOf⟩

def subscriptOf : Parse .numberSuffix → String
  | .subscript number => number.numberText

def suffixOf : Parse .suffix → Suffix
  | .ofNumber number => ⟨some number.subscriptOf, none⟩
  | .ofBoth number ion => ⟨some number.subscriptOf, some (ion.chargeOf omits)⟩
  | .ofIon ion => ⟨none, some (ion.chargeOf omits)⟩

mutual

def parts : Parse .group → Molecule
  | .lastMember member => [member.part]
  | .moreMembers member rest => member.part :: rest.parts

def part : Parse .suffixed → Part
  | .base unsuffixed => unsuffixed.partWith ⟨none, none⟩
  | .suffixed unsuffixed suffix => unsuffixed.partWith (suffix.suffixOf omits)

def partWith (suffix : Suffix) : Parse .unsuffixed → Part
  | .baseElement (.element symbol _) => .element symbol suffix
  | .baseRound (.round group) => .bracket .round group.parts suffix
  | .baseSquare (.square group) => .bracket .square group.parts suffix

end

/-- Brackets on their own are a molecule of one part, however they are derived. -/
def molecule : Parse .unphased → Molecule
  | .ofGroup group => group.parts omits
  | .ofRound (.round group) => [.bracket .round (group.parts omits) ⟨none, none⟩]
  | .ofSquare (.square group) => [.bracket .square (group.parts omits) ⟨none, none⟩]

def ionNumbers : Parse .ionSuffix → List String
  | .charge number _ => [number.numberText]
  | .sign _ => []

def suffixNumbers : Parse .suffix → List String
  | .ofNumber _ => []
  | .ofBoth _ ion => ion.ionNumbers
  | .ofIon ion => ion.ionNumbers

mutual

def chargeNumbers : Parse .group → List String
  | .lastMember member => member.memberNumbers
  | .moreMembers member rest => member.memberNumbers ++ rest.chargeNumbers

def memberNumbers : Parse .suffixed → List String
  | .base unsuffixed => unsuffixed.baseNumbers
  | .suffixed unsuffixed suffix => unsuffixed.baseNumbers ++ suffix.suffixNumbers

def baseNumbers : Parse .unsuffixed → List String
  | .baseElement _ => []
  | .baseRound (.round group) => group.chargeNumbers
  | .baseSquare (.square group) => group.chargeNumbers

end

variable {omits} {others : String → Bool}

theorem chargeOf_congr {ion : Parse .ionSuffix} (hsame : ∀ number ∈ ion.ionNumbers, omits number = others number) :
    ion.chargeOf omits = ion.chargeOf others := by
  cases ion with
  | charge number plusMinus => rw [chargeOf, chargeOf, hsame _ List.mem_cons_self]
  | sign plusMinus => rfl

theorem suffixOf_congr {suffix : Parse .suffix}
    (hsame : ∀ number ∈ suffix.suffixNumbers, omits number = others number) :
    suffix.suffixOf omits = suffix.suffixOf others := by
  cases suffix with
  | ofNumber number => rfl
  | ofBoth number ion => rw [suffixOf, suffixOf, chargeOf_congr hsame]
  | ofIon ion => rw [suffixOf, suffixOf, chargeOf_congr hsame]

mutual

theorem parts_congr : (group : Parse .group) → (∀ number ∈ group.chargeNumbers, omits number = others number) →
    group.parts omits = group.parts others
  | .lastMember member, hsame => by
    rw [chargeNumbers] at hsame
    rw [parts, parts, part_congr member hsame]
  | .moreMembers member rest, hsame => by
    rw [chargeNumbers, List.forall_mem_append] at hsame
    rw [parts, parts, part_congr member hsame.1, parts_congr rest hsame.2]

theorem part_congr : (member : Parse .suffixed) → (∀ number ∈ member.memberNumbers, omits number = others number) →
    member.part omits = member.part others
  | .base unsuffixed, hsame => by
    rw [memberNumbers] at hsame
    rw [part, part, partWith_congr _ unsuffixed hsame]
  | .suffixed unsuffixed suffix, hsame => by
    rw [memberNumbers, List.forall_mem_append] at hsame
    rw [part, part, suffixOf_congr hsame.2, partWith_congr _ unsuffixed hsame.1]

theorem partWith_congr (suffix : Suffix) : (unsuffixed : Parse .unsuffixed) →
    (∀ number ∈ unsuffixed.baseNumbers, omits number = others number) →
    unsuffixed.partWith omits suffix = unsuffixed.partWith others suffix
  | .baseElement (.element symbol _), _ => by
    rw [partWith, partWith]
  | .baseRound (.round group), hsame => by
    rw [baseNumbers] at hsame
    rw [partWith, partWith, parts_congr group hsame]
  | .baseSquare (.square group), hsame => by
    rw [baseNumbers] at hsame
    rw [partWith, partWith, parts_congr group hsame]

end

end Omitted

end Parse

/-! ## The cleaned tree of a molecule -/

def Sign.tree : Sign → Tree
  | .plus => .node "plus_minus" [.leaf "+"]
  | .minus => .node "plus_minus" [.leaf "-"]

def Charge.tree (charge : Charge) : Tree :=
  match charge.number with
  | none => .node "ion_suffix" [charge.sign.tree]
  | some number => .node "ion_suffix" [.node "number" [.leaf number], charge.sign.tree]

def subscriptTree (number : String) : Tree := .node "number_suffix" [.leaf number]

def Suffix.over (suffix : Suffix) (base : Tree) : Tree :=
  match suffix.subscript, suffix.charge with
  | none, none => base
  | some number, none => .node "suffixed" [base, .node "suffix" [subscriptTree number]]
  | some number, some charge => .node "suffixed" [base, .node "suffix" [subscriptTree number, charge.tree]]
  | none, some charge => .node "suffixed" [base, .node "suffix" [charge.tree]]

def Bracket.label : Bracket → String
  | .round => "paren_group_round"
  | .square => "paren_group_square"

mutual

def Part.tree : Part → Tree
  | .element symbol suffix => suffix.over (.node "element" [.leaf symbol])
  | .bracket kind parts suffix => suffix.over (.node kind.label (Part.trees parts))

def Part.trees : Molecule → List Tree
  | [] => []
  | part :: parts => part.tree :: Part.trees parts

end

theorem Sign.tree_inj {sign other : Sign} (htree : sign.tree = other.tree) : sign = other := by
  cases sign <;> cases other <;> simp [Sign.tree] at htree ⊢

theorem Charge.tree_inj {charge other : Charge} (htree : charge.tree = other.tree) : charge = other := by
  obtain ⟨number, sign⟩ := charge
  obtain ⟨otherNumber, otherSign⟩ := other
  cases number with
  | none =>
    cases otherNumber with
    | none =>
      simp only [Charge.tree, Tree.node.injEq, cons.injEq, true_and, and_true] at htree
      rw [Sign.tree_inj htree]
    | some otherNumber => simp [Charge.tree] at htree
  | some number =>
    cases otherNumber with
    | none => simp [Charge.tree] at htree
    | some otherNumber =>
      simp only [Charge.tree, Tree.node.injEq, cons.injEq, Tree.leaf.injEq, true_and, and_true] at htree
      rw [htree.1, Sign.tree_inj htree.2]

theorem subscriptTree_inj {number other : String} (htree : subscriptTree number = subscriptTree other) :
    number = other := by
  simpa [subscriptTree] using htree

theorem subscriptTree_ne_charge (number : String) (charge : Charge) : subscriptTree number ≠ charge.tree := by
  obtain ⟨chargeNumber, sign⟩ := charge
  cases chargeNumber <;> simp [subscriptTree, Charge.tree]

theorem Suffix.over_inj {suffix other : Suffix} {base otherBase : Tree} (hbase : base.label ≠ "suffixed")
    (hoth : otherBase.label ≠ "suffixed") (hover : suffix.over base = other.over otherBase) :
    suffix = other ∧ base = otherBase := by
  obtain ⟨subscript, charge⟩ := suffix
  obtain ⟨otherSubscript, otherCharge⟩ := other
  have hne {below : List Tree} : base ≠ .node "suffixed" below := fun heq => hbase (by rw [heq, Tree.label])
  have hotherNe {below : List Tree} : .node "suffixed" below ≠ otherBase :=
    fun heq => hoth (by rw [← heq, Tree.label])
  -- Trees with suffixes of different shapes differ in their labels or in the number of their children.
  cases subscript <;> cases charge <;> cases otherSubscript <;> cases otherCharge <;>
    simp only [Suffix.over, Tree.node.injEq, cons.injEq, true_and, and_true, reduceCtorEq, and_false,
      subscriptTree_ne_charge, hne, hotherNe] at hover
  case none.none.none.none => exact ⟨rfl, hover⟩
  case none.some.none.some charge otherCharge => exact ⟨by rw [Charge.tree_inj hover.2], hover.1⟩
  case none.some.some.none charge number => exact absurd hover.2.symm (subscriptTree_ne_charge number charge)
  case some.none.some.none number otherNumber => exact ⟨by rw [subscriptTree_inj hover.2], hover.1⟩
  case some.some.some.some number charge otherNumber otherCharge =>
    exact ⟨by rw [subscriptTree_inj hover.2.1, Charge.tree_inj hover.2.2], hover.1⟩

theorem Bracket.label_inj {kind other : Bracket} (hlabel : kind.label = other.label) : kind = other := by
  cases kind <;> cases other <;> simp [Bracket.label] at hlabel ⊢

theorem Bracket.label_ne_element (kind : Bracket) : kind.label ≠ "element" := by
  cases kind <;> simp [Bracket.label]

theorem Bracket.node_ne_suffixed (kind : Bracket) (children : List Tree) :
    (Tree.node kind.label children).label ≠ "suffixed" := by
  cases kind <;> simp [Bracket.label, Tree.label]

theorem element_ne_suffixed (children : List Tree) : (Tree.node "element" children).label ≠ "suffixed" := by
  simp [Tree.label]

mutual

theorem Part.tree_inj (part other : Part) (htree : part.tree = other.tree) : part = other := by
  cases part with
  | element symbol suffix =>
    cases other with
    | element otherSymbol otherSuffix =>
      rw [Part.tree, Part.tree] at htree
      obtain ⟨rfl, hbase⟩ := Suffix.over_inj (element_ne_suffixed _) (element_ne_suffixed _) htree
      simp only [Tree.node.injEq, cons.injEq, Tree.leaf.injEq, true_and, and_true] at hbase
      rw [hbase]
    | bracket kind parts otherSuffix =>
      rw [Part.tree, Part.tree] at htree
      obtain ⟨-, hbase⟩ := Suffix.over_inj (element_ne_suffixed _) (kind.node_ne_suffixed _) htree
      exact absurd (Tree.node.inj hbase).1.symm kind.label_ne_element
  | bracket kind parts suffix =>
    cases other with
    | element otherSymbol otherSuffix =>
      rw [Part.tree, Part.tree] at htree
      obtain ⟨-, hbase⟩ := Suffix.over_inj (kind.node_ne_suffixed _) (element_ne_suffixed _) htree
      exact absurd (Tree.node.inj hbase).1 kind.label_ne_element
    | bracket otherKind otherParts otherSuffix =>
      rw [Part.tree, Part.tree] at htree
      obtain ⟨rfl, hbase⟩ := Suffix.over_inj (kind.node_ne_suffixed _) (otherKind.node_ne_suffixed _) htree
      obtain ⟨hlabel, hparts⟩ := Tree.node.inj hbase
      rw [Bracket.label_inj hlabel, Part.trees_inj parts otherParts hparts]

theorem Part.trees_inj (parts others : Molecule) (htrees : Part.trees parts = Part.trees others) : parts = others := by
  cases parts with
  | nil =>
    cases others with
    | nil => rfl
    | cons other others => cases htrees
  | cons part parts =>
    cases others with
    | nil => cases htrees
    | cons other others =>
      rw [Part.trees, Part.trees] at htrees
      obtain ⟨htree, hrest⟩ := cons.inj htrees
      rw [Part.tree_inj part other htree, Part.trees_inj parts others hrest]

end

/-! ## Cleaning gives the tree of the molecule -/

namespace Parse

variable (number : Parse .number)

theorem numberText_head : beginsWithOne number.numberText = true ↔ number.firstDigit = "1" := by
  have hdigit (text : String) (hmem : text ∈ digits) (rest : String) :
      (text ++ rest).toList.head? = some '1' ↔ text = "1" := by
    rw [String.toList_append]
    simp only [digits, List.mem_cons, List.not_mem_nil, or_false] at hmem
    rcases hmem with rfl | rfl | rfl | rfl | rfl | rfl | rfl | rfl | rfl | rfl <;> simp
  cases number with
  | lastDigit first =>
    cases first with
    | digit text hmem =>
      have h := hdigit text hmem ""
      rw [String.append_empty] at h
      rw [beginsWithOne, decide_eq_true_iff, numberText, firstDigit, digitText, h]
  | moreDigits first rest =>
    cases first with
    | digit text hmem => rw [beginsWithOne, decide_eq_true_iff, numberText, firstDigit, digitText, hdigit text hmem]

theorem final_plusMinus (plusMinus : Parse .plusMinus) : plusMinus.final = plusMinus.signOf.tree := by
  cases plusMinus <;> rfl

theorem final_number : number.final = .node "number" [.leaf number.numberText] := by
  cases number <;> rfl

theorem final_ionSuffix (ion : Parse .ionSuffix) : ion.final = (ion.chargeOf beginsWithOne).tree := by
  cases ion with
  | charge number plusMinus =>
    rw [final, chargeOf, final_number, final_plusMinus]
    by_cases hfst : number.firstDigit = "1"
    · rw [if_pos hfst, if_pos (number.numberText_head.mpr hfst)]
      rfl
    · rw [if_neg hfst, if_neg fun h => hfst (number.numberText_head.mp h)]
      rfl
  | sign plusMinus =>
    rw [final, chargeOf, final_plusMinus]
    rfl

theorem final_numberSuffix (number : Parse .numberSuffix) : number.final = subscriptTree number.subscriptOf := by
  cases number with
  | subscript number => rfl

theorem over_suffixOf (base : Tree) (suffix : Parse .suffix) :
    (suffix.suffixOf beginsWithOne).over base = .node "suffixed" [base, suffix.final] := by
  cases suffix with
  | ofNumber number =>
    rw [final, final_numberSuffix]
    rfl
  | ofBoth number ion =>
    rw [final, final_numberSuffix, final_ionSuffix]
    rfl
  | ofIon ion =>
    rw [final, final_ionSuffix]
    rfl

mutual

theorem final_group : (group : Parse .group) → group.final = .node "group" (Part.trees (group.parts beginsWithOne))
  | .lastMember member => by
    rw [final, parts, Part.trees, Part.trees, final_member member]
  | .moreMembers member rest => by
    rw [final, parts, Part.trees, final_member member, final_group rest, Tree.children]

theorem final_member : (member : Parse .suffixed) → member.final = (member.part beginsWithOne).tree
  | .base unsuffixed => by
    rw [final, part, ← over_final ⟨none, none⟩ unsuffixed]
    rfl
  | .suffixed unsuffixed suffix => by
    rw [final, part, ← over_final _ unsuffixed, over_suffixOf]

theorem over_final (suffix : Suffix) :
    (unsuffixed : Parse .unsuffixed) → suffix.over unsuffixed.final = (unsuffixed.partWith beginsWithOne suffix).tree
  | .baseElement (.element symbol hmem) => by
    rw [final, final, partWith, Part.tree]
  | .baseRound (.round group) => by
    rw [final, final, partWith, Part.tree, final_group group]
    rfl
  | .baseSquare (.square group) => by
    rw [final, final, partWith, Part.tree, final_group group]
    rfl

end

end Parse

end EdxPlatform.Chem
