import EdxPlatform.Chem.Molecules

/-!
# The terms of an expression

The terms that an expression denotes, each with its coefficient, its molecule and its phase, and what
`divide_chemical_expression` finds of them in the cleaned tree.
-/

namespace EdxPlatform.Chem

structure Term where
  coefficient : Rat
  molecule : Molecule
  phase : Option Phase

variable {nonterminal : Nonterminal}

namespace Parse

def value (number : Parse .number) : Nat := intOf number.numberText

def multimolecules : Parse .S → List (Parse .multimolecule)
  | .last first => [first]
  | .more first rest => first :: rest.multimolecules

def countValue : Parse .count → Rat
  | .whole number => number.value
  | .fraction numerator denominator => numerator.value / denominator.value

def DividesByZero : Parse .count → Prop
  | .whole _ => False
  | .fraction _ denominator => denominator.value = 0

def coefficient : Parse .multimolecule → Rat
  | .counted count _ => count.countValue
  | .uncounted _ => 1

def HasZeroDenominator : Parse .multimolecule → Prop
  | .counted count _ => count.DividesByZero
  | .uncounted _ => False

instance (count : Parse .count) : Decidable count.DividesByZero :=
  match count with
  | .whole _ => instDecidableFalse
  | .fraction _ denominator => inferInstanceAs (Decidable (denominator.value = 0))

instance (multimolecule : Parse .multimolecule) : Decidable multimolecule.HasZeroDenominator :=
  match multimolecule with
  | .counted count _ => inferInstanceAs (Decidable count.DividesByZero)
  | .uncounted _ => instDecidableFalse

def HasZeroFraction (parsed : Parse .S) : Prop :=
  ∃ multimolecule ∈ parsed.multimolecules, multimolecule.HasZeroDenominator

instance (parsed : Parse .S) : Decidable parsed.HasZeroFraction :=
  inferInstanceAs (Decidable (∃ multimolecule ∈ parsed.multimolecules, multimolecule.HasZeroDenominator))

def moleculeOf : Parse .multimolecule → Parse .molecule
  | .counted _ molecule => molecule
  | .uncounted molecule => molecule

def unphasedOf : Parse .molecule → Parse .unphased
  | .unphased molecule => molecule
  | .phased molecule _ => molecule

def phaseOf : Parse .molecule → Option Phase
  | .unphased _ => none
  | .phased _ found => some found.state

/-- What a multimolecule denotes: a charge number that is one is the same as none. -/
def term (multimolecule : Parse .multimolecule) : Term where
  coefficient := multimolecule.coefficient
  molecule := multimolecule.moleculeOf.unphasedOf.molecule isOne
  phase := multimolecule.moleculeOf.phaseOf

def terms (parsed : Parse .S) : List Term := parsed.multimolecules.map term

/-- The molecule without what cleaning drops: charge numbers that begin with one, and brackets that are not derived as
a group. -/
def clipped : Parse .unphased → Molecule
  | .ofGroup group => group.parts beginsWithOne
  | .ofRound _ => []
  | .ofSquare _ => []

def clippedTerm (multimolecule : Parse .multimolecule) : Term where
  coefficient := multimolecule.coefficient
  molecule := multimolecule.moleculeOf.unphasedOf.clipped
  phase := multimolecule.moleculeOf.phaseOf

def clippedTerms (parsed : Parse .S) : List Term := parsed.multimolecules.map clippedTerm

end Parse

/-! ## Searching a tree -/

theorem subtreesAll_eq_flatMap (trees : List Tree) : Tree.subtreesAll trees = trees.flatMap Tree.subtrees := by
  induction trees with
  | nil => rfl
  | cons tree trees ih => rw [Tree.subtreesAll, ih, flatMap_cons]

def below (label : String) (tree : Tree) : List Tree := tree.children.flatMap (subtreesOf label)

theorem subtreesOf_node (label other : String) (children : List Tree) : subtreesOf label (.node other children) =
      (if other = label then [.node other children] else []) ++ children.flatMap (subtreesOf label) := by
  have hbel : (Tree.subtreesAll children).filter (fun found => found.label = label) =
      children.flatMap (subtreesOf label) := by
    rw [subtreesAll_eq_flatMap, List.filter_flatMap]
    rfl
  rw [subtreesOf, Tree.subtrees, filter_cons, hbel, Tree.label]
  by_cases hlabel : other = label
  · rw [if_pos hlabel, if_pos (decide_eq_true hlabel)]
    rfl
  · rw [if_neg hlabel, decide_eq_false hlabel]
    rfl

theorem subtreesOf_leaf (label text : String) : subtreesOf label (.leaf text) = [] := rfl

theorem subtreesOf_eq_below {label : String} {tree : Tree} (hne : tree.label ≠ label) :
    subtreesOf label tree = below label tree := by
  cases tree with
  | leaf text => rfl
  | node other children =>
    rw [subtreesOf_node, if_neg (show other ≠ label from hne)]
    rfl

/-- The labels for which `divide_chemical_expression` searches. -/
def searched : List String := ["multimolecule", "count", "group", "phase"]

def Nonterminal.isInner : Nonterminal → Bool
  | .S | .multimolecule | .count | .molecule | .unphased | .phase => false
  | _ => true

variable (multimolecule : Parse .multimolecule)

namespace Parse

theorem label_final_notMem (parsed : Parse nonterminal) (hinner : nonterminal.isInner = true)
    (hgrp : nonterminal ≠ .group) : parsed.final.label ∉ searched := by
  induction parsed with
  | baseElement element ih => exact ih rfl (by simp)
  | baseRound group ih => exact ih rfl (by simp)
  | baseSquare group ih => exact ih rfl (by simp)
  | base unsuffixed ih => exact ih rfl (by simp)
  | lastMember member | moreMembers member rest => exact absurd rfl hgrp
  | last first | more first rest | counted count molecule | uncounted molecule | whole number
  | fraction numerator denominator | unphased molecule | phased molecule phase | ofGroup group | ofRound group
  | ofSquare group | phase text hmem => cases hinner
  | _ => simp [final, Tree.label, searched]

variable {label : String} (hlabel : label ∈ searched)

section

variable (parsed : Parse nonterminal) (hinner : nonterminal.isInner = true)
include hlabel hinner

theorem subtreesOf_final (hgrp : nonterminal ≠ .group) : subtreesOf label parsed.final = below label parsed.final := by
  refine subtreesOf_eq_below fun heq => parsed.label_final_notMem hinner hgrp ?_
  rwa [heq]

theorem below_final : below label parsed.final = [] := by
  induction parsed with
  | lastMember member ih =>
    rw [below, final, Tree.children, flatMap_singleton, subtreesOf_final hlabel member rfl (by simp), ih rfl]
  | moreMembers member rest ih ihRest =>
    have hrest := ihRest rfl
    rw [below] at hrest
    rw [below, final, Tree.children, flatMap_cons, subtreesOf_final hlabel member rfl (by simp), ih rfl, hrest]
    rfl
  | baseElement element ih | baseRound group ih | baseSquare group ih | base unsuffixed ih => exact ih rfl
  | round group ih | square group ih => exact ih rfl
  | charge number plusMinus ih ihSign =>
    rw [below, final, Tree.children]
    split_ifs
    · rw [flatMap_singleton, subtreesOf_final hlabel plusMinus rfl (by simp), ihSign rfl]
    · rw [flatMap_cons, flatMap_singleton, subtreesOf_final hlabel number rfl (by simp),
        subtreesOf_final hlabel plusMinus rfl (by simp), ih rfl, ihSign rfl]
      rfl
  | sign plusMinus ih =>
    rw [below, final, Tree.children, flatMap_singleton, subtreesOf_final hlabel plusMinus rfl (by simp), ih rfl]
  | ofNumber number ih =>
    rw [below, final, Tree.children, flatMap_singleton, subtreesOf_final hlabel number rfl (by simp), ih rfl]
  | ofIon ion ih =>
    rw [below, final, Tree.children, flatMap_singleton, subtreesOf_final hlabel ion rfl (by simp), ih rfl]
  | ofBoth number ion ih ihIon =>
    rw [below, final, Tree.children, flatMap_cons, flatMap_singleton,
      subtreesOf_final hlabel number rfl (by simp), subtreesOf_final hlabel ion rfl (by simp), ih rfl, ihIon rfl]
    rfl
  | suffixed unsuffixed suffix ih ihSuffix =>
    rw [below, final, Tree.children, flatMap_cons, flatMap_singleton,
      subtreesOf_final hlabel unsuffixed rfl (by simp), subtreesOf_final hlabel suffix rfl (by simp), ih rfl,
      ihSuffix rfl]
    rfl
  | last first | more first rest | counted count molecule | uncounted molecule | whole number
  | fraction numerator denominator | unphased molecule | phased molecule phase | ofGroup group | ofRound group
  | ofSquare group | phase text hmem => cases hinner
  | element text hmem | digit text hmem | plus | minus | lastDigit digit | moreDigits digit rest | subscript number =>
    rfl

theorem subtreesOf_inner (hgrp : nonterminal ≠ .group) : subtreesOf label parsed.final = [] := by
  rw [subtreesOf_final hlabel parsed hinner hgrp, below_final hlabel parsed hinner]

end

/-! ## What is found in a multimolecule -/

/-- The groups that are found: brackets that are not derived as a group have none. -/
def groups : Parse .unphased → List Tree
  | .ofGroup group => [group.final]
  | .ofRound _ => []
  | .ofSquare _ => []

def phaseTrees : Parse .molecule → List Tree
  | .unphased _ => []
  | .phased _ state => [state.final]

def countTrees : Parse .multimolecule → List Tree
  | .counted count _ => [count.final]
  | .uncounted _ => []

theorem subtreesOf_group (hlabel : label ∈ searched) (group : Parse .group) :
    subtreesOf label group.final = if "group" = label then [group.final] else [] := by
  have hbel := below_final hlabel group rfl
  rw [final_group] at hbel ⊢
  rw [subtreesOf_node]
  exact (congrArg _ hbel).trans (append_nil _)

theorem subtreesOf_unphased (hlabel : label ∈ searched) (unphased : Parse .unphased) :
    subtreesOf label unphased.final = if "group" = label then unphased.groups else [] := by
  cases unphased with
  | ofGroup group => exact subtreesOf_group hlabel group
  | ofRound group => rw [final, subtreesOf_inner hlabel group rfl (by simp), groups, ite_self]
  | ofSquare group => rw [final, subtreesOf_inner hlabel group rfl (by simp), groups, ite_self]

theorem subtreesOf_phase (label : String) (phase : Parse .phase) :
    subtreesOf label phase.final = if "phase" = label then [phase.final] else [] := by
  cases phase with
  | phase text hmem => rw [final, subtreesOf_node, flatMap_singleton, subtreesOf_leaf, append_nil]

section

include hlabel

theorem subtreesOf_count (count : Parse .count) :
    subtreesOf label count.final = if "count" = label then [count.final] else [] := by
  cases count with
  | whole number =>
    rw [final, subtreesOf_node, flatMap_singleton, subtreesOf_inner hlabel number rfl (by simp), append_nil]
  | fraction numerator denominator =>
    rw [final, subtreesOf_node, flatMap_cons, flatMap_cons, flatMap_singleton, subtreesOf_leaf,
      subtreesOf_inner hlabel numerator rfl (by simp), subtreesOf_inner hlabel denominator rfl (by simp)]
    exact append_nil _

theorem subtreesOf_molecule (molecule : Parse .molecule) :
    subtreesOf label molecule.final = (if "group" = label then molecule.unphasedOf.groups else []) ++
        if "phase" = label then molecule.phaseTrees else [] := by
  have hne : "molecule" ≠ label := fun heq => absurd (heq ▸ hlabel) (by decide)
  cases molecule with
  | unphased unphased =>
    rw [final, subtreesOf_node, if_neg hne, flatMap_singleton, subtreesOf_unphased hlabel, phaseTrees, ite_self,
      append_nil]
    rfl
  | phased unphased state =>
    rw [final, subtreesOf_node, if_neg hne, flatMap_cons, flatMap_singleton, subtreesOf_unphased hlabel,
      subtreesOf_phase]
    rfl

theorem subtreesOf_multimolecule (multimolecule : Parse .multimolecule) : subtreesOf label multimolecule.final =
      (if "multimolecule" = label then [multimolecule.final] else []) ++
        (if "count" = label then multimolecule.countTrees else []) ++
        subtreesOf label multimolecule.moleculeOf.final := by
  cases multimolecule with
  | counted count molecule =>
    rw [final, subtreesOf_node, flatMap_cons, flatMap_singleton, subtreesOf_count hlabel, append_assoc]
    rfl
  | uncounted molecule =>
    rw [final, subtreesOf_node, flatMap_singleton, countTrees, ite_self, append_nil]
    rfl

end

theorem count_multimolecule : subtreesOf "count" multimolecule.final = multimolecule.countTrees := by
  rw [subtreesOf_multimolecule (by decide), subtreesOf_molecule (by decide)]
  simp

theorem group_multimolecule : subtreesOf "group" multimolecule.final = multimolecule.moleculeOf.unphasedOf.groups := by
  rw [subtreesOf_multimolecule (by decide), subtreesOf_molecule (by decide)]
  simp

theorem phase_multimolecule : subtreesOf "phase" multimolecule.final = multimolecule.moleculeOf.phaseTrees := by
  rw [subtreesOf_multimolecule (by decide), subtreesOf_molecule (by decide)]
  simp

theorem multimolecule_multimolecule : subtreesOf "multimolecule" multimolecule.final = [multimolecule.final] := by
  rw [subtreesOf_multimolecule (by decide), subtreesOf_molecule (by decide)]
  simp

theorem multimolecule_S (parsed : Parse .S) :
    subtreesOf "multimolecule" parsed.final = parsed.multimolecules.map final := by
  have hroot : parsed.final.label ≠ "multimolecule" := by
    cases parsed <;> simp [final, Tree.label]
  rw [subtreesOf_eq_below hroot, below]
  cases parsed with
  | last first =>
    rw [final, Tree.children, flatMap_singleton, multimolecule_multimolecule, multimolecules, map_singleton]
  | more first rest =>
    have hrest := rest.multimolecule_S
    rw [subtreesOf_eq_below (by cases rest <;> simp [final, Tree.label]), below] at hrest
    rw [final, Tree.children, flatMap_cons, flatMap_cons, multimolecule_multimolecule, hrest, multimolecules, map_cons]
    rfl

end Parse

/-! ## The entries of terms -/

def Phase.text : Phase → String
  | .solid => "(s)"
  | .liquid => "(l)"
  | .gas => "(g)"
  | .aqueous => "(aq)"

def groupTrees (molecule : Molecule) : List Tree :=
  if molecule.isEmpty then [] else [.node "group" (Part.trees molecule)]

def moleculeTree (molecule : Molecule) : Tree := .node "multimolecule" [.node "molecule" (groupTrees molecule)]

def stateText (phase : Option Phase) : String := (phase.map Phase.text).getD " "

def Term.entry (term : Term) : Entry := (moleculeTree term.molecule, term.coefficient, stateText term.phase)

theorem moleculeTree_injective : Injective moleculeTree := by
  intro molecule other htree
  simp only [moleculeTree, Tree.node.injEq, cons.injEq, true_and, and_true] at htree
  cases molecule with
  | nil =>
    cases other with
    | nil => rfl
    | cons part parts => cases htree
  | cons part parts =>
    cases other with
    | nil => cases htree
    | cons otherPart otherParts =>
      rw [groupTrees, groupTrees, if_neg (by simp), if_neg (by simp)] at htree
      simp only [Tree.node.injEq, cons.injEq, true_and, and_true] at htree
      exact Part.trees_inj _ _ htree

theorem stateText_injective : Injective stateText := by
  intro phase other htext
  cases phase with
  | none =>
    cases other with
    | none => rfl
    | some otherPhase => cases otherPhase <;> simp [stateText, Phase.text] at htext
  | some phase =>
    cases other with
    | none => cases phase <;> simp [stateText, Phase.text] at htext
    | some otherPhase => cases phase <;> cases otherPhase <;> simp [stateText, Phase.text] at htext ⊢

theorem Term.entry_injective : Injective Term.entry := by
  intro term other hent
  obtain ⟨hmol, hrest⟩ := Prod.mk.inj hent
  obtain ⟨hcoef, hph⟩ := Prod.mk.inj hrest
  obtain ⟨coefficient, molecule, phase⟩ := term
  obtain ⟨otherCoefficient, otherMolecule, otherPhase⟩ := other
  cases hcoef
  cases moleculeTree_injective hmol
  cases stateText_injective hph
  rfl

namespace Parse

theorem groups_eq (unphased : Parse .unphased) : unphased.groups = groupTrees unphased.clipped := by
  cases unphased with
  | ofGroup group =>
    rw [groups, final_group, clipped, groupTrees, if_neg]
    cases group <;> simp [parts]
  | ofRound group | ofSquare group => rfl

theorem final_phase (phase : Parse .phase) : phase.final = .node "phase" [.leaf phase.state.text] := by
  cases phase with
  | phase text hmem =>
    simp only [phases, mem_cons, not_mem_nil, or_false] at hmem
    rcases hmem with rfl | rfl | rfl | rfl <;> simp [final, state, Phase.text]

theorem factorOf_final (count : Parse .count) :
    factorOf count.final = if count.DividesByZero then .error .zeroDivisionError else .ok count.countValue := by
  cases count with
  | whole number =>
    rw [final, final_number]
    rfl
  | fraction numerator denominator =>
    rw [final, final_number, final_number]
    rfl

theorem phaseIn_final : phaseIn multimolecule.final = stateText multimolecule.moleculeOf.phaseOf := by
  rw [phaseIn, phase_multimolecule]
  cases multimolecule.moleculeOf with
  | unphased unphased => rfl
  | phased unphased phase =>
    rw [phaseTrees, final_phase]
    rfl

theorem factorIn_final : factorIn multimolecule.final =
      if multimolecule.HasZeroDenominator then .error .zeroDivisionError else .ok multimolecule.coefficient := by
  rw [factorIn, count_multimolecule]
  cases multimolecule with
  | counted count molecule => exact factorOf_final count
  | uncounted molecule => rfl

theorem entryOf_final : entryOf multimolecule.final =
      if multimolecule.HasZeroDenominator then .error .zeroDivisionError else .ok multimolecule.clippedTerm.entry := by
  rw [entryOf, factorIn_final, phaseIn_final, group_multimolecule, groups_eq]
  split_ifs <;> rfl

theorem mapM_entryOf (multimolecules : List (Parse .multimolecule)) : (multimolecules.map final).mapM entryOf =
      if ∃ multimolecule ∈ multimolecules, multimolecule.HasZeroDenominator then .error .zeroDivisionError
      else .ok ((multimolecules.map clippedTerm).map Term.entry) := by
  induction multimolecules with
  | nil => rfl
  | cons multimolecule multimolecules ih =>
    rw [map_cons, List.mapM_cons, ih, entryOf_final, map_cons, map_cons]
    simp only [mem_cons, exists_eq_or_imp]
    by_cases hzero : multimolecule.HasZeroDenominator
    · rw [if_pos hzero, if_pos (Or.inl hzero)]
      rfl
    · rw [if_neg hzero]
      split_ifs with hrest heit heit
      · rfl
      · exact absurd (Or.inr hrest) heit
      · exact absurd heit (not_or.mpr ⟨hzero, hrest⟩)
      · rfl

theorem entries_final (parsed : Parse .S) : entries parsed.final =
      if parsed.HasZeroFraction then .error .zeroDivisionError
      else .ok (parsed.clippedTerms.map Term.entry) := by
  rw [entries, multimolecule_S, mapM_entryOf]
  rfl

end Parse

end EdxPlatform.Chem
