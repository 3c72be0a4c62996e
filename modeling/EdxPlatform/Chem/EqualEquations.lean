import Mathlib.SetTheory.Cardinal.Order
import EdxPlatform.Chem.Dividing

/-!
# When equations are equal

Two equations are the same when their arrows agree and the terms of both sides agree up to one positive factor.
`chemical_equations_equal` compares the clipped terms.
-/

namespace EdxPlatform.Chem

open Parse Parse

/-- An equation whose sides have been derived. -/
structure Equation where
  left : Parse .S
  arrow : String
  right : Parse .S

def readEquation (parser : ChartParser) (text : String) : Option Equation :=
  let (left, arrow, right) := splitOnArrow text
  if arrow = "" then none
  else
    match derivation parser left, derivation parser right with
    | some leftParsed, some rightParsed => some ⟨leftParsed, arrow, rightParsed⟩
    | _, _ => none

theorem readEquation_eq_some {parser : ChartParser} {text : String} {equation : Equation}
    (hread : readEquation parser text = some equation) :
    (splitOnArrow text).2.1 = equation.arrow ∧ equation.arrow ≠ "" ∧
      derivation parser (splitOnArrow text).1 = some equation.left ∧
      derivation parser (splitOnArrow text).2.2 = some equation.right := by
  rw [readEquation] at hread
  generalize splitOnArrow text = parts at hread ⊢
  obtain ⟨left, arrow, right⟩ := parts
  dsimp only at hread ⊢
  split_ifs at hread with harrow
  split at hread
  · rename_i leftParsed rightParsed hleft hrgt
    cases hread
    exact ⟨rfl, harrow, hleft, hrgt⟩
  · cases hread

namespace Equation

def Nonzero (equation : Equation) : Prop :=
  ∀ multimolecule ∈ equation.left.multimolecules ++ equation.right.multimolecules, multimolecule.coefficient ≠ 0

def Matches (terms : Parse .S → List Term) (equation other : Equation) : Prop :=
  ∃ factor : Rat, 0 < factor ∧ IsMultiple factor (terms equation.left) (terms other.left) ∧
    IsMultiple factor (terms equation.right) (terms other.right)

theorem matches_equivalence (terms : Parse .S → List Term) : Equivalence (Matches terms) where
  refl _ := ⟨1, zero_lt_one, isMultiple_one _, isMultiple_one _⟩
  symm := by
    rintro _ _ ⟨factor, hpos, hleft, hrgt⟩
    exact ⟨factor⁻¹, inv_pos.mpr hpos, hleft.symm hpos.ne', hrgt.symm hpos.ne'⟩
  trans := by
    rintro _ _ _ ⟨factor, hpos, hleft, hrgt⟩ ⟨more, hmore, hnextLeft, hnextRight⟩
    exact ⟨factor * more, mul_pos hpos hmore, hleft.trans hnextLeft, hrgt.trans hnextRight⟩

def Same (equation other : Equation) : Prop := equation.arrow = other.arrow ∧ equation.Matches Parse.terms other

/-- Equations with one arrow that match without what cleaning drops also match with it, and the other way round. -/
def ClippedAlike (equation other : Equation) : Prop :=
  equation.arrow = other.arrow → (equation.Matches clippedTerms other ↔ equation.Matches Parse.terms other)

end Equation

/-! ## Dividing nonzero terms -/

namespace Parse

theorem coefficient_of_zeroDenominator {multimolecule : Parse .multimolecule}
    (hzero : multimolecule.HasZeroDenominator) : multimolecule.coefficient = 0 := by
  match multimolecule, hzero with
  | .counted (.fraction numerator denominator) _, hzero =>
    rw [coefficient, countValue, show denominator.value = 0 from hzero, Nat.cast_zero, div_zero]

section

variable {parsed : Parse .S} (hnon : ∀ multimolecule ∈ parsed.multimolecules, multimolecule.coefficient ≠ 0)
include hnon

theorem not_hasZeroFraction : ¬parsed.HasZeroFraction :=
  fun ⟨multimolecule, hmem, hzero⟩ => hnon multimolecule hmem (coefficient_of_zeroDenominator hzero)

theorem forall_clippedTerms : ∀ term ∈ parsed.clippedTerms, term.coefficient ≠ 0 := by
  intro term hterm
  obtain ⟨multimolecule, hmem, rfl⟩ := List.mem_map.mp hterm
  exact hnon multimolecule hmem

end

end Parse

theorem isFalse_iff {quotient : Option Rat} :
    isFalse quotient = false ↔ ∃ factor, quotient = some factor ∧ factor ≠ 0 := by
  cases quotient with
  | none => simp [isFalse]
  | some factor => simp [isFalse]

/-- Results after `except ParseException`. -/
def caught (result : Except ChemError Bool) : Except ChemError Bool :=
  match result with
  | .error .parseException => .ok false
  | result => result

theorem caught_iff {result : Except ChemError Bool} : caught result = .ok true ↔ result = .ok true := by
  cases result with
  | error err => cases err <;> simp [caught]
  | ok value => exact Iff.rfl

section Sorted

variable [LinearOrder Tree] {parser : ChartParser} {left right otherLeft otherRight : String}

theorem sidesEqual_iff {quotient rightQuotient : Option Rat}
    (hleft : divideChemicalExpression parser left otherLeft false = .ok quotient)
    (hrgt : divideChemicalExpression parser right otherRight false = .ok rightQuotient) :
    sidesEqual parser left right otherLeft otherRight false = .ok true ↔
      isFalse quotient = false ∧ rightQuotient = quotient := by
  rw [sidesEqual, hleft, hrgt]
  cases hfalse : isFalse quotient with
  | true => simp [hfalse, bind, Except.bind, pure, Except.pure]
  | false =>
    by_cases heq : rightQuotient = quotient
    · subst heq
      simp [hfalse, bind, Except.bind, pure, Except.pure]
    · cases hrightFalse : isFalse rightQuotient with
      | true => simp [hfalse, hrightFalse, heq, bind, Except.bind, pure, Except.pure]
      | false => simp [hfalse, hrightFalse, heq, Ne.symm heq, bind, Except.bind, pure, Except.pure]

variable {parsed rightParsed otherParsed otherRightParsed : Parse .S}

theorem sidesEqual_iff_isMultiple (hleft : derivation parser left = some parsed)
    (hrgt : derivation parser right = some rightParsed) (hotherLeft : derivation parser otherLeft = some otherParsed)
    (hotherRight : derivation parser otherRight = some otherRightParsed)
    (hsafe : DividesSafely parsed otherParsed false) (hrigh : DividesSafely rightParsed otherRightParsed false) :
    sidesEqual parser left right otherLeft otherRight false = .ok true ↔
      ∃ factor, 0 < factor ∧ IsMultiple factor parsed.clippedTerms otherParsed.clippedTerms ∧
        IsMultiple factor rightParsed.clippedTerms otherRightParsed.clippedTerms := by
  obtain ⟨quotient, hdiv, hmul, hpos⟩ := hsafe.exists_quotient hleft hotherLeft
  obtain ⟨rightQuotient, hrightDivide, hrig, -⟩ := hrigh.exists_quotient hrgt hotherRight
  rw [sidesEqual_iff hdiv hrightDivide, isFalse_iff]
  constructor
  · rintro ⟨⟨factor, hquot, hne⟩, heq⟩
    have hfac := hpos factor hquot hne
    exact ⟨factor, hfac, (hmul factor hfac).mp hquot, (hrig factor hfac).mp (heq.trans hquot)⟩
  · rintro ⟨factor, hfac, hlef, hrightTerms⟩
    have hquot := (hmul factor hfac).mpr hlef
    exact ⟨⟨factor, hquot, ne_of_gt hfac⟩, ((hrig factor hfac).mpr hrightTerms).trans hquot.symm⟩

theorem chemicalEquationsEqual_eq (text otherText : String) (exact : Bool) :
    chemicalEquationsEqual parser text otherText exact =
      if (splitOnArrow text).2.1 = "" ∨ (splitOnArrow otherText).2.1 = "" then .ok false
      else if (splitOnArrow text).2.1 ≠ (splitOnArrow otherText).2.1 then .ok false
      else caught (sidesEqual parser (splitOnArrow text).1 (splitOnArrow text).2.2 (splitOnArrow otherText).1
        (splitOnArrow otherText).2.2 exact) := (rfl)

variable {text otherText : String} {equation other : Equation}

theorem Equation.Nonzero.dividesSafely (hoth : other.Nonzero) (hequ : equation.Nonzero) :
    DividesSafely equation.left other.left false ∧ DividesSafely equation.right other.right false := by
  rw [Equation.Nonzero, List.forall_mem_append] at hequ hoth
  exact ⟨⟨not_hasZeroFraction hequ.1, not_hasZeroFraction hoth.1,
      fun _ => forall_clippedTerms hoth.1⟩,
    ⟨not_hasZeroFraction hequ.2, not_hasZeroFraction hoth.2, fun _ => forall_clippedTerms hoth.2⟩⟩

theorem chemicalEquationsEqual_iff_clipped (hread : readEquation parser text = some equation)
    (hoth : readEquation parser otherText = some other) (hnon : equation.Nonzero)
    (hothe : other.Nonzero) :
    chemicalEquationsEqual parser text otherText false = .ok true ↔
      equation.arrow = other.arrow ∧ equation.Matches clippedTerms other := by
  obtain ⟨harrow, hne, hleft, hrgt⟩ := readEquation_eq_some hread
  obtain ⟨hotherArrow, hotherNe, hotherLeft, hotherRight⟩ := readEquation_eq_some hoth
  obtain ⟨hsafe, hrigh⟩ := hothe.dividesSafely hnon
  have hsides := sidesEqual_iff_isMultiple hleft hrgt hotherLeft hotherRight hsafe hrigh
  rw [chemicalEquationsEqual_eq, harrow, hotherArrow, if_neg (not_or.mpr ⟨hne, hotherNe⟩)]
  split_ifs with hdif
  · exact iff_of_false (by simp) fun h => hdif h.1
  · rw [and_iff_right (not_not.mp hdif), Equation.Matches, ← hsides]
    exact caught_iff

def JudgedRight (parser : ChartParser) (text otherText : String) (equation other : Equation) : Prop :=
  chemicalEquationsEqual parser text otherText false = .ok true ↔ equation.Same other

/-- The verdict is right exactly when the equations do not differ only in what cleaning drops. -/
theorem judgedRight_iff (hread : readEquation parser text = some equation)
    (hother : readEquation parser otherText = some other) (hnonzero : equation.Nonzero)
    (hotherNonzero : other.Nonzero) :
    JudgedRight parser text otherText equation other ↔ equation.ClippedAlike other := by
  rw [JudgedRight, chemicalEquationsEqual_iff_clipped hread hother hnonzero hotherNonzero, Equation.Same,
    Equation.ClippedAlike]
  exact and_congr_right_iff

/-- Texts that are read as equations without zero counts. -/
abbrev Readable (parser : ChartParser) : Type :=
  { text : String // ∃ equation, readEquation parser text = some equation ∧ equation.Nonzero }

end Sorted

namespace Parse

/-- Cleaning drops nothing: a charge number that begins with one is one, and brackets on their own are a group. -/
def KeepsAll : Parse .unphased → Prop
  | .ofGroup group => ∀ number ∈ group.chargeNumbers, beginsWithOne number = true → number = "1"
  | .ofRound _ => False
  | .ofSquare _ => False

theorem KeepsAll.clipped_eq {unphased : Parse .unphased} (hkeep : unphased.KeepsAll) :
    unphased.clipped = unphased.molecule isOne := by
  cases unphased with
  | ofGroup group =>
    refine parts_congr group fun number hnum => ?_
    rw [Bool.eq_iff_iff]
    constructor
    · intro hbeg
      exact decide_eq_true (hkeep number hnum hbeg)
    · intro hone
      rw [of_decide_eq_true hone]
      rfl
  | ofRound group => exact hkeep.elim
  | ofSquare group => exact hkeep.elim

theorem clippedTerms_eq {parsed : Parse .S}
    (hkeep : ∀ multimolecule ∈ parsed.multimolecules, multimolecule.moleculeOf.unphasedOf.KeepsAll) :
    parsed.clippedTerms = parsed.terms := by
  refine List.map_congr_left fun multimolecule hmem => ?_
  rw [clippedTerm, term, (hkeep multimolecule hmem).clipped_eq]

end Parse

namespace Equation

def KeepsAll (equation : Equation) : Prop :=
  ∀ multimolecule ∈ equation.left.multimolecules ++ equation.right.multimolecules,
    multimolecule.moleculeOf.unphasedOf.KeepsAll

theorem KeepsAll.clippedAlike {equation other : Equation} (hkeep : equation.KeepsAll) (hoth : other.KeepsAll) :
    equation.ClippedAlike other := by
  rw [KeepsAll, List.forall_mem_append] at hkeep hoth
  intro _
  rw [Matches, Matches, clippedTerms_eq hkeep.1, clippedTerms_eq hkeep.2,
    clippedTerms_eq hoth.1, clippedTerms_eq hoth.2]

end Equation

/-! ## A charge of twelve -/

open Classical in
/-- A parser that gives the derivations that are listed, and any for other words. -/
noncomputable def parserOf (listed : List (Parse .S)) : ChartParser where
  parse tokens := (listed.find? fun parsed => parsed.toTree.leaves = tokens).or
    (if h : ∃ parsed : Parse .S, parsed.toTree.leaves = tokens then some h.choose else none)
  leaves_eq tokens parsed hparse := by
    rcases Option.or_eq_some_iff.mp hparse with hfound | ⟨-, hchosen⟩
    · simpa using List.find?_some hfound
    · split_ifs at hchosen with h
      cases hchosen
      exact h.choose_spec
  finds parsed := by
    rw [Option.isSome_or, dif_pos ⟨parsed, rfl⟩]
    exact Bool.or_true _

theorem derivation_parserOf {listed : List (Parse .S)} {text : String} {tokens : List String} {parsed : Parse .S}
    (htok : tokenize text = some tokens) (hall : tokens.all (· ∈ terminals) = true)
    (hfind : listed.find? (fun parsed => parsed.toTree.leaves = tokens) = some parsed) :
    derivation (parserOf listed) text = some parsed := by
  rw [derivation, htok]
  exact (if_pos hall).trans (Option.or_eq_some_iff.mpr (.inl hfind))

noncomputable instance : LinearOrder Tree := IsWellOrder.linearOrder WellOrderingRel

def elementMolecule (symbol : String) (hmem : symbol ∈ elements) : Parse .S :=
  .last (.uncounted (.unphased (.ofGroup (.lastMember (.base (.baseElement (.element symbol hmem)))))))

def ionMolecule (symbol : String) (hmem : symbol ∈ elements) (charge : Parse .ionSuffix) : Parse .S :=
  .last (.uncounted (.unphased (.ofGroup (.lastMember
    (.suffixed (.baseElement (.element symbol hmem)) (.ofIon charge))))))

theorem hydrogen_mem : "H" ∈ elements := by simp [elements]

def hydrogen : Parse .S := elementMolecule "H" hydrogen_mem

def proton : Parse .S := ionMolecule "H" hydrogen_mem (.sign .plus)

def twelvefold : Parse .S :=
  ionMolecule "H" hydrogen_mem
    (.charge (.moreDigits (.digit "1" (by decide)) (.lastDigit (.digit "2" (by decide)))) .plus)

noncomputable def chargeParser : ChartParser := parserOf [hydrogen, proton, twelvefold]

theorem charge_derivations :
    derivation chargeParser "H" = some hydrogen ∧ derivation chargeParser "H^+" = some proton ∧
      derivation chargeParser "H^12+" = some twelvefold := by
  have htok : tokenize "H" = some ["H"] ∧ tokenize "H^+" = some ["H", "^", "+"] ∧
      tokenize "H^12+" = some ["H", "^", "1", "2", "+"] := by decide +kernel
  obtain ⟨hhyd, hprot, htwel⟩ := htok
  exact ⟨derivation_parserOf hhyd (by decide +kernel) rfl, derivation_parserOf hprot (by decide +kernel) rfl,
    derivation_parserOf htwel (by decide +kernel) rfl⟩

theorem readEquation_charges : readEquation chargeParser "H^12+->H" = some ⟨twelvefold, "->", hydrogen⟩ ∧
      readEquation chargeParser "H^+->H" = some ⟨proton, "->", hydrogen⟩ := by
  obtain ⟨hhyd, hprot, htwel⟩ := charge_derivations
  have hspl : splitOnArrow "H^12+->H" = ("H^12+", "->", "H") ∧ splitOnArrow "H^+->H" = ("H^+", "->", "H") := by
    simp [splitOnArrow, arrows, partition]
  rw [readEquation, readEquation, hspl.1, hspl.2]
  simp [hhyd, hprot, htwel]

theorem twelvefold_terms : twelvefold.terms = [⟨1, [.element "H" ⟨none, some ⟨some "12", .plus⟩⟩], none⟩] := by
  simp [twelvefold, ionMolecule, terms, multimolecules, term, coefficient, moleculeOf,
    unphasedOf, phaseOf, molecule, parts, part, partWith, suffixOf,
    chargeOf, numberText, digitText, signOf, isOne]

theorem twelvefold_clippedTerms :
    twelvefold.clippedTerms = [⟨1, [.element "H" ⟨none, some ⟨none, .plus⟩⟩], none⟩] := by
  simp [twelvefold, ionMolecule, clippedTerms, multimolecules, clippedTerm, coefficient,
    moleculeOf, unphasedOf, phaseOf, clipped, parts, part, partWith,
    suffixOf, chargeOf, numberText, digitText, signOf, beginsWithOne]

theorem proton_terms : proton.terms = [⟨1, [.element "H" ⟨none, some ⟨none, .plus⟩⟩], none⟩] := by
  simp [proton, ionMolecule, terms, multimolecules, term, coefficient, moleculeOf,
    unphasedOf, phaseOf, molecule, parts, part, partWith, suffixOf,
    chargeOf, signOf]

theorem keepsAll_element (symbol : String) (hmem : symbol ∈ elements) :
    ∀ multimolecule ∈ (elementMolecule symbol hmem).multimolecules, multimolecule.moleculeOf.unphasedOf.KeepsAll := by
  simp [elementMolecule, multimolecules, moleculeOf, unphasedOf, Parse.KeepsAll,
    chargeNumbers, memberNumbers, baseNumbers]

theorem keepsAll_proton : ∀ multimolecule ∈ proton.multimolecules, multimolecule.moleculeOf.unphasedOf.KeepsAll := by
  simp [proton, ionMolecule, multimolecules, moleculeOf, unphasedOf, Parse.KeepsAll,
    chargeNumbers, memberNumbers, baseNumbers, suffixNumbers, ionNumbers]

def twelvefoldEquation : Equation := ⟨twelvefold, "->", hydrogen⟩

def protonEquation : Equation := ⟨proton, "->", hydrogen⟩

theorem twelvefoldEquation_nonzero : twelvefoldEquation.Nonzero := by
  simp [Equation.Nonzero, twelvefoldEquation, twelvefold, ionMolecule, hydrogen, elementMolecule,
    multimolecules, coefficient]

theorem protonEquation_nonzero : protonEquation.Nonzero := by
  simp [Equation.Nonzero, protonEquation, proton, ionMolecule, hydrogen, elementMolecule, multimolecules,
    coefficient]

theorem protonEquation_keepsAll : protonEquation.KeepsAll :=
  List.forall_mem_append.mpr ⟨keepsAll_proton, keepsAll_element "H" _⟩

theorem protonEquation_judgedRight : JudgedRight chargeParser "H^+->H" "H^+->H" protonEquation protonEquation :=
  (judgedRight_iff readEquation_charges.2 readEquation_charges.2 protonEquation_nonzero protonEquation_nonzero).mpr
    (protonEquation_keepsAll.clippedAlike protonEquation_keepsAll)

/-- A charge of twelve is taken for a charge of one. -/
theorem twelvefoldEquation_not_judgedRight :
    ¬JudgedRight chargeParser "H^12+->H" "H^+->H" twelvefoldEquation protonEquation := by
  rw [JudgedRight, chemicalEquationsEqual_iff_clipped readEquation_charges.1 readEquation_charges.2
    twelvefoldEquation_nonzero protonEquation_nonzero]
  intro hright
  have hclipped : twelvefoldEquation.Matches clippedTerms protonEquation := by
    refine ⟨1, zero_lt_one, ?_, isMultiple_one hydrogen.clippedTerms⟩
    have hterms : twelvefold.clippedTerms = proton.clippedTerms := by
      rw [twelvefold_clippedTerms, Parse.clippedTerms_eq keepsAll_proton, proton_terms]
    rw [twelvefoldEquation, protonEquation, hterms]
    exact isMultiple_one proton.clippedTerms
  obtain ⟨-, factor, -, hleft, -⟩ := hright.mp ⟨rfl, hclipped⟩
  rw [twelvefoldEquation, protonEquation, twelvefold_terms, proton_terms] at hleft
  have hterm := List.singleton_perm_singleton.mp hleft
  simp [Term.scale] at hterm

end EdxPlatform.Chem
