import EdxPlatform.Chem.EqualEquations

/-!
# Counts of zero

Where a comparison divides by zero: in a fraction with a zero below the line, or by a zero count of the second
expression once the molecules agree.
-/

namespace EdxPlatform.Chem

open Parse

theorem caught_zero_iff {result : Except ChemError Bool} :
    caught result = .error .zeroDivisionError ↔ result = .error .zeroDivisionError := by
  cases result with
  | error err => cases err <;> simp [caught]
  | ok value => exact Iff.rfl

section Sorted

variable [LinearOrder Tree] (parser : ChartParser)

def SafeTexts (text other : String) (ignoreState : Bool) : Prop :=
  ∀ first second, derivation parser text = some first → derivation parser other = some second →
    DividesSafely first second ignoreState

def MatchingTexts (text other : String) : Prop :=
  ∃ first second, derivation parser text = some first ∧ derivation parser other = some second ∧
    ∃ factor, 0 < factor ∧ IsMultiple factor first.clippedTerms second.clippedTerms

/-- Equations with one arrow whose left sides are safe, and whose right sides are where the left sides match. -/
def SafeEquations (text other : String) : Prop :=
  let (left, arrow, right) := splitOnArrow text
  let (otherLeft, otherArrow, otherRight) := splitOnArrow other
  arrow ≠ "" → arrow = otherArrow → SafeTexts parser left otherLeft false ∧
      (MatchingTexts parser left otherLeft → SafeTexts parser right otherRight false)

variable {parser} {text other left right otherLeft otherRight : String} {ignoreState exact : Bool}

theorem divideChemicalExpression_ne_zero_iff :
    divideChemicalExpression parser text other ignoreState ≠ .error .zeroDivisionError ↔
      SafeTexts parser text other ignoreState := by
  by_cases hnone : derivation parser text = none ∨ derivation parser other = none
  · obtain ⟨err, herr, hne⟩ : ∃ err, divideChemicalExpression parser text other ignoreState = .error err ∧
        err ≠ .zeroDivisionError := divideChemicalExpression_of_none hnone
    rw [herr]
    refine iff_of_true (by simpa using hne) fun first second hfst hsec => ?_
    simp [hfst, hsec] at hnone
  · obtain ⟨hfst, hsec⟩ := not_or.mp hnone
    obtain ⟨first, hfst⟩ := Option.ne_none_iff_exists'.mp hfst
    obtain ⟨second, hsec⟩ := Option.ne_none_iff_exists'.mp hsec
    rw [ne_eq, divideChemicalExpression_zero_iff hfst hsec, not_not]
    constructor
    · rintro hsafe found otherFound hfnd hoth
      rw [some_unique hfnd hfst, some_unique hoth hsec]
      exact hsafe
    · exact fun hsafe => hsafe first second hfst hsec

theorem compareChemicalExpression_zero_iff :
    compareChemicalExpression parser text other ignoreState = .error .zeroDivisionError ↔
      divideChemicalExpression parser text other ignoreState = .error .zeroDivisionError := by
  rw [compareChemicalExpression]
  cases divideChemicalExpression parser text other ignoreState with
  | error err => exact ⟨fun h => congrArg _ (Except.error.inj h), fun h => congrArg _ (Except.error.inj h)⟩
  | ok factor => exact iff_of_false (by simp [bind, Except.bind, pure, Except.pure]) (by simp)

theorem matchingTexts_iff (hsafe : SafeTexts parser text other false) : MatchingTexts parser text other ↔
      ∃ quotient, divideChemicalExpression parser text other false = .ok quotient ∧ isFalse quotient = false := by
  constructor
  · rintro ⟨first, second, hfst, hsec, factor, hpos, hmul⟩
    obtain ⟨quotient, hdiv, hsome, -⟩ := (hsafe first second hfst hsec).exists_quotient hfst hsec
    exact ⟨quotient, hdiv, isFalse_iff.mpr ⟨factor, (hsome factor hpos).mpr hmul, ne_of_gt hpos⟩⟩
  · rintro ⟨quotient, hdiv, hfalse⟩
    by_cases hnone : derivation parser text = none ∨ derivation parser other = none
    · obtain ⟨err, herr, -⟩ : ∃ err, divideChemicalExpression parser text other false = .error err ∧
          err ≠ .zeroDivisionError := divideChemicalExpression_of_none hnone
      rw [herr] at hdiv
      cases hdiv
    · obtain ⟨hfst, hsec⟩ := not_or.mp hnone
      obtain ⟨first, hfst⟩ := Option.ne_none_iff_exists'.mp hfst
      obtain ⟨second, hsec⟩ := Option.ne_none_iff_exists'.mp hsec
      obtain ⟨found, hfnd, hsome, hpos⟩ := (hsafe first second hfst hsec).exists_quotient hfst hsec
      rw [hdiv, Except.ok.injEq] at hfnd
      obtain ⟨factor, hquot, hne⟩ := isFalse_iff.mp hfalse
      have hfac := hpos factor (hfnd.symm.trans hquot) hne
      exact ⟨first, second, hfst, hsec, factor, hfac, (hsome factor hfac).mp (hfnd.symm.trans hquot)⟩

theorem sidesEqual_zero_iff : sidesEqual parser left right otherLeft otherRight exact = .error .zeroDivisionError ↔
      divideChemicalExpression parser left otherLeft false = .error .zeroDivisionError ∨
        (∃ quotient, divideChemicalExpression parser left otherLeft false = .ok quotient ∧ isFalse quotient = false) ∧
          divideChemicalExpression parser right otherRight false = .error .zeroDivisionError := by
  rw [sidesEqual]
  cases divideChemicalExpression parser left otherLeft false with
  | error err => simp [bind, Except.bind]
  | ok quotient =>
    cases hfalse : isFalse quotient with
    | true => simp [hfalse, bind, Except.bind, pure, Except.pure]
    | false =>
      cases divideChemicalExpression parser right otherRight false with
      | error err => simp [hfalse, bind, Except.bind]
      | ok rightQuotient =>
        simp only [hfalse, bind, Except.bind, pure, Except.pure]
        split_ifs <;> simp

theorem sidesEqual_ne_zero_iff : sidesEqual parser left right otherLeft otherRight exact ≠ .error .zeroDivisionError ↔
      SafeTexts parser left otherLeft false ∧
        (MatchingTexts parser left otherLeft → SafeTexts parser right otherRight false) := by
  rw [ne_eq, sidesEqual_zero_iff, not_or, ← ne_eq, divideChemicalExpression_ne_zero_iff, not_and, ← ne_eq,
    divideChemicalExpression_ne_zero_iff]
  exact and_congr_right fun hsafe => by rw [matchingTexts_iff hsafe]

theorem chemicalEquationsEqual_ne_zero_iff :
    chemicalEquationsEqual parser text other exact ≠ .error .zeroDivisionError ↔ SafeEquations parser text other := by
  rw [chemicalEquationsEqual_eq, SafeEquations]
  generalize splitOnArrow text = parts
  generalize splitOnArrow other = otherParts
  obtain ⟨left, arrow, right⟩ := parts
  obtain ⟨otherLeft, otherArrow, otherRight⟩ := otherParts
  dsimp only
  split_ifs with hmis hdif
  · refine iff_of_true (by simp) fun hne heq => ?_
    rcases hmis with harrow | harrow
    · exact absurd harrow hne
    · exact absurd (heq.trans harrow) hne
  · exact iff_of_true (by simp) fun _ heq => absurd heq hdif
  · obtain ⟨hne, -⟩ := not_or.mp hmis
    rw [ne_eq, caught_zero_iff, ← ne_eq, sidesEqual_ne_zero_iff]
    exact ⟨fun hsafe _ _ => hsafe, fun hsafe => hsafe hne (not_not.mp hdif)⟩

end Sorted

def noHydrogen : Parse .S :=
  .last (.counted (.whole (.lastDigit (.digit "0" (by decide))))
    (.unphased (.ofGroup (.lastMember (.base (.baseElement (.element "H" hydrogen_mem)))))))

noncomputable def countParser : ChartParser := parserOf [hydrogen, noHydrogen]

theorem derivation_countParser :
    derivation countParser "H" = some hydrogen ∧ derivation countParser "0H" = some noHydrogen := by
  have htok : tokenize "H" = some ["H"] := by decide +kernel
  have hzer : tokenize "0H" = some ["0", "H"] := by decide +kernel
  exact ⟨derivation_parserOf htok (by decide +kernel) rfl, derivation_parserOf hzer (by decide +kernel) rfl⟩

theorem hydrogen_clippedTerms : hydrogen.clippedTerms = [⟨1, [.element "H" ⟨none, none⟩], none⟩] := by
  simp [hydrogen, elementMolecule, clippedTerms, multimolecules, clippedTerm, coefficient,
    moleculeOf, unphasedOf, phaseOf, clipped, Parse.parts, part, partWith]

theorem noHydrogen_clippedTerms : noHydrogen.clippedTerms = [⟨0, [.element "H" ⟨none, none⟩], none⟩] := by
  have hzero : intOf "0" = 0 := by simp [intOf]
  simp [noHydrogen, clippedTerms, multimolecules, clippedTerm, coefficient, countValue,
    Parse.value, numberText, digitText, hzero, moleculeOf, unphasedOf, phaseOf,
    clipped, Parse.parts, part, partWith]

theorem noHydrogen_not_safe (ignoreState : Bool) : ¬SafeTexts countParser "H" "0H" ignoreState := by
  intro hsafe
  obtain ⟨-, -, hnon⟩ := hsafe hydrogen noHydrogen derivation_countParser.1 derivation_countParser.2
  rw [hydrogen_clippedTerms, noHydrogen_clippedTerms] at hnon
  exact hnon ⟨List.Perm.refl _, fun _ => rfl⟩ _ List.mem_cons_self rfl

end EdxPlatform.Chem
