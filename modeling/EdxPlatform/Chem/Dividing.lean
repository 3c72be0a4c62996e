import Mathlib.Data.Nat.Cast.Order.Ring
import EdxPlatform.Chem.Terms

/-!
# Dividing expressions

One expression is the other up to a factor when its terms are those of the other, each multiplied by the factor, in
any order.  `divide_chemical_expression` decides this for the clipped terms.
-/

namespace EdxPlatform.Chem

open Term

def Term.scale (factor : Rat) (term : Term) : Term := { term with coefficient := factor * term.coefficient }

def IsMultiple (factor : Rat) (terms others : List Term) : Prop := terms.Perm (others.map (Term.scale factor))

theorem isMultiple_one (terms : List Term) : IsMultiple 1 terms terms := by
  refine List.Perm.of_eq (Eq.symm ?_)
  rw [show scale 1 = id from funext fun term => by simp [scale], map_id]

theorem IsMultiple.trans {factor more : Rat} {terms others last : List Term} (hmul : IsMultiple factor terms others)
    (hmore : IsMultiple more others last) : IsMultiple (factor * more) terms last := by
  refine List.Perm.trans hmul ((List.Perm.map _ hmore).trans (.of_eq ?_))
  rw [map_map]
  exact map_congr_left fun term _ => by simp [scale, mul_assoc]

theorem IsMultiple.symm {factor : Rat} {terms others : List Term} (hmul : IsMultiple factor terms others)
    (hne : factor ≠ 0) : IsMultiple factor⁻¹ others terms := by
  have hback := List.Perm.map (scale factor⁻¹) hmul
  rw [map_map, show scale factor⁻¹ ∘ scale factor = id from funext fun term => by simp [scale, hne], map_id] at hback
  exact hback.symm

theorem eq_scale_iff {factor : Rat} {term other : Term} : term = other.scale factor ↔
      term.coefficient = factor * other.coefficient ∧ term.molecule = other.molecule ∧ term.phase = other.phase := by
  rw [mk.injEq]
  exact Iff.rfl

variable {factors others : List Rat}

section

variable (hlen : factors.length = others.length)
include hlen

theorem forall_mem_zip_iff {quotient : Rat} :
    (∀ pair ∈ factors.zip others, pair.1 = quotient * pair.2) ↔ factors = others.map (quotient * ·) := by
  induction factors generalizing others with
  | nil =>
    cases others with
    | nil => simp
    | cons other others => cases hlen
  | cons factor factors ih =>
    cases others with
    | nil => cases hlen
    | cons other others => rw [zip_cons_cons, forall_mem_cons, ih (Nat.succ.inj hlen), map_cons, cons.injEq]

theorem exists_mem_zip_iff : (∃ pair ∈ factors.zip others, pair.2 = 0) ↔ 0 ∈ others := by
  have hoths : (factors.zip others).map Prod.snd = others := by
    rw [map_snd_zip]
    omega
  conv => rhs; rw [← hoths, mem_map]

theorem any_zero_iff : (factors.zip others).any (·.2 = 0) = true ↔ 0 ∈ others := by
  rw [← exists_mem_zip_iff hlen, any_eq_true]
  simp only [decide_eq_true_iff]

theorem divideFactors_zero_iff : divideFactors factors others = .error .zeroDivisionError ↔ 0 ∈ others := by
  cases factors with
  | nil =>
    cases others with
    | nil => simp [divideFactors]
    | cons other others => cases hlen
  | cons factor factors =>
    cases others with
    | nil => cases hlen
    | cons other others =>
      rw [← any_zero_iff hlen, divideFactors]
      split_ifs with hzero hdif
      · exact iff_of_true rfl hzero
      · exact iff_of_false (by simp) hzero
      · exact iff_of_false (by simp) hzero

end

section

variable {quotient : Rat} (hlen : factors.length = others.length)
include hlen

theorem any_differ_iff (hzero : 0 ∉ others) :
    (factors.zip others).any (fun pair => pair.1 / pair.2 - quotient ≠ 0) = false ↔
      factors = others.map (quotient * ·) := by
  rw [← forall_mem_zip_iff hlen, any_eq_false]
  refine forall₂_congr fun pair hpair => ?_
  have hne : pair.2 ≠ 0 := fun heq => hzero ((exists_mem_zip_iff hlen).mp ⟨pair, hpair, heq⟩)
  rw [decide_eq_true_iff, not_not, sub_eq_zero, div_eq_iff hne]

theorem divideFactors_some_iff : divideFactors factors others = .ok (some quotient) ↔
      others ≠ [] ∧ 0 ∉ others ∧ factors = others.map (quotient * ·) := by
  cases factors with
  | nil =>
    cases others with
    | nil => simp [divideFactors]
    | cons other others => cases hlen
  | cons factor factors =>
    cases others with
    | nil => cases hlen
    | cons other others =>
      rw [divideFactors]
      by_cases hzero : 0 ∈ other :: others
      · rw [if_pos ((any_zero_iff hlen).mpr hzero)]
        exact iff_of_false (by simp) fun h => h.2.1 hzero
      · have hne : other ≠ 0 := fun heq => hzero (heq ▸ mem_cons_self)
        rw [if_neg fun h => hzero ((any_zero_iff hlen).mp h)]
        constructor
        · intro hdiv
          split_ifs at hdiv with hdif
          · cases hdiv
          · cases hdiv
            exact ⟨by simp, hzero, (any_differ_iff hlen hzero).mp (eq_false_of_ne_true hdif)⟩
        · rintro ⟨-, -, heq⟩
          have hquot : factor / other = quotient := by
            rw [div_eq_iff hne]
            exact (cons.inj heq).1
          rw [hquot, if_neg]
          rw [(any_differ_iff hlen hzero).mpr heq]
          exact false_ne_true

end

/-! ## Sorted terms -/

def termKey [LinearOrder Tree] (term : Term) : Tree ×ₗ Rat ×ₗ String := entryKey term.entry

theorem entryKey_injective : Injective (entryKey : Entry → Tree ×ₗ Rat ×ₗ String) :=
  toLex.injective.comp (injective_id.prodMap toLex.injective)

section Sorted

variable [LinearOrder Tree]

theorem termKey_injective : Injective termKey := entryKey_injective.comp entry_injective

theorem termKey_le_iff {term other : Term} : termKey term ≤ termKey other ↔
      moleculeTree term.molecule < moleculeTree other.molecule ∨
        moleculeTree term.molecule = moleculeTree other.molecule ∧ (term.coefficient < other.coefficient ∨
            term.coefficient = other.coefficient ∧ stateText term.phase ≤ stateText other.phase) := by
  rw [termKey, termKey, entryKey, entryKey, Prod.Lex.toLex_le_toLex, Prod.Lex.toLex_le_toLex]
  rfl

theorem sortedBy_scale {factor : Rat} (hpos : 0 < factor) (terms : List Term) :
    sortedBy termKey (terms.map (scale factor)) = (sortedBy termKey terms).map (scale factor) := by
  refine sortedBy_map termKey_injective (fun term other hle => ?_) terms
  rw [termKey_le_iff] at hle ⊢
  rcases hle with hlt | ⟨htree, hlt | ⟨hfac, hph⟩⟩
  · exact .inl hlt
  · exact .inr ⟨htree, .inl (mul_lt_mul_of_pos_left hlt hpos)⟩
  · exact .inr ⟨htree, .inr ⟨congrArg (factor * ·) hfac, hph⟩⟩

theorem sortedBy_entry (terms : List Term) :
    sortedBy entryKey (terms.map entry) = (sortedBy termKey terms).map entry :=
  sortedBy_map entryKey_injective (fun _ _ hle => hle) terms

theorem sortedBy_molecules (terms : List Term) :
    sortedBy id ((sortedBy termKey terms).map fun term => moleculeTree term.molecule) =
      (sortedBy termKey terms).map fun term => moleculeTree term.molecule := by
  refine sortedBy_eq_of_perm injective_id (List.Perm.refl _) ?_
  rw [List.pairwise_map]
  refine (sortedBy_pairwise termKey terms).imp fun hle => ?_
  rcases termKey_le_iff.mp hle with hlt | ⟨heq, -⟩
  · exact le_of_lt hlt
  · exact le_of_eq heq

variable {terms others : List Term} {ignoreState : Bool}

variable (terms others ignoreState) in
/-- The same molecules occur as often, and in the sorted order with the same phases unless these are ignored. -/
def Comparable : Prop :=
  (terms.map (·.molecule)).Perm (others.map (·.molecule)) ∧
    (ignoreState = false → (sortedBy termKey terms).map (·.phase) = (sortedBy termKey others).map (·.phase))

theorem sorted_molecules_eq_iff :
    (sortedBy termKey terms).map (·.molecule) = (sortedBy termKey others).map (·.molecule) ↔
      (terms.map (·.molecule)).Perm (others.map (·.molecule)) := by
  constructor
  · intro heq
    exact (((sortedBy_perm termKey terms).map _).symm.trans (List.Perm.of_eq heq)).trans
      ((sortedBy_perm termKey others).map _)
  · intro hperm
    have htrees : (sortedBy termKey terms).map (fun term => moleculeTree term.molecule) =
        (sortedBy termKey others).map fun term => moleculeTree term.molecule := by
      rw [← sortedBy_molecules, ← sortedBy_molecules others, sortedBy_eq_iff injective_id]
      have hmap := hperm.map moleculeTree
      rw [map_map, map_map] at hmap
      exact (((sortedBy_perm termKey terms).map _).trans hmap).trans ((sortedBy_perm termKey others).map _).symm
    refine moleculeTree_injective.list_map ?_
    rw [map_map, map_map]
    exact htrees

theorem checkEquality_iff : checkEquality ((sortedBy entryKey (terms.map entry)).map (·.1))
        ((sortedBy entryKey (others.map entry)).map (·.1)) = true ↔
      (terms.map (·.molecule)).Perm (others.map (·.molecule)) := by
  rw [← sorted_molecules_eq_iff, sortedBy_entry, sortedBy_entry, checkEquality, decide_eq_true_iff, map_map, map_map]
  refine Iff.trans ?_ moleculeTree_injective.list_map.eq_iff
  rw [map_map, map_map]
  exact Eq.congr (sortedBy_molecules terms) (sortedBy_molecules others)

theorem phases_eq_iff : (sortedBy entryKey (terms.map entry)).map (·.2.2) =
        (sortedBy entryKey (others.map entry)).map (·.2.2) ↔
      (sortedBy termKey terms).map (·.phase) = (sortedBy termKey others).map (·.phase) := by
  rw [sortedBy_entry, sortedBy_entry, map_map, map_map]
  refine Iff.trans ?_ stateText_injective.list_map.eq_iff
  rw [map_map, map_map]
  rfl

theorem divideEntries_error {first second : List Entry} {err : ChemError}
    (herror : divideEntries first second ignoreState = .error err) : err = .zeroDivisionError := by
  rw [divideEntries] at herror
  split_ifs at herror
  rw [divideFactors.eq_def] at herror
  split at herror
  · split_ifs at herror
    exact (Except.error.inj herror).symm
  · cases herror

theorem divideEntries_of_not_comparable (hnot : ¬Comparable terms others ignoreState) :
    divideEntries (sortedBy entryKey (terms.map entry)) (sortedBy entryKey (others.map entry)) ignoreState =
      .ok none := by
  rw [divideEntries]
  split_ifs with hmol hphas
  · rfl
  · rfl
  · rw [not_eq_true, Bool.not_eq_false'] at hmol
    refine absurd ⟨checkEquality_iff.mp hmol, fun hign => phases_eq_iff.mp ?_⟩ hnot
    simpa [hign] using hphas

theorem divideEntries_of_comparable (hcmp : Comparable terms others ignoreState) :
    divideEntries (sortedBy entryKey (terms.map entry)) (sortedBy entryKey (others.map entry)) ignoreState =
      divideFactors ((sortedBy termKey terms).map (·.coefficient)) ((sortedBy termKey others).map (·.coefficient)) := by
  have hphas : (!ignoreState && decide ((sortedBy entryKey (terms.map entry)).map (·.2.2) ≠
      (sortedBy entryKey (others.map entry)).map (·.2.2))) = false := by
    cases ignoreState with
    | true => rfl
    | false => simp [phases_eq_iff.mpr (hcmp.2 rfl)]
  rw [divideEntries, checkEquality_iff.mpr hcmp.1, if_neg (by simp), if_neg (by rw [hphas]; simp),
    sortedBy_entry, sortedBy_entry, map_map, map_map]
  rfl

theorem Comparable.length_eq (hcmp : Comparable terms others ignoreState) :
    ((sortedBy termKey terms).map (·.coefficient)).length =
      ((sortedBy termKey others).map (·.coefficient)).length := by
  have hlen := hcmp.1.length_eq
  rw [length_map, length_map] at hlen
  rw [length_map, length_map, (sortedBy_perm termKey terms).length_eq, (sortedBy_perm termKey others).length_eq, hlen]

theorem divideEntries_zero_iff :
    divideEntries (sortedBy entryKey (terms.map entry)) (sortedBy entryKey (others.map entry)) ignoreState =
        .error .zeroDivisionError ↔
      Comparable terms others ignoreState ∧ ∃ term ∈ others, term.coefficient = 0 := by
  by_cases hcmp : Comparable terms others ignoreState
  · rw [divideEntries_of_comparable hcmp, divideFactors_zero_iff hcmp.length_eq, mem_map]
    simp only [(sortedBy_perm termKey others).mem_iff]
    exact (and_iff_right hcmp).symm
  · rw [divideEntries_of_not_comparable hcmp]
    exact iff_of_false (by simp) fun h => hcmp h.1

theorem isMultiple_iff_sorted {factor : Rat} (hpos : 0 < factor) : IsMultiple factor terms others ↔
      Comparable terms others false ∧ (sortedBy termKey terms).map (·.coefficient) =
          ((sortedBy termKey others).map (·.coefficient)).map (factor * ·) := by
  rw [IsMultiple, ← sortedBy_eq_iff termKey_injective, sortedBy_scale hpos, Comparable, ← sorted_molecules_eq_iff]
  generalize sortedBy termKey terms = first
  generalize sortedBy termKey others = second
  induction first generalizing second with
  | nil => cases second <;> simp
  | cons term first ih =>
    cases second with
    | nil => simp
    | cons other second =>
      simp only [map_cons, cons.injEq, ih, eq_scale_iff, true_implies]
      exact ⟨fun ⟨⟨hcoef, hmole, hph⟩, ⟨hmol, hphas⟩, hcoeff⟩ =>
          ⟨⟨⟨hmole, hmol⟩, hph, hphas⟩, hcoef, hcoeff⟩,
        fun ⟨⟨⟨hmole, hmol⟩, hph, hphas⟩, hcoef, hcoeff⟩ => ⟨⟨hcoef, hmole, hph⟩, ⟨hmol, hphas⟩, hcoeff⟩⟩

theorem divideEntries_some_iff {factor : Rat} (hpos : 0 < factor) :
    divideEntries (sortedBy entryKey (terms.map entry)) (sortedBy entryKey (others.map entry)) false =
        .ok (some factor) ↔
      others ≠ [] ∧ (∀ term ∈ others, term.coefficient ≠ 0) ∧ IsMultiple factor terms others := by
  rw [isMultiple_iff_sorted hpos]
  by_cases hcmp : Comparable terms others false
  · rw [divideEntries_of_comparable hcmp, divideFactors_some_iff hcmp.length_eq, and_iff_right hcmp, mem_map]
    refine and_congr ?_ (and_congr ?_ Iff.rfl)
    · rw [ne_eq, map_eq_nil_iff, ← length_eq_zero_iff, (sortedBy_perm termKey others).length_eq, length_eq_zero_iff]
    · simp only [(sortedBy_perm termKey others).mem_iff, not_exists, not_and, ne_eq]
  · rw [divideEntries_of_not_comparable hcmp]
    exact iff_of_false (by simp) fun h => hcmp h.2.2.1

theorem divideEntries_pos (hterms : ∀ term ∈ terms, 0 ≤ term.coefficient)
    (hoths : ∀ term ∈ others, 0 ≤ term.coefficient) {factor : Rat} (hfac : factor ≠ 0)
    (hdiv : divideEntries (sortedBy entryKey (terms.map entry)) (sortedBy entryKey (others.map entry))
      ignoreState = .ok (some factor)) : 0 < factor := by
  have hcmp : Comparable terms others ignoreState := by
    by_contra hnot
    rw [divideEntries_of_not_comparable hnot] at hdiv
    cases hdiv
  rw [divideEntries_of_comparable hcmp, divideFactors_some_iff hcmp.length_eq] at hdiv
  obtain ⟨hne, hzero, heq⟩ := hdiv
  obtain ⟨other, hoth⟩ := exists_mem_of_ne_nil _ hne
  have hmem : factor * other ∈ (sortedBy termKey terms).map (·.coefficient) := by
    rw [heq]
    exact mem_map_of_mem hoth
  have hotherNe : other ≠ 0 := fun h => hzero (h ▸ hoth)
  obtain ⟨term, hterm, hcoef⟩ := mem_map.mp hmem
  obtain ⟨otherTerm, hothe, rfl⟩ := mem_map.mp hoth
  have hnn := hterms term ((sortedBy_perm termKey terms).mem_iff.mp hterm)
  have hpos := lt_of_le_of_ne (hoths otherTerm ((sortedBy_perm termKey others).mem_iff.mp hothe)) hotherNe.symm
  rw [hcoef] at hnn
  exact lt_of_le_of_ne (nonneg_of_mul_nonneg_left hnn hpos) hfac.symm

end Sorted

/-! ## Derivations -/

def derivation (parser : ChartParser) (text : String) : Option (Parse .S) :=
  match tokenize text with
  | none => none
  | some tokens => if tokens.all (· ∈ terminals) then parser.parse tokens else none

namespace Parse

theorem coefficient_nonneg (multimolecule : Parse .multimolecule) : 0 ≤ multimolecule.coefficient := by
  cases multimolecule with
  | counted count molecule =>
    cases count with
    | whole number => exact Nat.cast_nonneg number.value
    | fraction numerator denominator => exact div_nonneg (Nat.cast_nonneg _) (Nat.cast_nonneg _)
  | uncounted molecule => exact zero_le_one

theorem clippedTerms_nonneg (parsed : Parse .S) : ∀ term ∈ parsed.clippedTerms, 0 ≤ term.coefficient := by
  intro term hterm
  obtain ⟨multimolecule, -, rfl⟩ := mem_map.mp hterm
  exact multimolecule.coefficient_nonneg

theorem clippedTerms_ne_nil (parsed : Parse .S) : parsed.clippedTerms ≠ [] := by
  cases parsed <;> simp [clippedTerms, multimolecules]

end Parse

section

variable {parser : ChartParser} {text : String}

theorem getFinalTree_of_derivation {parsed : Parse .S}
    (hderiv : derivation parser text = some parsed) : getFinalTree parser text = .ok parsed.final := by
  rw [derivation] at hderiv
  rw [getFinalTree]
  cases htok : tokenize text with
  | none =>
    rw [htok] at hderiv
    cases hderiv
  | some tokens =>
    simp only [htok] at hderiv ⊢
    split_ifs at hderiv ⊢ with hall
    rw [hderiv]
    exact congrArg Except.ok parsed.cleanParseTree_merged

theorem getFinalTree_of_none (hderiv : derivation parser text = none) :
    ∃ err, getFinalTree parser text = .error err ∧ err ≠ .zeroDivisionError := by
  rw [derivation] at hderiv
  rw [getFinalTree]
  cases htok : tokenize text with
  | none => exact ⟨.parseException, rfl, by simp⟩
  | some tokens =>
    simp only [htok] at hderiv ⊢
    split_ifs at hderiv ⊢ with hall
    · rw [hderiv]
      exact ⟨.parseException, rfl, by simp⟩
    · exact ⟨.valueError, rfl, by simp⟩

end

section Divided

variable [LinearOrder Tree] {parser : ChartParser} {text other : String} {first second : Parse .S} {ignoreState : Bool}

theorem divideChemicalExpression_of_derivation (hfst : derivation parser text = some first)
    (hsec : derivation parser other = some second) :
    divideChemicalExpression parser text other ignoreState =
      if first.HasZeroFraction ∨ second.HasZeroFraction then .error .zeroDivisionError
      else divideEntries (sortedBy entryKey (first.clippedTerms.map entry))
        (sortedBy entryKey (second.clippedTerms.map entry)) ignoreState := by
  have hents : divideChemicalExpression parser text other ignoreState =
      (do
        let found ← entries first.final
        let otherFound ← entries second.final
        divideEntries (sortedBy entryKey found) (sortedBy entryKey otherFound) ignoreState) := by
    rw [divideChemicalExpression, getFinalTree_of_derivation hfst, getFinalTree_of_derivation hsec]
    rfl
  rw [hents, Parse.entries_final, Parse.entries_final]
  by_cases hfir : first.HasZeroFraction
  · rw [if_pos hfir, if_pos (Or.inl hfir)]
    rfl
  · rw [if_neg hfir]
    split_ifs with hseco heit heit
    · rfl
    · exact absurd (Or.inr hseco) heit
    · exact absurd heit (not_or.mpr ⟨hfir, hseco⟩)
    · rfl

theorem divideChemicalExpression_of_none (hnone : derivation parser text = none ∨ derivation parser other = none) :
    ∃ err, divideChemicalExpression parser text other ignoreState = .error err ∧ err ≠ .zeroDivisionError := by
  rw [divideChemicalExpression]
  cases hfst : derivation parser text with
  | none =>
    obtain ⟨err, herr, hne⟩ := getFinalTree_of_none hfst
    rw [herr]
    exact ⟨err, rfl, hne⟩
  | some first =>
    obtain ⟨err, herr, hne⟩ := getFinalTree_of_none (hnone.resolve_left (by simp [hfst]))
    rw [getFinalTree_of_derivation hfst, herr]
    exact ⟨err, rfl, hne⟩

variable (first second ignoreState) in
/-- No divisor is zero: not in a fraction, and no coefficient of the second where the terms are comparable. -/
def DividesSafely : Prop :=
  ¬first.HasZeroFraction ∧ ¬second.HasZeroFraction ∧ (Comparable first.clippedTerms second.clippedTerms ignoreState →
      ∀ term ∈ second.clippedTerms, term.coefficient ≠ 0)

theorem divideChemicalExpression_zero_iff (hfst : derivation parser text = some first)
    (hsec : derivation parser other = some second) :
    divideChemicalExpression parser text other ignoreState = .error .zeroDivisionError ↔
      ¬DividesSafely first second ignoreState := by
  rw [divideChemicalExpression_of_derivation hfst hsec, DividesSafely]
  split_ifs with hzero
  · exact iff_of_true rfl fun h => not_or.mpr ⟨h.1, h.2.1⟩ hzero
  · obtain ⟨hfir, hseco⟩ := not_or.mp hzero
    rw [divideEntries_zero_iff, and_iff_right hfir, and_iff_right hseco, Classical.not_imp]
    simp only [not_forall, not_not, exists_prop]

/-- Where no divisor is zero there is a quotient, and a positive one is that by which the terms are a multiple. -/
theorem DividesSafely.exists_quotient (hsafe : DividesSafely first second false)
    (hfst : derivation parser text = some first) (hsec : derivation parser other = some second) :
    ∃ quotient, divideChemicalExpression parser text other false = .ok quotient ∧
      (∀ factor, 0 < factor → (quotient = some factor ↔ IsMultiple factor first.clippedTerms second.clippedTerms)) ∧
      ∀ factor, quotient = some factor → factor ≠ 0 → 0 < factor := by
  cases hdiv : divideChemicalExpression parser text other false with
  | error err =>
    refine absurd hsafe ((divideChemicalExpression_zero_iff hfst hsec).mp ?_)
    rw [hdiv]
    rw [divideChemicalExpression_of_derivation hfst hsec, if_neg (not_or.mpr ⟨hsafe.1, hsafe.2.1⟩)] at hdiv
    rw [divideEntries_error hdiv]
  | ok quotient =>
    rw [divideChemicalExpression_of_derivation hfst hsec, if_neg (not_or.mpr ⟨hsafe.1, hsafe.2.1⟩)] at hdiv
    refine ⟨quotient, rfl, fun factor hpos => ?_, fun factor hquot hfac => ?_⟩
    · have hsome := @divideEntries_some_iff _ first.clippedTerms second.clippedTerms factor hpos
      rw [hdiv, Except.ok.injEq] at hsome
      rw [hsome, and_iff_right second.clippedTerms_ne_nil]
      refine and_iff_right_of_imp fun hmul => hsafe.2.2 ?_
      exact ((isMultiple_iff_sorted hpos).mp hmul).1
    · rw [hquot] at hdiv
      exact divideEntries_pos first.clippedTerms_nonneg second.clippedTerms_nonneg hfac hdiv

end Divided

end EdxPlatform.Chem
