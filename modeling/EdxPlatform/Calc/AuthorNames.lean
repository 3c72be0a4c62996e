import Mathlib.Algebra.Field.Rat
import EdxPlatform.Calc.Evaluator

/-!
# Names that authors define

`add_defaults` lets the variables and functions of an author go before the defaults, and puts the
names in lower case after that.  An author's name replaces the default that is spelled like it; of
two names that differ in case only, the one that comes last in the dictionary is kept.
-/

namespace EdxPlatform.Calc

open Dict Scope

def DistinctIgnoringCase {ν : Type} (dict : Dict Name ν) : Prop :=
  ∀ name ∈ dict, ∀ other ∈ dict, lower name = lower other → name = other

theorem distinct_ofList {α ν : Type} {entries : List (String × α)} (change : α → ν)
    (hnames : ∀ name ∈ entries.map Prod.fst, ∀ other ∈ entries.map Prod.fst,
      lower name.toList = lower other.toList → name = other) :
    DistinctIgnoringCase (ofList (entries.map fun entry => (entry.1.toList, change entry.2))) := by
  intro name hname other hoth heq
  rw [mem_ofList, map_map] at hname hoth
  obtain ⟨entry, hent, rfl⟩ := mem_map.mp hname
  obtain ⟨found, hfnd, rfl⟩ := mem_map.mp hoth
  exact congrArg String.toList (hnames _ (mem_map_of_mem hent) _ (mem_map_of_mem hfnd) heq)

theorem defaultVariables_distinct {K : Type} [Field K] (library : Library K) :
    DistinctIgnoringCase (defaultVariables library) := by
  refine distinct_ofList (fun value => value) ?_
  simp only [map_cons, map_nil]
  decide +kernel

theorem defaultFunctions_distinct {K : Type} (library : Library K) :
    DistinctIgnoringCase (defaultFunctions library) := by
  refine distinct_ofList library.function ?_
  simp only [map_cons, map_nil]
  decide +kernel

/-! ## Dictionaries with names in lower case -/

section

variable {ν : Type} {defaults authors dict : Dict Name ν}

/-- A default that an author's name equals ignoring case has the author's value, unless the two
are spelled alike. -/
def Spares (defaults authors : Dict Name ν) : Prop :=
  ∀ name author value own, defaults.lookup name = some value → authors.lookup author = some own →
    lower name = lower author → name ≠ author → value = own

/-- Each name that equals an author's name ignoring case is looked up as the author's. -/
def UsesAuthors (authors all : Dict Name ν) (casify : Name → Name) : Prop :=
  ∀ author own, authors.lookup author = some own → ∀ name, lower name = lower author →
    all.lookup (casify name) = some own

theorem lookup_lowerDict (order : Iteration)
    (hsame : ∀ name other value found, dict.lookup name = some value → dict.lookup other = some found →
      lower name = lower other → value = found) (key : Name) (value : ν) :
    (lowerDict order dict).lookup key = some value ↔ ∃ name, lower name = key ∧ dict.lookup name = some value := by
  have hitem : ∀ item, item ∈ order.items dict ↔ dict.lookup item.1 = some item.2 := fun item =>
    (order.perm dict).mem_iff.trans mem_items_iff
  unfold lowerDict
  rw [lookup_ofList, mem_map]
  · constructor
    · rintro ⟨item, hmem, heq⟩
      obtain ⟨rfl, rfl⟩ := Prod.mk.inj heq
      exact ⟨item.1, rfl, (hitem item).mp hmem⟩
    · rintro ⟨name, rfl, hlook⟩
      exact ⟨(name, value), (hitem (name, value)).mpr hlook, rfl⟩
  · intro entry hent other hoth heq
    obtain ⟨item, hmem, rfl⟩ := mem_map.mp hent
    obtain ⟨last, hlast, rfl⟩ := mem_map.mp hoth
    exact hsame _ _ _ _ ((hitem item).mp hmem) ((hitem last).mp hlast) heq

theorem same_of_spares (hdef : DistinctIgnoringCase defaults) (haut : DistinctIgnoringCase authors)
    (hspar : Spares defaults authors) (name other : Name) (value found : ν)
    (hval : (defaults.update authors).lookup name = some value)
    (hfnd : (defaults.update authors).lookup other = some found) (heq : lower name = lower other) :
    value = found := by
  by_cases hne : name = other
  · subst hne
    exact some_unique hval hfnd
  rw [lookup_update, or_eq_some_iff] at hval hfnd
  rcases hval with hval | ⟨-, hval⟩ <;> rcases hfnd with hfnd | ⟨-, hfnd⟩
  · exact absurd (haut name (mem_of_lookup hval) other (mem_of_lookup hfnd) heq) hne
  · exact (hspar other name found value hfnd hval heq.symm (Ne.symm hne)).symm
  · exact hspar name other value found hval hfnd heq hne
  · exact absurd (hdef name (mem_of_lookup hval) other (mem_of_lookup hfnd) heq) hne

def Iteration.endingWith (last : Name) : Iteration where
  items dict := ((dict.entries.filter fun entry => decide (entry.1 ≠ last)) ++
    dict.entries.filter fun entry => !decide (entry.1 ≠ last)).map fun entry => (entry.1, entry.2)
  perm dict := (List.filter_append_perm _ dict.entries).map _

theorem lookup_endingWith {name : Name} {value : ν} (hlook : dict.lookup name = some value) :
    (lowerDict (.endingWith name) dict).lookup (lower name) = some value := by
  let isLast := fun entry : Sigma fun _ : Name => ν => !decide (entry.1 ≠ name)
  have hent : ⟨name, value⟩ ∈ dict.entries.filter isLast := mem_filter.mpr ⟨mem_lookup_iff.mp hlook, by simp [isLast]⟩
  rcases List.eq_nil_or_concat' (dict.entries.filter isLast) with hnil | ⟨front, last, hfront⟩
  · rw [hnil] at hent
    cases hent
  · obtain ⟨hmem, hname⟩ : last ∈ dict.entries ∧ isLast last = true :=
      mem_filter.mp (hfront ▸ mem_append_right front (mem_singleton_self last))
    obtain ⟨key, found⟩ := last
    obtain rfl : key = name := by simpa [isLast] using hname
    have hfnd : dict.lookup key = some found := mem_lookup_iff.mpr hmem
    unfold lowerDict Iteration.endingWith
    change (ofList ((((dict.entries.filter _) ++ dict.entries.filter isLast).map _).map _)).lookup _ = _
    rw [hfront, ← append_assoc, map_append, map_append, map_singleton, map_singleton,
      lookup_ofList_append_singleton, if_pos rfl, ← hfnd, hlook]

section

variable (hdef : DistinctIgnoringCase defaults) (haut : DistinctIgnoringCase authors)
include hdef haut

theorem lookup_lowerDict_comm (hspar : Spares defaults authors) (order other : Iteration) (key : Name) :
    (lowerDict order (defaults.update authors)).lookup key =
      (lowerDict other (defaults.update authors)).lookup key := by
  have hlook := fun order => lookup_lowerDict order (same_of_spares hdef haut hspar) key
  exact Option.ext fun value => (hlook order value).trans (hlook other value).symm

theorem forall_usesAuthors_iff : (∀ order, UsesAuthors authors (lowerDict order (defaults.update authors)) lower) ↔
      Spares defaults authors := by
  constructor
  · intro huses name author value own hval hown heq hne
    have hout : authors.lookup name = none := by
      refine lookup_eq_none.mpr fun hmem => hne ?_
      exact haut name hmem author (mem_of_lookup hown) heq
    have hlast : (defaults.update authors).lookup name = some value := by
      rw [lookup_update, hout, none_or, hval]
    exact some.inj ((lookup_endingWith hlast).symm.trans (huses (.endingWith name) author own hown name heq))
  · intro hspar order author own hown name heq
    refine (lookup_lowerDict order (same_of_spares hdef haut hspar) _ _).mpr ⟨author, heq.symm, ?_⟩
    rw [lookup_update, hown, some_or]

end

end

/-! ## Evaluation -/

section

variable {K : Type} {allVariables otherVariables : Dict Name (Value K)}
  {allFunctions otherFunctions : Dict Name (Value K → Value K)} {casify : Name → Name}
  (hvars : ∀ name, allVariables.lookup name = otherVariables.lookup name)
  (hfuncs : ∀ name, allFunctions.lookup name = otherFunctions.lookup name)
include hvars hfuncs

theorem checkVariables_congr (used : List Used) : checkVariables ⟨allVariables, allFunctions, casify⟩ used =
      checkVariables ⟨otherVariables, otherFunctions, casify⟩ used := by
  have hbad : isBad ⟨allVariables, allFunctions, casify⟩ = isBad ⟨otherVariables, otherFunctions, casify⟩ := by
    funext used
    cases used
    · rw [isBad, isBad, decide_eq_decide, not_iff_not, mem_iff_lookup, mem_iff_lookup, hvars]
    · rw [isBad, isBad, decide_eq_decide, not_iff_not, mem_iff_lookup, mem_iff_lookup, hfuncs]
  unfold checkVariables
  rw [hbad]

theorem evaluateActions_congr [Field K] [DecidableEq K] (library : Library K) :
    evaluateActions library ⟨allVariables, allFunctions, casify⟩ =
      evaluateActions library ⟨otherVariables, otherFunctions, casify⟩ := by
  funext name x
  cases name <;> simp only [evaluateActions, hvars, hfuncs]

end

/-- With pairwise different names, the author's values are used in every order of the
dictionaries exactly where no default is in the way, and then the order makes no difference. -/
theorem usesAuthors_iff {K : Type} [Field K] [DecidableEq K] (library : Library K)
    {userVariables : Dict Name (Value K)} {userFunctions : Dict Name (Value K → Value K)}
    (hvars : DistinctIgnoringCase userVariables) (hfuncs : DistinctIgnoringCase userFunctions) :
    ((∀ order, let scope := addDefaults library order userVariables userFunctions false
        UsesAuthors userVariables scope.allVariables scope.casify ∧
          UsesAuthors userFunctions scope.allFunctions scope.casify) ∧
      ∀ order other mathExpr, evaluator library order userVariables userFunctions mathExpr false =
        evaluator library other userVariables userFunctions mathExpr false) ↔
    Spares (defaultVariables library) userVariables ∧ Spares (defaultFunctions library) userFunctions := by
  have hvar := forall_usesAuthors_iff (defaultVariables_distinct library) hvars
  have hfunc := forall_usesAuthors_iff (defaultFunctions_distinct library) hfuncs
  constructor
  · rintro ⟨huses, -⟩
    exact ⟨hvar.mp fun order => (huses order).1, hfunc.mp fun order => (huses order).2⟩
  rintro ⟨hspares, hspared⟩
  refine ⟨fun order => ⟨hvar.mpr hspares order, hfunc.mpr hspared order⟩, fun order other mathExpr => ?_⟩
  have hvariable := lookup_lowerDict_comm (defaultVariables_distinct library) hvars hspares order other
  have hfunction := lookup_lowerDict_comm (defaultFunctions_distinct library) hfuncs hspared order other
  simp only [evaluator, addDefaults, reduceTree, false_eq_true, if_false,
    checkVariables_congr hvariable hfunction, evaluateActions_congr hvariable hfunction]

def metricLibrary : Library ℚ where
  constant name := some (if name = "scipy.constants.c" then 299792458 else 0)
  function _ value := value
  power base _ := base

def authorVariable (name : String) : Dict Name (Value ℚ) := ofList [(name.toList, some 5)]

theorem authorVariable_distinct (name : String) : DistinctIgnoringCase (authorVariable name) := by
  intro key hkey other hoth _
  have hone : ∀ key ∈ authorVariable name, key = name.toList := fun key hkey => by
    simpa using mem_ofList.mp hkey
  exact (hone key hkey).trans (hone other hoth).symm

theorem authorVariable_radius : ((∀ order, let scope := addDefaults metricLibrary order (authorVariable "R") ∅ false
        UsesAuthors (authorVariable "R") scope.allVariables scope.casify ∧
          UsesAuthors ∅ scope.allFunctions scope.casify) ∧
      ∀ order other mathExpr, evaluator metricLibrary order (authorVariable "R") ∅ mathExpr false =
        evaluator metricLibrary other (authorVariable "R") ∅ mathExpr false) ↔
    Spares (defaultVariables metricLibrary) (authorVariable "R") ∧ Spares (defaultFunctions metricLibrary) ∅ :=
  usesAuthors_iff metricLibrary (authorVariable_distinct "R") fun _ hname => absurd hname (notMem_empty _)

/-- An author's `C` stands for the speed of light where `c` comes last. -/
theorem authorVariable_capital : DistinctIgnoringCase (authorVariable "C") ∧
    evaluator metricLibrary (.endingWith ['c']) (authorVariable "C") ∅ ['C'] false = .ok (some 299792458) ∧
    evaluator metricLibrary (.endingWith ['C']) (authorVariable "C") ∅ ['C'] false = .ok (some 5) :=
  ⟨authorVariable_distinct "C", by decide +kernel, by decide +kernel⟩

end EdxPlatform.Calc
