import Mathlib.Data.List.Infix
import EdxPlatform.Lib.ShortNames

/-!
# Regular expressions

A compiled pattern is the list of its alternatives at the top level.  An engine is taken to read
patterns in the standard way: `|` binds weakest, so that an anchor in front of a pattern holds for the
first alternative alone and an anchor behind it for the last one alone.
-/

namespace EdxPlatform.Regex

/-! ## Searching -/

/-- Where one alternative matches: the text before, the text matched and the text after. -/
abbrev Branch := List Char → List Char → List Char → Bool

namespace Branch

/-- `^` before the alternative. -/
def atStart (branch : Branch) : Branch := fun before matched after => before.isEmpty && branch before matched after

/-- `$` behind the alternative, which also holds before a last line end. -/
def atEnd (branch : Branch) : Branch := fun before matched after =>
  (after.isEmpty || after == ['\n']) && branch before matched after

end Branch

def splits {α : Type} : List α → List (List α × List α)
  | [] => [([], [])]
  | head :: tail => ([], head :: tail) :: (splits tail).map fun parts => (head :: parts.1, parts.2)

theorem mem_splits {α : Type} {front back whole : List α} : (front, back) ∈ splits whole ↔ front ++ back = whole := by
  induction whole generalizing front back with
  | nil => simp [splits]
  | cons head tail ih =>
    cases front with
    | nil => simp [splits]
    | cons first front =>
      simp only [splits, mem_cons, Prod.mk.injEq, reduceCtorEq, false_and, mem_map,
        Prod.exists, cons.injEq, false_or, cons_append]
      constructor
      · rintro ⟨front', back', hmem, ⟨rfl, rfl⟩, rfl⟩
        exact ⟨rfl, ih.mp hmem⟩
      · rintro ⟨rfl, happ⟩
        exact ⟨front, back, ih.mpr happ, ⟨rfl, rfl⟩, rfl⟩

/-- `re.search`: some alternative matches somewhere. -/
def search (branches : List Branch) (text : List Char) : Bool :=
  (splits text).any fun outer => (splits outer.2).any fun inner =>
    branches.any fun branch => branch outer.1 inner.1 inner.2

variable {text : List Char}

section

variable {branches : List Branch}

theorem search_eq_true : search branches text = true ↔ ∃ branch ∈ branches, ∃ before matched after,
      before ++ (matched ++ after) = text ∧ branch before matched after = true := by
  simp only [search, any_eq_true, Prod.exists]
  constructor
  · rintro ⟨before, rest, hrest, matched, after, haft, branch, hbr, hmat⟩
    refine ⟨branch, hbr, before, matched, after, ?_, hmat⟩
    rw [mem_splits.mp haft, mem_splits.mp hrest]
  · rintro ⟨branch, hbr, before, matched, after, htext, hmat⟩
    exact ⟨before, matched ++ after, mem_splits.mpr htext, matched, after, mem_splits.mpr rfl, branch, hbr, hmat⟩

def fullMatch (branches : List Branch) (text : List Char) : Bool := branches.any fun branch => branch [] text []

theorem fullMatch_flatMap {α : Type} {parts : List α} {branches : α → List Branch} :
    fullMatch (parts.flatMap branches) text = true ↔ ∃ part ∈ parts, fullMatch (branches part) text = true := by
  simp only [fullMatch, any_eq_true, mem_flatMap]
  constructor
  · rintro ⟨branch, ⟨part, hpart, hbr⟩, hmat⟩
    exact ⟨part, hpart, branch, hbr, hmat⟩
  · rintro ⟨part, hpart, branch, hbr, hmat⟩
    exact ⟨branch, ⟨part, hpart, hbr⟩, hmat⟩

/-! ## Anchors at the two ends of a list of alternatives -/

/-- `$` behind the last alternative. -/
def anchorEnd : List Branch → List Branch
  | [] => []
  | [branch] => [branch.atEnd]
  | branch :: next :: rest => branch :: anchorEnd (next :: rest)

/-- `^` before the first alternative and `$` behind the last one. -/
def anchored : List Branch → List Branch
  | [] => []
  | branch :: rest => anchorEnd (branch.atStart :: rest)

/-- An alternative matches a part of the text: the first one at its start, the last one at its end,
any other one anywhere. -/
def PlacedMatch (branches : List Branch) (text : List Char) : Prop :=
  ∃ index branch, branches[index]? = some branch ∧ ∃ before matched after,
    before ++ (matched ++ after) = text ∧ branch before matched after = true ∧
      (index = 0 → before = []) ∧ (index + 1 = branches.length → after = [])

theorem PlacedMatch.of_fullMatch (hmat : fullMatch branches text = true) : PlacedMatch branches text := by
  obtain ⟨branch, hbr, hmat⟩ := any_eq_true.mp hmat
  obtain ⟨index, hidx⟩ := List.getElem?_of_mem hbr
  exact ⟨index, branch, hidx, [], text, [], by simp, hmat, fun _ => rfl, fun _ => rfl⟩

section

variable (hplac : PlacedMatch branches text) (others : List Branch)
include hplac

theorem PlacedMatch.append_right : PlacedMatch (branches ++ others) text := by
  obtain ⟨index, branch, hidx, before, matched, after, htext, hmat, hfst, hlast⟩ := hplac
  have hlt : index < branches.length := (getElem?_eq_some_iff.mp hidx).1
  refine ⟨index, branch, ?_, before, matched, after, htext, hmat, hfst, ?_⟩
  · rw [List.getElem?_append_left hlt, hidx]
  · intro hend
    rw [length_append] at hend
    exact hlast (by omega)

theorem PlacedMatch.append_left : PlacedMatch (others ++ branches) text := by
  obtain ⟨index, branch, hidx, before, matched, after, htext, hmat, hfst, hlast⟩ := hplac
  refine ⟨others.length + index, branch, ?_, before, matched, after, htext, hmat, ?_, ?_⟩
  · rw [List.getElem?_append_right (Nat.le_add_right _ _), Nat.add_sub_cancel_left, hidx]
  · intro hst
    exact hfst (by omega)
  · intro hend
    rw [length_append] at hend
    exact hlast (by omega)

end

theorem PlacedMatch.flatMap {α : Type} {parts : List α} {branches : α → List Branch} {part : α}
    (hpart : part ∈ parts) (hplac : PlacedMatch (branches part) text) :
    PlacedMatch (parts.flatMap branches) text := by
  obtain ⟨earlier, later, rfl⟩ := append_of_mem hpart
  rw [flatMap_append, flatMap_cons]
  exact (hplac.append_right _).append_left _

section

variable (branches : List Branch) (index : Nat)

theorem getElem?_anchorEnd : (anchorEnd branches)[index]? = branches[index]?.map fun branch =>
      if index + 1 = branches.length then branch.atEnd else branch := by
  induction branches generalizing index with
  | nil => rfl
  | cons branch rest ih =>
    cases rest with
    | nil => cases index <;> simp [anchorEnd]
    | cons next rest =>
      cases index with
      | zero => simp [anchorEnd]
      | succ index =>
        rw [anchorEnd, List.getElem?_cons_succ, ih, List.getElem?_cons_succ]
        simp

theorem getElem?_anchored : (anchored branches)[index]? = branches[index]?.map fun branch =>
      let started := if index = 0 then branch.atStart else branch
      if index + 1 = branches.length then started.atEnd else started := by
  cases branches with
  | nil => rfl
  | cons branch rest =>
    rw [anchored, getElem?_anchorEnd]
    cases index with
    | zero => simp
    | succ index => simp

end

theorem anchors_match (branch : Branch) (first last : Prop) [Decidable first] [Decidable last]
    {before matched after : List Char} (haft : after ≠ ['\n']) :
    (let started := if first then branch.atStart else branch
      if last then started.atEnd else started) before matched after = true ↔
    branch before matched after = true ∧ (first → before = []) ∧ (last → after = []) := by
  by_cases hfst : first <;> by_cases hlast : last <;>
    simp [hfst, hlast, Branch.atStart, Branch.atEnd, haft, and_comm, and_assoc]

theorem search_anchored (hline : text.getLast? ≠ some '\n') :
    search (anchored branches) text = true ↔ PlacedMatch branches text := by
  have hend {before matched after : List Char} (htext : before ++ (matched ++ after) = text) : after ≠ ['\n'] := by
    rintro rfl
    apply hline
    rw [← htext, ← append_assoc, getLast?_concat]
  rw [search_eq_true]
  constructor
  · rintro ⟨anchoredBranch, hmem, before, matched, after, htext, hmat⟩
    obtain ⟨index, hidx⟩ := List.getElem?_of_mem hmem
    rw [getElem?_anchored, map_eq_some_iff] at hidx
    obtain ⟨branch, hbr, rfl⟩ := hidx
    exact ⟨index, branch, hbr, before, matched, after, htext, (anchors_match branch _ _ (hend htext)).mp hmat⟩
  · rintro ⟨index, branch, hbr, before, matched, after, htext, hmat⟩
    refine ⟨_, mem_of_getElem? (i := index) ?_, before, matched, after, htext,
      (anchors_match branch _ _ (hend htext)).mpr hmat⟩
    rw [getElem?_anchored, hbr, map_some]

end

structure Engine where
  /-- The alternatives of a pattern, with or without case; none for what is no regular expression. -/
  compile : Bool → List Char → Option (List Branch)

/-- The engine reads the expressions told of in the standard way. -/
structure Engine.ReadsStandard (re : Engine) (expression : List Char → Prop) : Prop where
  compiles {pattern} : expression pattern → ∀ ignoreCase, ∃ first rest,
    re.compile ignoreCase pattern = some (first :: rest)
  alternation {pattern other} : expression pattern → expression other → expression (pattern ++ '|' :: other)
  compile_alternation {pattern other ignoreCase branches others} : expression pattern → expression other →
    re.compile ignoreCase pattern = some branches → re.compile ignoreCase other = some others →
    re.compile ignoreCase (pattern ++ '|' :: other) = some (branches ++ others)
  caret {pattern} : expression pattern → expression ('^' :: pattern)
  compile_caret {pattern ignoreCase first rest} : expression pattern →
    re.compile ignoreCase pattern = some (first :: rest) →
    re.compile ignoreCase ('^' :: pattern) = some (first.atStart :: rest)
  compile_dollar {pattern ignoreCase branches} : expression pattern → re.compile ignoreCase pattern = some branches →
    re.compile ignoreCase (pattern ++ ['$']) = some (anchorEnd branches)

namespace Engine

def branches (re : Engine) (ignoreCase : Bool) (pattern : List Char) : List Branch :=
  (re.compile ignoreCase pattern).getD []

variable {re : Engine} {expression : List Char → Prop} (hre : re.ReadsStandard expression)

include hre

variable {pattern : List Char}

section

variable (hpat : expression pattern) (ignoreCase : Bool)
include hpat

theorem ReadsStandard.compile_eq : re.compile ignoreCase pattern = some (re.branches ignoreCase pattern) := by
  obtain ⟨first, rest, hcom⟩ := hre.compiles hpat ignoreCase
  rw [branches, hcom, getD_some]

theorem ReadsStandard.branches_ne_nil : re.branches ignoreCase pattern ≠ [] := by
  obtain ⟨first, rest, hcom⟩ := hre.compiles hpat ignoreCase
  rw [branches, hcom, getD_some]
  exact cons_ne_nil first rest

end

section

variable {patterns : List (List Char)} (hne : patterns ≠ [])
  (hpatt : ∀ pattern ∈ patterns, expression pattern) (ignoreCase : Bool)
include hne hpatt

theorem ReadsStandard.compile_joined :
    expression (List.intercalate ['|'] patterns) ∧ re.compile ignoreCase (List.intercalate ['|'] patterns) =
        some (patterns.flatMap (re.branches ignoreCase)) := by
  induction patterns with
  | nil => exact absurd rfl hne
  | cons pattern rest ih =>
    have hpat := hpatt pattern mem_cons_self
    cases rest with
    | nil =>
      rw [List.intercalate_singleton, flatMap_singleton]
      exact ⟨hpat, hre.compile_eq hpat ignoreCase⟩
    | cons next rest =>
      obtain ⟨hexpr, hcom⟩ := ih (cons_ne_nil next rest) fun other hoth => hpatt other (mem_cons_of_mem pattern hoth)
      have hjoin : List.intercalate ['|'] (pattern :: next :: rest) =
          pattern ++ '|' :: List.intercalate ['|'] (next :: rest) := by
        simp [List.intercalate]
      rw [hjoin, flatMap_cons]
      exact ⟨hre.alternation hpat hexpr, hre.compile_alternation hpat hexpr (hre.compile_eq hpat ignoreCase) hcom⟩

/-- The anchors of `'^' + '|'.join(patterns) + '$'` are those of the first and of the last alternative
of all the expressions. -/
theorem ReadsStandard.compile_anchored : re.compile ignoreCase ('^' :: (List.intercalate ['|'] patterns ++ ['$'])) =
      some (anchored (patterns.flatMap (re.branches ignoreCase))) := by
  obtain ⟨hexpr, hcom⟩ := hre.compile_joined hne hpatt ignoreCase
  cases hbrs : patterns.flatMap (re.branches ignoreCase) with
  | nil =>
    obtain ⟨pattern, hmem⟩ := exists_mem_of_ne_nil patterns hne
    exact absurd (List.flatMap_eq_nil_iff.mp hbrs pattern hmem) (hre.branches_ne_nil (hpatt pattern hmem) ignoreCase)
  | cons first rest =>
    rw [hbrs] at hcom
    rw [← cons_append, hre.compile_dollar (hre.caret hexpr) (hre.compile_caret hexpr hcom), anchored]

end

theorem ReadsStandard.compile_anchored_one (hpat : expression pattern) (ignoreCase : Bool) :
    re.compile ignoreCase ('^' :: (pattern ++ ['$'])) = some (anchored (re.branches ignoreCase pattern)) := by
  have hcom := hre.compile_anchored (cons_ne_nil pattern []) (by simpa using hpat) ignoreCase
  rwa [List.intercalate_singleton, flatMap_singleton] at hcom

end Engine

end EdxPlatform.Regex
