import Mathlib
import EdxPlatform.Capa.Responses
import EdxPlatform.Lib.RegexReader

/-!
# Texts as answers

A string response lists one expected answer and perhaps additional ones, as texts or as regular
expressions.  All listed expressions are put into one pattern.
-/

namespace EdxPlatform

open Regex

/-! ## Spaces around a text -/

def stripList (isSpace : Char → Bool) (text : List Char) : List Char := (text.dropWhile isSpace).rdropWhile isSpace

section StripList

variable {isSpace : Char → Bool} (text : List Char)

theorem stripList_sublist : (stripList isSpace text).Sublist text :=
  (List.rdropWhile_prefix isSpace _).sublist.trans (List.dropWhile_suffix isSpace).sublist

theorem not_isSpace_of_getLast?_stripList {text : List Char} {c : Char}
    (hlast : (stripList isSpace text).getLast? = some c) : isSpace c = false := by
  have hne : stripList isSpace text ≠ [] := by
    intro hnil
    rw [hnil] at hlast
    cases hlast
  rw [List.getLast?_eq_some_getLast hne, some_inj] at hlast
  have hkept := List.rdropWhile_last_not isSpace _ hne
  rwa [← hlast, eq_false_iff]

theorem stripList_stripList : stripList isSpace (stripList isSpace text) = stripList isSpace text := by
  have hst : (stripList isSpace text).dropWhile isSpace = stripList isSpace text := by
    rw [List.dropWhile_eq_self_iff]
    intro hpos
    have hpre : stripList isSpace text <+: text.dropWhile isSpace := List.rdropWhile_prefix isSpace _
    have hhead := hpre.getElem hpos
    have hdrop : 0 < (text.dropWhile isSpace).length := lt_of_lt_of_le hpos hpre.length_le
    rw [hhead]
    exact List.dropWhile_get_zero_not isSpace text hdrop
  conv_lhs => rw [stripList, hst, stripList]
  rw [List.rdropWhile_idempotent, stripList]

section

variable {lower : Char → Char} (hlower : ∀ c, isSpace (lower c) = isSpace c)
include hlower

theorem stripList_map (text : List Char) :
    stripList isSpace (text.map lower) = (stripList isSpace text).map lower := by
  have hcomp : isSpace ∘ lower = isSpace := funext hlower
  rw [stripList, List.dropWhile_map, hcomp, List.rdropWhile, ← List.map_reverse, List.dropWhile_map, hcomp,
    ← List.map_reverse]
  rfl

theorem stripList_eq_self_of_map_eq {text other : List Char} (hcase : text.map lower = other.map lower)
    (hoth : stripList isSpace other = other) :
    stripList isSpace text = text := by
  apply (stripList_sublist text).eq_of_length
  have hmap : (stripList isSpace text).map lower = text.map lower := by
    rw [← stripList_map hlower, hcase, stripList_map hlower, hoth]
  simpa using congrArg List.length hmap

end

end StripList

/-- What is documented of the texts: `strip` takes white space from both ends, and `lower` works on each
character and on no white space. -/
structure Libraries.TreatsTexts {ν : Type} (libraries : Libraries ν) (isSpace : Char → Bool)
    (lower : Char → Char) : Prop where
  strip_eq (text : String) : (libraries.strip text).toList = stripList isSpace text.toList
  lower_eq (text : String) : (libraries.lower text).toList = text.toList.map lower
  isSpace_lineEnd : isSpace '\n' = true
  isSpace_lower (c : Char) : isSpace (lower c) = isSpace c

theorem Libraries.TreatsTexts.getLast?_strip {ν : Type} {libraries : Libraries ν} {isSpace : Char → Bool}
    {lower : Char → Char}     (htexts : libraries.TreatsTexts isSpace lower) (text : String) :
    (libraries.strip text).toList.getLast? ≠ some '\n' := by
  intro hlast
  rw [htexts.strip_eq] at hlast
  have hkept := not_isSpace_of_getLast?_stripList hlast
  rw [htexts.isSpace_lineEnd] at hkept
  cases hkept

/-- The search for regular expressions is that of an engine which reads some of them in the standard way. -/
structure Libraries.SearchesWith {ν : Type} (libraries : Libraries ν) (re : Engine)
    (expression : List Char → Prop) : Prop where
  standard : re.ReadsStandard expression
  search_eq (pattern : String) (ignoreCase : Bool) (text : String) : libraries.search pattern ignoreCase text =
      (re.compile ignoreCase pattern.toList).map (Regex.search · text.toList)

/-! ## Setup from the XML -/

/-- A node with the text of a hint. -/
structure HintNode where
  text : String
  label : Option String := none

/-- An `additional_answer` node. -/
structure AdditionalAnswer where
  answer : String
  correctHint : Option HintNode := none

/-- A `stringequalhint` or `regexphint` node. -/
structure WrongAnswer where
  answer : String := ""
  hint : HintNode

/-- A `stringresponse` node. -/
structure StringXml where
  field : InputField
  answer : String
  type : Option String := none
  correctHint : Option HintNode := none
  additionalAnswers : List AdditionalAnswer := []
  stringEqualHints : List WrongAnswer := []
  regexpHints : List WrongAnswer := []

namespace StringXml

variable {ν : Type} (libraries : Libraries ν) (contextualizeText : String → String) (xml : StringXml)

def answers : List String := xml.answer :: xml.additionalAnswers.map AdditionalAnswer.answer

/-- The words of the `type` attribute. -/
def types : List (List Char) :=
  match xml.type with
  | none => []
  | some type => (libraries.lower type).toList.splitOn ' '

/-- `setup_response`. -/
def setupResponse : StringResponse where
  field := xml.field
  backward := decide ("_or_".toList <:+: (libraries.lower xml.answer).toList)
  regexp := decide ("regexp".toList ∈ xml.types libraries)
  caseInsensitive := decide ("ci".toList ∈ xml.types libraries)
  correctAnswer :=
    if "_or_".toList <:+: (libraries.lower xml.answer).toList then
      (xml.answer.splitOn "_or_").map fun answer => libraries.strip (contextualizeText answer)
    else xml.answers.map fun answer => libraries.strip (contextualizeText answer)

variable {libraries contextualizeText xml}

theorem setupResponse_correctAnswer (hfor : (xml.setupResponse libraries contextualizeText).backward = false) :
    (xml.setupResponse libraries contextualizeText).correctAnswer =
      xml.answers.map fun answer => libraries.strip (contextualizeText answer) :=
  if_neg (of_decide_eq_false hfor)

end StringXml

namespace StringResponse

variable {ν : Type} {libraries : Libraries ν} {re : Engine} {expression : List Char → Prop}
  {isSpace : Char → Bool} {lowerChar : Char → Char} (response : StringResponse)

def alternatives (re : Engine) : List Branch :=
  response.correctAnswer.flatMap fun answer => re.branches response.caseInsensitive answer.toList

def MatchesWhole (re : Engine) (text : String) : Prop :=
  ∃ answer ∈ response.correctAnswer, fullMatch (re.branches response.caseInsensitive answer.toList) text.toList = true

/-- A text that matches the combined pattern at the places that its two anchors allow is matched as a whole
by one of the expressions; nothing is left of a blank answer, and no expression may match that. -/
structure MatchesOnlyWhole (re : Engine) (text : String) : Prop where
  blank : text = "" → ¬ response.MatchesWhole re text
  placed : text ≠ "" → PlacedMatch (response.alternatives re) text.toList → response.MatchesWhole re text

variable {response}

theorem matchesWhole_iff {text : String} :
    response.MatchesWhole re text ↔ fullMatch (response.alternatives re) text.toList = true := by
  rw [alternatives, fullMatch_flatMap, MatchesWhole]

theorem checkString_eq_search (hlibs : libraries.SearchesWith re expression)
    (hreg : response.regexp = true) (hfor : response.backward = false)
    (hne : response.correctAnswer ≠ [])
    (hexp : ∀ answer ∈ response.correctAnswer, expression answer.toList)
    {given : String} (hgiven : given ≠ "") :
    response.checkString libraries given = .ok (Regex.search (anchored (response.alternatives re)) given.toList) := by
  have hpatt : ∀ pattern ∈ response.correctAnswer.map String.toList, expression pattern := by
    intro pattern hpat
    obtain ⟨answer, hans, rfl⟩ := mem_map.mp hpat
    exact hexp answer hans
  have hcom := hlibs.standard.compile_anchored (mt map_eq_nil_iff.mp hne) hpatt response.caseInsensitive
  have hpat : ("^" ++ "|".intercalate response.correctAnswer ++ "$").toList =
      '^' :: (List.intercalate ['|'] (response.correctAnswer.map String.toList) ++ ['$']) := by
    simp [String.toList_intercalate]
  rw [checkString, if_neg (by simpa using hgiven), hfor, hreg, hlibs.search_eq, hpat, hcom, flatMap_map]
  rfl

theorem checkString_strip_iff (hlibs : libraries.SearchesWith re expression)
    (htexts : libraries.TreatsTexts isSpace lowerChar)
    (hreg : response.regexp = true) (hfor : response.backward = false)
    (hne : response.correctAnswer ≠ [])
    (hexp : ∀ answer ∈ response.correctAnswer, expression answer.toList) (given : String) :
    response.checkString libraries (libraries.strip given) = .ok true ↔
      libraries.strip given ≠ "" ∧ PlacedMatch (response.alternatives re) (libraries.strip given).toList := by
  by_cases hblank : libraries.strip given = ""
  · simp [hblank, checkString]
  · rw [checkString_eq_search hlibs hreg hfor hne hexp hblank, Except.ok.injEq,
      search_anchored (htexts.getLast?_strip given)]
    simp [hblank]

/-- A regular expression among the answers is to match the whole answer, and `check_string` sees to that
exactly where the combined pattern has no match that its two anchors leave over. -/
theorem checkString_eq_matchesWhole_iff (hlibraries : libraries.SearchesWith re expression)
    (htexts : libraries.TreatsTexts isSpace lowerChar) (contextualizeText : String → String) (xml : StringXml)
    (hregexp : (xml.setupResponse libraries contextualizeText).regexp = true)
    (hforward : (xml.setupResponse libraries contextualizeText).backward = false)
    (hexpressions : ∀ answer ∈ (xml.setupResponse libraries contextualizeText).correctAnswer,
      expression answer.toList) (given : String) :
    ((xml.setupResponse libraries contextualizeText).checkString libraries (libraries.strip given) = .ok true ↔
      (xml.setupResponse libraries contextualizeText).MatchesWhole re (libraries.strip given)) ↔
    (xml.setupResponse libraries contextualizeText).MatchesOnlyWhole re (libraries.strip given) := by
  have hne : (xml.setupResponse libraries contextualizeText).correctAnswer ≠ [] := by
    rw [StringXml.setupResponse_correctAnswer hforward]
    exact cons_ne_nil _ _
  rw [checkString_strip_iff hlibraries htexts hregexp hforward hne hexpressions]
  constructor
  · intro hagree
    constructor
    · intro hblank hwhole
      exact (hagree.mpr hwhole).1 hblank
    · intro hgiven hplaced
      exact hagree.mp ⟨hgiven, hplaced⟩
  · intro honly
    constructor
    · rintro ⟨hgiven, hplaced⟩
      exact honly.placed hgiven hplaced
    · intro hwhole
      exact ⟨fun hblank => honly.blank hblank (hblank ▸ hwhole), .of_fullMatch (matchesWhole_iff.mp hwhole)⟩

/-- White space and case of ASCII characters, and the reader of regular expressions. -/
def readerLibraries : Libraries Unit where
  evaluator := fun _ => none
  complex := fun _ => none
  zero := ()
  isComplex := fun _ => false
  hasImag := fun _ => false
  isnan := fun _ => false
  real := id
  less := fun _ _ => false
  extend := fun lower upper _ => (lower, upper)
  compareWithTolerance := fun _ _ _ => none
  nearlyEqual := fun _ _ => true
  float := fun _ => none
  expandTolerance := fun _ _ => none
  strip := fun text => String.ofList (pyStrip text.toList)
  lower := fun text => String.ofList (text.toList.map Char.toLower)
  search := fun pattern ignoreCase text => (reader.compile ignoreCase pattern.toList).map (Regex.search · text.toList)
  loads := fun _ => none
  cleanMarkup := id

theorem isPySpace_eq_false {c : Char} (hlarge : 33 ≤ c.toNat) : isPySpace c = false := by
  simp only [isPySpace, Char.ext_iff, ← UInt32.toNat_inj, or_eq_false_iff, decide_eq_false_iff_not]
  simp
  omega

theorem isPySpace_toLower (c : Char) : isPySpace c.toLower = isPySpace c := by
  rw [Char.toLower]
  split
  case isTrue hupper =>
    -- capitals are no white space, and their small letters lie further up
    have hlet : 65 ≤ c.toNat := UInt32.le_iff_toNat_le.mp hupper.1
    have hsmall : c.toNat ≤ 90 := UInt32.le_iff_toNat_le.mp hupper.2
    rw [isPySpace_eq_false (Nat.le_trans (by decide) hlet), isPySpace_eq_false]
    simp
    omega
  case isFalse => rfl

theorem readerLibraries_treatsTexts : readerLibraries.TreatsTexts isPySpace Char.toLower where
  strip_eq := fun _ => String.toList_ofList
  lower_eq := fun _ => String.toList_ofList
  isSpace_lineEnd := rfl
  isSpace_lower := isPySpace_toLower

theorem readerLibraries_searchesWith : readerLibraries.SearchesWith reader
    fun pattern => ∀ ignoreCase, (reader.compile ignoreCase pattern).isSome where
  standard := reader_readsStandard
  search_eq := fun _ _ _ => rfl

def letterXml : StringXml where
  field := { id := "1_2_1" }
  answer := "a"
  type := some "regexp"
  additionalAnswers := [{ answer := "b" }]

theorem compile_letter {answer : String}
    (hlet : answer = readerLibraries.strip "a" ∨ answer = readerLibraries.strip "b") (ignoreCase : Bool) :
    (reader.compile ignoreCase answer.toList).isSome := by
  rcases hlet with rfl | rfl
  · cases ignoreCase <;> decide
  · cases ignoreCase <;> decide

/-- The pattern `^a|b$` accepts whatever begins with the first letter. -/
theorem letters_accept_more : ¬ ((letterXml.setupResponse readerLibraries id).checkString readerLibraries
          (readerLibraries.strip "ax") = .ok true ↔
        (letterXml.setupResponse readerLibraries id).MatchesWhole reader (readerLibraries.strip "ax")) := by
  rw [matchesWhole_iff]
  decide

theorem letters_checked : ((letterXml.setupResponse readerLibraries id).checkString readerLibraries
        (readerLibraries.strip " b ") = .ok true ↔
      (letterXml.setupResponse readerLibraries id).MatchesWhole reader (readerLibraries.strip " b ")) ↔
    (letterXml.setupResponse readerLibraries id).MatchesOnlyWhole reader (readerLibraries.strip " b ") := by
  refine checkString_eq_matchesWhole_iff readerLibraries_searchesWith readerLibraries_treatsTexts id letterXml
    (by decide) (by decide) ?_ " b "
  intro answer hanswer ignoreCase
  rw [StringXml.setupResponse_correctAnswer (by decide)] at hanswer
  have hletter : answer = readerLibraries.strip "a" ∨ answer = readerLibraries.strip "b" := by
    simpa [StringXml.answers, letterXml] using hanswer
  exact compile_letter hletter ignoreCase

end StringResponse

end EdxPlatform
