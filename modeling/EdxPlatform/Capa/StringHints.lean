import EdxPlatform.Capa.StringAnswers

/-!
# Hints for texts as answers

The extended hints of a string response are found by matching the answer with one node after the other,
apart from the test that grades it.
-/

namespace EdxPlatform

open Regex StringResponse

/-- A hint with its label, for a right or for a wrong answer. -/
structure HintDiv where
  text : String
  label : String
  correct : Bool

/-- `make_hint_div`; a node that is missing or blank gives no hint. -/
def makeHintDiv (hintNode : Option HintNode) (correct : Bool) : Option HintDiv :=
  match hintNode with
  | none => none
  | some node =>
    if node.text.isEmpty then none
    else some ⟨node.text, node.label.getD (if correct then "Correct" else "Incorrect"), correct⟩

def HintNode.IsGiven (hintNode : Option HintNode) : Prop := ∃ node, hintNode = some node ∧ node.text ≠ ""

theorem makeHintDiv_correct {hintNode : Option HintNode} {correct : Bool} {div : HintDiv}
    (hdiv : makeHintDiv hintNode correct = some div) : div.correct = correct := by
  cases hintNode with
  | none => cases hdiv
  | some node =>
    rw [makeHintDiv, Option.ite_none_left_eq_some] at hdiv
    rw [← some.inj hdiv.2]

theorem HintNode.IsGiven.exists_div {hintNode : Option HintNode} (hgiven : IsGiven hintNode) (correct : Bool) :
    ∃ div, makeHintDiv hintNode correct = some div := by
  obtain ⟨node, rfl, htext⟩ := hgiven
  exact ⟨_, if_neg (by simpa using htext)⟩

def AcceptsAlone (re : Engine) (caseInsensitive : Bool) (answer given : String) : Prop :=
  search (anchored (re.branches caseInsensitive answer.toList)) given.toList = true

/-- One of the answers accepts the text, the first one no empty text and the others not if they are blank. -/
def StringResponse.AcceptedAlone (response : StringResponse) (re : Engine) (given : String) : Prop :=
  match response.correctAnswer with
  | [] => False
  | answer :: additional =>
    (given ≠ "" ∧ AcceptsAlone re response.caseInsensitive answer given) ∨
      ∃ answer ∈ additional, answer ≠ "" ∧ AcceptsAlone re response.caseInsensitive answer given

namespace StringXml

variable {ν : Type} (libraries : Libraries ν) (contextualizeText : String → String) (xml : StringXml)

/-- `match_hint_node`, with the `answer` attribute of the node. -/
def matchHintNode (nodeAnswer given : String) (regexMode ciMode : Bool) : Bool :=
  let answer := libraries.strip nodeAnswer
  if answer.isEmpty then false
  else if regexMode then
    -- an exception counts as no match
    (libraries.search ("^" ++ answer ++ "$") ciMode given).getD false
  else if ciMode then decide (libraries.lower answer = libraries.lower given)
  else decide (answer = given)

def wrongAnswerHint (studentAnswer : String) (caseInsensitive : Bool) : Option HintDiv :=
  match xml.stringEqualHints.find? fun node =>
      matchHintNode libraries node.answer studentAnswer false caseInsensitive with
  | some node => makeHintDiv (some node.hint) false
  | none =>
    match xml.regexpHints.find? fun node =>
        matchHintNode libraries node.answer studentAnswer true caseInsensitive with
    | some node => makeHintDiv (some node.hint) false
    | none => none

section

variable (answers : StudentAnswers)

/-- `get_extended_hints`: the hint that is added to the message of the answer. -/
def getExtendedHints : Except GradeError (Option HintDiv) :=
  let response := xml.setupResponse libraries contextualizeText
  match answers.lookup xml.field.id with
  | none => .ok none
  | some (.text studentAnswer) => do
    let expected := libraries.strip xml.answer
    if ← ({ response with correctAnswer := [expected] }).checkString libraries studentAnswer then
      return makeHintDiv xml.correctHint true
    match xml.additionalAnswers.find? fun node =>
        matchHintNode libraries node.answer studentAnswer response.regexp response.caseInsensitive with
    | some node => return makeHintDiv node.correctHint true
    | none => return xml.wrongAnswerHint libraries studentAnswer response.caseInsensitive
  -- the texts of a node match no other value
  | some _ => .error .unexpected

/-- Every expected answer has a hint of its own. -/
structure HasCorrectHints : Prop where
  answer : HintNode.IsGiven xml.correctHint
  additional : ∀ node ∈ xml.additionalAnswers, HintNode.IsGiven node.correctHint

def HintsCorrect : Prop :=
  ∃ div, xml.getExtendedHints libraries contextualizeText answers = .ok (some div) ∧ div.correct = true

/-- `get_score` marks the answer correct. -/
def MarksCorrect : Prop :=
  (xml.setupResponse libraries contextualizeText).getScore libraries answers =
    .ok (oneResult xml.field.id .correct none)

end

variable {libraries contextualizeText xml}

theorem wrongAnswerHint_correct {studentAnswer : String} {caseInsensitive : Bool} {div : HintDiv}
    (hdiv : xml.wrongAnswerHint libraries studentAnswer caseInsensitive = some div) : div.correct = false := by
  rw [wrongAnswerHint] at hdiv
  split at hdiv
  · exact makeHintDiv_correct hdiv
  · split at hdiv
    · exact makeHintDiv_correct hdiv
    · cases hdiv

variable {given : String} {isSpace : Char → Bool}

theorem hintsCorrect_iff (hhints : xml.HasCorrectHints) {answers : StudentAnswers}
    (hlook : answers.lookup xml.field.id = some (.text given)) {accepted : Bool}
    (haccd : ({ xml.setupResponse libraries contextualizeText with
      correctAnswer := [libraries.strip xml.answer] }).checkString libraries given = .ok accepted) :
    xml.HintsCorrect libraries contextualizeText answers ↔
      accepted = true ∨ ∃ node ∈ xml.additionalAnswers, matchHintNode libraries node.answer given
        (xml.setupResponse libraries contextualizeText).regexp
        (xml.setupResponse libraries contextualizeText).caseInsensitive = true := by
  rw [HintsCorrect, getExtendedHints, hlook]
  simp only [haccd]
  cases accepted with
  | true =>
    obtain ⟨div, hdiv⟩ := hhints.answer.exists_div true
    exact iff_of_true ⟨div, congrArg Except.ok hdiv, makeHintDiv_correct hdiv⟩ (.inl rfl)
  | false =>
    cases hadd : xml.additionalAnswers.find? fun node => matchHintNode libraries node.answer given
        (xml.setupResponse libraries contextualizeText).regexp
        (xml.setupResponse libraries contextualizeText).caseInsensitive with
    | some node =>
      have hmem := mem_of_find?_eq_some hadd
      have hmat := find?_some (p := fun node : AdditionalAnswer => matchHintNode libraries node.answer given
        (xml.setupResponse libraries contextualizeText).regexp
        (xml.setupResponse libraries contextualizeText).caseInsensitive) hadd
      obtain ⟨div, hdiv⟩ := (hhints.additional node hmem).exists_div true
      exact iff_of_true ⟨div, congrArg Except.ok hdiv, makeHintDiv_correct hdiv⟩ (.inr ⟨node, hmem, hmat⟩)
    | none =>
      refine iff_of_false ?_ ?_
      · rintro ⟨div, hdiv, hcorr⟩
        -- the hints that are left are for wrong answers
        rw [wrongAnswerHint_correct (ok.inj hdiv)] at hcorr
        cases hcorr
      · rintro (haccd | ⟨node, hmem, hmat⟩)
        · cases haccd
        · exact absurd hmat (List.find?_eq_none.mp hadd node hmem)

theorem marksCorrect_iff {answers : StudentAnswers} (hlook : answers.lookup xml.field.id = some (.text given)) :
    xml.MarksCorrect libraries contextualizeText answers ↔
      (xml.setupResponse libraries contextualizeText).checkString libraries (libraries.strip given) = .ok true := by
  rw [MarksCorrect, StringResponse.getScore, show (xml.setupResponse libraries contextualizeText).field = xml.field
    from rfl, hlook]
  dsimp only
  cases (xml.setupResponse libraries contextualizeText).checkString libraries (libraries.strip given) with
  | error err => exact iff_of_false nofun nofun
  | ok correct =>
    cases correct with
    | true => exact iff_of_true rfl rfl
    | false =>
      refine iff_of_false ?_ nofun
      intro hres
      cases (oneResult_inj.mp (ok.inj hres)).1

/-! ## Plain texts -/

def SameText (libraries : Libraries ν) (caseInsensitive : Bool) (answer given : String) : Prop :=
  if caseInsensitive then libraries.lower answer = libraries.lower given else answer = given

variable {lowerChar : Char → Char}

section Plain

variable (htexts : libraries.TreatsTexts isSpace lowerChar)

include htexts

variable {answer : String} {caseInsensitive : Bool} {given : String}

section

variable (hsame : SameText libraries caseInsensitive answer given)
include hsame

theorem SameText.map_eq : given.toList.map lowerChar = answer.toList.map lowerChar := by
  cases caseInsensitive with
  | false => rw [show answer = given from hsame]
  | true =>
    have hlower : libraries.lower answer = libraries.lower given := hsame
    rw [← htexts.lower_eq, ← htexts.lower_eq, hlower]

theorem SameText.eq_empty_iff : answer = "" ↔ given = "" := by
  have hlen := congrArg List.length (hsame.map_eq htexts)
  rw [length_map, length_map] at hlen
  rw [← String.toList_eq_nil_iff, ← String.toList_eq_nil_iff, ← length_eq_zero_iff, ← hlen, length_eq_zero_iff]

end

theorem SameText.strip_eq (hsame : SameText libraries caseInsensitive (libraries.strip answer) given) :
    libraries.strip given = given := by
  rw [← String.toList_inj, htexts.strip_eq]
  apply stripList_eq_self_of_map_eq htexts.isSpace_lower (hsame.map_eq htexts)
  rw [htexts.strip_eq, stripList_stripList]

theorem matchHintNode_plain_iff : matchHintNode libraries answer given false caseInsensitive = true ↔
      given ≠ "" ∧ SameText libraries caseInsensitive (libraries.strip answer) given := by
  have hmat : matchHintNode libraries answer given false caseInsensitive = true ↔
      libraries.strip answer ≠ "" ∧ SameText libraries caseInsensitive (libraries.strip answer) given := by
    cases caseInsensitive <;> simp [matchHintNode, SameText]
  rw [hmat]
  exact and_congr_left fun hsame => not_congr (hsame.eq_empty_iff htexts)

omit htexts

variable {response : StringResponse}

theorem isExpected_iff : response.isExpected libraries given = true ↔
      ∃ answer ∈ response.correctAnswer, SameText libraries response.caseInsensitive answer given := by
  rw [isExpected]
  cases hcase : response.caseInsensitive with
  | true => simp [SameText]
  | false => simp [SameText]

theorem checkString_plain (hplain : response.regexp = false) (given : String) :
    response.checkString libraries given = .ok (!given.isEmpty && response.isExpected libraries given) := by
  rw [checkString, hplain]
  cases given.isEmpty <;> cases response.backward <;> rfl

theorem checkString_expected_plain (hplain : response.regexp = false) (expected : List String) (given : String) :
    ({ response with correctAnswer := expected }).checkString libraries given =
      .ok (!given.isEmpty && ({ response with correctAnswer := expected }).isExpected libraries given) :=
  checkString_plain (by exact hplain) given

end Plain

section Expressions

variable {re : Engine} {expression : List Char → Prop} (hlibraries : libraries.SearchesWith re expression)

include hlibraries

theorem search_alone {answer : String} (hexpr : expression answer.toList) (caseInsensitive : Bool) (given : String) :
    libraries.search ("^" ++ answer ++ "$") caseInsensitive given =
      some (search (anchored (re.branches caseInsensitive answer.toList)) given.toList) := by
  have hpat : ("^" ++ answer ++ "$").toList = '^' :: (answer.toList ++ ['$']) := by simp
  rw [hlibraries.search_eq, hpat, hlibraries.standard.compile_anchored_one hexpr, map_some]

theorem matchHintNode_regexp_iff {answer given : String} (hexpr : expression (libraries.strip answer).toList)
    (caseInsensitive : Bool) :
    matchHintNode libraries answer given true caseInsensitive = true ↔
      libraries.strip answer ≠ "" ∧ AcceptsAlone re caseInsensitive (libraries.strip answer) given := by
  by_cases hblank : libraries.strip answer = ""
  · simp [matchHintNode, hblank]
  · simp [matchHintNode, hblank, search_alone hlibraries hexpr, AcceptsAlone]

theorem checkString_expected_regexp {response : StringResponse} (hreg : response.regexp = true)
    (hforward : response.backward = false) {answer : String} (hexpr : expression answer.toList)
    (given : String) :
    ({ response with correctAnswer := [answer] }).checkString libraries given = .ok (!given.isEmpty &&
        search (anchored (re.branches response.caseInsensitive answer.toList)) given.toList) := by
  have hpat : "^" ++ "|".intercalate [answer] ++ "$" = "^" ++ answer ++ "$" := by
    rw [← String.toList_inj]
    simp
  rw [checkString, hforward, hreg]
  dsimp only
  rw [hpat, search_alone hlibraries hexpr]
  cases given.isEmpty <;> rfl

end Expressions

/-! ## Hints and marks -/

section Hypotheses

variable (hforward : (xml.setupResponse libraries contextualizeText).backward = false)
  (hcontext : ∀ answer ∈ xml.answers, contextualizeText answer = answer)

include hforward hcontext

theorem setupResponse_correctAnswer_eq : (xml.setupResponse libraries contextualizeText).correctAnswer =
      libraries.strip xml.answer :: xml.additionalAnswers.map fun node => libraries.strip node.answer := by
  rw [setupResponse_correctAnswer hforward]
  have hstrip : xml.answers.map (fun answer => libraries.strip (contextualizeText answer)) =
      xml.answers.map libraries.strip := map_congr_left fun answer hans => by rw [hcontext answer hans]
  rw [hstrip, answers, map_cons, map_map]
  rfl

theorem hintsCorrect_plain_iff {isSpace : Char → Bool} {lowerChar : Char → Char}
    (htexts : libraries.TreatsTexts isSpace lowerChar) (hhints : xml.HasCorrectHints)
    (hplain : (xml.setupResponse libraries contextualizeText).regexp = false)
    {answers : StudentAnswers} {given : String} (hlook : answers.lookup xml.field.id = some (.text given)) :
    xml.HintsCorrect libraries contextualizeText answers ↔
      given ≠ "" ∧ (xml.setupResponse libraries contextualizeText).isExpected libraries given = true := by
  rw [hintsCorrect_iff hhints hlook (checkString_expected_plain hplain _ given), isExpected_iff,
    setupResponse_correctAnswer_eq hforward hcontext, and_eq_true, isExpected_iff, hplain]
  simp only [matchHintNode_plain_iff htexts, mem_cons, mem_map, not_mem_nil, exists_eq_or_imp,
    exists_exists_and_eq_and, or_false, not_eq_true', String.isEmpty_eq_false_iff]
  by_cases hgiven : given = ""
  · simp [hgiven]
  · simp [hgiven]

theorem hintsCorrect_regexp_iff {re : Engine} {expression : List Char → Prop}
    (hlibraries : libraries.SearchesWith re expression) (hhints : xml.HasCorrectHints)
    (hreg : (xml.setupResponse libraries contextualizeText).regexp = true)
    (hexp : ∀ answer ∈ (xml.setupResponse libraries contextualizeText).correctAnswer, expression answer.toList)
    {answers : StudentAnswers} {given : String} (hlook : answers.lookup xml.field.id = some (.text given)) :
    xml.HintsCorrect libraries contextualizeText answers ↔
      (xml.setupResponse libraries contextualizeText).AcceptedAlone re given := by
  have hnodes := setupResponse_correctAnswer_eq hforward hcontext
  rw [hnodes] at hexp
  rw [hintsCorrect_iff hhints hlook (checkString_expected_regexp hlibraries hreg hforward
    (hexp _ mem_cons_self) given), hreg, StringResponse.AcceptedAlone, hnodes]
  refine or_congr (by simp [AcceptsAlone]) ?_
  constructor
  · rintro ⟨node, hnode, hmat⟩
    have hmem := mem_map_of_mem (f := fun node : AdditionalAnswer => libraries.strip node.answer) hnode
    exact ⟨_, hmem, (matchHintNode_regexp_iff hlibraries (hexp _ (mem_cons_of_mem _ hmem)) _).mp hmat⟩
  · rintro ⟨answer, hmem, haccd⟩
    obtain ⟨node, hnode, rfl⟩ := mem_map.mp hmem
    exact ⟨node, hnode, (matchHintNode_regexp_iff hlibraries (hexp _ (mem_cons_of_mem _ hmem)) _).mpr haccd⟩

end Hypotheses

/-- Where the test of the nodes, which takes the answer as it stands, agrees with the test of the stripped answer
against all answers together. -/
structure HintsFollow (libraries : Libraries ν) (re : Engine) (response : StringResponse) (given : String) :
    Prop where
  /-- No text with spaces around it is an expected one without them. -/
  spaced : response.regexp = false → libraries.strip given ≠ given → libraries.strip given ≠ "" →
    response.isExpected libraries (libraries.strip given) = false
  /-- The combined pattern matches nothing at a place where the patterns of the nodes would not. -/
  loose : response.regexp = true → libraries.strip given = given → given ≠ "" →
    PlacedMatch (response.alternatives re) given.toList → response.AcceptedAlone re given
  /-- No additional expression matches the empty text. -/
  empty : response.regexp = true → given = "" → ¬ response.AcceptedAlone re given
  /-- Spaces around the answer make no difference to the expressions. -/
  padded : response.regexp = true → libraries.strip given ≠ given → (response.AcceptedAlone re given ↔
      libraries.strip given ≠ "" ∧ PlacedMatch (response.alternatives re) (libraries.strip given).toList)

variable {response : StringResponse}

section

variable (htexts : libraries.TreatsTexts isSpace lowerChar)
include htexts

theorem plain_agrees_iff (hstripped : ∀ answer ∈ response.correctAnswer, libraries.strip answer =
    answer) (given : String) :
    ((given ≠ "" ∧ response.isExpected libraries given = true) ↔
      (libraries.strip given ≠ "" ∧ response.isExpected libraries (libraries.strip given) = true)) ↔
    (libraries.strip given ≠ given → libraries.strip given ≠ "" →
      response.isExpected libraries (libraries.strip given) = false) := by
  by_cases hspac : libraries.strip given = given
  · simp [hspac]
  · have hune : ¬ response.isExpected libraries given = true := by
      intro hexpe
      obtain ⟨answer, hans, hsame⟩ := isExpected_iff.mp hexpe
      rw [← hstripped answer hans] at hsame
      exact hspac (hsame.strip_eq htexts)
    simp [hune, hspac]

theorem AcceptedAlone.placed {re : Engine}
    (hspac : libraries.strip given = given) (haccd : response.AcceptedAlone re given) :
    PlacedMatch (response.alternatives re) given.toList := by
  have hline := htexts.getLast?_strip given
  rw [hspac] at hline
  rw [StringResponse.AcceptedAlone] at haccd
  have halone : ∃ answer ∈ response.correctAnswer, AcceptsAlone re response.caseInsensitive answer given := by
    cases hanswers : response.correctAnswer with
    | nil =>
      rw [hanswers] at haccd
      exact haccd.elim
    | cons first rest =>
      rw [hanswers] at haccd
      rcases haccd with ⟨-, hfst⟩ | ⟨answer, hans, -, hmat⟩
      · exact ⟨first, mem_cons_self, hfst⟩
      · exact ⟨answer, mem_cons_of_mem first hans, hmat⟩
  obtain ⟨answer, hans, hmat⟩ := halone
  exact ((search_anchored hline).mp hmat).flatMap hans

theorem regexp_agrees_iff {re : Engine} (hreg : response.regexp = true) : (response.AcceptedAlone re given ↔
      (libraries.strip given ≠ "" ∧ PlacedMatch (response.alternatives re) (libraries.strip given).toList)) ↔
    HintsFollow libraries re response given := by
  constructor
  · intro hagree
    constructor
    · intro hplain
      rw [hreg] at hplain
      cases hplain
    · intro _ hspac hgiven hplac
      rw [hspac] at hagree
      exact hagree.mpr ⟨hgiven, hplac⟩
    · rintro _ rfl haccd
      have hemp : libraries.strip "" = "" := by
        rw [← String.toList_eq_nil_iff, htexts.strip_eq]
        rfl
      exact (hagree.mp haccd).1 hemp
    · intro _ _
      exact hagree
  · intro hfol
    by_cases hspac : libraries.strip given = given
    · rw [hspac]
      constructor
      · intro haccd
        exact ⟨fun hgiven => hfol.empty hreg hgiven haccd, AcceptedAlone.placed htexts hspac haccd⟩
      · rintro ⟨hgiven, hplac⟩
        exact hfol.loose hreg hspac hgiven hplac
    · exact hfol.padded hreg hspac

end

/-- The hint for a right answer comes with the mark exactly where spaces, anchors and empty texts make no
difference between the two tests. -/
theorem hintsCorrect_iff_marksCorrect_iff {isSpace : Char → Bool} {lowerChar : Char → Char} {re : Engine}
    {expression : List Char → Prop} (hlibraries : libraries.SearchesWith re expression)
    (htexts : libraries.TreatsTexts isSpace lowerChar) (hhints : xml.HasCorrectHints)
    (hforward : (xml.setupResponse libraries contextualizeText).backward = false)
    (hcontext : ∀ answer ∈ xml.answers, contextualizeText answer = answer)
    (hexpressions : (xml.setupResponse libraries contextualizeText).regexp = true →
      ∀ answer ∈ (xml.setupResponse libraries contextualizeText).correctAnswer, expression answer.toList)
    {answers : StudentAnswers} {given : String} (hlookup : answers.lookup xml.field.id = some (.text given)) :
    (xml.HintsCorrect libraries contextualizeText answers ↔ xml.MarksCorrect libraries contextualizeText answers) ↔
      HintsFollow libraries re (xml.setupResponse libraries contextualizeText) given := by
  rw [marksCorrect_iff hlookup]
  cases hmode : (xml.setupResponse libraries contextualizeText).regexp with
  | false =>
    have hstripped : ∀ answer ∈ (xml.setupResponse libraries contextualizeText).correctAnswer,
        libraries.strip answer = answer := by
      intro answer hanswer
      rw [setupResponse_correctAnswer hforward] at hanswer
      obtain ⟨listed, -, rfl⟩ := mem_map.mp hanswer
      rw [← String.toList_inj, htexts.strip_eq, htexts.strip_eq, stripList_stripList]
    have hagree := plain_agrees_iff htexts hstripped given
    rw [hintsCorrect_plain_iff hforward hcontext htexts hhints hmode hlookup, checkString_plain hmode,
      Except.ok.injEq, and_eq_true, not_eq_true', String.isEmpty_eq_false_iff, hagree]
    constructor
    · intro hspaced
      constructor
      · intro _
        exact hspaced
      all_goals
        intro hregexp
        rw [hmode] at hregexp
        cases hregexp
    · intro hfollow
      exact hfollow.spaced hmode
  | true =>
    have hne : (xml.setupResponse libraries contextualizeText).correctAnswer ≠ [] := by
      rw [setupResponse_correctAnswer hforward]
      exact cons_ne_nil _ _
    rw [hintsCorrect_regexp_iff hforward hcontext hlibraries hhints hmode (hexpressions hmode) hlookup,
      checkString_strip_iff hlibraries htexts hmode hforward hne (hexpressions hmode)]
    exact regexp_agrees_iff htexts hmode

def hintedLetters (type : Option String) : StringXml where
  field := { id := "1_2_1" }
  answer := "a"
  type := type
  correctHint := some { text := "The first letter." }
  additionalAnswers := [{ answer := "b", correctHint := some { text := "The second letter." } }]

def typed (given : String) : StudentAnswers := (∅ : StudentAnswers).insert "1_2_1" (.text given)

variable (type : Option String)

theorem lookup_typed (given : String) : (typed given).lookup (hintedLetters type).field.id = some (.text given) :=
  AList.lookup_insert _

theorem hintedLetters_hints : (hintedLetters type).HasCorrectHints where
  answer := ⟨_, rfl, by decide⟩
  additional := by
    intro node hnode
    obtain rfl := mem_singleton.mp hnode
    exact ⟨_, rfl, by decide⟩

theorem spaced_letter_marked_without_hint : ¬ ((hintedLetters none).HintsCorrect readerLibraries id (typed " a ") ↔
      (hintedLetters none).MarksCorrect readerLibraries id (typed " a ")) := by
  intro hagree
  obtain ⟨div, hdiv, -⟩ := hagree.mpr ((marksCorrect_iff (lookup_typed none " a ")).mpr (by decide))
  have hnone : (hintedLetters none).getExtendedHints readerLibraries id (typed " a ") = .ok none := by
    rfl
  rw [hnone] at hdiv
  cases hdiv

theorem second_letter_hinted : ((hintedLetters (some "regexp")).HintsCorrect readerLibraries id (typed "b") ↔
      (hintedLetters (some "regexp")).MarksCorrect readerLibraries id (typed "b")) ↔
    HintsFollow readerLibraries reader ((hintedLetters (some "regexp")).setupResponse readerLibraries id) "b" := by
  refine hintsCorrect_iff_marksCorrect_iff readerLibraries_searchesWith
    readerLibraries_treatsTexts (hintedLetters_hints _) (by decide) (fun _ _ => rfl) ?_
    (lookup_typed _ "b")
  intro _ answer hanswer ignoreCase
  rw [setupResponse_correctAnswer (by decide)] at hanswer
  have hletter : answer = readerLibraries.strip "a" ∨ answer = readerLibraries.strip "b" := by
    simpa [answers, hintedLetters] using hanswer
  exact compile_letter hletter ignoreCase

end StringXml

end EdxPlatform
