import EdxPlatform.Capa.Responses

/-!
# Choices with number inputs

A choice text response names its choices and the inputs in them by their places, and finds the choice
of a submitted input again by its name.
-/

namespace EdxPlatform

open ChoiceTextResponse

variable {back front separator : List Char}

theorem beforeSeparator_append
    (hfst : ∀ offset < front.length, ¬ separator <+: (front ++ (separator ++ back)).drop offset) :
    beforeSeparator separator (front ++ (separator ++ back)) = front := by
  induction front with
  | nil =>
    cases htext : separator ++ back with
    | nil => rfl
    | cons c rest =>
      have hpre : separator <+: c :: rest := ⟨back, htext⟩
      rw [nil_append, beforeSeparator, if_pos (List.isPrefixOf_iff_prefix.mpr hpre)]
  | cons c front ih =>
    have hhead : ¬ separator <+: c :: (front ++ (separator ++ back)) := hfst 0 (Nat.zero_lt_succ _)
    rw [cons_append, beforeSeparator, if_neg (mt List.isPrefixOf_iff_prefix.mp hhead), ih]
    intro offset hoff
    exact hfst (offset + 1) (Nat.succ_lt_succ hoff)

theorem length_beforeSeparator (hins : separator <:+: front) (back : List Char) :
    (beforeSeparator separator (front ++ back)).length + separator.length ≤ front.length := by
  induction front with
  | nil =>
    obtain rfl := List.infix_nil.mp hins
    cases back with
    | nil => exact Nat.le_refl 0
    | cons c back => simp [beforeSeparator]
  | cons c front ih =>
    rw [cons_append, beforeSeparator]
    split
    case isTrue => simpa using hins.length_le
    case isFalse hpre =>
      have hrest : separator <:+: front := by
        refine (List.infix_cons_iff.mp hins).resolve_left fun hhere => hpre ?_
        rw [List.isPrefixOf_iff_prefix, ← cons_append]
        exact hhere.trans (prefix_append _ _)
      have hlen := ih hrest
      rw [length_cons, length_cons]
      omega

variable {digits : List Char}

theorem not_prefix_drop_of_digits (hsep : ∀ c ∈ separator, c.isDigit = false) (hdig : ∀ c ∈ digits, c.isDigit = true)
    (hne : digits ≠ []) (hfree : ¬ separator <:+: front) {offset : Nat} (hoff : offset < (front ++ digits).length) :
    ¬ separator <+: ((front ++ digits) ++ back).drop offset := by
  rintro ⟨rest, hrest⟩
  by_cases hins : offset + separator.length ≤ front.length
  · -- the occurrence lies within the part before the digits
    apply hfree
    have htake : (front.drop offset).take separator.length = separator := by
      have hdrop : ((front ++ digits) ++ back).drop offset = front.drop offset ++ (digits ++ back) := by
        rw [append_assoc, List.drop_append_of_le_length (by omega)]
      rw [hdrop] at hrest
      have hcut := congrArg (List.take separator.length) hrest
      rwa [List.take_left, List.take_append_of_le_length (by rw [length_drop]; omega), eq_comm] at hcut
    rw [← htake]
    exact (List.take_prefix _ _).isInfix.trans (List.drop_suffix _ _).isInfix
  · -- otherwise it holds a digit
    have hpos : 0 < separator.length := by
      rw [length_pos_iff]
      rintro rfl
      exact hfree List.nil_infix
    have hdigit := length_pos_iff.mpr hne
    rw [length_append] at hoff
    have hat : (separator ++ rest)[max offset front.length - offset]? =
        ((front ++ digits) ++ back)[max offset front.length]? := by
      rw [hrest, List.getElem?_drop]
      congr 1
      omega
    rw [List.getElem?_append_left (by omega), List.getElem?_append_left (by rw [length_append]; omega),
      List.getElem?_append_right (by omega), getElem?_eq_getElem (by omega),
      getElem?_eq_getElem (by omega), some_inj] at hat
    have hplain := hsep _ (List.getElem_mem (by omega : max offset front.length - offset < separator.length))
    rw [hat, hdig _ (List.getElem_mem _)] at hplain
    cases hplain

theorem append_cons_inj_of_digits {digits' back' : List Char} {c : Char}
    (hdig : ∀ d ∈ digits, d.isDigit = true) (hdig' : ∀ d ∈ digits', d.isDigit = true)
    (hc : c.isDigit = false) (heq : digits ++ c :: back = digits' ++ c :: back') : digits = digits' ∧ back = back' := by
  induction digits generalizing digits' with
  | nil =>
    cases digits' with
    | nil => exact ⟨rfl, (cons.inj heq).2⟩
    | cons d digits' =>
      obtain rfl := (cons.inj heq).1
      rw [hdig' _ mem_cons_self] at hc
      cases hc
  | cons d digits ih =>
    cases digits' with
    | nil =>
      obtain rfl := (cons.inj heq).1
      rw [hdig _ mem_cons_self] at hc
      cases hc
    | cons d' digits' =>
      obtain ⟨rfl, htail⟩ := cons.inj heq
      obtain ⟨rfl, hback⟩ := ih (forall_mem_cons.mp hdig).2 (forall_mem_cons.mp hdig').2 htail
      exact ⟨rfl, hback⟩

theorem isDigit_of_mem_toString {n : Nat} {c : Char} (hc : c ∈ (toString n).toList) : c.isDigit = true := by
  have hdigit : c ∈ Nat.toDigits 10 n := by simpa using hc
  exact Nat.isDigit_of_mem_toDigits (by decide) (by decide) hdigit

theorem toString_toList_inj {m n : Nat} (heq : (toString m).toList = (toString n).toList) : m = n := by
  have hdig : Nat.toDigits 10 m = Nat.toDigits 10 n := by simpa using heq
  simpa using congrArg (Nat.ofDigitChars 10 · 0) hdig

/-! ## Names -/

/-- What a child of a choice is. -/
inductive InputTag where
  | numtoleranceInput
  | decoyInput
  | other
  deriving DecidableEq, Repr

/-- A child of a `choice` node. -/
structure InputXml where
  tag : InputTag
  answer : Option String := none
  tolerance : Option String := none

/-- A `choice` node. -/
structure ChoiceXml where
  correct : Option String := none
  children : List InputXml := []

/-- A `choicetextresponse` node. -/
structure ChoiceTextXml where
  field : InputField
  choices : List ChoiceXml

/-- The inputs that get names: decoys only where there are no other inputs. -/
def ChoiceXml.inputs (choice : ChoiceXml) : List InputXml :=
  let numtoleranceInputs := choice.children.filter fun child => child.tag = .numtoleranceInput
  if numtoleranceInputs.isEmpty then choice.children.filter fun child => child.tag = .decoyInput
  else numtoleranceInputs

namespace ChoiceTextXml

variable (contextualizeText : String → String) (xml : ChoiceTextXml)

/-- The name of a choice, by `assign_choice_names`. -/
def choiceName (index : Nat) : String := xml.field.id ++ "_choiceinput_" ++ toString index ++ "bc"

def inputName (index ind : Nat) : String :=
  xml.field.id ++ "_choiceinput_" ++ toString index ++ "_numtolerance_input_" ++ toString ind

def correctXml : List (ChoiceXml × Nat) := xml.choices.zipIdx.filter fun choice => choice.1.correct = some "true"

/-- The number inputs of the correct choices: name, answer and tolerance of each. -/
def numberInputs : List (String × String × String) :=
  xml.correctXml.flatMap fun choice => choice.1.inputs.zipIdx.map fun input =>
    (xml.inputName choice.2 input.2, contextualizeText (input.1.answer.getD ""),
      contextualizeText (input.1.tolerance.getD defaultTolerance))

/-- `setup_response`.  The answers of children without a name are stored under `None`, where no input
is looked up. -/
def setupResponse : Except GradeError ChoiceTextResponse :=
  if xml.correctXml.all fun choice => choice.1.children.all fun child => !(child.answer.getD "").isEmpty then
    .ok {
      field := xml.field
      correctChoices := (xml.correctXml.map fun choice => xml.choiceName choice.2).toFinset
      correctInputs := Dict.ofList (xml.numberInputs contextualizeText) }
  else .error .loncapaProblemError

def NamesParse : Prop := ¬ "_numtolerance_input_".toList <:+: (xml.field.id ++ "_choiceinput_").toList

variable {contextualizeText xml} {ν : Type}

theorem toList_inputName (index ind : Nat) : (xml.inputName index ind).toList =
    ((xml.field.id ++ "_choiceinput_").toList ++ (toString index).toList) ++
      ("_numtolerance_input_".toList ++ (toString ind).toList) := by
  simp [inputName]

theorem toList_choiceName (index : Nat) : (xml.choiceName index).toList =
    ((xml.field.id ++ "_choiceinput_").toList ++ (toString index).toList) ++ "bc".toList := by
  simp [choiceName]

theorem inputName_inj {index ind index' ind' : Nat} (heq : xml.inputName index ind = xml.inputName index' ind') :
    index = index' ∧ ind = ind' := by
  have hlist := congrArg String.toList heq
  rw [toList_inputName, toList_inputName, append_assoc, append_assoc, List.append_cancel_left_eq] at hlist
  obtain ⟨hidx, hind⟩ := append_cons_inj_of_digits (fun _ => isDigit_of_mem_toString)
    (fun _ => isDigit_of_mem_toString) (by decide) hlist
  exact ⟨toString_toList_inj hidx, toString_toList_inj (append_cancel_left hind)⟩

theorem choiceOf_inputName (hparse : xml.NamesParse) (index ind : Nat) :
    choiceOf (xml.inputName index ind) ++ "bc" = xml.choiceName index := by
  rw [← String.toList_inj, String.toList_append, choiceOf, String.toList_ofList,
    toList_inputName, toList_choiceName, beforeSeparator_append]
  intro offset hoff
  exact not_prefix_drop_of_digits (by simp) (fun _ => isDigit_of_mem_toString) (by simp) hparse hoff

theorem choiceOf_inputName_ne (hparse : ¬ xml.NamesParse) (index ind other : Nat) :
    choiceOf (xml.inputName index ind) ++ "bc" ≠ xml.choiceName other := by
  intro heq
  have hlen := congrArg List.length (congrArg String.toList heq)
  rw [String.toList_append, choiceOf, String.toList_ofList, toList_inputName, toList_choiceName, append_assoc] at hlen
  have hbef := length_beforeSeparator (not_not.mp hparse)
    ((toString index).toList ++ ("_numtolerance_input_".toList ++ (toString ind).toList))
  have hsep : "_numtolerance_input_".toList.length = 20 := by decide
  simp only [length_append] at hlen hbef
  omega

theorem mem_numberInputs {input : String × String × String} : input ∈ xml.numberInputs contextualizeText ↔
    ∃ choice ∈ xml.correctXml, ∃ child ind, choice.1.inputs[ind]? = some child ∧
      input = (xml.inputName choice.2 ind, contextualizeText (child.answer.getD ""),
        contextualizeText (child.tolerance.getD defaultTolerance)) := by
  simp only [numberInputs, mem_flatMap, mem_map, Prod.exists, List.mem_zipIdx_iff_getElem?]
  constructor
  · rintro ⟨choice, index, hchoice, child, ind, hch, rfl⟩
    exact ⟨choice, index, hchoice, child, ind, hch, rfl⟩
  · rintro ⟨choice, index, hchoice, child, ind, hch, rfl⟩
    exact ⟨choice, index, hchoice, child, ind, hch, rfl⟩

theorem eq_of_mem_correctXml {choice other : ChoiceXml × Nat} (hchoice : choice ∈ xml.correctXml)
    (hoth : other ∈ xml.correctXml) (hidx : choice.2 = other.2) : choice = other := by
  have hfnd := List.mem_zipIdx_iff_getElem?.mp (mem_filter.mp hchoice).1
  have hfnd' := List.mem_zipIdx_iff_getElem?.mp (mem_filter.mp hoth).1
  rw [hidx, hfnd'] at hfnd
  exact Prod.ext (some.inj hfnd).symm hidx

theorem numberInputs_functional {input other : String × String × String}
    (hinput : input ∈ xml.numberInputs contextualizeText) (hoth : other ∈ xml.numberInputs contextualizeText)
    (hname : input.1 = other.1) : input.2 = other.2 := by
  obtain ⟨choice, hchoice, child, ind, hch, rfl⟩ := mem_numberInputs.mp hinput
  obtain ⟨choice', hchoice', child', ind', hch', rfl⟩ := mem_numberInputs.mp hoth
  obtain ⟨hidx, rfl⟩ := inputName_inj hname
  obtain rfl := eq_of_mem_correctXml hchoice hchoice' hidx
  obtain rfl := some_unique hch hch'
  rfl

/-! ## Grading -/

section Grading

variable {libraries : Libraries ν} {response : ChoiceTextResponse}

theorem checkStudentInputs_eq_ok_true {inputs : List (String × String)} :
    response.checkStudentInputs libraries inputs = .ok true ↔
      ∀ entry ∈ inputs, response.checkStudentInput libraries entry.1 entry.2 = .ok true := by
  induction inputs with
  | nil => simp [checkStudentInputs]
  | cons entry rest ih =>
    obtain ⟨answerName, answerValue⟩ := entry
    rw [checkStudentInputs, forall_mem_cons, ← ih]
    cases response.checkStudentInput libraries answerName answerValue with
    | error err => exact iff_of_false nofun nofun
    | ok correct =>
      cases response.checkStudentInputs libraries rest with
      | error err => exact iff_of_false nofun nofun
      | ok others => cases correct <;> cases others <;> simp [pure, Except.pure, bind, Except.bind]

theorem checkStudentChoices_iff {choices : List String} :
    response.checkStudentChoices choices = true ↔ ∀ key, key ∈ choices ↔ key ∈ response.correctChoices := by
  rw [checkStudentChoices, and_eq_true, decide_eq_true_iff, decide_eq_true_iff,
    Finset.card_eq_zero, Finset.card_eq_zero, Finset.sdiff_eq_empty_iff_subset, Finset.sdiff_eq_empty_iff_subset]
  constructor
  · rintro ⟨hreq, hextra⟩ key
    rw [← mem_toFinset]
    exact ⟨fun hkey => hextra hkey, fun hkey => hreq hkey⟩
  · intro hsame
    constructor
    · intro key hkey
      exact mem_toFinset.mpr ((hsame key).mpr hkey)
    · intro key hkey
      exact (hsame key).mp (mem_toFinset.mp hkey)

theorem endsWith_append (front back : String) : (front ++ back).endsWith back = true := by
  change (front ++ back).toSlice.endsWith back = true
  rw [String.Slice.endsWith_string_iff]
  simp

variable {submitted : Dict String String}

theorem mem_splitAnswersDict_fst {key : String} :
    key ∈ (splitAnswersDict submitted).1 ↔ key ∈ submitted ∧ key.endsWith "bc" = true := by
  rw [splitAnswersDict, mem_filter, mem_keys]

theorem mem_splitAnswersDict_snd {entry : String × String} : entry ∈ (splitAnswersDict submitted).2 ↔
      submitted.lookup entry.1 = some entry.2 ∧ choiceOf entry.1 ++ "bc" ∈ submitted := by
  have hchoice : choiceOf entry.1 ++ "bc" ∈ (splitAnswersDict submitted).1 ↔ choiceOf entry.1 ++ "bc" ∈ submitted := by
    rw [mem_splitAnswersDict_fst, endsWith_append, and_iff_left rfl]
  rw [← hchoice]
  simp only [splitAnswersDict, mem_filterMap, Option.ite_none_right_eq_some, some_inj]
  constructor
  · rintro ⟨⟨key, value⟩, hmem, hsel, rfl⟩
    exact ⟨mem_lookup_iff.mpr hmem, hsel⟩
  · rintro ⟨hlook, hsel⟩
    exact ⟨⟨entry.1, entry.2⟩, mem_lookup_iff.mp hlook, hsel, rfl⟩

theorem getScore_eq_correct_iff {answers : StudentAnswers}
    (hlook : answers.lookup response.field.id = some (.inputs submitted)) :
    response.getScore libraries answers = .ok (oneResult response.field.id .correct none) ↔
      (∀ key, (key ∈ submitted ∧ key.endsWith "bc" = true) ↔ key ∈ response.correctChoices) ∧
      ∀ key value, submitted.lookup key = some value → choiceOf key ++ "bc" ∈ submitted →
        response.checkStudentInput libraries key value = .ok true := by
  have hgrd : response.getScore libraries answers = .ok (oneResult response.field.id .correct none) ↔
      response.checkStudentChoices (splitAnswersDict submitted).1 = true ∧
        response.checkStudentInputs libraries (splitAnswersDict submitted).2 = .ok true := by
    rw [ChoiceTextResponse.getScore, hlook, getD_some]
    dsimp only
    rw [ChoiceTextResponse.getScore.graded]
    dsimp only
    cases response.checkStudentInputs libraries (splitAnswersDict submitted).2 with
    | error err => exact iff_of_false nofun (fun h => nomatch h.2)
    | ok inputsCorrect =>
      cases response.checkStudentChoices (splitAnswersDict submitted).1 <;>
        cases inputsCorrect <;> simp [pure, Except.pure, bind, Except.bind, oneResult_inj]
  rw [hgrd, checkStudentChoices_iff, checkStudentInputs_eq_ok_true]
  simp only [mem_splitAnswersDict_fst, mem_splitAnswersDict_snd, Prod.forall, and_imp]

def Within (libraries : Libraries ν) (params : String × String) (value : String) : Prop :=
  ∃ number correctAns, libraries.evaluator value = some number ∧ libraries.complex params.1 = some correctAns ∧
    libraries.compareWithTolerance number correctAns params.2 = some true

theorem checkStudentInput_of_correctInput {answerName answerValue : String} {params : String × String}
    (hlook : response.correctInputs.lookup answerName = some params) :
    response.checkStudentInput libraries answerName answerValue = .ok true ↔ Within libraries params answerValue := by
  have hmem : answerName ∈ response.correctInputs := mem_of_lookup hlook
  rw [checkStudentInput, hlook, Within]
  dsimp only
  cases hcompl : libraries.complex params.1 with
  | none => exact iff_of_false nofun (by simp)
  | some correctAns =>
    cases hnum : libraries.evaluator answerValue with
    | none => exact iff_of_false nofun (by simp)
    | some number =>
      cases hcom : libraries.compareWithTolerance number correctAns params.2 with
      | none =>
        refine iff_of_false ?_ (by simp [hcom])
        simp [orRaise, hcom, bind, Except.bind]
      | some partialCorrect => simp [orRaise, hcom, hmem, bind, Except.bind, pure, Except.pure]

theorem checkStudentInput_of_other {answerName answerValue : String}
    (hlook : response.correctInputs.lookup answerName = none) {number : ν}
    (hnum : libraries.evaluator answerValue = some number)
    (hcom : (libraries.compareWithTolerance number libraries.zero defaultTolerance).isSome) :
    response.checkStudentInput libraries answerName answerValue = .ok true := by
  have hmem : answerName ∉ response.correctInputs := lookup_eq_none.mp hlook
  obtain ⟨partialCorrect, hpar⟩ := isSome_iff_exists.mp hcom
  rw [checkStudentInput, hlook, hnum]
  simp [orRaise, hpar, hmem, bind, Except.bind, pure, Except.pure]

end Grading

/-! ## Submissions -/

section Submissions

variable (libraries : Libraries ν) (contextualizeText : String → String) (xml : ChoiceTextXml)
  (submitted : Dict String String)

def SelectsCorrect : Prop :=
  ∀ key, (key ∈ submitted ∧ key.endsWith "bc" = true) ↔ ∃ choice ∈ xml.correctXml, key = xml.choiceName choice.2

def AnsweredWithin (input : String × String × String) : Prop :=
  ∃ value, submitted.lookup input.1 = some value ∧ Within libraries input.2 value

/-- The selected choices are the correct ones, with a right value for each number input in them. -/
def FullyCorrect : Prop :=
  xml.SelectsCorrect submitted ∧ ∀ input ∈ xml.numberInputs contextualizeText, AnsweredWithin libraries submitted input

/-- A value was submitted for the input, under a name that leads back to its choice. -/
def Seen (input : String × String × String) : Prop := xml.NamesParse ∧ input.1 ∈ submitted

/-- Where the right choices are selected and no value that is looked at is wrong, a value was submitted for
every number input of theirs. -/
def InputsComplete : Prop :=
  xml.SelectsCorrect submitted → (∀ input ∈ xml.numberInputs contextualizeText, xml.Seen submitted input →
      AnsweredWithin libraries submitted input) →
    ∀ input ∈ xml.numberInputs contextualizeText, xml.Seen submitted input ∨ AnsweredWithin libraries submitted input

variable {libraries contextualizeText xml submitted} {response : ChoiceTextResponse}

section

variable (hsetup : xml.setupResponse contextualizeText = .ok response)
include hsetup

theorem setupResponse_eq_ok : response.field = xml.field ∧
      (∀ key, key ∈ response.correctChoices ↔ ∃ choice ∈ xml.correctXml, key = xml.choiceName choice.2) ∧
      ∀ name params, response.correctInputs.lookup name = some params ↔
        (name, params) ∈ xml.numberInputs contextualizeText := by
  rw [setupResponse] at hsetup
  split at hsetup
  case isFalse => cases hsetup
  case isTrue =>
    obtain rfl := ok.inj hsetup
    refine ⟨rfl, ?_, ?_⟩
    · intro key
      rw [mem_toFinset, mem_map]
      exact exists_congr fun choice => and_congr_right fun _ => eq_comm
    · intro name params
      exact Dict.lookup_ofList (fun _ hinput _ hoth => numberInputs_functional hinput hoth) name params

theorem getScore_correct_iff {answers : StudentAnswers} (hlook : answers.lookup xml.field.id = some (.inputs submitted))
    (hnume : ∀ key value, submitted.lookup key = some value →
      choiceOf key ++ "bc" ∈ submitted → (libraries.evaluator value).isSome)
    (hdef : ∀ number, (libraries.compareWithTolerance number libraries.zero defaultTolerance).isSome) :
    response.getScore libraries answers = .ok (oneResult xml.field.id .correct none) ↔
      xml.SelectsCorrect submitted ∧ ∀ input ∈ xml.numberInputs contextualizeText, xml.Seen submitted input →
        AnsweredWithin libraries submitted input := by
  obtain ⟨hfld, hchoic, hinp⟩ := setupResponse_eq_ok hsetup
  rw [← hfld] at hlook ⊢
  rw [getScore_eq_correct_iff hlook]
  simp only [hchoic]
  refine and_congr_right fun hsels => ?_
  constructor
  · rintro hchec input hinput ⟨hparse, hsub⟩
    obtain ⟨value, hval⟩ := mem_iff_lookup.mp hsub
    obtain ⟨choice, hchoice, child, ind, -, hname⟩ := mem_numberInputs.mp hinput
    have hsel : choiceOf input.1 ++ "bc" ∈ submitted := by
      rw [hname, choiceOf_inputName hparse]
      exact ((hsels _).mpr ⟨choice, hchoice, rfl⟩).1
    exact ⟨value, hval, (checkStudentInput_of_correctInput ((hinp input.1 input.2).mpr hinput)).mp
      (hchec input.1 value hval hsel)⟩
  · intro hwth key value hval hsel
    cases hpara : response.correctInputs.lookup key with
    | none =>
      obtain ⟨number, hnum⟩ := isSome_iff_exists.mp (hnume key value hval hsel)
      exact checkStudentInput_of_other hpara hnum (hdef number)
    | some params =>
      have hinput := (hinp key params).mp hpara
      obtain ⟨choice, hchoice, child, ind, -, hname⟩ := mem_numberInputs.mp hinput
      have hparse : xml.NamesParse := by
        by_contra hparse
        obtain ⟨other, -, hoth⟩ := (hsels _).mp ⟨hsel, endsWith_append _ _⟩
        rw [show key = _ from congrArg Prod.fst hname] at hoth
        exact choiceOf_inputName_ne hparse _ _ _ hoth
      obtain ⟨value', hval', hrgt⟩ := hwth (key, params) hinput ⟨hparse, mem_of_lookup hval⟩
      obtain rfl := some_unique hval hval'
      exact (checkStudentInput_of_correctInput hpara).mpr hrgt

end

/-- The mark is right exactly where no number input of a correct choice is left out unnoticed. -/
theorem getScore_eq_fullyCorrect_iff (hsetup : xml.setupResponse contextualizeText = .ok response)
    {answers : StudentAnswers} (hlookup : answers.lookup xml.field.id = some (.inputs submitted))
    (hnumeric : ∀ key value, submitted.lookup key = some value →
      choiceOf key ++ "bc" ∈ submitted → (libraries.evaluator value).isSome)
    (hdefault : ∀ number, (libraries.compareWithTolerance number libraries.zero defaultTolerance).isSome) :
    (response.getScore libraries answers = .ok (oneResult xml.field.id .correct none) ↔
      xml.FullyCorrect libraries contextualizeText submitted) ↔
    xml.InputsComplete libraries contextualizeText submitted := by
  rw [getScore_correct_iff hsetup hlookup hnumeric hdefault, FullyCorrect, InputsComplete]
  constructor
  · intro hagree hselects hseen input hinput
    exact .inr ((hagree.mp ⟨hselects, hseen⟩).2 input hinput)
  · intro hcomplete
    constructor
    · rintro ⟨hselects, hseen⟩
      refine ⟨hselects, fun input hinput => ?_⟩
      exact (hcomplete hselects hseen input hinput).elim (hseen input hinput) id
    · rintro ⟨hselects, hall⟩
      exact ⟨hselects, fun input hinput _ => hall input hinput⟩

end Submissions

/-- Numbers without sign or fraction, compared where the tolerance is too small to matter. -/
def countingLibraries : Libraries Nat where
  evaluator := fun text =>
    if text.toList.all Char.isDigit && !text.isEmpty then some (Nat.ofDigitChars 10 text.toList 0) else none
  complex := fun text =>
    if text.toList.all Char.isDigit && !text.isEmpty then some (Nat.ofDigitChars 10 text.toList 0) else none
  zero := 0
  isComplex := fun _ => false
  hasImag := fun _ => false
  isnan := fun _ => false
  real := id
  less := fun first second => first < second
  extend := fun lower upper _ => (lower, upper)
  compareWithTolerance := fun first second _ => some (first = second)
  nearlyEqual := fun first second => first = second
  float := fun _ => none
  expandTolerance := fun _ _ => none
  strip := id
  lower := id
  search := fun _ _ _ => none
  loads := fun _ => none
  cleanMarkup := id

def fiveXml : ChoiceTextXml where
  field := { id := "1_2_1" }
  choices := [{ correct := some "true", children := [{ tag := .numtoleranceInput, answer := some "5" }] },
    { correct := some "false" }]

def fiveResponse : ChoiceTextResponse where
  field := { id := "1_2_1" }
  correctChoices := {"1_2_1_choiceinput_0bc"}
  correctInputs := Dict.ofList [("1_2_1_choiceinput_0_numtolerance_input_0", "5", defaultTolerance)]

theorem fiveXml_setup : fiveXml.setupResponse id = .ok fiveResponse := rfl

def chosenFive (value : Option String) : Dict String String :=
  match value with
  | none => (∅ : Dict String String).insert "1_2_1_choiceinput_0bc" "on"
  | some value => ((∅ : Dict String String).insert "1_2_1_choiceinput_0bc" "on").insert
      "1_2_1_choiceinput_0_numtolerance_input_0" value

def submission (submitted : Dict String String) : StudentAnswers :=
  (∅ : StudentAnswers).insert "1_2_1" (.inputs submitted)

theorem chosenFive_selectsCorrect : fiveXml.SelectsCorrect (chosenFive none) := by
  intro key
  have hcorr : fiveXml.correctXml =
      [({ correct := some "true", children := [{ tag := .numtoleranceInput, answer := some "5" }] }, 0)] := rfl
  have hname : fiveXml.choiceName 0 = "1_2_1_choiceinput_0" ++ "bc" := rfl
  rw [hcorr, chosenFive, mem_insert]
  simp only [mem_singleton, exists_eq_left, hname, notMem_empty, or_false]
  exact and_iff_left_of_imp fun hkey => hkey ▸ endsWith_append "1_2_1_choiceinput_0" "bc"

theorem chosenFive_numeric {number : Option String}
    (hnum : ∀ value, number = some value → (countingLibraries.evaluator value).isSome) (key value : String)
    (hval : (chosenFive number).lookup key = some value)
    (hsel : choiceOf key ++ "bc" ∈ chosenFive number) :
    (countingLibraries.evaluator value).isSome := by
  have hname : choiceOf "1_2_1_choiceinput_0bc" ++ "bc" ∉ chosenFive number := by
    cases number with
    | none => decide
    | some value =>
      rw [chosenFive, mem_insert, mem_insert]
      decide
  have hkey : key ≠ "1_2_1_choiceinput_0bc" := fun heq => hname (heq ▸ hsel)
  cases number with
  | none =>
    rw [chosenFive, lookup_insert_of_ne hkey] at hval
    cases hval
  | some number =>
    rw [chosenFive, lookup_insert] at hval
    split at hval
    case isTrue =>
      obtain rfl := some.inj hval
      exact hnum number rfl
    case isFalse =>
      rw [lookup_insert_of_ne hkey] at hval
      cases hval

/-- The choice without the number in it is marked correct. -/
theorem choice_without_number_correct : ¬ (fiveResponse.getScore countingLibraries (submission (chosenFive none)) =
          .ok (oneResult fiveXml.field.id .correct none) ↔
        fiveXml.FullyCorrect countingLibraries id (chosenFive none)) := by
  have hleft : "1_2_1_choiceinput_0_numtolerance_input_0" ∉ chosenFive none := by decide
  have hinputs : fiveXml.numberInputs id = [("1_2_1_choiceinput_0_numtolerance_input_0", "5", defaultTolerance)] := rfl
  have hmarked : fiveResponse.getScore countingLibraries (submission (chosenFive none)) =
      .ok (oneResult fiveXml.field.id .correct none) := by
    refine (getScore_correct_iff fiveXml_setup (AList.lookup_insert _) (chosenFive_numeric ?_)
      (fun _ => rfl)).mpr ⟨chosenFive_selectsCorrect, ?_⟩
    · intro value hvalue
      cases hvalue
    · rw [hinputs]
      rintro input hinput ⟨-, hsubmitted⟩
      obtain rfl := mem_singleton.mp hinput
      exact absurd hsubmitted hleft
  intro hagree
  obtain ⟨-, hwithin⟩ := hagree.mp hmarked
  rw [hinputs] at hwithin
  obtain ⟨value, hvalue, -⟩ := hwithin _ mem_cons_self
  exact hleft (mem_of_lookup hvalue)

theorem chosenFive_checked : (fiveResponse.getScore countingLibraries (submission (chosenFive (some "5"))) =
        .ok (oneResult fiveXml.field.id .correct none) ↔
      fiveXml.FullyCorrect countingLibraries id (chosenFive (some "5"))) ↔
    fiveXml.InputsComplete countingLibraries id (chosenFive (some "5")) := by
  refine getScore_eq_fullyCorrect_iff fiveXml_setup (AList.lookup_insert _) (chosenFive_numeric ?_) (fun _ => rfl)
  intro value hvalue
  obtain rfl := some.inj hvalue
  decide

end ChoiceTextXml

end EdxPlatform
