import EdxPlatform.Lib.Dict
import EdxPlatform.Lib.Python

/-!
# Custom responses

The scoring of a custom response by a check function (the `cfn` form).  All
responses of a problem share one context, in which the scoring leaves its
intermediate results and from which it reads them back.
-/

namespace EdxPlatform

/-- What a check function may return or put under `ok`: a bool, a byte string or any other value, of which its
truth and its text matter. -/
inductive PyValue where
  | none
  | bool (value : Bool)
  | str (value : String)
  | other (truth : Bool) (text : String)
  deriving DecidableEq, Repr

namespace PyValue

/-- `bool(value)`. -/
def truthy : PyValue → Bool
  | .none => false
  | .bool value => value
  | .str value => !value.isEmpty
  | .other truth _ => truth

/-- `str(value)`. -/
def toStr : PyValue → String
  | .none => "None"
  | .bool true => "True"
  | .bool false => "False"
  | .str value => value
  | .other _ text => text

end PyValue

def isPySpace (c : Char) : Bool := c = ' ' || c = '\t' || c = '\n' || c = '\r' || c = '\x0b' || c = '\x0c'

/-- `text.strip()`. -/
def pyStrip (text : List Char) : List Char := ((text.dropWhile isPySpace).reverse.dropWhile isPySpace).reverse

/-- `str(value).lower().strip()`. -/
def normalized (value : PyValue) : List Char := pyStrip (value.toStr.toList.map Char.toLower)

/-- `'partial' in text`. -/
def mentionsPartial (text : List Char) : Bool := text.tails.any (fun tail => "partial".toList.isPrefixOf tail)

/-- The marks of an answer; an answer starts out unknown. -/
inductive Correctness where
  | unknown
  | incorrect
  | partiallyCorrect
  | correct
  deriving DecidableEq, Repr

/-- The mark for the `ok` entry of a dictionary for the whole response. -/
def okCorrectness (ok : PyValue) : Correctness :=
  let okVal := if ok.truthy then normalized ok else "false".toList
  if okVal = "false".toList then .incorrect
  else if mentionsPartial okVal then .partiallyCorrect
  else .correct

/-- The mark for a returned value, or for the `ok` entry of one input. -/
def valueCorrectness (value : PyValue) : Correctness :=
  if normalized value = "false".toList || !value.truthy then .incorrect
  else if mentionsPartial (normalized value) then .partiallyCorrect
  else .correct

def defaultPc : Rat := 1 / 2

/-- One entry of the `input_list` of a returned dictionary. -/
structure InputDict where
  ok : PyValue
  msg : Option String
  gradeDecimal : Option Rat
  deriving DecidableEq

/-- The accepted forms of what a check function returns. -/
inductive CfnReturn where
  | plain (value : PyValue)
  | okDict (ok : PyValue) (msg : Option String) (gradeDecimal : Option Rat)
  | inputList (overallMessage : String) (inputs : List InputDict)
  deriving DecidableEq

/-- The entries of the shared context that the scoring of a custom response
writes or reads back; a missing `grade_decimals` is `none`. -/
structure Context where
  correct : List Correctness := []
  messages : List (Option String) := []
  overallMessage : String := ""
  gradeDecimals : Option (List Rat) := none
  deriving DecidableEq

/-- One entry box of a response with the student's answer in it. -/
structure Input where
  answerId : String
  maxPoints : Int
  submission : String
  deriving DecidableEq

/-- The result for one answer id in a `CorrectMap`. -/
structure AnswerResult where
  correctness : Correctness
  npoints : Option Rat
  msg : Option String
  deriving DecidableEq

structure CorrectMap where
  cmap : Dict String AnswerResult := ∅
  overallMessage : String := ""

namespace CorrectMap

def set (map : CorrectMap) (answerId : String) (result : AnswerResult) : CorrectMap :=
  { map with cmap := map.cmap.insert answerId result }

/-- `update`: the other map wins, with its overall message. -/
def update (map other : CorrectMap) : CorrectMap := ⟨Dict.update map.cmap other.cmap, other.overallMessage⟩

end CorrectMap

/-- A custom response in one grading: its entry boxes in order, and what its
check function returns this time, in one of the accepted forms. -/
structure CustomResponse where
  inputs : List Input
  emptyAnswerErr : Bool
  cfnReturn : CfnReturn
  inputs_ne_nil : inputs ≠ []
  ids_unique : (inputs.map Input.answerId).Nodup
  inputList_length : ∀ overallMessage entries,
    cfnReturn = .inputList overallMessage entries → entries.length = inputs.length

namespace CustomResponse

variable (cleanMarkup : String → String)

/-- `clean_message_html`; `cleanMarkup` stands for the parser's cleaning of a text. -/
def cleanMessageHtml (msg : Option String) : String :=
  match msg with
  | none => ""
  | some msg => if msg.isEmpty then "" else cleanMarkup msg

def inputDecimal (input : InputDict) : Rat :=
  match input.gradeDecimal with
  | some decimal => decimal
  | none =>
    if normalized input.ok = "true".toList then 1
    else if mentionsPartial (normalized input.ok) then defaultPc
    else 0

def okDecimal (mark : Correctness) (gradeDecimal : Option Rat) : Rat :=
  match gradeDecimal with
  | some decimal => decimal
  | none =>
    match mark with
    | .correct => 1
    | .partiallyCorrect => defaultPc
    | _ => 0

/-- `execute_check_function`, for the value returned by a check function. -/
def executeCheckFunction (count : Nat) (cfnReturn : CfnReturn) (context : Context) : Context :=
  match cfnReturn with
  | .okDict ok msg gradeDecimal =>
    let mark := okCorrectness ok
    let msg := cleanMessageHtml cleanMarkup msg
    let context :=
      if count > 1 then { context with overallMessage := msg }
      else { context with messages := context.messages.set 0 (some msg) }
    { context with
      gradeDecimals := some (List.replicate count (okDecimal mark gradeDecimal))
      correct := List.replicate count mark }
  | .inputList overallMessage inputs =>
    { context with
      messages := inputs.map fun input => input.msg.map fun msg => cleanMessageHtml cleanMarkup (some msg)
      overallMessage := overallMessage
      gradeDecimals := some (inputs.map inputDecimal)
      correct := inputs.map fun input => valueCorrectness input.ok }
  | .plain value => { context with correct := List.replicate count (valueCorrectness value) }

def markPoints (maxPoints : Int) : Correctness → Rat
  | .correct => maxPoints
  | .partiallyCorrect => maxPoints * defaultPc
  | _ => 0

/-- The last loop of `get_score`, over the inputs with the lists it indexes;
`gradeDecimals` is `none` when the context has none or an empty list. -/
def setResults : List Input → List Correctness → List (Option String) → Option (List Rat) →
    CorrectMap → Except PyError CorrectMap
  | [], _, _, _, correctMap => .ok correctMap
  | input :: inputs, mark :: marks, msg :: messages, none, correctMap =>
    setResults inputs marks messages none
      (correctMap.set input.answerId ⟨mark, some (markPoints input.maxPoints mark), msg⟩)
  | input :: inputs, mark :: marks, msg :: messages, some (decimal :: decimals), correctMap =>
    setResults inputs marks messages (some decimals)
      (correctMap.set input.answerId ⟨mark, some (input.maxPoints * decimal), msg⟩)
  | _, _, _, _, _ => .error .indexError

/-- `grade_decimals` as the last loop tests it. -/
def usableDecimals (gradeDecimals : Option (List Rat)) : Option (List Rat) :=
  match gradeDecimals with
  | some [] => none
  | gradeDecimals => gradeDecimals

def skipped (response : CustomResponse) : Bool :=
  match response.inputs with
  | [input] => input.submission.isEmpty
  | _ => false

/-- `get_score`, with what it does to the shared context. -/
def getScore (response : CustomResponse) (context : Context) : Except PyError CorrectMap × Context :=
  let count := response.inputs.length
  if response.skipped then
    let msg := if response.emptyAnswerErr then
      "<span class=\"inline-error\">No answer entered!</span>" else ""
    (.ok (response.inputs.foldl (fun map input => map.set input.answerId ⟨.incorrect, none, some msg⟩) {}), context)
  else
    let context := { context with
      correct := List.replicate count .unknown
      messages := List.replicate count (some "")
      overallMessage := "" }
    let context := executeCheckFunction cleanMarkup count response.cfnReturn context
    let correctMap : CorrectMap := { overallMessage := cleanMessageHtml cleanMarkup (some context.overallMessage) }
    (setResults response.inputs context.correct context.messages
      (usableDecimals context.gradeDecimals) correctMap, context)

end CustomResponse

open CustomResponse

/-- The loop of `_grade_answers` over the responders of a problem, from the
results of those already graded. -/
def gradeFrom (cleanMarkup : String → String) :
    List CustomResponse → CorrectMap → Context → Except PyError CorrectMap × Context
  | [], newcmap, context => (.ok newcmap, context)
  | responder :: responders, newcmap, context =>
    match responder.getScore cleanMarkup context with
    | (.error err, context) => (.error err, context)
    | (.ok results, context) => gradeFrom cleanMarkup responders (newcmap.update results) context

/-- `_grade_answers`. -/
def gradeAnswers (cleanMarkup : String → String) (responders : List CustomResponse)
    (context : Context) : Except PyError CorrectMap × Context :=
  gradeFrom cleanMarkup responders {} context

def contextAfter (cleanMarkup : String → String) (gradings : List (List CustomResponse)) :
    Context :=
  gradings.foldl (fun context responders => (gradeAnswers cleanMarkup responders context).2) {}

end EdxPlatform
