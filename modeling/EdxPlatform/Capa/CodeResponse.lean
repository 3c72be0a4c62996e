import EdxPlatform.Capa.Problem

/-!
# Code responses

Answers graded by an external queueing server.  A submission leaves a queue key
with each of its answers; the grader's replies come later, in any order, and
every reply is offered to every response of the problem.
-/

namespace EdxPlatform.CodeResponse

inductive Mark where
  | correct
  | incorrect
  | partiallyCorrect
  | incomplete
  deriving DecidableEq, Repr

structure QueueState where
  key : String
  time : String
  deriving DecidableEq, Repr

/-- The entry of an answer in the correct map, with the defaults of `CorrectMap.set`. -/
structure Entry where
  correctness : Option Mark := none
  npoints : Option Json := none
  msg : String := ""
  hint : String := ""
  hintmode : Option String := none
  queuestate : Option QueueState := none
  answervariable : Option String := none

abbrev EntryMap := Dict String Entry

namespace EntryMap

/-- `is_right_queuekey`. -/
def isRightQueuekey (cmap : EntryMap) (answerId testKey : String) : Bool :=
  ((cmap.lookup answerId).bind (·.queuestate)).any (·.key = testKey)

end EntryMap

open EntryMap

/-- How the message of a reply reads as XML, or else as HTML. -/
inductive Markup where
  | parsed
  | unparsable
  | raised
  deriving DecidableEq, Repr

/-- The libraries used on a reply: `json.loads` and the XML and HTML parsers. -/
structure Parsers where
  loads : String → Option Json
  fromstring : String → Markup

structure ScoreResult where
  correct : Bool
  score : Json
  msg : String

/-- `_parse_score_msg`; a malformed reply gives none, and a message that is no
string raises. -/
def parseScoreMsg (parsers : Parsers) (scoreMsg : String) : Except Unit (Option ScoreResult) :=
  match parsers.loads scoreMsg with
  | some (.object entries) =>
    match entries.lookup "correct", entries.lookup "score", entries.lookup "msg" with
    | some correct, some score, some (.string msg) =>
      match parsers.fromstring msg with
      | .parsed => .ok (some ⟨correct.truthy, score, msg⟩)
      | .unparsable => .ok none
      | .raised => .error ()
    | some _, some _, some _ => .error ()
    | _, _, _ => .ok none
  | _ => .ok none

def invalidReply : String := "Invalid grader reply. Please contact the course staff."

/-- The entry written for a graded answer: points below zero become zero, and the
queue state is consumed. -/
def gradedEntry (result : ScoreResult) : Entry where
  correctness := some (if result.correct then .correct else .incorrect)
  npoints := some (if result.score.negative then .number 0 else result.score)
  msg := result.msg.replace "&nbsp;" "&#160;"

/-- `update_score` of the response with answer `answerId`. -/
def updateScore (result : Option ScoreResult) (queuekey : String) (oldcmap : EntryMap)
    (answerId : String) : EntryMap :=
  match result with
  | none => oldcmap.insert answerId { msg := invalidReply }
  | some result =>
    if oldcmap.isRightQueuekey answerId queuekey then oldcmap.insert answerId (gradedEntry result)
    -- the key does not match: keep waiting for the reply whose key does
    else oldcmap

/-- What becomes of a submission handed to the queue at `qtime`. -/
inductive Delivery where
  | failed (msg : String)
  | queued (qtime : String) (msg : String)

/-- What a response makes of the answers: entries, and a message for the whole. -/
structure Results where
  cmap : EntryMap := ∅
  overallMessage : String := ""

/-- `update`: the other results win. -/
def Results.update (results other : Results) : Results := ⟨Dict.update results.cmap other.cmap, other.overallMessage⟩

/-- A response of the problem: one that is queued, or one that grades at once
and may raise. -/
inductive Responder where
  | code (answerId : String)
  | immediate (evaluateAnswers : Answers → Option Results)

/-- A problem as one learner sees it.  In Studio there is no queue. -/
structure CodeProblem where
  responders : List Responder
  hasQueue : Bool
  seed : String
  anonymousStudentId : String
  makeHashkey : String → String

/-- The learner's state of the problem. -/
structure State where
  studentAnswers : Answers := ∅
  correctMap : Results := {}

namespace CodeProblem

variable (problem : CodeProblem)

def codeAnswers : List String :=
  problem.responders.filterMap fun responder =>
    match responder with
    | .code answerId => some answerId
    | .immediate _ => none

/-- `get_score` of the response with answer `answerId`. -/
def getScore (answerId : String) (delivery : Delivery) : Entry :=
  if problem.hasQueue then
    match delivery with
    | .failed msg =>
      { msg := "Unable to deliver your submission to grader (Reason: " ++ msg ++
          "). Please try again later." }
    | .queued qtime msg =>
      let queuekey := problem.makeHashkey (problem.seed ++ qtime ++ problem.anonymousStudentId ++ answerId)
      { correctness := some .incomplete, msg := msg, queuestate := some ⟨queuekey, qtime⟩ }
  else { msg := "Error: No grader has been set up for this problem." }

/-- `evaluate_answers` of a response; a code response raises without an answer. -/
def evaluateAnswers (answers : Answers) (deliver : String → Delivery) : Responder → Option Results
  | .code answerId =>
    (answers.lookup answerId).map fun _ =>
      { cmap := (∅ : EntryMap).insert answerId (problem.getScore answerId (deliver answerId)) }
  | .immediate evaluateAnswers => evaluateAnswers answers

/-- `_grade_answers`. -/
def gradeResponders (answers : Answers) (deliver : String → Delivery) : Option Results :=
  problem.responders.foldlM (fun newcmap responder =>
    (problem.evaluateAnswers answers deliver responder).map newcmap.update) {}

/-- `grade_answers`: the answers are stored before they are graded. -/
def gradeAnswers (state : State) (answers : Answers) (deliver : String → Delivery) : State :=
  let state := { state with studentAnswers := answers }
  match problem.gradeResponders answers deliver with
  | none => state
  | some newcmap => { state with correctMap := newcmap }

/-- `update_score`: every response that takes replies is offered this one; the
message for the whole problem is lost on the way. -/
def updateScore (parsers : Parsers) (state : State) (scoreMsg queuekey : String) : State :=
  let cmap := state.correctMap.cmap
  match problem.codeAnswers, parseScoreMsg parsers scoreMsg with
  | [], _ => { state with correctMap := { cmap } }
  -- the responses work on a copy of the map, which an exception drops
  | _, .error () => state
  | answerIds, .ok result =>
    { state with
      correctMap := { cmap := answerIds.foldl (CodeResponse.updateScore result queuekey) cmap } }

end CodeProblem

end EdxPlatform.CodeResponse
