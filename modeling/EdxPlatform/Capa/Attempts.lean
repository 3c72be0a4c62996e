import EdxPlatform.Capa.CodeResponse
import EdxPlatform.Lib.Runs

/-!
# Attempts on a problem

The requests of a learner and of the staff to a problem with a limit of attempts and a due date.
What a response says may depend on the world outside the problem.
-/

namespace EdxPlatform.CapaModule

open CodeResponse (Entry EntryMap Results Mark)

abbrev Time := Rat

inductive ShowAnswer where
  | always
  | answered
  | attempted
  | closed
  | finished
  | correctOrPastDue
  | pastDue
  | never
  | unset
  deriving DecidableEq, Repr

/-- A response, of a problem whose answers are of type `α`. -/
structure Responder (α ω : Type) where
  allowsFileSubmission : Bool
  maxScore : Rat
  evaluateAnswers : ω → Dict String α → Results → Except GradeError Results
  /-- A response that takes the messages of a grader changes the entries of the correct map. -/
  updateScore : Option (String → String → EntryMap → Except GradeError EntryMap) := none

/-- The settings of a problem, and what it is made of for a seed. -/
structure Settings (α ω : Type) where
  maxAttempts : Option Nat
  due : Option Time
  graceperiod : Option Time
  rerandomize : Randomization
  showanswer : ShowAnswer
  submissionWaitSeconds : Time
  waittime : Time
  userIsStaff : Bool
  /-- The bin of the learner's seed. -/
  randomizationBin : Option Int
  /-- The responses and their initial displays, unless the problem cannot be created. -/
  create : Int → Option (List (Responder α ω) × Dict String α)
  convertFilesToFilenames : Dict String α → Dict String α
  strptime : String → Option Time

structure LoncapaProblem (α ω : Type) where
  seed : Int
  studentAnswers : Dict String α
  correctMap : Results
  done : Bool
  responders : List (Responder α ω)

/-- The fields of the module, and the problem that was made from them. -/
structure CapaMixin (α ω : Type) where
  attempts : Nat
  done : Bool
  correctMap : EntryMap
  studentAnswers : Dict String α
  seed : Option Int
  lastSubmissionTime : Option Time
  lcp : LoncapaProblem α ω

variable {α ω : Type} (settings : Settings α ω)

/-! ## The problem -/

namespace LoncapaProblem

/-- `new_lcp`, with the stored state or without one. -/
def new (settings : Settings α ω) (seed : Int) (state : Option (Dict String α × EntryMap × Bool)) :
    Option (LoncapaProblem α ω) :=
  (settings.create seed).map fun created =>
    match state with
    | none => ⟨seed, created.2, {}, false, created.1⟩
    | some (studentAnswers, correctMap, done) =>
      let answers := if studentAnswers.entries.isEmpty then created.2 else studentAnswers
      ⟨seed, answers, { cmap := correctMap }, done, created.1⟩

/-- `get_npoints`; a value that is no number raises when it is added. -/
def npoints (entry : Entry) : Option Rat :=
  match entry.npoints with
  | some (.number points) => some points
  | some (.bool points) => some (if points then 1 else 0)
  | some .null | none =>
    some (if entry.correctness = some .correct || entry.correctness = some .partiallyCorrect then 1 else 0)
  | some _ => none

section

variable (lcp : LoncapaProblem α ω)

/-- `get_score`: the score and the total, or an exception. -/
def getScore : Option (Rat × Rat) := do
  let points ← lcp.correctMap.cmap.entries.mapM fun entry => npoints entry.2
  let total := (lcp.responders.map Responder.maxScore).sum
  pure (if lcp.studentAnswers.entries.isEmpty then (0, total) else (points.sum, total))

def isQueued : Bool := lcp.correctMap.cmap.entries.any fun entry => entry.2.queuestate.isSome

section

variable (strptime : String → Option Time) (lcp : LoncapaProblem α ω)

def queuetimes : Option (List Time) :=
  (lcp.correctMap.cmap.entries.filterMap fun entry => entry.2.queuestate).mapM
    fun queuestate => strptime queuestate.time

/-- `get_recentmost_queuetime` -/
def recentmostQueuetime : Option Time := (lcp.queuetimes strptime).bind List.max?

end

/-- `_grade_answers`; a rescoring has no submitted answers. -/
def gradeResponders (world : ω) (submitted : Option (Dict String α)) (lcp : LoncapaProblem α ω) :
    Except GradeError Results :=
  lcp.responders.foldlM (fun newcmap responder => do
    let results ← match responder.allowsFileSubmission, submitted with
      | true, none => .error .unexpected
      | true, some answers => responder.evaluateAnswers world answers lcp.correctMap
      | false, _ => responder.evaluateAnswers world lcp.studentAnswers lcp.correctMap
    pure (newcmap.update results)) {}

/-- `grade_answers`: the answers are stored before they are graded. -/
def gradeAnswers (settings : Settings α ω) (world : ω) (answers : Dict String α)
    (lcp : LoncapaProblem α ω) : LoncapaProblem α ω × Option GradeError :=
  let stored := { lcp with studentAnswers := settings.convertFilesToFilenames answers }
  match stored.gradeResponders world (some answers) with
  | .error err => (stored, some err)
  | .ok newcmap => ({ stored with correctMap := newcmap }, none)

def supportsRescoring : Bool := lcp.responders.all fun responder => !responder.allowsFileSubmission

end

/-- `update_score`; what the responses raise leaves the correct map as it is. -/
def updateScore (scoreMsg queuekey : String) (lcp : LoncapaProblem α ω) :
    Except GradeError (LoncapaProblem α ω) := do
  let cmap ← lcp.responders.foldlM (fun cmap responder =>
    match responder.updateScore with
    | none => pure cmap
    | some update => update scoreMsg queuekey cmap) lcp.correctMap.cmap
  pure { lcp with correctMap := { cmap } }

end LoncapaProblem

/-! ## The module -/

/-- How a call ends. -/
inductive Outcome where
  /-- The answers were graded; whether the grade was published too. -/
  | graded (published : Bool)
  | success
  | failure
  | mustWait
  | errorMessage (err : GradeError)
  | raised (err : GradeError)
  | notFoundError
  | notImplementedError
  deriving DecidableEq, Repr

def Outcome.isGraded : Outcome → Bool
  | .graded _ => true
  | _ => false

def gradingFailed : GradeError → Outcome
  | .unexpected => .raised .unexpected
  | err => .errorMessage err

namespace CapaMixin

/-- `set_state_from_lcp` -/
def setStateFromLcp (lcp : LoncapaProblem α ω) (module : CapaMixin α ω) : CapaMixin α ω :=
  { module with
    done := lcp.done
    correctMap := lcp.correctMap.cmap
    studentAnswers := lcp.studentAnswers
    seed := some lcp.seed
    lcp := lcp }

def chooseNewSeed (random : Int) : Int :=
  match settings.rerandomize, settings.randomizationBin with
  | .never, _ => 1
  | .perStudent, some bin => bin
  | _, _ => random % 1000

/-- `__init__`, from the stored fields. -/
def init (random : Int) (module : CapaMixin α ω) : Option (CapaMixin α ω) :=
  let seed := module.seed.getD (chooseNewSeed settings random)
  let state := (module.studentAnswers, module.correctMap, module.done)
  (LoncapaProblem.new settings seed (some state)).map fun lcp => { module with seed := some seed, lcp := lcp }

def closeDate : Option Time :=
  match settings.due, settings.graceperiod with
  | some due, some graceperiod => some (due + graceperiod)
  | due, _ => due

section

variable (now : Time)

def isPastDue : Bool := (closeDate settings).any fun closeDate => decide (closeDate < now)

section

variable (module : CapaMixin α ω)

def closed : Bool :=
  settings.maxAttempts.any (fun maxAttempts => decide (maxAttempts ≤ module.attempts)) || isPastDue settings now

/-- `is_correct`, or an exception. -/
def isCorrect : Option Bool := module.lcp.getScore.map fun score => decide (score.1 = score.2)

def answerAvailable : Option Bool :=
  match settings.showanswer with
  | .unset | .never => some false
  | showanswer =>
    if settings.userIsStaff then some true
    else
      match showanswer with
      | .attempted => some (decide (0 < module.attempts))
      | .answered => some module.lcp.done
      | .closed => some (module.closed settings now)
      | .finished => if module.closed settings now then some true else module.isCorrect
      | .correctOrPastDue => module.isCorrect.map fun correct => correct || isPastDue settings now
      | .pastDue => some (isPastDue settings now)
      | .always => some true
      | .unset | .never => some false

/-- The learner has to wait for the queue; a time that cannot be read raises. -/
def mustWaitForQueue (current : Time) (module : CapaMixin α ω) : Option Bool :=
  if module.lcp.isQueued then
    (module.lcp.recentmostQueuetime settings.strptime).map fun previous =>
      decide (current - previous < settings.waittime)
  else some false

def mustWaitForReset (current : Time) (module : CapaMixin α ω) : Bool :=
  match module.lastSubmissionTime with
  | none => false
  | some last =>
    decide (settings.submissionWaitSeconds ≠ 0) && decide (current - last < settings.submissionWaitSeconds)

/-- The part of `check_problem` after its guards. -/
def gradeAndStore (world : ω) (answers : Dict String α) (module : CapaMixin α ω) : CapaMixin α ω × Outcome :=
  match module.lcp.gradeAnswers settings world answers with
  | (lcp, some err) => (module.setStateFromLcp lcp, gradingFailed err)
  | (lcp, none) =>
    let graded := { module with attempts := module.attempts + 1 }.setStateFromLcp { lcp with done := true }
    ({ graded with lastSubmissionTime := some now }, .graded graded.lcp.getScore.isSome)

/-- `check_problem`; `none` stands for data from which no answers can be made. -/
def checkProblem (overrideTime : Option Time) (world : ω) (data : Option (Dict String α))
    (module : CapaMixin α ω) : CapaMixin α ω × Outcome :=
  match data with
  | none => (module, .raised .unexpected)
  | some answers =>
    let currentTime := overrideTime.getD now
    if module.closed settings now then (module, .notFoundError)
    else if module.done && decide (settings.rerandomize = .always) then (module, .notFoundError)
    else
      match module.mustWaitForQueue settings currentTime with
      | none => (module, .raised .unexpected)
      | some true => (module, .mustWait)
      | some false =>
        if module.mustWaitForReset settings currentTime then (module, .mustWait)
        else module.gradeAndStore settings now world answers

def saveProblem (data : Option (Dict String α)) (module : CapaMixin α ω) : CapaMixin α ω × Outcome :=
  match data with
  | none => (module, .raised .unexpected)
  | some answers =>
    if module.closed settings now && !decide (settings.maxAttempts = some 0) then (module, .failure)
    else if module.done && decide (settings.rerandomize = .always) then (module, .failure)
    else (module.setStateFromLcp { module.lcp with studentAnswers := answers }, .success)

/-- A new seed is chosen before the problem is created again, which may fail. -/
def resetProblem (random : Int) (module : CapaMixin α ω) : CapaMixin α ω × Outcome :=
  if module.closed settings now then (module, .failure)
  else if !module.lcp.done then (module, .failure)
  else
    let seed :=
      if settings.rerandomize = .always ∨ settings.rerandomize = .onReset then
        chooseNewSeed settings random
      else module.seed.getD module.lcp.seed
    match LoncapaProblem.new settings seed none with
    | none => ({ module with seed := some seed }, .raised .unexpected)
    | some lcp => (module.setStateFromLcp lcp, .success)

def rescoreProblem (world : ω) (module : CapaMixin α ω) : CapaMixin α ω × Outcome :=
  if !module.lcp.supportsRescoring then (module, .notImplementedError)
  else if !module.done then (module, .notFoundError)
  else
    match module.lcp.getScore, module.lcp.gradeResponders world none with
    | none, _ => (module, .raised .unexpected)
    | some _, .error err => (module, gradingFailed err)
    | some _, .ok correctMap =>
      let lcp := { module.lcp with correctMap := correctMap }
      (module.setStateFromLcp lcp, .graded lcp.getScore.isSome)

def updateScore (scoreMsg queuekey : String) (module : CapaMixin α ω) : CapaMixin α ω × Outcome :=
  match module.lcp.updateScore scoreMsg queuekey with
  | .error err => (module, .raised err)
  | .ok lcp => (module.setStateFromLcp lcp, .graded lcp.getScore.isSome)

/-- `get_answer` -/
def getAnswer : CapaMixin α ω × Outcome :=
  match module.answerAvailable settings now with
  | none => (module, .raised .unexpected)
  | some false => (module, .notFoundError)
  | some true => (module.setStateFromLcp module.lcp, .success)

end

end

end CapaMixin

open CapaMixin

/-! ## Requests -/

inductive Call (α ω : Type) where
  | check (overrideTime : Option Time) (world : ω) (data : Option (Dict String α))
  | save (data : Option (Dict String α))
  | reset (random : Int)
  | rescore (world : ω)
  | updateScore (scoreMsg queuekey : String)
  | showAnswer

/-- A call at a time, on the module that is there or on one that is made from its fields. -/
structure Request (α ω : Type) where
  now : Time
  reload : Option Int
  call : Call α ω

namespace Request

variable (request : Request α ω)

def load (module : CapaMixin α ω) : Option (CapaMixin α ω) :=
  match request.reload with
  | none => some module
  | some random => module.init settings random

def run (module : CapaMixin α ω) : CapaMixin α ω × Outcome :=
  match request.call with
  | .check overrideTime world data => module.checkProblem settings request.now overrideTime world data
  | .save data => module.saveProblem settings request.now data
  | .reset random => module.resetProblem settings request.now random
  | .rescore world => module.rescoreProblem world
  | .updateScore scoreMsg queuekey => module.updateScore scoreMsg queuekey
  | .showAnswer => module.getAnswer settings request.now

def countsAsAttempt (outcome : Outcome) : Bool :=
  match request.call with
  | .check .. => outcome.isGraded
  | _ => false

end Request

/-- The module, and how many checks were graded. -/
structure Progress (α ω : Type) where
  module : CapaMixin α ω
  graded : Nat

section

variable (progress : Progress α ω) (request : Request α ω)

def Progress.step : Progress α ω :=
  match request.load settings progress.module with
  | none => progress
  | some module =>
    let result := request.run settings module
    ⟨result.1, progress.graded + if request.countsAsAttempt result.2 then 1 else 0⟩

/-- The attempts are the graded checks, and there are not too many. -/
structure Counted (settings : Settings α ω) (progress : Progress α ω) : Prop where
  attempts : progress.module.attempts = progress.graded
  limit : ∀ maxAttempts, settings.maxAttempts = some maxAttempts → progress.module.attempts ≤ maxAttempts

def LeavesAnswers (settings : Settings α ω) (request : Request α ω) (module : CapaMixin α ω) : Prop :=
  (request.run settings module).2.isGraded = false ∧ (request.run settings module).1.lcp = module.lcp

/-- Only a save on a problem without attempts may replace the answers of a closed problem, and no
call may grade them. -/
def LeavesClosed : Prop :=
  ∀ module, request.load settings progress.module = some module → module.closed settings request.now = true →
    LeavesAnswers settings request module ∨ ∃ data, request.call = .save data ∧ settings.maxAttempts = some 0

/-- A rescoring and a message of a grader may also grade the answers of a closed problem, which stay
the same, as the attempts do. -/
def LeavesClosedUnlessStaff : Prop :=
  ∀ module, request.load settings progress.module = some module → module.closed settings request.now = true →
    match request.call with
    | .save _ => LeavesAnswers settings request module ∨ settings.maxAttempts = some 0
    | .rescore _ | .updateScore .. =>
      (request.run settings module).1.lcp.studentAnswers = module.lcp.studentAnswers ∧
        (request.run settings module).1.attempts = module.attempts
    | _ => LeavesAnswers settings request module

end

section Requests

variable {settings : Settings α ω} {module : CapaMixin α ω}

namespace CapaMixin

theorem attempts_lt_of_open {now : Time} (hopen : module.closed settings now = false) {maxAttempts : Nat}
    (hmax : settings.maxAttempts = some maxAttempts) : module.attempts < maxAttempts := by
  rw [closed, hmax, or_eq_false_iff] at hopen
  exact Nat.lt_of_not_le (of_decide_eq_false hopen.1)

variable (now : Time) (world : ω)

theorem attempts_gradeAndStore (answers : Dict String α) :
    (module.gradeAndStore settings now world answers).1.attempts =
      module.attempts + if (module.gradeAndStore settings now world answers).2.isGraded then 1 else 0 := by
  rw [gradeAndStore]
  split
  · next err _ => cases err <;> rfl
  · rfl

variable (settings module) in
theorem checkProblem_cases (overrideTime : Option Time) (world : ω) (data : Option (Dict String α)) :
    (∃ outcome, outcome.isGraded = false ∧
      module.checkProblem settings now overrideTime world data = (module, outcome)) ∨
    (module.closed settings now = false ∧ ∃ answers, module.checkProblem settings now overrideTime world data =
        module.gradeAndStore settings now world answers) := by
  cases data with
  | none => exact .inl ⟨_, rfl, rfl⟩
  | some answers =>
    rw [checkProblem]
    split
    · exact .inl ⟨_, rfl, rfl⟩
    next hopen =>
    split
    · exact .inl ⟨_, rfl, rfl⟩
    split
    · exact .inl ⟨_, rfl, rfl⟩
    · exact .inl ⟨_, rfl, rfl⟩
    split
    · exact .inl ⟨_, rfl, rfl⟩
    · exact .inr ⟨not_eq_true _ ▸ hopen, answers, rfl⟩

theorem attempts_saveProblem (data : Option (Dict String α)) :
    (module.saveProblem settings now data).1.attempts = module.attempts := by
  cases data with
  | none => rfl
  | some answers =>
    rw [saveProblem]
    split
    · rfl
    split <;> rfl

theorem attempts_resetProblem (random : Int) :
    (module.resetProblem settings now random).1.attempts = module.attempts := by
  rw [resetProblem]
  split
  · rfl
  split
  · rfl
  · dsimp only
    split <;> rfl

theorem rescoreProblem_keeps : (module.rescoreProblem world).1.lcp.studentAnswers = module.lcp.studentAnswers ∧
      (module.rescoreProblem world).1.attempts = module.attempts := by
  rw [rescoreProblem]
  split
  · exact ⟨rfl, rfl⟩
  split
  · exact ⟨rfl, rfl⟩
  · split <;> exact ⟨rfl, rfl⟩

theorem updateScore_keeps (scoreMsg queuekey : String) :
    (module.updateScore scoreMsg queuekey).1.lcp.studentAnswers = module.lcp.studentAnswers ∧
      (module.updateScore scoreMsg queuekey).1.attempts = module.attempts := by
  rw [updateScore]
  cases hupd : module.lcp.updateScore scoreMsg queuekey with
  | error err => exact ⟨rfl, rfl⟩
  | ok lcp =>
    obtain ⟨cmap, -, hlcp⟩ := bind_ok hupd
    obtain rfl := ok.inj hlcp
    exact ⟨rfl, rfl⟩

theorem getAnswer_keeps (now : Time) : (module.getAnswer settings now).1.lcp = module.lcp ∧
      (module.getAnswer settings now).1.attempts = module.attempts ∧
      (module.getAnswer settings now).2.isGraded = false := by
  rw [getAnswer]
  split <;> exact ⟨rfl, rfl, rfl⟩

theorem attempts_init {random : Int} {loaded : CapaMixin α ω}
    (hloaded : module.init settings random = some loaded) : loaded.attempts = module.attempts := by
  obtain ⟨lcp, -, rfl⟩ := map_eq_some_iff.mp hloaded
  rfl

end CapaMixin

namespace Request

variable {request : Request α ω}

theorem attempts_load {loaded : CapaMixin α ω} (hloaded : request.load settings module = some loaded) :
    loaded.attempts = module.attempts := by
  rw [load] at hloaded
  split at hloaded
  · rw [some.inj hloaded]
  · exact attempts_init hloaded

variable (settings) in
theorem attempts_run (request : Request α ω) (module : CapaMixin α ω) : (request.run settings module).1.attempts =
      module.attempts + if request.countsAsAttempt (request.run settings module).2 then 1 else 0 := by
  obtain ⟨now, reload, call⟩ := request
  cases call with
  | check overrideTime world data =>
    rw [run, countsAsAttempt]
    rcases checkProblem_cases settings module now overrideTime world data with
      ⟨outcome, hgrd, hcheck⟩ | ⟨-, answers, hcheck⟩
    · simp only [hcheck, hgrd]
      rfl
    · simp only [hcheck]
      exact attempts_gradeAndStore now world answers
  | save data => exact attempts_saveProblem now data
  | reset random => exact attempts_resetProblem now random
  | rescore world => exact (rescoreProblem_keeps world).2
  | updateScore scoreMsg queuekey => exact (updateScore_keeps scoreMsg queuekey).2
  | showAnswer => exact (getAnswer_keeps now).2.1

theorem leavesAnswers_of_closed (hcl : module.closed settings request.now = true) : match request.call with
    | .save _ => LeavesAnswers settings request module ∨ settings.maxAttempts = some 0
    | .rescore _ | .updateScore .. => True
    | _ => LeavesAnswers settings request module := by
  obtain ⟨now, reload, call⟩ := request
  rw [LeavesAnswers, run]
  cases call with
  | check overrideTime world data =>
    rcases checkProblem_cases settings module now overrideTime world data with
      ⟨outcome, hgrd, hcheck⟩ | ⟨hopen, -⟩
    · simp only [hcheck]
      exact ⟨hgrd, trivial⟩
    · exact absurd (hcl.symm.trans hopen) (by decide)
  | save data =>
    cases data with
    | none => exact .inl ⟨rfl, rfl⟩
    | some answers =>
      by_cases hnone : settings.maxAttempts = some 0
      · exact .inr hnone
      · have href : (module.closed settings now && !decide (settings.maxAttempts = some 0)) = true := by
          rw [show module.closed settings now = true from hcl, decide_eq_false hnone]
          rfl
        simp only [saveProblem, href]
        exact .inl ⟨rfl, rfl⟩
  | reset random =>
    simp only [resetProblem, show module.closed settings now = true from hcl]
    exact ⟨rfl, rfl⟩
  | rescore world => trivial
  | updateScore scoreMsg queuekey => trivial
  | showAnswer => exact ⟨(getAnswer_keeps now).2.2, (getAnswer_keeps now).1⟩

theorem open_of_countsAsAttempt (hcoun : request.countsAsAttempt (request.run settings module).2 = true) :
    module.closed settings request.now = false := by
  by_contra hcl
  have hlvs := leavesAnswers_of_closed (not_eq_false _ ▸ hcl)
  rw [countsAsAttempt] at hcoun
  split at hcoun
  · next hcall =>
      rw [hcall] at hlvs
      exact absurd (hcoun.symm.trans hlvs.1) (by decide)
  · cases hcoun

end Request

theorem Counted.step {progress : Progress α ω} (hcntd : Counted settings progress)
    (request : Request α ω) : Counted settings (progress.step settings request) := by
  rw [Progress.step]
  cases hload : request.load settings progress.module with
  | none => exact hcntd
  | some module =>
    have hloaded := Request.attempts_load hload
    have hrun := request.attempts_run settings module
    refine ⟨by rw [hrun, hloaded, hcntd.attempts], fun maxAttempts hmax => ?_⟩
    dsimp only
    rw [hrun]
    cases hcoun : request.countsAsAttempt (request.run settings module).2 with
    | false => exact hloaded ▸ hcntd.limit maxAttempts hmax
    | true => exact attempts_lt_of_open (Request.open_of_countsAsAttempt hcoun) hmax

theorem leavesClosedUnlessStaff (progress : Progress α ω) (request : Request α ω) :
    LeavesClosedUnlessStaff settings progress request := by
  intro module hload hcl
  have hlvs := Request.leavesAnswers_of_closed hcl
  obtain ⟨now, reload, call⟩ := request
  cases call with
  | check overrideTime world data => exact hlvs
  | save data => exact hlvs
  | reset random => exact hlvs
  | rescore world => exact rescoreProblem_keeps world
  | updateScore scoreMsg queuekey => exact updateScore_keeps scoreMsg queuekey
  | showAnswer => exact hlvs

end Requests

def Progress.unattempted (module : CapaMixin α ω) : Progress α ω := ⟨{ module with attempts := 0 }, 0⟩

theorem counted_unattempted (settings : Settings α ω) (module : CapaMixin α ω) :
    Counted settings (Progress.unattempted module) :=
  ⟨rfl, fun _ _ => Nat.zero_le _⟩

/-- Throughout every run of requests on a problem that was not attempted, the attempts are the
graded checks, there are not more of them than are allowed, and the answers of a problem that is
closed are left as they are but for the exceptions. -/
theorem always_counted_and_each_leavesClosed (settings : Settings α ω) (module : CapaMixin α ω)
    (requests : List (Request α ω)) :
    Always (Progress.step settings) (Counted settings) (Progress.unattempted module) requests ∧
      Each (Progress.step settings) (LeavesClosedUnlessStaff settings) (Progress.unattempted module) requests := by
  have heach : Each (Progress.step settings) (LeavesClosedUnlessStaff settings)
      (Progress.unattempted module) requests := by
    generalize Progress.unattempted module = progress
    induction requests generalizing progress with
    | nil => trivial
    | cons request requests ih => exact ⟨leavesClosedUnlessStaff progress request, ih _⟩
  exact ⟨always_of_each (fun progress request hcounted _ => hcounted.step request)
    (counted_unattempted settings module) heach, heach⟩

/-- A response for which the answer `a` is correct. -/
def answerA : Responder String Unit where
  allowsFileSubmission := false
  maxScore := 1
  evaluateAnswers _ answers _ :=
    let mark := if answers.lookup "i4x_1_2_1" = some "a" then Mark.correct else Mark.incorrect
    .ok { cmap := (∅ : EntryMap).insert "i4x_1_2_1" { correctness := some mark } }

def oneAttempt : Settings String Unit where
  maxAttempts := some 1
  due := none
  graceperiod := none
  rerandomize := .never
  showanswer := .finished
  submissionWaitSeconds := 0
  waittime := 0
  userIsStaff := false
  randomizationBin := none
  create _ := some ([answerA], ∅)
  convertFilesToFilenames := id
  strptime _ := none

def newModule : CapaMixin String Unit where
  attempts := 0
  done := false
  correctMap := ∅
  studentAnswers := ∅
  seed := some 1
  lastSubmissionTime := none
  lcp := ⟨1, ∅, {}, false, [answerA]⟩

def checkThenRescore : List (Request String Unit) :=
  [⟨0, none, .check none () (some (Dict.ofList [("i4x_1_2_1", "b")]))⟩, ⟨1, none, .rescore ()⟩]

/-- The rescoring grades the answers of the problem, which is closed after its only attempt. -/
theorem checkThenRescore_grades_closed :
    ¬ (Always (Progress.step oneAttempt) (Counted oneAttempt) (Progress.unattempted newModule) checkThenRescore ∧
      Each (Progress.step oneAttempt) (LeavesClosed oneAttempt) (Progress.unattempted newModule)
        checkThenRescore) := by
  rintro ⟨-, -, hleaves, -⟩
  rcases hleaves _ rfl (by decide +kernel) with ⟨hgraded, -⟩ | ⟨data, hcall, -⟩
  · revert hgraded
    decide +kernel
  · cases hcall

end EdxPlatform.CapaModule
