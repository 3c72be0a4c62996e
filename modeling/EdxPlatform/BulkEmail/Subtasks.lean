import Mathlib.Algebra.BigOperators.Group.List.Basic
import Mathlib.Algebra.Ring.Nat
import EdxPlatform.Lib.Dict
import EdxPlatform.Lib.Runs

/-!
# Subtasks of a bulk email

Workers get messages from the queue, any message any number of times.  Each checks
the stored status, takes the lock, sends, writes the status back and releases the
lock; between any two of these steps the others may take theirs.
-/

namespace EdxPlatform.BulkEmail

/-- Celery states. -/
inductive TaskState where
  | queuing
  | progress
  | retry
  | success
  | failure
  | revoked
  deriving DecidableEq, Repr

/-- `READY_STATES`. -/
def readyStates : List TaskState := [.success, .failure, .revoked]

structure SubtaskStatus where
  taskId : String
  attempted : Nat := 0
  succeeded : Nat := 0
  failed : Nat := 0
  skipped : Nat := 0
  retriedNomax : Nat := 0
  retriedWithmax : Nat := 0
  state : TaskState := .queuing
  deriving DecidableEq, Repr

/-- The counts that are summed for the whole task. -/
inductive StatName where
  | attempted
  | succeeded
  | failed
  | skipped
  deriving DecidableEq, Repr

namespace SubtaskStatus

section

variable (status : SubtaskStatus)

def get : StatName → Nat
  | .attempted => status.attempted
  | .succeeded => status.succeeded
  | .failed => status.failed
  | .skipped => status.skipped

/-- `increment` of the counts of recipients. -/
def increment (succeeded failed skipped : Nat) : SubtaskStatus :=
  { status with
    attempted := status.attempted + (succeeded + failed)
    succeeded := status.succeeded + succeeded
    failed := status.failed + failed
    skipped := status.skipped + skipped }

/-- `increment(failed=..., state=FAILURE)`. -/
def fail (failed : Nat) : SubtaskStatus := { status.increment 0 failed 0 with state := .failure }

/-- `get_retry_count`. -/
def retryCount : Nat := status.retriedNomax + status.retriedWithmax

def ready : Bool := status.state ∈ readyStates

end

end SubtaskStatus

/-- A message of the queue: the arguments of `send_course_email`, with the length of
the list of recipients. -/
structure Message where
  status : SubtaskStatus
  recipients : Nat
  deriving DecidableEq, Repr

def Message.attempt (message : Message) : String × Nat := (message.status.taskId, message.status.retryCount)

/-- How sending ends. -/
inductive Ending where
  | allSent
  /-- A fatal error, with the recipients left. -/
  | fatal (pending : Nat)
  /-- An error after which the recipients left are retried, without limit or with one. -/
  | infiniteRetry (pending : Nat)
  | limitedRetry (pending : Nat)
  /-- An exception that `_send_course_email` does not expect. -/
  | unexpected
  deriving DecidableEq, Repr

/-- What a call of `_send_course_email` did. -/
structure Sending where
  succeeded : Nat
  failed : Nat
  optouts : Nat
  ending : Ending
  deriving DecidableEq, Repr

/-- What follows once the status is written: nothing, the retry of the recipients left,
or, after a retry whose status could not be written, the failure of all recipients. -/
inductive Next where
  | finish
  | retry (pending : Nat)
  | failAll
  deriving DecidableEq, Repr

/-- Where a worker is in `send_course_email`. -/
inductive Phase where
  | idle
  | received (message : Message)
  | checked (message : Message)
  | sending (message : Message)
  /-- In `update_subtask_status`, after so many tries. -/
  | updating (message : Message) (status : SubtaskStatus) (tries : Nat) (next : Next)
  /-- The levels of `update_subtask_status` whose `finally` is still to run. -/
  | releasing (message : Message) (status : SubtaskStatus) (levels : Nat) (next : Next)
  | retrying (message : Message) (status : SubtaskStatus) (pending : Nat)
  deriving DecidableEq, Repr

/-- The row of the `InstructorTask`: its `subtasks` and its `task_output`. -/
structure InstructorTask where
  status : Dict String SubtaskStatus
  total : Nat
  succeeded : Nat := 0
  failed : Nat := 0
  taskProgress : StatName → Nat := fun _ => 0
  taskState : TaskState := .progress

/-- The row, the locks in the cache, the messages that were ever queued, the workers,
and the attempts that have taken their lock to send, which no code reads. -/
structure System where
  entry : InstructorTask
  locks : List String := []
  messages : List Message
  workers : Nat → Phase := fun _ => .idle
  sent : List (String × Nat) := []

def maxDatabaseLockRetries : Nat := 5

/-- `initialize_subtask_info`, and the first message of each subtask. -/
def initializeSubtaskInfo (subtasks : List (String × Nat)) : System where
  entry :=
    { status := Dict.ofList (subtasks.map fun subtask => (subtask.1, { taskId := subtask.1 }))
      total := subtasks.length }
  messages := subtasks.map fun subtask => ⟨{ taskId := subtask.1 }, subtask.2⟩

/-- The checks of `check_subtask_is_valid` before it takes the lock. -/
def InstructorTask.isValid (entry : InstructorTask) (status : SubtaskStatus) : Bool :=
  match entry.status.lookup status.taskId with
  | none => false
  | some stored => !stored.ready && !(stored.state = .retry && status.retryCount < stored.retryCount)

/-- `_send_course_email` on the status of the message: the new status, and what is to
be done once it is written. -/
def Sending.result (sending : Sending) (message : Message) : SubtaskStatus × Next :=
  let skipped := if message.status.retryCount = 0 then sending.optouts else 0
  let status := message.status.increment sending.succeeded sending.failed skipped
  match sending.ending with
  | .allSent => ({ status with state := .success }, .finish)
  | .fatal pending => (status.fail pending, .finish)
  | .infiniteRetry pending =>
    ({ status with retriedNomax := status.retriedNomax + 1, state := .retry }, .retry pending)
  | .limitedRetry pending =>
    ({ status with retriedWithmax := status.retriedWithmax + 1, state := .retry }, .retry pending)
  | .unexpected => (status.fail message.recipients, .finish)

/-- `_update_subtask_status`. -/
def InstructorTask.update (entry : InstructorTask) (taskId : String) (status : SubtaskStatus) :
    InstructorTask :=
  let succeeded := if status.state = .success then entry.succeeded + 1 else entry.succeeded
  let failed :=
    if status.state ≠ .success ∧ status.ready then entry.failed + 1 else entry.failed
  { status := entry.status.insert taskId status
    total := entry.total
    succeeded
    failed
    taskProgress := fun statname =>
      if status.ready then entry.taskProgress statname + status.get statname
      else entry.taskProgress statname
    taskState :=
      if (entry.total : Int) - succeeded - failed ≤ 0 then .success else entry.taskState }

/-- The steps of the workers. -/
inductive Action where
  | deliver (worker : Nat) (message : Message)
  | check (worker : Nat)
  | lock (worker : Nat)
  | send (worker : Nat) (sending : Sending)
  | update (worker : Nat) (databaseFails : Bool)
  | release (worker : Nat)
  | retry (worker : Nat) (accepted : Bool)
  deriving DecidableEq, Repr

namespace System

def setWorker (system : System) (worker : Nat) (phase : Phase) : System :=
  { system with workers := Function.update system.workers worker phase }

def afterRelease (message : Message) (status : SubtaskStatus) : Next → Phase
  | .finish => .idle
  | .retry pending => .retrying message status pending
  | .failAll => .updating message (status.fail message.recipients) 0 .finish

def step (system : System) : Action → System
  | .deliver worker message =>
    match system.workers worker with
    | .idle => if message ∈ system.messages then system.setWorker worker (.received message) else system
    | _ => system
  | .check worker =>
    match system.workers worker with
    | .received message =>
      system.setWorker worker (if system.entry.isValid message.status then .checked message else .idle)
    | _ => system
  | .lock worker =>
    match system.workers worker with
    | .checked message =>
      if message.status.taskId ∈ system.locks then system.setWorker worker .idle
      else
        { system with
          locks := message.status.taskId :: system.locks
          sent := message.attempt :: system.sent }.setWorker worker (.sending message)
    | _ => system
  | .send worker sending =>
    match system.workers worker with
    | .sending message =>
      let result := sending.result message
      system.setWorker worker (.updating message result.1 0 result.2)
    | _ => system
  | .update worker databaseFails =>
    match system.workers worker with
    | .updating message status tries next =>
      if databaseFails && decide (tries + 1 < maxDatabaseLockRetries) then
        system.setWorker worker (.updating message status (tries + 1) next)
      else if databaseFails || decide (message.status.taskId ∉ system.entry.status) then
        let next := match next with
          | .retry _ => .failAll
          | next => next
        system.setWorker worker (.releasing message status (tries + 1) next)
      else
        { system with entry := system.entry.update message.status.taskId status }.setWorker worker
          (.releasing message status (tries + 1) next)
    | _ => system
  | .release worker =>
    match system.workers worker with
    | .releasing message status levels next =>
      { system with locks := system.locks.filter (· ≠ message.status.taskId) }.setWorker worker
        (if levels ≤ 1 then afterRelease message status next
        else .releasing message status (levels - 1) next)
    | _ => system
  | .retry worker accepted =>
    match system.workers worker with
    | .retrying message status pending =>
      if accepted then
        { system with messages := ⟨status, pending⟩ :: system.messages }.setWorker worker .idle
      else system.setWorker worker (.updating message (status.fail pending) 0 .finish)
    | _ => system

/-- The lock is taken only while the stored status still passes the check that was made
before, and no status fails to be written so often that it is given up. -/
def Undisturbed (system : System) : Action → Prop
  | .lock worker =>
    match system.workers worker with
    | .checked message => message.status.taskId ∉ system.locks → system.entry.isValid message.status = true
    | _ => True
  | .update worker true =>
    match system.workers worker with
    | .updating _ _ tries _ => tries + 1 < maxDatabaseLockRetries
    | _ => True
  | _ => True

/-- No attempt is sent twice, the totals are those of the finished subtasks, and the task
succeeds only when all are finished. -/
structure Accounted (system : System) : Prop where
  once : system.sent.Nodup
  totals : ∀ statname, system.entry.taskProgress statname = (system.entry.status.entries.map fun entry =>
      if entry.2.ready then entry.2.get statname else 0).sum
  success : system.entry.taskState = .success → ∀ taskId status,
    system.entry.status.lookup taskId = some status → status.ready = true

end System

end EdxPlatform.BulkEmail
