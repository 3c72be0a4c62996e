import EdxPlatform.BulkEmail.Subtasks

/-!
# Sending the mails of a subtask

The chain of a subtask and its retries: each attempt takes the recipients of its
message, leaves out those who opted out if it is the first, and mails the others from
the end of the list.  Every status is written to the task and every attempt passes the
check of its message.
-/

namespace EdxPlatform.BulkEmail

/-- The errors, by the tuple of `bulk_email.tasks` that they are in. -/
inductive MailError where
  /-- `SINGLE_EMAIL_FAILURE_ERRORS`. -/
  | single
  /-- `SMTPDataError`, with its `smtp_code`. -/
  | smtpData (code : Int)
  /-- `SESMaxSendingRateExceededError`. -/
  | maxSendingRate
  /-- `LIMITED_RETRY_ERRORS`. -/
  | limited
  /-- `BULK_EMAIL_FAILURE_ERRORS`. -/
  | fatal
  | unexpected
  deriving DecidableEq, Repr

/-- What the outer handlers of `_send_course_email` do with an error. -/
inductive Reaction where
  | infiniteRetry
  | limitedRetry
  | fail
  deriving DecidableEq, Repr

def MailError.reaction : MailError → Reaction
  | .smtpData _ => .infiniteRetry
  | .maxSendingRate => .infiniteRetry
  | .limited => .limitedRetry
  | .fatal => .fail
  | .single => .limitedRetry
  | .unexpected => .limitedRetry

/-- What becomes of one mail. -/
inductive Outcome where
  | sent
  | failed
  /-- The outer handlers get the error. -/
  | raised (error : MailError)
  deriving DecidableEq, Repr

/-- The handlers around `send_messages`. -/
def outcome : Option MailError → Outcome
  | none => .sent
  | some .single => .failed
  | some (.smtpData code) =>
    if 400 ≤ code ∧ code < 500 then .raised (.smtpData code) else .failed
  | some error => .raised error

structure Recipient where
  pk : Nat
  email : String
  deriving DecidableEq, Repr

/-- What the query for the opt-outs reads: who opted out of the course, and the emails of
the users. -/
structure OptoutRows where
  optedOut : Nat → Bool
  userEmail : Nat → String

def OptoutRows.emails (rows : OptoutRows) (toList : List Recipient) : List String :=
  ((toList.filter fun recipient => rows.optedOut recipient.pk).map fun recipient => rows.userEmail recipient.pk).dedup

/-- `_filter_optouts_from_recipients`. -/
def OptoutRows.filterOptouts (rows : OptoutRows) (toList : List Recipient) : List Recipient × Nat :=
  (toList.filter fun recipient => recipient.email ∉ rows.emails toList, (rows.emails toList).length)

/-- Where the chain is: a message in the queue, the loop over the recipients left, or the
end. -/
inductive ChainPhase where
  | queued (toList : List Recipient)
  | sending (toList : List Recipient)
  | done
  deriving DecidableEq, Repr

def ChainPhase.pending : ChainPhase → List Recipient
  | .queued toList => toList
  | .sending toList => toList
  | .done => []

/-- The status, and what no code keeps: the addresses behind each count, and the mails
that were tried with whether they were sent. -/
structure Chain where
  phase : ChainPhase
  status : SubtaskStatus
  succeeded : List String := []
  failed : List String := []
  skipped : List String := []
  mailed : List (String × Bool) := []
  deriving DecidableEq, Repr

/-- How the mail connection is made. -/
inductive Connecting where
  /-- `get_connection` raises. -/
  | unavailable (error : MailError)
  /-- `open` raises. -/
  | refused (error : MailError)
  | opened
  deriving DecidableEq, Repr

/-- What an attempt meets before the loop. -/
structure Attempt where
  emailLoads : Bool := true
  templateLoads : Bool := true
  connecting : Connecting := .opened
  retryAccepted : Bool := true
  deriving DecidableEq, Repr

inductive ChainEvent where
  | attempt (attempt : Attempt)
  | send (error : Option MailError) (retryAccepted : Bool)
  deriving DecidableEq, Repr

namespace Chain

section

variable (chain : Chain) (toList : List Recipient)

def failRest : Chain :=
  { chain with
    status := chain.status.fail toList.length
    failed := chain.failed ++ toList.map Recipient.email
    phase := .done }

/-- `_submit_for_retry`. -/
def submitForRetry (retryAccepted : Bool) : Chain :=
  if retryAccepted then { chain with phase := .queued toList } else chain.failRest toList

/-- The outer handlers of `_send_course_email`. -/
def handle (chain : Chain) (error : MailError) (toList : List Recipient) (retryAccepted : Bool) :
    Chain :=
  match error.reaction with
  | .infiniteRetry =>
    { chain with
      status := { chain.status with
        retriedNomax := chain.status.retriedNomax + 1, state := .retry } }.submitForRetry toList
      retryAccepted
  | .limitedRetry =>
    { chain with
      status := { chain.status with
        retriedWithmax := chain.status.retriedWithmax + 1, state := .retry } }.submitForRetry toList
      retryAccepted
  | .fail => chain.failRest toList

def goOn : Chain :=
  if toList.isEmpty then
    { chain with status := { chain.status with state := .success }, phase := .done }
  else { chain with phase := .sending toList }

def sendNext (error : Option MailError) (retryAccepted : Bool) : Chain :=
  match toList.getLast? with
  | none => chain
  | some currentRecipient =>
    let email := currentRecipient.email
    let chain := { chain with mailed := chain.mailed ++ [(email, error.isNone)] }
    match outcome error with
    | .sent =>
      { chain with
        status := chain.status.increment 1 0 0
        succeeded := chain.succeeded ++ [email] }.goOn toList.dropLast
    | .failed =>
      { chain with
        status := chain.status.increment 0 1 0
        failed := chain.failed ++ [email] }.goOn toList.dropLast
    | .raised error => chain.handle error toList retryAccepted

end

section

variable (rows : OptoutRows) (chain : Chain)

def excludeOptouts (toList : List Recipient) : Chain × List Recipient :=
  if chain.status.retryCount = 0 then
    let (kept, numOptout) := rows.filterOptouts toList
    ({ chain with
        status := chain.status.increment 0 0 numOptout
        skipped := chain.skipped ++ (toList.filter fun recipient =>
          recipient.email ∈ rows.emails toList).map Recipient.email },
      kept)
  else (chain, toList)

/-- `_send_course_email` up to the loop, with the handler of `send_course_email` for what it
does not catch. -/
def sendCourseEmail (message : List Recipient) (attempt : Attempt) : Chain :=
  if attempt.emailLoads then
    let (chain, toList) := chain.excludeOptouts rows message
    if attempt.templateLoads then
      match attempt.connecting with
      | .unavailable error =>
        -- `finally` closes a connection that is not there; a retry finds a finished subtask
        (chain.handle error toList attempt.retryAccepted).failRest message
      | .refused error => chain.handle error toList attempt.retryAccepted
      | .opened => chain.goOn toList
    else chain.failRest message
  else chain.failRest message

/-- What happens next; an event that the phase does not allow changes nothing. -/
def step : ChainEvent → Chain
  | .attempt attempt =>
    match chain.phase with
    | .queued message => chain.sendCourseEmail rows message attempt
    | _ => chain
  | .send error retryAccepted =>
    match chain.phase with
    | .sending toList => chain.sendNext toList error retryAccepted
    | _ => chain

def start (taskId : String) (toList : List Recipient) : Chain where
  phase := .queued toList
  status := { taskId }

/-- With these recipients left, every address is in one class, the counts are those of the
classes, and nobody is mailed after a mail to them was sent. -/
structure Tallied (addresses : List String) (chain : Chain) (pending : List Recipient) : Prop where
  total : chain.status.succeeded + chain.status.failed + chain.status.skipped + pending.length = addresses.length
  attempted : chain.status.attempted = chain.status.succeeded + chain.status.failed
  classes : (chain.succeeded ++ chain.failed ++ chain.skipped ++ pending.map Recipient.email).Perm addresses
  succeeded : chain.status.succeeded = chain.succeeded.length
  failed : chain.status.failed = chain.failed.length
  skipped : chain.status.skipped = chain.skipped.length
  counted : ∀ address, (address, true) ∈ chain.mailed → address ∈ chain.succeeded
  once : chain.mailed.Pairwise fun earlier later => earlier.2 = true → later.1 ≠ earlier.1

def Conserved (addresses : List String) (chain : Chain) : Prop := chain.Tallied addresses chain.phase.pending

/-- Nobody was counted when the handler of `send_course_email` counts all of its message as
failed, and the opt-outs are as many as were taken off the list. -/
def Consistent : ChainEvent → Prop
  | .attempt attempt =>
    match chain.phase with
    | .queued message =>
      let numOptout := if chain.status.retryCount = 0 then (rows.filterOptouts message).2 else 0
      let toList := (chain.excludeOptouts rows message).2
      attempt.emailLoads = true → if attempt.templateLoads then
          match attempt.connecting with
          | .unavailable error => numOptout = 0 ∧ (error.reaction ≠ .fail ∧ attempt.retryAccepted = true ∨ toList = [])
          | _ => numOptout + toList.length = message.length
        else numOptout = 0
    | _ => True
  | .send _ _ => True

end

end Chain

end EdxPlatform.BulkEmail
