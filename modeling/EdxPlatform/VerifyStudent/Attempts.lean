import Mathlib.Data.List.Chain

/-!
# Photo verification

An attempt of a user to establish an identity, through its submissions and reviews.
-/

namespace EdxPlatform.VerifyStudent

inductive AttemptStatus where
  | created
  | ready
  | submitted
  | mustRetry
  | approved
  | denied
  deriving DecidableEq

/-- The fields that a review sets. -/
structure Review where
  errorMsg : String := ""
  errorCode : String := ""
  reviewingUser : Option String := none
  reviewingService : String := ""

structure LogEntry where
  verdict : AttemptStatus
  reviewer : Option String

/-- An attempt, with what is logged of its verdicts. -/
structure PhotoVerification where
  status : AttemptStatus := .created
  name : String := ""
  review : Review := {}
  log : List LogEntry := []

/-- What comes of `send_request`. -/
inductive Reply where
  | ok
  | failed (text : String)
  | raised

inductive Call where
  | markReady (profileName : String)
  | submit (reply : Reply)
  | approve (userId : Option String) (service : String)
  | deny (review : Review)
  | systemError (review : Review)

def Call.validStartStatuses : Call → List AttemptStatus
  | markReady _ => [.created]
  | submit _ => [.mustRetry, .ready, .submitted]
  | _ => [.mustRetry, .submitted, .approved, .denied]

def Call.profileName? : Call → Option String
  | markReady profileName => some profileName
  | _ => none

namespace PhotoVerification

variable (attempt : PhotoVerification)

def submit : Reply → PhotoVerification
  | .ok => { attempt with status := .submitted }
  | .failed text => { attempt with status := .mustRetry, review.errorMsg := text }
  | .raised => { attempt with status := .mustRetry }

def approve (userId : Option String) (service : String) : PhotoVerification :=
  -- the first one wins
  if attempt.status = .approved then attempt
  else { attempt with
    status := .approved, review := ⟨"", "", userId, service⟩, log := attempt.log ++ [⟨.approved, userId⟩] }

def deny (review : Review) : PhotoVerification :=
  { attempt with status := .denied, review, log := attempt.log ++ [⟨.denied, review.reviewingUser⟩] }

def systemError (review : Review) : PhotoVerification :=
  if attempt.status ∈ [.approved, .denied] then attempt else { attempt with status := .mustRetry, review }

/-- `status_before_must_be`: with other statuses, a `VerificationException` is raised. -/
def step (call : Call) : PhotoVerification :=
  if attempt.status ∉ call.validStartStatuses then attempt
  else match call with
    | .markReady profileName => { attempt with status := .ready, name := profileName }
    | .submit reply => attempt.submit reply
    | .approve userId service => attempt.approve userId service
    | .deny review => attempt.deny review
    | .systemError review => attempt.systemError review

def run (calls : List Call) : PhotoVerification := calls.foldl step {}

/-- The name is that of the first `mark_ready`, and the status that of the last verdict that was logged. -/
structure Consistent (calls : List Call) : Prop where
  name : calls.findSome? Call.profileName? = if attempt.status = .created then none else some attempt.name
  sent : attempt.status ∈ [.created, .ready] ∨ ∃ reply, .submit reply ∈ calls
  verdict : attempt.log.getLast? =
    if attempt.status ∈ [.approved, .denied] then some ⟨attempt.status, attempt.review.reviewingUser⟩ else none
  cleared : attempt.status = .approved → attempt.review.errorMsg = "" ∧ attempt.review.errorCode = ""
  firstWins : attempt.log.IsChain fun entry next => entry.verdict = .approved → next.verdict = .denied

variable {attempt}

theorem Consistent.step {calls : List Call} (hcons : attempt.Consistent calls) (call : Call) :
    (attempt.step call).Consistent (calls ++ [call]) := by
  obtain ⟨status, name, review, log⟩ := attempt
  obtain ⟨hname, hsent, hverdict, hcleared, hfirst⟩ := hcons
  -- a call is refused in some statuses, and does what it does in the others
  cases status <;> rcases call with _ | (_ | _ | _) | _ | _ | _ <;> constructor <;>
    simp_all [-List.findSome?_eq_none_iff, PhotoVerification.step, Call.validStartStatuses, submit, approve, deny,
      systemError, Call.profileName?, List.findSome?_append, List.isChain_append]

theorem run_consistent (calls : List Call) : (run calls).Consistent calls := by
  induction calls using List.reverseRecOn with
  | nil => constructor <;> simp [run]
  | append_singleton calls call ih =>
    rw [run, List.foldl_concat]
    exact ih.step call

end PhotoVerification

end EdxPlatform.VerifyStudent
