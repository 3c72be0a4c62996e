import EdxPlatform.BulkEmail.Tallies

/-!
# At most one worker at a subtask

The lock is released before the retry is queued, and at every level of a repeated
update.  What keeps the others out then is the stored status, as long as they look at it
when they take the lock.
-/

namespace EdxPlatform.BulkEmail

def Phase.engaged : Phase → Option Message
  | .idle | .received _ | .checked _ => none
  | .sending message => some message
  | .updating message _ _ _ => some message
  | .releasing message _ _ _ => some message
  | .retrying message _ _ => some message

/-- What is written after sending: the end of the subtask or its next retry. -/
def Concludes (message : Message) (status : SubtaskStatus) (next : Next) : Prop :=
  status.taskId = message.status.taskId ∧ (status.ready = true ∧ next = .finish ∨
      status.state = .retry ∧ status.retryCount = message.status.retryCount + 1 ∧ ∃ pending, next = .retry pending)

namespace System

section

variable (system : System)

/-- The subtask is locked and unfinished, and the message is its latest attempt. -/
def Held (message : Message) : Prop :=
  message.status.taskId ∈ system.locks ∧ ∃ stored,
    system.entry.status.lookup message.status.taskId = some stored ∧ stored.ready = false ∧
    stored.retryCount = message.status.retryCount

/-- The subtask waits for a retry, and all of its messages are of earlier attempts. -/
def Fenced (taskId : String) : Prop := ∃ stored,
  system.entry.status.lookup taskId = some stored ∧ stored.state = .retry ∧
  ∀ message ∈ system.messages, message.status.taskId = taskId → message.status.retryCount < stored.retryCount

def Closed (taskId : String) : Prop := ∃ stored, system.entry.status.lookup taskId = some stored ∧ stored.ready = true

def Sound : Phase → Prop
  | .idle => True
  | .received message | .checked message => message ∈ system.messages
  | .sending message => message ∈ system.messages ∧ system.Held message
  | .updating message status _ next => message ∈ system.messages ∧
    (system.Held message ∧ Concludes message status next ∨
      system.Fenced message.status.taskId ∧ status.ready = true ∧ next = .finish)
  | .releasing message status _ next => message ∈ system.messages ∧
    (system.Closed message.status.taskId ∧ next = .finish ∨
      system.Fenced message.status.taskId ∧ status.taskId = message.status.taskId ∧
        system.entry.status.lookup message.status.taskId = some status ∧
        ∃ pending, next = .retry pending)
  | .retrying message status _ => message ∈ system.messages ∧
    system.Fenced message.status.taskId ∧ status.taskId = message.status.taskId ∧
      system.entry.status.lookup message.status.taskId = some status

def Accounts (attempt : String × Nat) : Prop := ∃ stored, system.entry.status.lookup attempt.1 = some stored ∧
  (stored.ready = true ∨ attempt.2 < stored.retryCount ∨
    ∃ worker message, (system.workers worker).engaged = some message ∧ message.attempt = attempt)

end

structure Exclusive (system : System) : Prop where
  tallied : system.entry.Tallied
  unfinished : ∀ taskId stored, system.entry.status.lookup taskId = some stored →
    stored.ready = false → stored.state = .retry ∨ stored.retryCount = 0
  messages : ∀ message ∈ system.messages, ∀ stored,
    system.entry.status.lookup message.status.taskId = some stored → stored.ready = false →
    message.status.retryCount ≤ stored.retryCount
  phases : ∀ worker, system.Sound (system.workers worker)
  engaged : ∀ worker other message found, (system.workers worker).engaged = some message →
    (system.workers other).engaged = some found →
    message.status.taskId = found.status.taskId → worker = other
  once : system.sent.Nodup
  accounts : ∀ attempt ∈ system.sent, system.Accounts attempt

variable {system after : System} {worker : Nat}

theorem workers_setWorker (system : System) (worker other : Nat) (phase : Phase) :
    (system.setWorker worker phase).workers other = if other = worker then phase else system.workers other :=
  update_apply system.workers worker phase other

theorem Exclusive.setWorker (hexcl : system.Exclusive) {phase : Phase}
    (hsnd : system.Sound phase) (heng : phase.engaged = (system.workers worker).engaged) :
    (system.setWorker worker phase).Exclusive := by
  have hsame : ∀ other, ((system.setWorker worker phase).workers other).engaged = (system.workers other).engaged := by
    intro other
    rw [workers_setWorker]
    split
    · next heq => rw [heq, heng]
    · rfl
  refine ⟨hexcl.tallied, hexcl.unfinished, hexcl.messages, fun other => ?_,
    fun first second message found hfst hsec => ?_, hexcl.once, fun attempt hatt => ?_⟩
  · rw [workers_setWorker]
    split
    · exact hsnd
    · exact hexcl.phases other
  · rw [hsame] at hfst hsec
    exact hexcl.engaged first second message found hfst hsec
  · obtain ⟨stored, hsto, hdone | hlat | ⟨other, message, hoth, heq⟩⟩ := hexcl.accounts attempt hatt
    · exact ⟨stored, hsto, .inl hdone⟩
    · exact ⟨stored, hsto, .inr (.inl hlat)⟩
    · exact ⟨stored, hsto, .inr (.inr ⟨other, message, (hsame other).trans hoth, heq⟩)⟩

/-- A step of a worker that changes one subtask only. -/
structure Changes (system : System) (worker : Nat) (taskId : String) (after : System) : Prop where
  workers : ∀ other, other ≠ worker → after.workers other = system.workers other
  free : ∀ other, other ≠ worker → ∀ message, (system.workers other).engaged = some message →
    message.status.taskId ≠ taskId
  locks : ∀ other, other ≠ taskId → (other ∈ after.locks ↔ other ∈ system.locks)
  status : ∀ other, other ≠ taskId → after.entry.status.lookup other = system.entry.status.lookup other
  kept : ∀ message ∈ system.messages, message ∈ after.messages
  added : ∀ message ∈ after.messages, message.status.taskId ≠ taskId → message ∈ system.messages

variable {taskId : String}

section

variable (hchg : system.Changes worker taskId after)
include hchg

theorem Changes.held {message : Message} (hoth : message.status.taskId ≠ taskId) (hheld : system.Held message) :
    after.Held message := by
  obtain ⟨hlock, stored, hsto, hrest⟩ := hheld
  exact ⟨(hchg.locks _ hoth).mpr hlock, stored, (hchg.status _ hoth).trans hsto, hrest⟩

theorem Changes.fenced {other : String} (hoth : other ≠ taskId) (hfen : system.Fenced other) : after.Fenced other := by
  obtain ⟨stored, hsto, hretry, hear⟩ := hfen
  refine ⟨stored, (hchg.status _ hoth).trans hsto, hretry, fun message hmem heq => ?_⟩
  exact hear message (hchg.added message hmem (heq ▸ hoth)) heq

theorem Changes.closed {other : String} (hoth : other ≠ taskId) (hcl : system.Closed other) : after.Closed other := by
  obtain ⟨stored, hsto, hrdy⟩ := hcl
  exact ⟨stored, (hchg.status _ hoth).trans hsto, hrdy⟩

theorem Changes.sound {phase : Phase}
    (hfree : ∀ message, phase.engaged = some message → message.status.taskId ≠ taskId)
    (hsnd : system.Sound phase) : after.Sound phase := by
  cases phase with
  | idle => trivial
  | received message => exact hchg.kept message hsnd
  | checked message => exact hchg.kept message hsnd
  | sending message => exact ⟨hchg.kept message hsnd.1, hchg.held (hfree message rfl) hsnd.2⟩
  | updating message status tries next =>
    refine ⟨hchg.kept message hsnd.1, hsnd.2.imp ?_ ?_⟩
    · exact fun hheld => ⟨hchg.held (hfree message rfl) hheld.1, hheld.2⟩
    · exact fun hfen => ⟨hchg.fenced (hfree message rfl) hfen.1, hfen.2⟩
  | releasing message status levels next =>
    refine ⟨hchg.kept message hsnd.1, hsnd.2.imp ?_ ?_⟩
    · exact fun hcl => ⟨hchg.closed (hfree message rfl) hcl.1, hcl.2⟩
    · rintro ⟨hfen, hsame, hsto, hnxt⟩
      exact ⟨hchg.fenced (hfree message rfl) hfen, hsame, (hchg.status _ (hfree message rfl)).trans hsto, hnxt⟩
  | retrying message status pending =>
    obtain ⟨hmem, hfen, hsame, hsto⟩ := hsnd
    exact ⟨hchg.kept message hmem, hchg.fenced (hfree message rfl) hfen, hsame,
      (hchg.status _ (hfree message rfl)).trans hsto⟩

end

theorem Exclusive.changes (hexcl : system.Exclusive) (hchg : system.Changes worker taskId after)
    (hsnd : after.Sound (after.workers worker))
    (hmine : ∀ message, (system.workers worker).engaged = some message → message.status.taskId = taskId)
    (heng : ∀ message, (after.workers worker).engaged = some message → message.status.taskId = taskId)
    (htal : after.entry.Tallied)
    (hunf : ∀ stored, after.entry.status.lookup taskId = some stored →
      stored.ready = false → stored.state = .retry ∨ stored.retryCount = 0)
    (hmsgs : ∀ message ∈ after.messages, message.status.taskId = taskId → ∀ stored,
      after.entry.status.lookup taskId = some stored → stored.ready = false →
      message.status.retryCount ≤ stored.retryCount)
    (honce : after.sent.Nodup)
    (hsent : ∀ attempt ∈ after.sent, attempt.1 ≠ taskId → attempt ∈ system.sent)
    (hacc : ∀ attempt ∈ after.sent, attempt.1 = taskId → after.Accounts attempt) :
    after.Exclusive := by
  refine ⟨htal, fun other stored hsto hrdy => ?_, fun message hmem stored hsto hrdy => ?_,
    fun other => ?_, fun first second message found hfst hsec heq => ?_, honce,
    fun attempt hatt => ?_⟩
  · by_cases hoth : other = taskId
    · exact hunf stored (hoth ▸ hsto) hrdy
    · rw [hchg.status other hoth] at hsto
      exact hexcl.unfinished other stored hsto hrdy
  · by_cases hoth : message.status.taskId = taskId
    · exact hmsgs message hmem hoth stored (hoth ▸ hsto) hrdy
    · rw [hchg.status _ hoth] at hsto
      exact hexcl.messages message (hchg.added message hmem hoth) stored hsto hrdy
  · by_cases hoth : other = worker
    · rw [hoth]
      exact hsnd
    · rw [hchg.workers other hoth]
      exact hchg.sound (hchg.free other hoth) (hexcl.phases other)
  · by_cases hone : first = worker
    · by_cases htwo : second = worker
      · rw [hone, htwo]
      · rw [hchg.workers second htwo] at hsec
        rw [hone] at hfst
        exact absurd (heq.symm.trans (heng message hfst)) (hchg.free second htwo found hsec)
    · rw [hchg.workers first hone] at hfst
      by_cases htwo : second = worker
      · rw [htwo] at hsec
        exact absurd (heq.trans (heng found hsec)) (hchg.free first hone message hfst)
      · rw [hchg.workers second htwo] at hsec
        exact hexcl.engaged first second message found hfst hsec heq
  · by_cases hoth : attempt.1 = taskId
    · exact hacc attempt hatt hoth
    · obtain ⟨stored, hsto, hcase⟩ := hexcl.accounts attempt (hsent attempt hatt hoth)
      refine ⟨stored, (hchg.status _ hoth).trans hsto, hcase.imp id (Or.imp id ?_)⟩
      rintro ⟨found, message, hfnd, rfl⟩
      have hne : found ≠ worker := fun heq => hoth (hmine message (heq ▸ hfnd))
      exact ⟨found, message, by rw [hchg.workers found hne]; exact hfnd, rfl⟩

end System

end EdxPlatform.BulkEmail
