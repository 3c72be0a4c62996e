import EdxPlatform.BulkEmail.Exclusion

/-!
# The accounts of a bulk email

Exclusion is kept by every step, so along an undisturbed run no attempt is sent twice and
the totals are right.  A second delivery that was checked too early breaks both.
-/

namespace EdxPlatform.BulkEmail

open SubtaskStatus

theorem InstructorTask.isValid_iff {entry : InstructorTask} {status : SubtaskStatus} :
    entry.isValid status = true ↔ ∃ stored, entry.status.lookup status.taskId = some stored ∧
      stored.ready = false ∧ (stored.state = .retry → stored.retryCount ≤ status.retryCount) := by
  unfold InstructorTask.isValid
  cases hlook : entry.status.lookup status.taskId with
  | none =>
    constructor
    · exact fun hfalse => absurd hfalse false_ne_true
    · rintro ⟨stored, hsto, -⟩
      cases hsto
  | some stored =>
    have hrule : (!stored.ready && !(stored.state = .retry && status.retryCount < stored.retryCount)) = true ↔
        stored.ready = false ∧ (stored.state = .retry → stored.retryCount ≤ status.retryCount) := by
      simp only [and_eq_true, not_eq_true', Bool.and_eq_false_iff, decide_eq_false_iff_not, not_lt, imp_iff_not_or]
    rw [hrule]
    constructor
    · exact fun hval => ⟨stored, rfl, hval⟩
    · rintro ⟨found, hfnd, hval⟩
      cases hfnd
      exact hval

theorem not_ready_of_retry {status : SubtaskStatus} (hretry : status.state = .retry) : status.ready = false := by
  unfold ready
  rw [hretry]
  decide

theorem Sending.result_concludes (sending : Sending) (message : Message) :
    Concludes message (sending.result message).1 (sending.result message).2 := by
  cases hend : sending.ending with
  | allSent =>
    simp only [Sending.result, hend]
    exact ⟨rfl, .inl ⟨rfl, rfl⟩⟩
  | fatal pending =>
    simp only [Sending.result, hend]
    exact ⟨rfl, .inl ⟨rfl, rfl⟩⟩
  | infiniteRetry pending =>
    simp only [Sending.result, hend]
    refine ⟨rfl, .inr ⟨rfl, ?_, pending, rfl⟩⟩
    simp only [retryCount, increment]
    omega
  | limitedRetry pending =>
    simp only [Sending.result, hend]
    refine ⟨rfl, .inr ⟨rfl, ?_, pending, rfl⟩⟩
    simp only [retryCount, increment]
    omega
  | unexpected =>
    simp only [Sending.result, hend]
    exact ⟨rfl, .inl ⟨rfl, rfl⟩⟩

namespace System

variable {system : System} {worker : Nat} {message : Message}

theorem Sound.engaged {phase : Phase} (hsnd : system.Sound phase) (heng : phase.engaged = some message) :
    message ∈ system.messages ∧ (system.Held message ∨ system.Fenced message.status.taskId ∨
      system.Closed message.status.taskId) := by
  cases phase with
  | idle => cases heng
  | received found => cases heng
  | checked found => cases heng
  | sending found =>
    cases heng
    exact ⟨hsnd.1, .inl hsnd.2⟩
  | updating found status tries next =>
    cases heng
    exact ⟨hsnd.1, hsnd.2.imp And.left fun hfen => .inl hfen.1⟩
  | releasing found status levels next =>
    cases heng
    rcases hsnd.2 with hcl | hfen
    · exact ⟨hsnd.1, .inr (.inr hcl.1)⟩
    · exact ⟨hsnd.1, .inr (.inl hfen.1)⟩
  | retrying found status pending =>
    cases heng
    exact ⟨hsnd.1, .inr (.inl hsnd.2.1)⟩

section

variable (hexcl : system.Exclusive) (hmem : message ∈ system.messages)
  (hval : system.entry.isValid message.status = true)
include hexcl hmem hval

theorem Exclusive.free_of_valid (hlock : message.status.taskId ∉ system.locks) (other : Nat) (found : Message)
    (hfnd : (system.workers other).engaged = some found) :
    found.status.taskId ≠ message.status.taskId := by
  intro heq
  obtain ⟨stored, hsto, hunf, hretry⟩ := InstructorTask.isValid_iff.mp hval
  obtain ⟨-, hheld | hfen | hcl⟩ := (hexcl.phases other).engaged hfnd
  · rw [Held, heq] at hheld
    exact hlock hheld.1
  · rw [heq] at hfen
    obtain ⟨again, hagain, hstt, hear⟩ := hfen
    rw [hsto] at hagain
    cases hagain
    have hbef := hear message hmem rfl
    have haft := hretry hstt
    omega
  · rw [heq] at hcl
    obtain ⟨again, hagain, hrdy⟩ := hcl
    rw [hsto] at hagain
    cases hagain
    rw [hunf] at hrdy
    cases hrdy

theorem Exclusive.latest_of_valid : ∃ stored, system.entry.status.lookup message.status.taskId = some stored ∧
      stored.ready = false ∧ stored.retryCount = message.status.retryCount := by
  obtain ⟨stored, hsto, hunf, hretry⟩ := InstructorTask.isValid_iff.mp hval
  have hle := hexcl.messages message hmem stored hsto hunf
  refine ⟨stored, hsto, hunf, ?_⟩
  rcases hexcl.unfinished _ stored hsto hunf with hstt | hzero
  · have hge := hretry hstt
    omega
  · omega

end

section

variable (hexcl : system.Exclusive)
include hexcl

section

variable (heng : (system.workers worker).engaged = some message)
include heng

theorem Exclusive.over (hwrt : system.Fenced message.status.taskId ∨ system.Closed message.status.taskId)
    {attempt : String × Nat} (hsent : attempt ∈ system.sent)
    (htask : attempt.1 = message.status.taskId) :
    ∃ stored, system.entry.status.lookup attempt.1 = some stored ∧
      (stored.ready = true ∨ attempt.2 < stored.retryCount) := by
  obtain ⟨stored, hsto, hrdy | hlat | ⟨other, found, hfnd, rfl⟩⟩ := hexcl.accounts attempt hsent
  · exact ⟨stored, hsto, .inl hrdy⟩
  · exact ⟨stored, hsto, .inr hlat⟩
  · have hwor := hexcl.engaged other worker found message hfnd heng htask
    rw [hwor, heng] at hfnd
    cases hfnd
    have hmem := ((hexcl.phases worker).engaged heng).1
    rcases hwrt with ⟨again, hagain, -, hear⟩ | ⟨again, hagain, hrdy⟩
    · exact ⟨again, hagain, .inr (hear message hmem rfl)⟩
    · exact ⟨again, hagain, .inl hrdy⟩

theorem Exclusive.others (other : Nat) (hoth : other ≠ worker) (found : Message)
    (hfnd : (system.workers other).engaged = some found) :
    found.status.taskId ≠ message.status.taskId :=
  fun heq => hoth (hexcl.engaged other worker found message hfnd heng heq)

end

theorem Exclusive.not_sent (hmem : message ∈ system.messages) (hval : system.entry.isValid message.status = true)
    (hlock : message.status.taskId ∉ system.locks) : message.attempt ∉ system.sent := by
  intro hsent
  obtain ⟨stored, hsto, hunf, hcnt⟩ := hexcl.latest_of_valid hmem hval
  obtain ⟨again, hagain, hover⟩ := hexcl.accounts _ hsent
  change system.entry.status.lookup message.status.taskId = some again at hagain
  rw [hsto] at hagain
  cases hagain
  rcases hover with hrdy | hlat | ⟨other, found, hfnd, heq⟩
  · rw [hunf] at hrdy
    cases hrdy
  · change message.status.retryCount < stored.retryCount at hlat
    omega
  · exact hexcl.free_of_valid hmem hval hlock other found hfnd (congrArg Prod.fst heq)

theorem Exclusive.lock (hph : system.workers worker = .checked message) (hlock : message.status.taskId ∉ system.locks)
    (hval : system.entry.isValid message.status = true) :
    ({ system with
      locks := message.status.taskId :: system.locks
      sent := message.attempt :: system.sent }.setWorker worker (.sending message)).Exclusive := by
  have hmem : message ∈ system.messages := by
    have hsnd := hexcl.phases worker
    rw [hph] at hsnd
    exact hsnd
  have hfree := hexcl.free_of_valid hmem hval hlock
  obtain ⟨stored, hsto, hunf, hcnt⟩ := hexcl.latest_of_valid hmem hval
  have hnew := hexcl.not_sent hmem hval hlock
  have hnoto : ∀ found, (system.workers worker).engaged = some found → False := by
    intro found hfnd
    rw [hph] at hfnd
    cases hfnd
  have hwor := workers_setWorker { system with
      locks := message.status.taskId :: system.locks
      sent := message.attempt :: system.sent } worker worker (.sending message)
  rw [if_pos rfl] at hwor
  have hheld : System.Held { system with
      locks := message.status.taskId :: system.locks
      sent := message.attempt :: system.sent } message :=
    ⟨mem_cons_self, stored, hsto, hunf, hcnt⟩
  have hchg : system.Changes worker message.status.taskId ({ system with
      locks := message.status.taskId :: system.locks
      sent := message.attempt :: system.sent }.setWorker worker (.sending message)) := by
    refine ⟨fun other hoth => ?_, fun other _ => hfree other, fun other hoth => ?_,
      fun other _ => rfl, fun _ => id, fun _ hadded _ => hadded⟩
    · rw [workers_setWorker, if_neg hoth]
    · exact ⟨fun hin => (mem_cons.mp hin).resolve_left hoth, mem_cons_of_mem _⟩
  refine hexcl.changes hchg ?_ (fun found hfnd => (hnoto found hfnd).elim)
    (fun found hfnd => ?_) hexcl.tallied (hexcl.unfinished _) ?_
    (nodup_cons.mpr ⟨hnew, hexcl.once⟩) ?_ ?_
  · rw [hwor]
    exact ⟨hmem, hheld⟩
  · rw [hwor] at hfnd
    cases hfnd
    rfl
  · intro found hfnd htask again hagain
    rw [← htask] at hagain
    exact hexcl.messages found hfnd again hagain
  · intro attempt hatt hoth
    rcases mem_cons.mp hatt with rfl | hatt
    · exact absurd rfl hoth
    · exact hatt
  · intro attempt hatt htask
    rcases mem_cons.mp hatt with rfl | hatt
    · exact ⟨stored, hsto, .inr (.inr ⟨worker, message, by rw [hwor]; rfl, rfl⟩)⟩
    · obtain ⟨again, hagain, hrdy | hlat | ⟨other, found, hfnd, rfl⟩⟩ := hexcl.accounts attempt hatt
      · exact ⟨again, hagain, .inl hrdy⟩
      · exact ⟨again, hagain, .inr (.inl hlat)⟩
      · exact absurd htask (hfree other found hfnd)

end

variable {status : SubtaskStatus}

section

variable (hexcl : system.Exclusive)
include hexcl

/-- A worker writes over an unfinished status: the end of the subtask, or the next retry
of the attempt that it holds. -/
theorem Exclusive.updating {tries : Nat} {next : Next}
    (hph : system.workers worker = .updating message status tries next) :
    message ∈ system.messages ∧ ∃ old,
      system.entry.status.lookup message.status.taskId = some old ∧ old.ready = false ∧
      message.status.retryCount ≤ old.retryCount ∧
      (status.ready = true ∧ next = .finish ∨ status.state = .retry ∧
        status.taskId = message.status.taskId ∧ old.retryCount = message.status.retryCount ∧
        status.retryCount = message.status.retryCount + 1 ∧ ∃ pending, next = .retry pending) := by
  have hsnd := hexcl.phases worker
  rw [hph] at hsnd
  obtain ⟨hmem, ⟨⟨-, old, hold, hunf, hcnt⟩, htask, hcon⟩ | ⟨⟨old, hold, hretry, hear⟩, hrdy, hnxt⟩⟩ := hsnd
  · refine ⟨hmem, old, hold, hunf, hcnt.ge, hcon.imp id ?_⟩
    exact fun ⟨hstt, hmore, hnxt⟩ => ⟨hstt, htask, hcnt, hmore, hnxt⟩
  · exact ⟨hmem, old, hold, not_ready_of_retry hretry, (hear message hmem rfl).le, .inl ⟨hrdy, hnxt⟩⟩

theorem Exclusive.under (heng : (system.workers worker).engaged = some message) {old : SubtaskStatus}
    (hold : system.entry.status.lookup message.status.taskId = some old)
    (hunf : old.ready = false) (hcnt : message.status.retryCount ≤ old.retryCount)
    {attempt : String × Nat} (hsent : attempt ∈ system.sent)
    (htask : attempt.1 = message.status.taskId) : attempt.2 ≤ old.retryCount := by
  obtain ⟨stored, hsto, hrdy | hlat | ⟨other, found, hfnd, rfl⟩⟩ := hexcl.accounts attempt hsent
  · rw [htask, hold] at hsto
    cases hsto
    rw [hunf] at hrdy
    cases hrdy
  · rw [htask, hold] at hsto
    cases hsto
    exact hlat.le
  · have hsame := hexcl.engaged other worker found message hfnd heng htask
    rw [hsame, heng] at hfnd
    cases hfnd
    exact hcnt

theorem Exclusive.write {tries : Nat} {next : Next}
    (hph : system.workers worker = .updating message status tries next) (levels : Nat) :
    ({ system with entry := system.entry.update message.status.taskId status }.setWorker worker
      (.releasing message status levels next)).Exclusive := by
  have heng : (system.workers worker).engaged = some message := by
    rw [hph]
    rfl
  obtain ⟨hmem, old, hold, hunf, hcnt, hnew⟩ := hexcl.updating hph
  have hlook : (system.entry.update message.status.taskId status).status.lookup
      message.status.taskId = some status := lookup_insert_self ..
  have hchg : system.Changes worker message.status.taskId ({ system with
      entry := system.entry.update message.status.taskId status }.setWorker worker
        (.releasing message status levels next)) := by
    refine ⟨fun other hoth => ?_, hexcl.others heng, fun other _ => Iff.rfl,
      fun other hoth => ?_, fun _ => id, fun _ hadded _ => hadded⟩
    · rw [workers_setWorker, if_neg hoth]
    · exact lookup_insert_of_ne hoth status system.entry.status
  have hwor := workers_setWorker { system with
      entry := system.entry.update message.status.taskId status } worker worker (.releasing message status levels next)
  rw [if_pos rfl] at hwor
  have hwrt : ∀ stored, (system.entry.update message.status.taskId status).status.lookup
      message.status.taskId = some stored → stored = status :=
    fun stored hsto => some_unique hsto hlook
  refine hexcl.changes hchg ?_ (fun found hfnd => ?_) (fun found hfnd => ?_)
    (hexcl.tallied.update hold hunf status) (fun stored hsto hnot => ?_)
    (fun found hfnd htask stored hsto hnot => ?_) hexcl.once (fun _ hsent _ => hsent)
    (fun attempt hatt htask => ?_)
  · rw [hwor]
    refine ⟨hmem, hnew.imp ?_ ?_⟩
    · exact fun ⟨hrdy, hnxt⟩ => ⟨⟨status, hlook, hrdy⟩, hnxt⟩
    · rintro ⟨hstt, hsame, heq, hmore, hnxt⟩
      refine ⟨⟨status, hlook, hstt, fun found hfnd htask => ?_⟩, hsame, hlook, hnxt⟩
      have hle := hexcl.messages found hfnd old (htask ▸ hold) hunf
      omega
  · rw [heng] at hfnd
    cases hfnd
    rfl
  · rw [hwor] at hfnd
    cases hfnd
    rfl
  · obtain rfl := hwrt stored hsto
    rcases hnew with ⟨hrdy, -⟩ | ⟨hstt, -⟩
    · rw [hnot] at hrdy
      cases hrdy
    · exact .inl hstt
  · obtain rfl := hwrt stored hsto
    have hle := hexcl.messages found hfnd old (htask ▸ hold) hunf
    rcases hnew with ⟨hrdy, -⟩ | ⟨-, -, heq, hmore, -⟩
    · rw [hnot] at hrdy
      cases hrdy
    · omega
  · have hle := hexcl.under heng hold hunf hcnt hatt htask
    refine ⟨status, htask ▸ hlook, ?_⟩
    rcases hnew with ⟨hrdy, -⟩ | ⟨-, -, heq, hmore, -⟩
    · exact .inl hrdy
    · exact .inr (.inl (by omega))

theorem Exclusive.leave (heng : (system.workers worker).engaged = some message)
    (hwrt : system.Fenced message.status.taskId ∨ system.Closed message.status.taskId)
    {locks : List String} (hlocks : ∀ other, other ≠ message.status.taskId → (other ∈ locks ↔ other ∈ system.locks))
    {messages : List Message} (hkept : ∀ found ∈ system.messages, found ∈ messages)
    (hadded : ∀ found ∈ messages, found ∈ system.messages ∨ found.status.taskId = message.status.taskId ∧ ∀ stored,
        system.entry.status.lookup message.status.taskId = some stored →
        found.status.retryCount ≤ stored.retryCount)
    {phase : Phase} (hph : phase.engaged = none ∨ phase.engaged = some message)
    (hsnd : System.Sound { system with locks, messages } phase) :
    ({ system with locks, messages }.setWorker worker phase).Exclusive := by
  have hwor := workers_setWorker { system with locks, messages } worker worker phase
  rw [if_pos rfl] at hwor
  have hchg : system.Changes worker message.status.taskId
      ({ system with locks, messages }.setWorker worker phase) := by
    refine ⟨fun other hoth => ?_, hexcl.others heng, hlocks, fun _ _ => rfl, hkept,
      fun found hfnd hoth => (hadded found hfnd).resolve_right fun hsame => hoth hsame.1⟩
    rw [workers_setWorker, if_neg hoth]
  refine hexcl.changes hchg ?_ (fun found hfnd => ?_) (fun found hfnd => ?_)
    hexcl.tallied (hexcl.unfinished _) (fun found hfnd htask stored hsto hnot => ?_)
    hexcl.once (fun _ hsent _ => hsent) (fun attempt hatt htask => ?_)
  · rw [hwor]
    exact hsnd
  · rw [heng] at hfnd
    cases hfnd
    rfl
  · rw [hwor] at hfnd
    rcases hph with hnone | hsome
    · rw [hnone] at hfnd
      cases hfnd
    · rw [hsome] at hfnd
      cases hfnd
      rfl
  · rcases hadded found hfnd with hold | ⟨-, hle⟩
    · exact hexcl.messages found hold stored (htask ▸ hsto) hnot
    · exact hle stored hsto
  · obtain ⟨stored, hsto, hover⟩ := hexcl.over heng hwrt hatt htask
    exact ⟨stored, hsto, hover.imp id .inl⟩

theorem Exclusive.release {levels : Nat} {next : Next}
    (hph : system.workers worker = .releasing message status levels next) :
    (system.step (.release worker)).Exclusive := by
  have heng : (system.workers worker).engaged = some message := by
    rw [hph]
    rfl
  have hsnd := hexcl.phases worker
  rw [hph] at hsnd
  obtain ⟨hmem, hwrt⟩ := hsnd
  have hlocks : ∀ other, other ≠ message.status.taskId →
      (other ∈ system.locks.filter (· ≠ message.status.taskId) ↔ other ∈ system.locks) := by
    intro other hoth
    simp only [mem_filter, decide_eq_true hoth, and_true]
  have hleave : ∀ {phase : Phase}, phase.engaged = none ∨ phase.engaged = some message →
      System.Sound { system with locks := system.locks.filter (· ≠ message.status.taskId) } phase →
      ({ system with
        locks := system.locks.filter (· ≠ message.status.taskId) }.setWorker worker phase).Exclusive :=
    fun hph hsnd => hexcl.leave heng (hwrt.symm.imp And.left And.left) hlocks (fun _ => id) (fun _ => .inl) hph hsnd
  simp only [System.step, hph]
  split
  · rcases hwrt with ⟨-, rfl⟩ | ⟨hfen, hsame, hsto, pending, rfl⟩
    · exact hleave (.inl rfl) trivial
    · exact hleave (.inr rfl) ⟨hmem, hfen, hsame, hsto⟩
  · exact hleave (.inr rfl) ⟨hmem, hwrt⟩

theorem Exclusive.retry {pending : Nat}
    (hph : system.workers worker = .retrying message status pending) (accepted : Bool) :
    (system.step (.retry worker accepted)).Exclusive := by
  have heng : (system.workers worker).engaged = some message := by
    rw [hph]
    rfl
  have hsnd := hexcl.phases worker
  rw [hph] at hsnd
  obtain ⟨hmem, hfen, hsame, hsto⟩ := hsnd
  simp only [System.step, hph]
  cases accepted with
  | true =>
    refine hexcl.leave heng (.inl hfen) (fun _ _ => Iff.rfl)
      (fun _ => mem_cons_of_mem _) (fun found hfnd => ?_) (.inl rfl) trivial
    rcases mem_cons.mp hfnd with rfl | hfnd
    · refine .inr ⟨hsame, fun stored hagain => ?_⟩
      rw [hsto] at hagain
      cases hagain
      exact le_rfl
    · exact .inl hfnd
  | false => exact hexcl.setWorker ⟨hmem, .inr ⟨hfen, rfl, rfl⟩⟩ heng.symm

theorem Exclusive.step {action : Action} (hund : system.Undisturbed action) : (system.step action).Exclusive := by
  cases action with
  | deliver worker message =>
    cases hph : system.workers worker with
    | idle =>
      simp only [System.step, hph]
      split
      · next hmem => exact hexcl.setWorker hmem (by rw [hph]; rfl)
      · exact hexcl
    | _ => simpa only [System.step, hph] using hexcl
  | check worker =>
    cases hph : system.workers worker with
    | received message =>
      have hmem := hexcl.phases worker
      rw [hph] at hmem
      simp only [System.step, hph]
      split
      · exact hexcl.setWorker hmem (by rw [hph]; rfl)
      · exact hexcl.setWorker trivial (by rw [hph]; rfl)
    | _ => simpa only [System.step, hph] using hexcl
  | lock worker =>
    cases hph : system.workers worker with
    | checked message =>
      simp only [Undisturbed, hph] at hund
      simp only [System.step, hph]
      split
      · exact hexcl.setWorker trivial (by rw [hph]; rfl)
      · next hlock => exact hexcl.lock hph hlock (hund hlock)
    | _ => simpa only [System.step, hph] using hexcl
  | send worker sending =>
    cases hph : system.workers worker with
    | sending message =>
      have hsnd := hexcl.phases worker
      rw [hph] at hsnd
      simp only [System.step, hph]
      exact hexcl.setWorker ⟨hsnd.1, .inl ⟨hsnd.2, sending.result_concludes message⟩⟩ (by rw [hph]; rfl)
    | _ => simpa only [System.step, hph] using hexcl
  | update worker databaseFails =>
    cases hph : system.workers worker with
    | updating message status tries next =>
      have hsnd := hexcl.phases worker
      rw [hph] at hsnd
      cases databaseFails with
      | true =>
        simp only [Undisturbed, hph] at hund
        simp only [System.step, hph, hund, decide_true, Bool.and_self, if_true]
        exact hexcl.setWorker hsnd (by rw [hph]; rfl)
      | false =>
        have hknown : message.status.taskId ∈ system.entry.status := by
          rcases hsnd.2 with ⟨⟨-, stored, hsto, -⟩, -⟩ | ⟨⟨stored, hsto, -⟩, -⟩
          · exact mem_of_lookup hsto
          · exact mem_of_lookup hsto
        simp only [System.step, hph, Bool.false_and, Bool.false_or, hknown, not_true_eq_false,
          decide_false, false_eq_true, if_false]
        exact hexcl.write hph (tries + 1)
    | _ => simpa only [System.step, hph] using hexcl
  | release worker =>
    cases hph : system.workers worker with
    | releasing message status levels next => exact hexcl.release hph
    | _ => simpa only [System.step, hph] using hexcl
  | retry worker accepted =>
    cases hph : system.workers worker with
    | retrying message status pending => exact hexcl.retry hph accepted
    | _ => simpa only [System.step, hph] using hexcl

theorem Exclusive.accounted : system.Accounted := ⟨hexcl.once, hexcl.tallied.totals, hexcl.tallied.success⟩

end

end System

theorem lookup_initializeSubtaskInfo {subtasks : List (String × Nat)} {taskId : String} {stored : SubtaskStatus}
    (hsto : (initializeSubtaskInfo subtasks).entry.status.lookup taskId = some stored) :
    stored = { taskId } := by
  have hfun : ∀ entry ∈ subtasks.map (fun subtask =>
      ((subtask.1, { taskId := subtask.1 }) : String × SubtaskStatus)),
      entry.2 = { taskId := entry.1 } := by
    intro entry hent
    obtain ⟨subtask, -, rfl⟩ := mem_map.mp hent
    rfl
  have hmem := (Dict.lookup_ofList (fun entry hent other hoth heq => by
    rw [hfun entry hent, hfun other hoth, heq]) taskId stored).mp hsto
  exact hfun _ hmem

variable (subtasks : List (String × Nat))

theorem initializeSubtaskInfo_tallied : (initializeSubtaskInfo subtasks).entry.Tallied := by
  have hzero : ∀ count, tally (initializeSubtaskInfo subtasks).entry.status (whenReady count) = 0 := by
    intro count
    refine List.sum_eq_zero fun number hnum => ?_
    obtain ⟨entry, hent, rfl⟩ := mem_map.mp hnum
    have hstat := lookup_initializeSubtaskInfo (mem_lookup_iff.mpr hent)
    rw [hstat]
    rfl
  refine ⟨fun statname => (hzero _).symm, (hzero _).symm, ?_, fun hsucc => by cases hsucc⟩
  have hlen := Dict.length_ofList_le (subtasks.map fun subtask =>
    ((subtask.1, { taskId := subtask.1 }) : String × SubtaskStatus))
  rw [length_map] at hlen
  exact hlen

theorem initializeSubtaskInfo_exclusive : (initializeSubtaskInfo subtasks).Exclusive := by
  refine ⟨initializeSubtaskInfo_tallied subtasks, fun taskId stored hsto _ => ?_,
    fun message hmem stored hsto _ => ?_, fun _ => trivial,
    fun _ _ _ _ heng => absurd heng nofun, nodup_nil,
    fun _ hsent => nomatch hsent⟩
  · rw [lookup_initializeSubtaskInfo hsto]
    exact .inr rfl
  · obtain ⟨subtask, -, rfl⟩ := mem_map.mp hmem
    exact Nat.zero_le _

/-- Along a run in which every lock is taken on a status that still passes the check, and no
status is given up, no attempt is sent twice and the accounts are right. -/
theorem always_accounted (subtasks : List (String × Nat)) (actions : List Action)
    (hundisturbed : Each System.step System.Undisturbed (initializeSubtaskInfo subtasks) actions) :
    Always System.step System.Accounted (initializeSubtaskInfo subtasks) actions := by
  have hexclusive : Always System.step System.Exclusive (initializeSubtaskInfo subtasks) actions :=
    always_of_each (fun _ _ hexclusive hstep => hexclusive.step hstep)
      (initializeSubtaskInfo_exclusive subtasks) hundisturbed
  exact hexclusive.imp fun _ => System.Exclusive.accounted

instance System.Undisturbed.decide (system : System) : ∀ action, Decidable (system.Undisturbed action)
  | .lock worker =>
    match hphase : system.workers worker with
    | .checked message =>
      decidable_of_iff (message.status.taskId ∉ system.locks →
        system.entry.isValid message.status = true) (by rw [System.Undisturbed, hphase])
    | .idle | .received _ | .sending _ | .updating .. | .releasing .. | .retrying .. =>
      .isTrue (by rw [System.Undisturbed, hphase]; trivial)
  | .update worker true =>
    match hphase : system.workers worker with
    | .updating _ _ tries _ =>
      decidable_of_iff (tries + 1 < maxDatabaseLockRetries) (by rw [System.Undisturbed, hphase])
    | .idle | .received _ | .checked _ | .sending _ | .releasing .. | .retrying .. =>
      .isTrue (by rw [System.Undisturbed, hphase]; trivial)
  | .update _ false | .deliver .. | .check _ | .send .. | .release _ | .retry .. => .isTrue trivial

def newsletter : Message := ⟨{ taskId := "a" }, 2⟩

/-- It is delivered again while the first delivery is retried: one of its recipients is
left, and one write to the database fails. -/
def redelivered : List Action :=
  [.deliver 0 newsletter, .check 0, .lock 0, .send 0 ⟨1, 0, 0, .limitedRetry 1⟩, .update 0 true,
    .deliver 1 newsletter, .check 1, .update 0 false, .lock 1, .release 0, .release 0,
    .retry 0 true, .deliver 1 newsletter, .check 1,
    .deliver 0 ⟨{ taskId := "a", attempted := 1, succeeded := 1, retriedWithmax := 1, state := .retry }, 1⟩,
    .check 0, .lock 0, .send 0 ⟨1, 0, 0, .allSent⟩, .update 0 false, .release 0]

theorem redelivered_accounted : Always System.step System.Accounted (initializeSubtaskInfo [("a", 2)]) redelivered :=
  always_accounted [("a", 2)] redelivered (by decide +kernel)

/-- The second delivery is checked before the first is done, and takes the lock after. -/
def checkedEarly : List Action :=
  [.deliver 0 newsletter, .deliver 1 newsletter, .check 0, .check 1, .lock 0,
    .send 0 ⟨2, 0, 0, .allSent⟩, .update 0 false, .release 0, .lock 1,
    .send 1 ⟨2, 0, 0, .allSent⟩, .update 1 false, .release 1]

theorem checkedEarly_not_accounted :
    ¬ Always System.step System.Accounted (initializeSubtaskInfo [("a", 2)]) checkedEarly := by
  intro haccounted
  have honce : Always System.step (fun system => system.sent.Nodup)
      (initializeSubtaskInfo [("a", 2)]) checkedEarly := haccounted.imp fun _ => System.Accounted.once
  revert honce
  decide +kernel

end EdxPlatform.BulkEmail
