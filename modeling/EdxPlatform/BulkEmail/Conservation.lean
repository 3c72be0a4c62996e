import EdxPlatform.BulkEmail.Sending

/-!
# No recipient is lost or counted twice

Every recipient of the first message stays in exactly one class as long as nothing is
counted before the handler that counts a whole message as failed.
-/

namespace EdxPlatform.BulkEmail

open SubtaskStatus SubtaskStatus

theorem outcome_eq_sent {error : Option MailError} (hout : outcome error = .sent) : error = none := by
  cases error with
  | none => rfl
  | some error =>
    cases error with
    | smtpData code =>
      rw [outcome] at hout
      split at hout
      · cases hout
      · cases hout
    | _ => cases hout

theorem isNone_of_outcome {error : Option MailError} (hout : outcome error ≠ .sent) : error.isNone = false := by
  cases error with
  | none => exact absurd rfl hout
  | some error => rfl

theorem OptoutRows.length_kept_add_removed (rows : OptoutRows) (message : List Recipient) :
    (rows.filterOptouts message).1.length +
      (message.filter fun recipient => recipient.email ∈ rows.emails message).length =
        message.length := by
  rw [filterOptouts, Nat.add_comm]
  have hspl := List.length_eq_length_filter_add (l := message)
    fun recipient => decide (recipient.email ∈ rows.emails message)
  simp only [decide_not]
  exact hspl.symm

theorem OptoutRows.filterOptouts_of_none {rows : OptoutRows} {message : List Recipient}
    (hnone : (rows.filterOptouts message).2 = 0) :
    (rows.filterOptouts message).1 = message ∧
      (message.filter fun recipient => recipient.email ∈ rows.emails message) = [] := by
  have hemp : rows.emails message = [] := length_eq_zero_iff.mp hnone
  rw [filterOptouts, hemp]
  simp

namespace Chain

variable {addresses : List String} {chain : Chain} {pending : List Recipient}

theorem Tallied.congr {other : Chain} (htal : chain.Tallied addresses pending)
    (hsuc : other.status.succeeded = chain.status.succeeded)
    (hfail : other.status.failed = chain.status.failed)
    (hskip : other.status.skipped = chain.status.skipped)
    (hatt : other.status.attempted = chain.status.attempted)
    (hclas : other.succeeded = chain.succeeded ∧ other.failed = chain.failed ∧
      other.skipped = chain.skipped) (hmail : other.mailed = chain.mailed) :
    other.Tallied addresses pending := by
  obtain ⟨hs, hf, hk⟩ := hclas
  refine ⟨?_, ?_, ?_, ?_, ?_, ?_, ?_, ?_⟩
  · rw [hsuc, hfail, hskip]
    exact htal.total
  · rw [hatt, hsuc, hfail]
    exact htal.attempted
  · rw [hs, hf, hk]
    exact htal.classes
  · rw [hsuc, hs]
    exact htal.succeeded
  · rw [hfail, hf]
    exact htal.failed
  · rw [hskip, hk]
    exact htal.skipped
  · rw [hmail, hs]
    exact htal.counted
  · rw [hmail]
    exact htal.once

section

variable (htal : chain.Tallied addresses pending)
include htal

theorem Tallied.failRest : (chain.failRest pending).Conserved addresses := by
  obtain ⟨htotal, hatt, hclas, hsuc, hfail, hskip, hcntd, honce⟩ := htal
  refine ⟨?_, ?_, ?_, ?_, ?_, ?_, hcntd, honce⟩
  · simp only [Chain.failRest, fail, increment, ChainPhase.pending, length_nil]
    omega
  · simp only [Chain.failRest, fail, increment]
    omega
  · refine List.Perm.trans ?_ hclas
    simp only [Chain.failRest, ChainPhase.pending, map_nil, append_nil]
    rw [List.perm_iff_count]
    intro address
    simp only [count_append]
    omega
  · simp only [Chain.failRest, fail, increment]
    omega
  · simp only [Chain.failRest, fail, increment, length_append, length_map]
    omega
  · simp only [Chain.failRest, fail, increment]
    omega

theorem Tallied.submitForRetry (retryAccepted : Bool) :
    (chain.submitForRetry pending retryAccepted).Conserved addresses := by
  rw [Chain.submitForRetry]
  split
  · exact htal.congr rfl rfl rfl rfl ⟨rfl, rfl, rfl⟩ rfl
  · exact htal.failRest

theorem Tallied.handle (error : MailError)
    (retryAccepted : Bool) : (chain.handle error pending retryAccepted).Conserved addresses := by
  rw [Chain.handle]
  cases error.reaction with
  | infiniteRetry =>
    apply Tallied.submitForRetry
    exact htal.congr rfl rfl rfl rfl ⟨rfl, rfl, rfl⟩ rfl
  | limitedRetry =>
    apply Tallied.submitForRetry
    exact htal.congr rfl rfl rfl rfl ⟨rfl, rfl, rfl⟩ rfl
  | fail => exact htal.failRest

theorem Tallied.goOn : (chain.goOn pending).Conserved addresses := by
  rw [Chain.goOn]
  cases pending with
  | nil => exact htal.congr rfl rfl rfl rfl ⟨rfl, rfl, rfl⟩ rfl
  | cons recipient pending => exact htal.congr rfl rfl rfl rfl ⟨rfl, rfl, rfl⟩ rfl

end

variable {recipient : Recipient}

section

variable (hdist : addresses.Nodup) (htal : chain.Tallied addresses pending) (hpend : recipient ∈ pending)
include hdist htal hpend

theorem Tallied.not_succeeded : recipient.email ∉ chain.succeeded := by
  have hnod := htal.classes.nodup_iff.mpr hdist
  rw [append_assoc, append_assoc, nodup_append] at hnod
  intro hsuc
  have hleft : recipient.email ∈ chain.failed ++ (chain.skipped ++ pending.map Recipient.email) :=
    mem_append_right _ (mem_append_right _ (mem_map_of_mem hpend))
  exact hnod.2.2 _ hsuc _ hleft rfl

theorem Tallied.once_append (sent : Bool) : (chain.mailed ++ [(recipient.email, sent)]).Pairwise
      fun earlier later => earlier.2 = true → later.1 ≠ earlier.1 := by
  rw [pairwise_append]
  refine ⟨htal.once, List.pairwise_singleton _ _, fun earlier hear later hlat hsent => ?_⟩
  rw [mem_singleton.mp hlat]
  intro hsame
  have hcntd := htal.counted earlier.1 (hsent ▸ hear)
  rw [← hsame] at hcntd
  exact htal.not_succeeded hdist hpend hcntd

theorem Tallied.tried :
    Tallied addresses { chain with mailed := chain.mailed ++ [(recipient.email, false)] } pending := by
  refine { htal with counted := ?_, once := htal.once_append hdist hpend false }
  intro address hadd
  rcases mem_append.mp hadd with hold | hnew
  · exact htal.counted address hold
  · exact Bool.noConfusion (Prod.mk.inj (mem_singleton.mp hnew)).2

end

theorem Tallied.failOne (htal : chain.Tallied addresses (pending ++ [recipient])) : Tallied addresses { chain with
      status := chain.status.increment 0 1 0
      failed := chain.failed ++ [recipient.email] } pending := by
  obtain ⟨htotal, hatt, hclas, hsuc, hfail, hskip, hcntd, honce⟩ := htal
  rw [length_append, length_singleton] at htotal
  rw [map_append, map_singleton] at hclas
  refine ⟨?_, ?_, ?_, ?_, ?_, ?_, hcntd, honce⟩
  · simp only [increment]
    omega
  · simp only [increment]
    omega
  · refine List.Perm.trans ?_ hclas
    rw [List.perm_iff_count]
    intro address
    simp only [count_append]
    omega
  · simp only [increment]
    omega
  · simp only [increment, length_append, length_singleton]
    omega
  · simp only [increment]
    omega

theorem Tallied.succeedOne (hdist : addresses.Nodup) (htal : chain.Tallied addresses (pending ++ [recipient])) :
    Tallied addresses { chain with
      status := chain.status.increment 1 0 0
      succeeded := chain.succeeded ++ [recipient.email]
      mailed := chain.mailed ++ [(recipient.email, true)] } pending := by
  have honce := htal.once_append hdist (mem_append_right _ mem_cons_self : recipient ∈ pending ++ [recipient]) true
  obtain ⟨htotal, hatt, hclas, hsuc, hfail, hskip, hcntd, -⟩ := htal
  rw [length_append, length_singleton] at htotal
  rw [map_append, map_singleton] at hclas
  refine ⟨?_, ?_, ?_, ?_, ?_, ?_, ?_, honce⟩
  · simp only [increment]
    omega
  · simp only [increment]
    omega
  · refine List.Perm.trans ?_ hclas
    rw [List.perm_iff_count]
    intro address
    simp only [count_append]
    omega
  · simp only [increment, length_append, length_singleton]
    omega
  · simp only [increment]
    omega
  · simp only [increment]
    omega
  · intro address hadd
    rcases mem_append.mp hadd with hold | hnew
    · exact mem_append_left _ (hcntd address hold)
    · rw [(Prod.mk.inj (mem_singleton.mp hnew)).1]
      exact mem_append_right _ mem_cons_self

theorem Conserved.sendNext (hdist : addresses.Nodup) {toList : List Recipient}
    (hcons : chain.Conserved addresses) (hph : chain.phase = .sending toList)
    (error : Option MailError) (retryAccepted : Bool) :
    (chain.sendNext toList error retryAccepted).Conserved addresses := by
  have htal : chain.Tallied addresses toList := by
    rw [Conserved, hph] at hcons
    exact hcons
  rw [Chain.sendNext]
  cases hlast : toList.getLast? with
  | none => exact hcons
  | some current =>
    have hspl : toList.dropLast ++ [current] = toList := List.dropLast_append_getLast? current hlast
    have hcur : current ∈ toList := List.mem_of_getLast? hlast
    dsimp only
    cases hout : outcome error with
    | sent =>
      obtain rfl := outcome_eq_sent hout
      apply Tallied.goOn
      rw [← hspl] at htal
      exact htal.succeedOne hdist
    | failed =>
      have hnot : error.isNone = false := isNone_of_outcome fun hsent => by
        rw [hsent] at hout
        cases hout
      apply Tallied.goOn
      rw [hnot]
      have htried := htal.tried hdist hcur
      rw [← hspl] at htried
      exact htried.failOne
    | raised raised =>
      have hnot : error.isNone = false := isNone_of_outcome fun hsent => by
        rw [hsent] at hout
        cases hout
      dsimp only
      rw [hnot]
      exact (htal.tried hdist hcur).handle raised retryAccepted

def balance (chain : Chain) : Nat :=
  chain.status.succeeded + chain.status.failed + chain.status.skipped + chain.phase.pending.length

variable (toList : List Recipient)

theorem balance_failRest : (chain.failRest toList).balance =
      chain.status.succeeded + chain.status.failed + chain.status.skipped + toList.length := by
  simp only [balance, failRest, fail, increment, ChainPhase.pending, length_nil]
  omega

theorem balance_submitForRetry (retryAccepted : Bool) : (chain.submitForRetry toList retryAccepted).balance =
      chain.status.succeeded + chain.status.failed + chain.status.skipped + toList.length := by
  rw [submitForRetry]
  split
  · rfl
  · exact balance_failRest toList

section

variable (error : MailError) (toList : List Recipient) (retryAccepted : Bool)

theorem balance_handle : (chain.handle error toList retryAccepted).balance =
      chain.status.succeeded + chain.status.failed + chain.status.skipped + toList.length := by
  rw [handle]
  cases error.reaction with
  | infiniteRetry => exact balance_submitForRetry toList retryAccepted
  | limitedRetry => exact balance_submitForRetry toList retryAccepted
  | fail => exact balance_failRest toList

theorem balance_goOn (toList : List Recipient) : (chain.goOn toList).balance =
      chain.status.succeeded + chain.status.failed + chain.status.skipped + toList.length := by
  rw [goOn]
  cases toList with
  | nil => rfl
  | cons recipient toList => rfl

theorem pending_handle : (chain.handle error toList retryAccepted).phase.pending =
      if error.reaction ≠ .fail ∧ retryAccepted = true then toList else [] := by
  rw [handle]
  cases error.reaction with
  | infiniteRetry =>
    cases retryAccepted with
    | true => rfl
    | false => rfl
  | limitedRetry =>
    cases retryAccepted with
    | true => rfl
    | false => rfl
  | fail => rfl

end

section

variable {rows : OptoutRows} {message : List Recipient}

def numOptout (rows : OptoutRows) (chain : Chain) (message : List Recipient) : Nat :=
  if chain.status.retryCount = 0 then (rows.filterOptouts message).2 else 0

theorem counts_excludeOptouts : (chain.excludeOptouts rows message).1.status.succeeded +
        (chain.excludeOptouts rows message).1.status.failed +
        (chain.excludeOptouts rows message).1.status.skipped =
      chain.status.succeeded + chain.status.failed + chain.status.skipped + chain.numOptout rows message := by
  rw [excludeOptouts, numOptout]
  split
  · simp only [increment]
    omega
  · rfl

theorem Tallied.excludeOptouts (htal : chain.Tallied addresses message)
    (hbal : chain.numOptout rows message + (chain.excludeOptouts rows message).2.length = message.length) :
    (chain.excludeOptouts rows message).1.Tallied addresses (chain.excludeOptouts rows message).2 := by
  rw [Chain.excludeOptouts, numOptout] at hbal
  rw [Chain.excludeOptouts]
  split
  · next hfst =>
    rw [if_pos hfst, if_pos hfst] at hbal
    have hlen := rows.length_kept_add_removed message
    obtain ⟨htotal, hatt, hclas, hsuc, hfail, hskip, hcntd, honce⟩ := htal
    dsimp only at hbal ⊢
    refine ⟨?_, ?_, ?_, ?_, ?_, ?_, hcntd, honce⟩
    · simp only [increment]
      omega
    · simp only [increment]
      omega
    · refine List.Perm.trans ?_ hclas
      have hparts := (List.filter_append_perm
        (fun recipient : Recipient => decide (recipient.email ∈ rows.emails message)) message).map Recipient.email
      rw [map_append] at hparts
      rw [append_assoc, append_assoc, append_assoc, append_assoc, append_assoc]
      refine List.Perm.append_left _ (List.Perm.append_left _ (List.Perm.append_left _ ?_))
      simpa only [OptoutRows.filterOptouts, decide_not] using hparts
    · simp only [increment]
      omega
    · simp only [increment]
      omega
    · simp only [increment, length_append, length_map]
      omega
  · exact htal

theorem excludeOptouts_of_none (hnone : chain.numOptout rows message = 0) :
    (chain.excludeOptouts rows message).2 = message ∧
      chain.numOptout rows message + (chain.excludeOptouts rows message).2.length =
        message.length := by
  have hsame : (chain.excludeOptouts rows message).2 = message := by
    rw [Chain.excludeOptouts]
    split
    · next hfst =>
      rw [numOptout, if_pos hfst] at hnone
      exact (OptoutRows.filterOptouts_of_none hnone).1
    · rfl
  rw [hsame, hnone, Nat.zero_add]
  exact ⟨rfl, rfl⟩

theorem sendCourseEmail_eq (attempt : Attempt) : chain.sendCourseEmail rows message attempt =
      if attempt.emailLoads then
        if attempt.templateLoads then
          match attempt.connecting with
          | .unavailable error =>
            ((chain.excludeOptouts rows message).1.handle error
              (chain.excludeOptouts rows message).2 attempt.retryAccepted).failRest message
          | .refused error => (chain.excludeOptouts rows message).1.handle error
              (chain.excludeOptouts rows message).2 attempt.retryAccepted
          | .opened => (chain.excludeOptouts rows message).1.goOn (chain.excludeOptouts rows message).2
        else (chain.excludeOptouts rows message).1.failRest message
      else chain.failRest message := rfl

theorem Tallied.attempt (htal : chain.Tallied addresses message)
    (hph : chain.phase = .queued message) (attempt : Attempt) :
    (chain.sendCourseEmail rows message attempt).Conserved addresses ↔ chain.Consistent rows (.attempt attempt) := by
  have htotal := htal.total
  have hcoun : _ = _ + chain.numOptout rows message := counts_excludeOptouts
  have hwhole : ∀ other : Chain, other.Conserved addresses → other.balance = addresses.length :=
    fun other hcons => hcons.total
  rw [Consistent, hph]
  dsimp only
  rw [← numOptout, sendCourseEmail_eq]
  by_cases hemail : attempt.emailLoads = true
  · rw [if_pos hemail]
    by_cases htem : attempt.templateLoads = true
    · simp only [htem, if_true, hemail, forall_const]
      cases attempt.connecting with
      | unavailable error =>
        constructor
        · intro hcons
          have hbal := hwhole _ hcons
          have hhan : ((chain.excludeOptouts rows message).1.handle error
              (chain.excludeOptouts rows message).2 attempt.retryAccepted).balance = _ :=
            balance_handle error _ attempt.retryAccepted
          rw [balance_failRest] at hbal
          rw [balance, pending_handle, hcoun] at hhan
          split at hhan
          · next hret => exact ⟨by omega, .inl hret⟩
          · rw [length_nil] at hhan
            exact ⟨by omega, .inr (length_eq_zero_iff.mp (by omega))⟩
        · rintro ⟨hnone, hleft⟩
          obtain ⟨hsame, hbal⟩ := excludeOptouts_of_none hnone
          have hhan := (htal.excludeOptouts hbal).handle error attempt.retryAccepted
          rw [Conserved, pending_handle] at hhan
          rw [hsame] at hleft hhan ⊢
          rcases hleft with hret | hemp
          · rw [if_pos hret] at hhan
            exact hhan.failRest
          · rw [hemp, ite_self] at hhan
            rw [hemp]
            exact hhan.failRest
      | refused error =>
        constructor
        · intro hcons
          have hbal := hwhole _ hcons
          rw [balance_handle, hcoun] at hbal
          dsimp only
          omega
        · intro hbal
          exact (htal.excludeOptouts hbal).handle error attempt.retryAccepted
      | opened =>
        constructor
        · intro hcons
          have hbal := hwhole _ hcons
          rw [balance_goOn, hcoun] at hbal
          dsimp only
          omega
        · intro hbal
          exact (htal.excludeOptouts hbal).goOn
    · simp only [htem, false_eq_true, if_false, hemail, forall_const]
      constructor
      · intro hcons
        have hbal := hwhole _ hcons
        rw [balance_failRest, hcoun] at hbal
        omega
      · intro hnone
        obtain ⟨hsame, hbal⟩ := excludeOptouts_of_none hnone
        have hexcd := htal.excludeOptouts hbal
        rw [hsame] at hexcd
        exact hexcd.failRest
  · simp only [hemail, false_eq_true, if_false, false_implies, iff_true]
    exact htal.failRest

theorem Conserved.step (hdist : addresses.Nodup) (hcons : chain.Conserved addresses) (event : ChainEvent) :
    (chain.step rows event).Conserved addresses ↔ chain.Consistent rows event := by
  cases event with
  | attempt attempt =>
    cases hph : chain.phase with
    | queued message =>
      have htal : chain.Tallied addresses message := by
        rw [Conserved, hph] at hcons
        exact hcons
      rw [Chain.step, hph]
      exact htal.attempt hph attempt
    | sending toList =>
      simp only [Chain.step, Consistent, hph, iff_true]
      exact hcons
    | done =>
      simp only [Chain.step, Consistent, hph, iff_true]
      exact hcons
  | send error retryAccepted =>
    refine iff_of_true ?_ trivial
    cases hph : chain.phase with
    | sending toList =>
      rw [Chain.step, hph]
      exact hcons.sendNext hdist hph error retryAccepted
    | queued message =>
      rw [Chain.step, hph]
      exact hcons
    | done =>
      rw [Chain.step, hph]
      exact hcons

theorem conserved_start (taskId : String) (recipients : List Recipient) :
    (start taskId recipients).Conserved (recipients.map Recipient.email) where
  total := by simp [start, ChainPhase.pending]
  attempted := rfl
  classes := List.Perm.refl _
  succeeded := rfl
  failed := rfl
  skipped := rfl
  counted _ hadd := nomatch hadd
  once := List.Pairwise.nil

/-- Every status of the chain accounts for the recipients exactly when every attempt meets
the condition. -/
theorem always_conserved_iff (rows : OptoutRows) (taskId : String) (recipients : List Recipient)
    (hdistinct : (recipients.map Recipient.email).Nodup) (events : List ChainEvent) :
    Always (Chain.step rows) (Conserved (recipients.map Recipient.email)) (start taskId recipients) events ↔
      Each (Chain.step rows) (Consistent rows) (start taskId recipients) events :=
  always_iff_each (fun _ event hconserved => hconserved.step hdistinct event)
    (conserved_start taskId recipients) events

def oneOptout : OptoutRows where
  optedOut pk := pk = 2
  userEmail pk := if pk = 1 then "ann@x.org" else "bob@x.org"

def annAndBob : List Recipient := [⟨1, "ann@x.org"⟩, ⟨2, "bob@x.org"⟩]

theorem always_conserved_annAndBob :
    Always (Chain.step oneOptout) (Conserved ["ann@x.org", "bob@x.org"]) (start "subtask" annAndBob)
      [.attempt {}, .send (some .limited) true, .attempt {}, .send none true] :=
  (always_conserved_iff oneOptout "subtask" annAndBob (by decide) _).mpr
    ⟨fun _ => by decide, trivial, fun _ => by decide, trivial, trivial⟩

/-- The template does not load after an opt-out was counted. -/
theorem not_always_conserved :
    ¬ Always (Chain.step oneOptout) (Conserved ["ann@x.org", "bob@x.org"]) (start "subtask" annAndBob)
      [.attempt { templateLoads := false }] := by
  rintro ⟨-, hconserved⟩
  have htotal := hconserved.total
  revert htotal
  decide +kernel

end

end Chain

end EdxPlatform.BulkEmail
