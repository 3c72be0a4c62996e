import EdxPlatform.BulkEmail.Subtasks

/-!
# The tallies of the task

The totals and the numbers of finished subtasks agree with the stored statuses as long
as no finished subtask is written again.
-/

namespace EdxPlatform.BulkEmail

def tally (status : Dict String SubtaskStatus) (count : SubtaskStatus → Nat) : Nat :=
  (status.entries.map fun entry => count entry.2).sum

def whenReady (count : SubtaskStatus → Nat) (status : SubtaskStatus) : Nat :=
  if status.ready then count status else 0

variable {status : Dict String SubtaskStatus}

section

variable {taskId : String} {old : SubtaskStatus} (hold : status.lookup taskId = some old) (new : SubtaskStatus)
include hold

theorem tally_insert (count : SubtaskStatus → Nat) :
    tally (status.insert taskId new) count + count old = tally status count + count new := by
  obtain ⟨before, after, hspl, hins⟩ := Dict.exists_entries_split hold new
  unfold tally
  rw [hspl, hins]
  simp only [map_append, map_cons, sum_append, sum_cons]
  omega

theorem length_insert : (status.insert taskId new).entries.length = status.entries.length := by
  obtain ⟨before, after, hspl, hins⟩ := Dict.exists_entries_split hold new
  rw [hspl, hins]
  simp only [length_append, length_cons]
  omega

end

theorem all_ready_of_tally (hlen : status.entries.length ≤ tally status (whenReady fun _ => 1)) :
    ∀ taskId found, status.lookup taskId = some found → found.ready = true := by
  have hents : ∀ entries : List ((_ : String) × SubtaskStatus),
      (entries.map fun entry => whenReady (fun _ => 1) entry.2).sum ≤ entries.length ∧
      (entries.length ≤ (entries.map fun entry => whenReady (fun _ => 1) entry.2).sum →
        ∀ entry ∈ entries, entry.2.ready = true) := by
    intro entries
    induction entries with
    | nil => exact ⟨le_rfl, fun _ _ hmem => nomatch hmem⟩
    | cons entry entries ih =>
      obtain ⟨hle, hall⟩ := ih
      have hone : whenReady (fun _ => 1) entry.2 ≤ 1 := by
        unfold whenReady
        split
        · exact le_rfl
        · exact Nat.zero_le 1
      simp only [map_cons, sum_cons, length_cons]
      refine ⟨by omega, fun hlen other hmem => ?_⟩
      have hrdy : entry.2.ready = true := by
        by_contra hnot
        have hzero : whenReady (fun _ => 1) entry.2 = 0 := if_neg hnot
        omega
      rcases mem_cons.mp hmem with rfl | hmem
      · exact hrdy
      · exact hall (by omega) other hmem
  intro taskId found hfnd
  exact (hents status.entries).2 hlen _ (mem_lookup_iff.mp hfnd)

namespace InstructorTask

/-- The totals and the counters are those of the stored statuses. -/
structure Tallied (entry : InstructorTask) : Prop where
  totals : ∀ statname, entry.taskProgress statname = tally entry.status (whenReady (·.get statname))
  finished : entry.succeeded + entry.failed = tally entry.status (whenReady fun _ => 1)
  total : entry.status.entries.length ≤ entry.total
  success : entry.taskState = .success → ∀ taskId status,
    entry.status.lookup taskId = some status → status.ready = true

theorem ready_of_success {status : SubtaskStatus} (hsucc : status.state = .success) : status.ready = true := by
  unfold SubtaskStatus.ready
  rw [hsucc]
  decide

theorem Tallied.update {entry : InstructorTask} (htal : entry.Tallied) {taskId : String}
    {old : SubtaskStatus} (hold : entry.status.lookup taskId = some old)
    (hunf : old.ready = false) (status : SubtaskStatus) :
    (entry.update taskId status).Tallied := by
  have hnone : ∀ count, whenReady count old = 0 := by
    intro count
    unfold whenReady
    rw [hunf]
    rfl
  have htally : ∀ count, tally (entry.status.insert taskId status) (whenReady count) =
      tally entry.status (whenReady count) + whenReady count status := by
    intro count
    rw [← tally_insert hold status (whenReady count), hnone]
    rfl
  have hfin : (entry.update taskId status).succeeded + (entry.update taskId status).failed =
      tally (entry.status.insert taskId status) (whenReady fun _ => 1) := by
    rw [htally, ← htal.finished]
    unfold InstructorTask.update whenReady
    dsimp only
    by_cases hsucc : status.state = .success
    · simp only [hsucc, ready_of_success hsucc, ne_eq, not_true_eq_false, false_and, if_true, if_false]
      omega
    · cases hrdy : status.ready with
      | true =>
        simp only [hsucc, ne_eq, not_false_eq_true, and_self, if_true, if_false]
        omega
      | false =>
        simp only [hsucc, false_eq_true, and_false, if_false]
        omega
  have hlen := length_insert hold status
  refine ⟨fun statname => ?_, hfin, ?_, fun hstt => ?_⟩
  · change (if status.ready then entry.taskProgress statname + status.get statname
      else entry.taskProgress statname) = tally (entry.status.insert taskId status) _
    rw [htally, htal.totals statname]
    unfold whenReady
    split
    · rfl
    · rfl
  · change (entry.status.insert taskId status).entries.length ≤ entry.total
    rw [hlen]
    exact htal.total
  · have hcase : (entry.total : Int) - (entry.update taskId status).succeeded -
        (entry.update taskId status).failed ≤ 0 := by
      by_contra hrem
      have hbef : entry.taskState = .success := by
        rw [← hstt]
        exact (if_neg hrem).symm
      have hrdy := htal.success hbef taskId old hold
      rw [hunf] at hrdy
      cases hrdy
    refine all_ready_of_tally ?_
    change (entry.status.insert taskId status).entries.length ≤ _
    have htotal := htal.total
    have hdone : tally (entry.update taskId status).status (whenReady fun _ => 1) =
        (entry.update taskId status).succeeded + (entry.update taskId status).failed :=
      hfin.symm
    omega

end InstructorTask

end EdxPlatform.BulkEmail
