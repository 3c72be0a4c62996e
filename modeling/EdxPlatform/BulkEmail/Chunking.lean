import EdxPlatform.BulkEmail.Tallies

/-!
# Queueing the subtasks of a query

The ids of the subtasks are made and stored from a count of the items; then the query
runs, and its items are cut into one list for each subtask.  What the query yields need
not be as much as was counted.
-/

namespace EdxPlatform.BulkEmail

open SubtaskStatus

variable {Item : Type}

/-- `_get_number_of_subtasks`. -/
def getNumberOfSubtasks (totalNumItems itemsPerTask : Nat) : Nat :=
  let numSubtasks := totalNumItems / itemsPerTask
  if totalNumItems % itemsPerTask ≠ 0 then numSubtasks + 1 else numSubtasks

/-- The local variables of `_generate_items_for_subtask`, and what it has yielded. -/
structure Chunking (Item : Type) where
  yielded : List (List Item) := []
  numSubtasks : Nat := 0
  itemsForTask : List Item := []

section

variable (itemsPerTask totalNumSubtasks : Nat) (chunking : Chunking Item)

def Chunking.add (item : Item) : Chunking Item :=
  if chunking.itemsForTask.length = itemsPerTask ∧ chunking.numSubtasks < totalNumSubtasks - 1 then
    { yielded := chunking.yielded ++ [chunking.itemsForTask]
      numSubtasks := chunking.numSubtasks + 1
      itemsForTask := [item] }
  else { chunking with itemsForTask := chunking.itemsForTask ++ [item] }

def Chunking.addQueryset (queryset : List Item) : Chunking Item :=
  queryset.foldl (Chunking.add itemsPerTask totalNumSubtasks) chunking

end

def Chunking.chunks (chunking : Chunking Item) : List (List Item) :=
  if chunking.itemsForTask.isEmpty then chunking.yielded
  else chunking.yielded ++ [chunking.itemsForTask]

/-- `_generate_items_for_subtask`. -/
def generateItemsForSubtask (itemQuerysets : List (List Item))
    (itemsPerTask totalNumSubtasks : Nat) : List (List Item) :=
  (itemQuerysets.foldl (Chunking.addQueryset itemsPerTask totalNumSubtasks) {}).chunks

/-- The row of the task, the subtasks that were started, and whether the list of ids ran
out (an `IndexError`). -/
structure Queued (Item : Type) where
  entry : InstructorTask
  started : List (SubtaskStatus × List Item) := []
  raised : Bool := false

/-- The loop that creates the subtasks; `subtaskIds` are those of the list that are left. -/
def Queued.start (queued : Queued Item) : List String → List (List Item) → Queued Item
  | _, [] => queued
  | [], _ :: _ => { queued with raised := true }
  | subtaskId :: subtaskIds, itemList :: itemLists =>
    start { queued with started := queued.started ++ [({ taskId := subtaskId }, itemList)] } subtaskIds itemLists

/-- The row that `initialize_subtask_info` saves. -/
def subtaskEntry (subtaskIdList : List String) : InstructorTask where
  status := Dict.ofList (subtaskIdList.map fun subtaskId => (subtaskId, { taskId := subtaskId }))
  total := subtaskIdList.length

/-- `queue_subtasks_for_query`; `uuid4` gives the ids that are made one after the other. -/
def queueSubtasksForQuery (uuid4 : Nat → String) (itemQuerysets : List (List Item))
    (itemsPerTask totalNumItems : Nat) : Queued Item :=
  let totalNumSubtasks := getNumberOfSubtasks totalNumItems itemsPerTask
  let subtaskIdList := (List.range totalNumSubtasks).map uuid4
  Queued.start { entry := subtaskEntry subtaskIdList } subtaskIdList
    (generateItemsForSubtask itemQuerysets itemsPerTask totalNumSubtasks)

/-- What `_generate_items_for_subtask` has done with the items seen so far. -/
structure Chunking.Holds (itemsPerTask totalNumSubtasks : Nat) (items : List Item)
    (chunking : Chunking Item) : Prop where
  concatenation : chunking.yielded.flatten ++ chunking.itemsForTask = items
  full : ∀ chunk ∈ chunking.yielded, chunk.length = itemsPerTask
  count : chunking.yielded.length = chunking.numSubtasks
  bound : chunking.numSubtasks ≤ totalNumSubtasks - 1
  /-- Only the last subtask gets more than its share. -/
  share : chunking.numSubtasks < totalNumSubtasks - 1 → chunking.itemsForTask.length ≤ itemsPerTask
  pending : items ≠ [] → chunking.itemsForTask ≠ []

namespace Chunking

variable {itemsPerTask totalNumSubtasks : Nat}

theorem holds_nil : Holds itemsPerTask totalNumSubtasks ([] : List Item) {} where
  concatenation := rfl
  full _ hchunk := nomatch hchunk
  count := rfl
  bound := Nat.zero_le _
  share _ := Nat.zero_le _
  pending hitems := absurd rfl hitems

variable {chunking : Chunking Item} {items : List Item}

section

variable (hpos : 1 ≤ itemsPerTask) (hhold : chunking.Holds itemsPerTask totalNumSubtasks items)
include hpos hhold

theorem Holds.add (item : Item) :
    (chunking.add itemsPerTask totalNumSubtasks item).Holds itemsPerTask totalNumSubtasks (items ++ [item]) := by
  obtain ⟨hcat, hfull, hcnt, hbound, hshare, -⟩ := hhold
  rw [Chunking.add]
  by_cases hyield : chunking.itemsForTask.length = itemsPerTask ∧ chunking.numSubtasks < totalNumSubtasks - 1
  · obtain ⟨hlen, hroom⟩ := hyield
    rw [if_pos ⟨hlen, hroom⟩]
    refine ⟨?_, ?_, ?_, ?_, fun _ => hpos, fun _ => cons_ne_nil _ _⟩
    · rw [List.flatten_append, List.flatten_singleton, hcat]
    · intro chunk hchunk
      rcases mem_append.mp hchunk with hold | hnew
      · exact hfull chunk hold
      · rw [mem_singleton.mp hnew]
        exact hlen
    · rw [length_append, hcnt]
      rfl
    · exact hroom
  · rw [if_neg hyield]
    refine ⟨?_, hfull, hcnt, hbound, ?_, ?_⟩
    · rw [← append_assoc, hcat]
    · intro hroom
      have hle := hshare hroom
      have hne : chunking.itemsForTask.length ≠ itemsPerTask := fun hlen => hyield ⟨hlen, hroom⟩
      rw [length_append, length_singleton]
      omega
    · exact fun _ => List.append_ne_nil_of_right_ne_nil _ (cons_ne_nil _ _)

theorem Holds.addQueryset (queryset : List Item) :
    (chunking.addQueryset itemsPerTask totalNumSubtasks queryset).Holds itemsPerTask
      totalNumSubtasks (items ++ queryset) := by
  induction queryset generalizing items chunking with
  | nil =>
    rw [append_nil]
    exact hhold
  | cons item queryset ih =>
    have hrest := ih (hhold.add hpos item)
    rw [append_assoc] at hrest
    exact hrest

theorem Holds.querysets (itemQuerysets : List (List Item)) :
    (itemQuerysets.foldl (Chunking.addQueryset itemsPerTask totalNumSubtasks) chunking).Holds
      itemsPerTask totalNumSubtasks (items ++ itemQuerysets.flatten) := by
  induction itemQuerysets generalizing items chunking with
  | nil =>
    rw [flatten_nil, append_nil]
    exact hhold
  | cons queryset itemQuerysets ih =>
    have hrest := ih (hhold.addQueryset hpos queryset)
    rw [append_assoc] at hrest
    exact hrest

end

theorem Holds.flatten_chunks (hhold : chunking.Holds itemsPerTask totalNumSubtasks items) :
    chunking.chunks.flatten = items := by
  have hcat := hhold.concatenation
  rw [chunks]
  cases hpend : chunking.itemsForTask with
  | nil =>
    rw [hpend, append_nil] at hcat
    exact hcat
  | cons item itemsForTask =>
    rw [hpend] at hcat
    rw [List.isEmpty_cons, if_neg false_ne_true, List.flatten_append, List.flatten_singleton]
    exact hcat

theorem Holds.chunks_ne_nil (hpos : 1 ≤ itemsPerTask) (hhold : chunking.Holds itemsPerTask totalNumSubtasks items) :
    ∀ chunk ∈ chunking.chunks, chunk ≠ [] := by
  have hyiel : ∀ chunk ∈ chunking.yielded, chunk ≠ [] := by
    intro chunk hchunk
    have hlen := hhold.full chunk hchunk
    exact List.ne_nil_of_length_pos (by omega)
  intro chunk hchunk
  rw [chunks] at hchunk
  split at hchunk
  · exact hyiel chunk hchunk
  · next hpend =>
    rcases mem_append.mp hchunk with hold | hnew
    · exact hyiel chunk hold
    · rw [mem_singleton.mp hnew]
      exact fun hnil => hpend (isEmpty_iff.mpr hnil)

theorem Holds.length_items (hhold : chunking.Holds itemsPerTask totalNumSubtasks items) :
    items.length = chunking.numSubtasks * itemsPerTask + chunking.itemsForTask.length := by
  have hflat : ∀ chunks : List (List Item), (∀ chunk ∈ chunks, chunk.length = itemsPerTask) →
      chunks.flatten.length = chunks.length * itemsPerTask := by
    intro chunks hfull
    induction chunks with
    | nil => rw [flatten_nil, length_nil, length_nil, Nat.zero_mul]
    | cons chunk chunks ih =>
      rw [List.flatten_cons, length_append, hfull chunk mem_cons_self,
        ih fun other hoth => hfull other (mem_cons_of_mem _ hoth), length_cons,
        Nat.succ_mul, Nat.add_comm]
  rw [← hhold.concatenation, length_append, hflat _ hhold.full, hhold.count]

/-- The chunks are never more than the subtasks; they are as many when the items fill all
but the last. -/
theorem Holds.length_chunks (hsubt : 1 ≤ totalNumSubtasks)
    (hhold : chunking.Holds itemsPerTask totalNumSubtasks items) :
    chunking.chunks.length ≤ totalNumSubtasks ∧ (chunking.chunks.length = totalNumSubtasks ↔
        (totalNumSubtasks - 1) * itemsPerTask < items.length) := by
  have hlen := hhold.length_items
  have hbound := hhold.bound
  have hcnt := hhold.count
  rw [chunks]
  cases hpend : chunking.itemsForTask with
  | nil =>
    have hitems : items = [] := by
      by_contra hne
      exact hhold.pending hne hpend
    rw [List.isEmpty_nil, if_pos rfl, hcnt, hitems, length_nil]
    refine ⟨by omega, fun hall => ?_, fun hmore => absurd hmore (Nat.not_lt_zero _)⟩
    omega
  | cons item itemsForTask =>
    rw [hpend, length_cons] at hlen
    rw [List.isEmpty_cons, if_neg false_ne_true, length_append, hcnt, length_singleton]
    refine ⟨by omega, fun hall => ?_, fun hmore => ?_⟩
    · have hlast : totalNumSubtasks - 1 = chunking.numSubtasks := by omega
      rw [hlast, hlen]
      omega
    · by_contra hne
      have hroom : chunking.numSubtasks < totalNumSubtasks - 1 := by omega
      have hshare := hhold.share hroom
      rw [hpend, length_cons] at hshare
      have hfits : (chunking.numSubtasks + 1) * itemsPerTask ≤
          (totalNumSubtasks - 1) * itemsPerTask := Nat.mul_le_mul_right _ hroom
      rw [Nat.succ_mul] at hfits
      omega

end Chunking

theorem holds_generateItemsForSubtask (itemQuerysets : List (List Item))
    {itemsPerTask : Nat} (hpos : 1 ≤ itemsPerTask) (totalNumSubtasks : Nat) :
    ∃ chunking : Chunking Item, chunking.Holds itemsPerTask totalNumSubtasks itemQuerysets.flatten ∧
        generateItemsForSubtask itemQuerysets itemsPerTask totalNumSubtasks = chunking.chunks :=
  ⟨_, Chunking.holds_nil.querysets hpos itemQuerysets, rfl⟩

theorem getNumberOfSubtasks_pos {totalNumItems itemsPerTask : Nat} (hpos : 1 ≤ itemsPerTask)
    (htotal : 1 ≤ totalNumItems) : 1 ≤ getNumberOfSubtasks totalNumItems itemsPerTask := by
  rw [getNumberOfSubtasks]
  split
  · exact Nat.succ_le_succ (Nat.zero_le _)
  · next hexact =>
    have hdiv : itemsPerTask ∣ totalNumItems := Nat.dvd_of_mod_eq_zero (not_not.mp hexact)
    exact Nat.div_pos (Nat.le_of_dvd htotal hdiv) hpos

namespace InstructorTask

variable (entry : InstructorTask)

section

variable (taskId : String) (status : SubtaskStatus)

theorem update_finished : (entry.update taskId status).succeeded + (entry.update taskId status).failed =
      entry.succeeded + entry.failed + if status.ready then 1 else 0 := by
  rw [update]
  dsimp only
  by_cases hsucc : status.state = .success
  · simp only [hsucc, ready_of_success hsucc, ne_eq, not_true_eq_false, false_and, if_true, if_false]
    omega
  · cases hrdy : status.ready with
    | true =>
      simp only [hsucc, ne_eq, not_false_eq_true, and_self, if_true, if_false]
      omega
    | false =>
      simp only [hsucc, false_eq_true, and_false, if_false]
      omega

theorem update_taskState : (entry.update taskId status).taskState =
      if entry.total ≤ (entry.update taskId status).succeeded + (entry.update taskId status).failed
      then .success else entry.taskState := by
  rw [update]
  dsimp only
  refine if_congr ?_ rfl rfl
  omega

end

section

variable (reports : List SubtaskStatus)

def report : InstructorTask := reports.foldl (fun entry status => entry.update status.taskId status) entry

theorem report_finished : (entry.report reports).total = entry.total ∧
      (entry.report reports).succeeded + (entry.report reports).failed =
        entry.succeeded + entry.failed + (reports.filter ready).length := by
  induction reports generalizing entry with
  | nil => exact ⟨rfl, rfl⟩
  | cons status reports ih =>
    obtain ⟨htotal, hfin⟩ := ih (entry.update status.taskId status)
    refine ⟨htotal, ?_⟩
    rw [update_finished] at hfin
    refine hfin.trans ?_
    cases hrdy : status.ready with
    | true =>
      rw [filter_cons_of_pos hrdy, length_cons, if_pos rfl]
      omega
    | false =>
      rw [filter_cons_of_neg (by rw [hrdy]; exact false_ne_true), if_neg false_ne_true]
      omega

end

section

variable {entry : InstructorTask} {reports : List SubtaskStatus}

theorem finished_of_report (hrun : entry.taskState ≠ .success) (hsucc : (entry.report reports).taskState = .success) :
    entry.total ≤ entry.succeeded + entry.failed + (reports.filter ready).length := by
  induction reports using reverseRecOn with
  | nil => exact absurd hsucc hrun
  | append_singleton reports status ih =>
    obtain ⟨htotal, hfin⟩ := report_finished entry (reports ++ [status])
    rw [← hfin]
    by_contra hless
    have hlast : entry.report (reports ++ [status]) =
        (entry.report reports).update status.taskId status := foldl_append
    rw [hlast, update_taskState, (report_finished entry reports).1, if_neg (by rwa [← hlast])] at hsucc
    have hbef := ih hsucc
    rw [hfin, filter_append, length_append] at hless
    omega

theorem report_success (hrep : reports ≠ [])
    (hall : entry.total ≤ entry.succeeded + entry.failed + (reports.filter ready).length) :
    (entry.report reports).taskState = .success := by
  induction reports using reverseRecOn with
  | nil => exact absurd rfl hrep
  | append_singleton reports status ih =>
    obtain ⟨htotal, hfin⟩ := report_finished entry (reports ++ [status])
    have hlast : entry.report (reports ++ [status]) =
        (entry.report reports).update status.taskId status := foldl_append
    rw [← hfin, hlast] at hall
    rw [hlast, update_taskState, (report_finished entry reports).1, if_pos hall]

end

end InstructorTask

namespace Queued

def startedIds (queued : Queued Item) : List String := queued.started.map fun subtask => subtask.1.taskId

theorem start_spec {subtaskIds : List String} {itemLists : List (List Item)} (queued : Queued Item)
    (hlen : itemLists.length ≤ subtaskIds.length) :
    (queued.start subtaskIds itemLists).startedIds = queued.startedIds ++ subtaskIds.take itemLists.length ∧
      (queued.start subtaskIds itemLists).entry = queued.entry ∧
      (queued.start subtaskIds itemLists).raised = queued.raised := by
  induction itemLists generalizing queued subtaskIds with
  | nil =>
    rw [start, length_nil, List.take_zero, append_nil]
    exact ⟨rfl, rfl, rfl⟩
  | cons itemList itemLists ih =>
    cases subtaskIds with
    | nil => exact absurd hlen (Nat.not_succ_le_zero _)
    | cons subtaskId subtaskIds =>
      obtain ⟨hstar, hent, hrais⟩ := ih
        { queued with started := queued.started ++ [({ taskId := subtaskId }, itemList)] }
        (Nat.le_of_succ_le_succ hlen)
      refine ⟨?_, hent, hrais⟩
      rw [start, hstar, startedIds, map_append, append_assoc, length_cons, take_succ_cons]
      rfl

/-- What the started subtasks may write: a subtask that is done writes nothing more. -/
structure Reports (queued : Queued Item) (reports : List SubtaskStatus) : Prop where
  started : ∀ status ∈ reports, status.taskId ∈ queued.startedIds
  once : ((reports.filter ready).map SubtaskStatus.taskId).Nodup

/-- Some reports of the started subtasks bring the task to `SUCCESS`. -/
def CanSucceed (queued : Queued Item) : Prop :=
  ∃ reports, queued.Reports reports ∧ (queued.entry.report reports).taskState = .success

theorem canSucceed_iff {queued : Queued Item} (hnod : queued.startedIds.Nodup)
    (hrun : queued.entry.taskState ≠ .success)
    (hfresh : queued.entry.succeeded + queued.entry.failed = 0) (htotal : 1 ≤ queued.entry.total) :
    queued.CanSucceed ↔ queued.entry.total ≤ queued.startedIds.length := by
  constructor
  · rintro ⟨reports, ⟨hstar, honce⟩, hsucc⟩
    have hfin := InstructorTask.finished_of_report hrun hsucc
    have hsub : (reports.filter ready).map SubtaskStatus.taskId ⊆ queued.startedIds := by
      intro taskId htaskId
      obtain ⟨status, hstat, rfl⟩ := mem_map.mp htaskId
      exact hstar status (mem_of_mem_filter hstat)
    have hle := (List.subperm_of_subset honce hsub).length_le
    rw [length_map] at hle
    omega
  · intro hall
    have hrdy : ∀ taskId : String, ({ taskId, state := .success } : SubtaskStatus).ready = true := fun _ => rfl
    let reports : List SubtaskStatus := queued.startedIds.map fun taskId => { taskId, state := .success }
    have hfilt : reports.filter ready = reports := by
      rw [filter_eq_self]
      intro status hstat
      obtain ⟨taskId, -, rfl⟩ := mem_map.mp hstat
      exact hrdy taskId
    have hids : reports.map SubtaskStatus.taskId = queued.startedIds := by
      rw [map_map]
      exact map_id _
    have hlen : reports.length = queued.startedIds.length := length_map _
    refine ⟨reports, ⟨?_, ?_⟩, InstructorTask.report_success ?_ ?_⟩
    · intro status hstat
      rw [← hids]
      exact mem_map_of_mem hstat
    · rw [hfilt, hids]
      exact hnod
    · exact List.ne_nil_of_length_pos (by omega)
    · rw [hfilt]
      omega

end Queued

theorem mem_subtaskEntry {subtaskIdList : List String} {subtaskId : String} :
    subtaskId ∈ (subtaskEntry subtaskIdList).status ↔ subtaskId ∈ subtaskIdList := by
  rw [subtaskEntry, Dict.mem_ofList, map_map]
  exact iff_of_eq (congrArg _ (map_id _))

/-- What queueing has to do: cut the items into nonempty lists and start one subtask for
each id of the row, so that the task can be done. -/
structure QueuesAll (uuid4 : Nat → String) (itemQuerysets : List (List Item))
    (itemsPerTask totalNumItems : Nat) : Prop where
  concatenation : (generateItemsForSubtask itemQuerysets itemsPerTask
    (getNumberOfSubtasks totalNumItems itemsPerTask)).flatten = itemQuerysets.flatten
  nonempty : ∀ chunk ∈ generateItemsForSubtask itemQuerysets itemsPerTask
    (getNumberOfSubtasks totalNumItems itemsPerTask), chunk ≠ []
  returns : (queueSubtasksForQuery uuid4 itemQuerysets itemsPerTask totalNumItems).raised = false
  started : ∀ subtaskId,
    (queueSubtasksForQuery uuid4 itemQuerysets itemsPerTask totalNumItems).startedIds.count subtaskId =
      if subtaskId ∈ (queueSubtasksForQuery uuid4 itemQuerysets itemsPerTask totalNumItems).entry.status
      then 1 else 0
  canSucceed : (queueSubtasksForQuery uuid4 itemQuerysets itemsPerTask totalNumItems).CanSucceed

section

variable {uuid4 : Nat → String} {itemQuerysets : List (List Item)} {itemsPerTask totalNumItems : Nat}

theorem queueSubtasksForQuery_spec (uuid4 : Nat → String) (itemQuerysets : List (List Item))
    (hpos : 1 ≤ itemsPerTask) (htotal : 1 ≤ totalNumItems) :
    ∃ count, count ≤ getNumberOfSubtasks totalNumItems itemsPerTask ∧
      (count = getNumberOfSubtasks totalNumItems itemsPerTask ↔
        (getNumberOfSubtasks totalNumItems itemsPerTask - 1) * itemsPerTask < itemQuerysets.flatten.length) ∧
      (queueSubtasksForQuery uuid4 itemQuerysets itemsPerTask totalNumItems).startedIds =
        (List.range count).map uuid4 ∧
      (queueSubtasksForQuery uuid4 itemQuerysets itemsPerTask totalNumItems).entry =
        subtaskEntry ((List.range (getNumberOfSubtasks totalNumItems itemsPerTask)).map uuid4) ∧
      (queueSubtasksForQuery uuid4 itemQuerysets itemsPerTask totalNumItems).raised = false := by
  have hsubt := getNumberOfSubtasks_pos hpos htotal
  obtain ⟨chunking, hhold, hchun⟩ := holds_generateItemsForSubtask itemQuerysets hpos
    (getNumberOfSubtasks totalNumItems itemsPerTask)
  obtain ⟨hle, hall⟩ := hhold.length_chunks hsubt
  have hlen : chunking.chunks.length ≤
      ((List.range (getNumberOfSubtasks totalNumItems itemsPerTask)).map uuid4).length := by
    rw [length_map, List.length_range]
    exact hle
  obtain ⟨hstar, hent, hrais⟩ := Queued.start_spec ({ entry := subtaskEntry _ } : Queued Item) hlen
  rw [queueSubtasksForQuery, hchun]
  refine ⟨chunking.chunks.length, hle, hall, ?_, hent, hrais⟩
  rw [hstar, ← map_take, List.take_range, Nat.min_eq_left hle]
  rfl

/-- One subtask is started for each id exactly when the query yields more items than all
subtasks but the last hold. -/
theorem queuesAll_iff (huuid4 : Function.Injective uuid4) (hpos : 1 ≤ itemsPerTask) (htotal : 1 ≤ totalNumItems) :
    QueuesAll uuid4 itemQuerysets itemsPerTask totalNumItems ↔
      (getNumberOfSubtasks totalNumItems itemsPerTask - 1) * itemsPerTask <
        itemQuerysets.flatten.length := by
  have hsubtasks := getNumberOfSubtasks_pos hpos htotal
  obtain ⟨chunking, hholds, hchunks⟩ := holds_generateItemsForSubtask itemQuerysets hpos
    (getNumberOfSubtasks totalNumItems itemsPerTask)
  obtain ⟨count, hle, hall, hstarted, hentry, hraised⟩ := queueSubtasksForQuery_spec uuid4 itemQuerysets hpos htotal
  have hsucceeds : (queueSubtasksForQuery uuid4 itemQuerysets itemsPerTask
      totalNumItems).CanSucceed ↔ getNumberOfSubtasks totalNumItems itemsPerTask ≤ count := by
    have hnodup : (queueSubtasksForQuery uuid4 itemQuerysets itemsPerTask totalNumItems).startedIds.Nodup := by
      rw [hstarted]
      exact List.nodup_range.map huuid4
    have hlength : (subtaskEntry ((List.range (getNumberOfSubtasks totalNumItems
        itemsPerTask)).map uuid4)).total = getNumberOfSubtasks totalNumItems itemsPerTask := by
      rw [subtaskEntry, length_map, List.length_range]
    rw [Queued.canSucceed_iff hnodup (by rw [hentry]; exact TaskState.noConfusion)
      (by rw [hentry]; rfl) (by rw [hentry, hlength]; exact hsubtasks), hentry, hlength, hstarted,
      length_map, List.length_range]
  rw [← hall]
  constructor
  · intro hqueues
    exact Nat.le_antisymm hle (hsucceeds.mp hqueues.canSucceed)
  · intro hcount
    refine ⟨?_, ?_, hraised, fun subtaskId => ?_, hsucceeds.mpr hcount.ge⟩
    · rw [hchunks]
      exact hholds.flatten_chunks
    · rw [hchunks]
      exact hholds.chunks_ne_nil hpos
    · simp only [hentry, hstarted, mem_subtaskEntry, hcount]
      exact List.Nodup.count (List.nodup_range.map huuid4)

end

def numbered (call : Nat) : String := String.ofList (List.replicate call 'u')

theorem numbered_injective : Injective numbered := by
  intro call other heq
  have hlen := congrArg (fun name => name.toList.length) heq
  simpa [numbered] using hlen

theorem queuesAll_three : QueuesAll numbered [[10, 11], [12]] 2 3 :=
  (queuesAll_iff numbered_injective (by omega) (by omega)).mpr (by decide)

/-- Two recipients were counted, one is left when the query runs. -/
theorem not_queuesAll_two : ¬ QueuesAll numbered [[10]] 1 2 := fun hqueues => by
  have hcount := hqueues.started "u"
  revert hcount
  decide +kernel

end EdxPlatform.BulkEmail
