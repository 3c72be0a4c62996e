import Mathlib.Data.List.ReduceOption
import EdxPlatform.Ccx.Schedule

/-!
# Assignments that a grading policy asks for

Saving a schedule counts the graded units that are not hidden and lowers the number of assignments that a section of
the grading policy asks for.  The count goes over all units, sections and verticals too, and does not see that a
section above is hidden.
-/

namespace EdxPlatform.Ccx

open Progress

/-- The override under a key is as in the table, and no deletion is to come to its row. -/
structure Store.Keeps (table : Table) (kept : Key) (store : Store) : Prop where
  rows : store.rows.lookup kept = table.rows.lookup kept
  values : store.values.lookup kept = (table.rows.lookup kept).map FieldOverride.value
  instances : store.instances.lookup kept = table.rows.lookup kept
  nextId : table.nextId ≤ store.nextId
  ids : ∀ key id, key ≠ kept → store.ids.lookup key = some id → ∀ row, table.rows.lookup kept = some row → id ≠ row.id

namespace Store

variable {table : Table} {kept key : Key} {store : Store}

theorem keeps_load (table : Table) (kept : Key) : (Store.load table).Keeps table kept where
  rows := rfl
  values := lookup_mapOf table.rows kept
  instances := rfl
  nextId := le_rfl
  ids key id hne hid row hrow heq := by
    rw [load, Dict.lookup_ofList_map, map_eq_some_iff] at hid
    obtain ⟨other, hoth, rfl⟩ := hid
    exact hne (table.distinct key other kept row hoth hrow heq)

section

variable (hkeep : store.Keeps table kept) (hne : key ≠ kept)
include hkeep hne

theorem Keeps.overrideField (value : Value) : (store.overrideField key value).Keeps table kept := by
  have hoth := hne.symm
  rw [Store.overrideField]
  split
  · exact ⟨by rw [lookup_insert_of_ne hoth, hkeep.rows], by rw [lookup_insert_of_ne hoth, hkeep.values],
      by rw [lookup_insert_of_ne hoth, hkeep.instances], hkeep.nextId, hkeep.ids⟩
  · split
    · exact ⟨by rw [lookup_insert_of_ne hoth, hkeep.rows], by rw [lookup_insert_of_ne hoth, hkeep.values],
        by rw [lookup_insert_of_ne hoth, hkeep.instances], hkeep.nextId, hkeep.ids⟩
    · refine ⟨by rw [lookup_insert_of_ne hoth, hkeep.rows], by rw [lookup_insert_of_ne hoth, hkeep.values],
        by rw [lookup_insert_of_ne hoth, hkeep.instances], hkeep.nextId.trans (le_succ _), ?_⟩
      intro other id hkey hid row hrow
      dsimp only at hid
      rw [lookup_insert] at hid
      split at hid
      · -- the row of the policy is older than the new one
        have hgiven := table.given kept row hrow
        have hnxt := hkeep.nextId
        injection hid with hid
        omega
      · exact hkeep.ids other id hkey hid row hrow

theorem Keeps.clearFieldInfo : (store.clearFieldInfo key).Keeps table kept := by
  have hoth := hne.symm
  rw [Store.clearFieldInfo]
  split
  · exact hkeep
  · split
    · exact ⟨hkeep.rows, by rw [lookup_erase_ne hoth, hkeep.values], hkeep.instances, hkeep.nextId, hkeep.ids⟩
    · refine ⟨hkeep.rows, by rw [lookup_erase_ne hoth, hkeep.values],
        by rw [lookup_erase_ne hoth, hkeep.instances], hkeep.nextId, ?_⟩
      intro other id hkey hid
      dsimp only at hid
      rw [lookup_erase] at hid
      split at hid
      · cases hid
      · exact hkeep.ids other id hkey hid

theorem Keeps.clearOverride : (store.clearOverride key).Keeps table kept := by
  rw [Store.clearOverride]
  split
  · refine Keeps.clearFieldInfo ?_ hne
    exact ⟨by rw [lookup_erase_ne hne.symm, hkeep.rows], hkeep.values, hkeep.instances, hkeep.nextId, hkeep.ids⟩
  · exact hkeep

end

theorem Keeps.copyDate (hkeep : store.Keeps table kept) {location : String} {dateType : DateField}
    (hne : (location, dateType.field) ≠ kept) (date : Option DateTime) :
    (store.copyDate location dateType date).Keeps table kept := by
  cases date with
  | none => exact hkeep
  | some date => exact hkeep.overrideField hne _

end Store

/-! ## What is counted -/

def shown (unit : ScheduleUnit) (block : Block) : Bool := !unit.hidden && block.graded

def countedBlocks : Schedule → Blocks → List Block
  | .nil, _ => []
  | .cons unit children next, blocks =>
    match blocks.find unit.location with
    | none => countedBlocks next blocks
    | some (block, components) =>
      (if shown unit block then [block] else []) ++ (countedBlocks children components ++ countedBlocks next blocks)

def shownSiblings : Schedule → Blocks → List Block
  | .nil, _ => []
  | .cons unit _ next, blocks =>
    match blocks.find unit.location with
    | none => shownSiblings next blocks
    | some (block, _) => (if shown unit block then [block] else []) ++ shownSiblings next blocks

def shownBelow : Schedule → Blocks → List Block
  | .nil, _ => []
  | .cons unit children next, blocks =>
    match blocks.find unit.location with
    | none => shownBelow next blocks
    | some (_, components) => countedBlocks children components ++ shownBelow next blocks

/-- The graded subsections that are not hidden and not under a hidden section. -/
def gradedSubsections : Schedule → Blocks → List Block
  | .nil, _ => []
  | .cons unit children next, blocks =>
    match blocks.find unit.location with
    | none => gradedSubsections next blocks
    | some (_, components) =>
      (if unit.hidden then [] else shownSiblings children components) ++ gradedSubsections next blocks

/-- What else is graded and not hidden: sections, subsections under a hidden section, and what is under a
subsection. -/
def otherGraded : Schedule → Blocks → List Block
  | .nil, _ => []
  | .cons unit children next, blocks =>
    match blocks.find unit.location with
    | none => otherGraded next blocks
    | some (block, components) =>
      (if shown unit block then [block] else []) ++
        ((if unit.hidden then countedBlocks children components else shownBelow children components) ++
          otherGraded next blocks)

section

variable (test : Block → Bool) (units : Schedule) (blocks : Blocks)

theorem countP_countedBlocks : (countedBlocks units blocks).countP test =
      (shownSiblings units blocks).countP test + (shownBelow units blocks).countP test := by
  induction units generalizing blocks with
  | nil => rfl
  | cons unit children next _ ih =>
    rw [countedBlocks, shownSiblings, shownBelow]
    cases blocks.find unit.location with
    | none => exact ih blocks
    | some found =>
      simp only [countP_append, ih blocks]
      omega

theorem countP_countedBlocks_subsections : (countedBlocks units blocks).countP test =
      (gradedSubsections units blocks).countP test + (otherGraded units blocks).countP test := by
  induction units generalizing blocks with
  | nil => rfl
  | cons unit children next _ ih =>
    rw [countedBlocks, gradedSubsections, otherGraded]
    cases blocks.find unit.location with
    | none => exact ih blocks
    | some found =>
      have hbel := countP_countedBlocks test children found.2
      cases unit.hidden with
      | true => simp only [countP_append, ih blocks, if_true, List.countP_nil]; omega
      | false => simp only [countP_append, ih blocks, false_eq_true, if_false]; omega

end

def Progress.count (progress : Progress) (format : Option String) : Nat := (progress.graded.lookup format).getD 0

section

variable (progress : Progress)

theorem Progress.count_countGraded (unit : ScheduleUnit) (block : Block)
    (format : Option String) : (progress.countGraded unit block).count format =
      progress.count format + (if shown unit block then [block] else []).countP (·.format = format) := by
  rw [countGraded, ← shown]
  split
  · rw [count, lookup_insert]
    by_cases hfor : format = block.format
    · subst hfor
      simp [count]
    · simp [count, hfor, Ne.symm hfor]
  · rfl

@[simp]
theorem Progress.count_setDate (location : String) (dateType : DateField)
    (date : Option DateTime) (format : Option String) :
    (progress.setDate location dateType date).count format = progress.count format := by
  cases date <;> rfl

@[simp]
theorem Progress.count_setHidden (location : String) (hidden : Bool)
    (format : Option String) : (progress.setHidden location hidden).count format = progress.count format := rfl

end

/-- The override under a key is kept and its row not among those to be deleted. -/
structure Progress.Keeps (table : Table) (kept : Key) (progress : Progress) : Prop where
  store : progress.store.Keeps table kept
  toDelete : ∀ id, some id ∈ progress.toDelete → ∀ row, table.rows.lookup kept = some row → id ≠ row.id

section Unit

variable {table : Table} {kept : Key} {progress : Progress} {location : String}

section

variable (hkeep : progress.Keeps table kept)
include hkeep

theorem Progress.Keeps.setDate {dateType : DateField}
    (hne : (location, dateType.field) ≠ kept) (date : Option DateTime) :
    (progress.setDate location dateType date).Keeps table kept := by
  cases date with
  | some date => exact ⟨hkeep.store.overrideField hne _, hkeep.toDelete⟩
  | none =>
    refine ⟨hkeep.store.clearFieldInfo hne, fun id hid => ?_⟩
    rcases mem_append.mp hid with hid | hid
    · exact hkeep.toDelete id hid
    · exact hkeep.store.ids _ id hne (mem_singleton.mp hid).symm

theorem Progress.Keeps.setHidden (hne : (location, Field.visibleToStaffOnly) ≠ kept) (hidden : Bool) :
    (progress.setHidden location hidden).Keeps table kept := by
  cases hidden with
  | true => exact ⟨hkeep.store.overrideField hne _, hkeep.toDelete⟩
  | false => exact ⟨hkeep.store.clearOverride hne, hkeep.toDelete⟩

theorem Progress.Keeps.countGraded (unit : ScheduleUnit) (block : Block) :
    (progress.countGraded unit block).Keeps table kept := by
  rw [Progress.countGraded]
  split
  · exact ⟨hkeep.store, hkeep.toDelete⟩
  · exact hkeep

end

variable {due : Option (Option DateTime)}

theorem keeps_copyDates (hkept : kept.2 = .gradingPolicy) {start : Option DateTime} {components :
    List Block} {store after : Store}
    (hkeep : store.Keeps table kept) (hcopy : copyDates start due components store = .ok after) :
    after.Keeps table kept := by
  induction components generalizing store with
  | nil =>
    obtain rfl := ok.inj hcopy
    exact hkeep
  | cons component components ih =>
    rw [copyDates, foldlM_cons] at hcopy
    cases due with
    | none => cases hcopy
    | some due =>
      refine ih ((hkeep.copyDate ?_ start).copyDate ?_ due) hcopy
      · rintro rfl
        cases hkept
      · rintro rfl
        cases hkept

variable (int : String → Option Int)

theorem overrideUnit_counts (hkept : kept.2 = .gradingPolicy) {unit : ScheduleUnit} {block : Block}
    {components : Blocks}
    {result : Option DateTime × Option (Option DateTime) × Progress} (hkeep : progress.Keeps table kept)
    (hrun : overrideUnit int unit block components due progress = .ok result) :
    result.2.2.Keeps table kept ∧ ∀ format, result.2.2.count format =
      progress.count format + (if shown unit block then [block] else []).countP (·.format = format) := by
  have hne (field : Field) (hfld : field ≠ .gradingPolicy) : (block.location, field) ≠ kept := by
    rintro rfl
    exact hfld hkept
  rw [overrideUnit] at hrun
  obtain ⟨start, -, hrun⟩ := bind_ok hrun
  obtain ⟨date, -, hrun⟩ := bind_ok hrun
  have hhid := hkeep.setHidden (hne .visibleToStaffOnly Field.noConfusion) unit.hidden
  have hst := hhid.setDate (hne DateField.start.field Field.noConfusion) start
  have hown := (hst.setDate (hne DateField.due.field Field.noConfusion) date).countGraded unit block
  dsimp only at hrun
  generalize hset : (((progress.setHidden block.location unit.hidden).setDate block.location .start
    start).setDate block.location .due date).countGraded unit block = own at hown hrun
  have hcnt : ∀ format, own.count format =
      progress.count format + (if shown unit block then [block] else []).countP (·.format = format) := by
    intro format
    rw [← hset, count_countGraded, count_setDate, count_setDate, count_setHidden]
  split at hrun
  · obtain ⟨store, hstore, hrun⟩ := bind_ok hrun
    obtain rfl := ok.inj hrun
    exact ⟨⟨keeps_copyDates hkept hown.store hstore, hown.toDelete⟩, hcnt⟩
  · obtain ⟨store, hstore, hrun⟩ := bind_ok hrun
    obtain rfl := ok.inj hstore
    obtain rfl := ok.inj hrun
    exact ⟨hown, hcnt⟩

theorem overrideFields_counts (hkept : kept.2 = .gradingPolicy) {units : Schedule} {blocks : Blocks}
    {earliest : Option DateTime} {result : Option DateTime × Progress}
    (hkeep : progress.Keeps table kept)
    (hrun : overrideFields int units blocks earliest due progress = .ok result) :
    result.2.Keeps table kept ∧ ∀ format, result.2.count format =
      progress.count format + (countedBlocks units blocks).countP (·.format = format) := by
  induction units generalizing blocks earliest due progress result with
  | nil =>
    obtain rfl := ok.inj hrun
    exact ⟨hkeep, fun format => rfl⟩
  | cons unit children next ihBelow ihNext =>
    rw [overrideFields] at hrun
    cases hfind : blocks.find unit.location with
    | none =>
      rw [hfind] at hrun
      cases hrun
    | some found =>
      rw [hfind] at hrun
      obtain ⟨⟨start, later, own⟩, hunit, hrun⟩ := bind_ok hrun
      obtain ⟨⟨dropped, nested⟩, hnest, hrun⟩ := bind_ok hrun
      obtain ⟨hown, hownC⟩ := overrideUnit_counts int hkept hkeep hunit
      obtain ⟨hbel, hbelo⟩ := ihBelow hown hnest
      obtain ⟨hlast, hlas⟩ := ihNext hbel hrun
      refine ⟨hlast, fun format => ?_⟩
      rw [countedBlocks, hfind, countP_append, countP_append, hlas, hbelo, hownC, Nat.add_assoc, Nat.add_assoc]

end Unit

/-! ## The saved policy -/

def policyUnderCcx (rows : Dict Key FieldOverride) (course : Course) : List GraderSection :=
  match (mapOf rows).lookup (course.location, .gradingPolicy) with
  | some (.policy policy) => policy
  | _ => course.gradingPolicy

/-- The number of assignments of a type: graded subsections that are not hidden and not under a hidden section. -/
def assignments (course : Course) (schedule : Schedule) (type : Option String) : Nat :=
  (gradedSubsections schedule course.blocks).countP (·.format = type)

/-- Each section of the policy asks for as many assignments as before, or for as many as there are if these are
fewer. -/
def AsksForExisting (course : Course) (schedule : Schedule) (before after : List GraderSection) : Prop :=
  List.Forall₂ (fun old new : GraderSection => new.type = old.type ∧
    new.minCount.getD 0 = min (old.minCount.getD 0) (assignments course schedule old.type)) before after

section Save

variable {course : Course} {table : Table} {store : Store}

theorem gradingPolicy_of_keeps (hkeep : store.Keeps table (course.location, .gradingPolicy)) :
    gradingPolicy store course = policyUnderCcx table.rows course := by
  have hpol : store.values.lookup (course.location, .gradingPolicy) =
      (mapOf table.rows).lookup (course.location, .gradingPolicy) := by
    rw [hkeep.values, lookup_mapOf]
  rw [gradingPolicy, hpol]
  rfl

theorem Store.Keeps.bulkDelete {kept : Key} {toDelete : List (Option Nat)} (hkeep : store.Keeps table kept)
    (hdel : ∀ id, some id ∈ toDelete → ∀ row, table.rows.lookup kept = some row → id ≠ row.id) :
    (store.bulkDelete toDelete).Keeps table kept := by
  refine ⟨?_, hkeep.values, hkeep.instances, hkeep.nextId, hkeep.ids⟩
  rw [Store.bulkDelete, Dict.lookup_filter, hkeep.rows]
  cases hrow : table.rows.lookup kept with
  | none => rfl
  | some row =>
    rw [filter_some, if_pos]
    rw [decide_eq_true_eq, List.reduceOption_mem_iff]
    exact fun hmem => hdel row.id hmem row hrow rfl

theorem Store.lookup_overrideField_self (store : Store) (key : Key) (value : Value) :
    ((store.overrideField key value).rows.lookup key).map FieldOverride.value = some value := by
  rw [Store.overrideField]
  split
  · rw [lookup_insert_self]
    rfl
  · split
    · rw [lookup_insert_self]
      rfl
    · rw [lookup_insert_self]
      rfl

variable {int : String → Option Int} {staffOnly : Block → Bool} {schedule : Schedule} {saved : Saved}

theorem policyUnderCcx_saved (hsave : saveCcx int course table staffOnly schedule = .ok saved) :
    ∃ graded : Dict (Option String) Nat, (∀ format, (graded.lookup format).getD 0 =
        (countedBlocks schedule course.blocks).countP (·.format = format)) ∧
      policyUnderCcx saved.store.rows course = (policyUnderCcx table.rows course).map (lowerMinCount graded) := by
  rw [saveCcx] at hsave
  obtain ⟨⟨earliest, progress⟩, hrun, hsave⟩ := bind_ok hsave
  obtain rfl := ok.inj hsave
  have hload : Progress.Keeps table (course.location, .gradingPolicy) { store := .load table } :=
    ⟨Store.keeps_load table _, fun id hid => nomatch hid⟩
  obtain ⟨hkeep, hcnt⟩ := overrideFields_counts int rfl hload hrun
  have hstore := (hkeep.store.bulkDelete hkeep.toDelete).copyDate
    (show (course.location, DateField.start.field) ≠ (course.location, Field.gradingPolicy) by simp [DateField.field])
    earliest
  refine ⟨progress.graded, fun format => by simpa [Progress.count] using hcnt format, ?_⟩
  dsimp only
  rw [gradingPolicy_of_keeps hstore]
  split
  · rw [policyUnderCcx, lookup_mapOf, Store.lookup_overrideField_self]
  · next hexc =>
    -- nothing is lowered, so the policy is the one that was read
    have hnone : ∀ grader ∈ policyUnderCcx table.rows course, lowerMinCount progress.graded grader = id grader := by
      intro grader hgrad
      rw [not_eq_true, any_eq_false] at hexc
      exact if_neg (hexc grader hgrad)
    rw [map_congr_left hnone, map_id, policyUnderCcx, lookup_mapOf, hstore.rows, ← lookup_mapOf]
    rfl

theorem getD_lowerMinCount (graded : Dict (Option String) Nat) (grader : GraderSection) :
    (lowerMinCount graded grader).type = grader.type ∧ (lowerMinCount graded grader).minCount.getD 0 =
        min (grader.minCount.getD 0) ((graded.lookup grader.type).getD 0 : Nat) := by
  rw [lowerMinCount]
  split
  · next hexc =>
    have hlt := of_decide_eq_true hexc
    exact ⟨rfl, (min_eq_right hlt.le).symm⟩
  · next hexc =>
    rw [exceeds, decide_eq_true_eq, not_lt] at hexc
    exact ⟨rfl, (min_eq_left hexc).symm⟩

/-- The policy asks for existing assignments just when each section that asks for more has nothing else graded in
its format. -/
theorem asksForExisting_iff (hsave : saveCcx int course table staffOnly schedule = .ok saved) :
    AsksForExisting course schedule (policyUnderCcx table.rows course) (policyUnderCcx saved.store.rows course) ↔
      ∀ grader ∈ policyUnderCcx table.rows course, grader.minCount.getD 0 ≤ assignments course schedule grader.type ∨
          ∀ block ∈ otherGraded schedule course.blocks, block.format ≠ grader.type := by
  obtain ⟨graded, hgraded, hpolicy⟩ := policyUnderCcx_saved hsave
  rw [AsksForExisting, hpolicy, List.forall₂_map_right_iff, List.forall₂_same]
  refine forall₂_congr fun grader _ => ?_
  obtain ⟨htype, hmin⟩ := getD_lowerMinCount graded grader
  have hnone : (∀ block ∈ otherGraded schedule course.blocks, block.format ≠ grader.type) ↔
      (otherGraded schedule course.blocks).countP (·.format = grader.type) = 0 := by
    rw [List.countP_eq_zero]
    simp only [decide_eq_true_eq, ne_eq]
  rw [hnone, htype, hmin, hgraded, countP_countedBlocks_subsections, ← assignments]
  simp only [true_and]
  push_cast
  omega

end Save

def homework (location category : String) : Block where
  location := location
  displayName := location
  category := category
  start := none
  due := none
  visibleToStaffOnly := false
  graded := true
  format := some "Homework"

/-- A course with one homework, whose vertical is graded with it, and a policy that asks for two. -/
def oneHomework : Course where
  location := "course"
  start := none
  gradingPolicy := [⟨some "Homework", some 2⟩]
  blocks :=
    .cons { homework "chapter" "chapter" with graded := false, format := none }
      (.cons (homework "sequential" "sequential") (.cons (homework "vertical" "vertical") .nil .nil) .nil) .nil
  distinct := by decide

def noOverrides : Table where
  rows := ∅
  nextId := 1
  given key row hrow := by cases hrow
  distinct key row other found hrow := by cases hrow

def shownHomework : Schedule :=
  .cons ⟨"chapter", "chapter", "chapter", none, none, false⟩
    (.cons ⟨"sequential", "sequential", "sequential", none, some none, false⟩
      (.cons ⟨"vertical", "vertical", "vertical", none, some none, false⟩ .nil .nil) .nil) .nil

theorem shownHomework_saved : ∃ saved,
    saveCcx (fun _ => none) oneHomework noOverrides (fun _ => false) shownHomework = .ok saved ∧
      policyUnderCcx saved.store.rows oneHomework = [⟨some "Homework", some 2⟩] ∧
      assignments oneHomework shownHomework (some "Homework") = 1 := by
  have hsave : (saveCcx (fun _ => none) oneHomework noOverrides (fun _ => false) shownHomework).toOption.any
      (fun saved => policyUnderCcx saved.store.rows oneHomework = [⟨some "Homework", some 2⟩]) = true := by
    decide +kernel
  cases hcase : saveCcx (fun _ => none) oneHomework noOverrides (fun _ => false) shownHomework with
  | error err =>
    rw [hcase] at hsave
    cases hsave
  | ok saved =>
    rw [hcase] at hsave
    exact ⟨saved, rfl, of_decide_eq_true hsave, by decide +kernel⟩

theorem shownHomework_asksForExisting_iff : ∃ saved,
    saveCcx (fun _ => none) oneHomework noOverrides (fun _ => false) shownHomework = .ok saved ∧
      (AsksForExisting oneHomework shownHomework (policyUnderCcx noOverrides.rows oneHomework)
          (policyUnderCcx saved.store.rows oneHomework) ↔
        ∀ grader ∈ policyUnderCcx noOverrides.rows oneHomework,
          grader.minCount.getD 0 ≤ assignments oneHomework shownHomework grader.type ∨
            ∀ block ∈ otherGraded shownHomework oneHomework.blocks, block.format ≠ grader.type) := by
  obtain ⟨saved, hsave, -⟩ := shownHomework_saved
  exact ⟨saved, hsave, asksForExisting_iff hsave⟩

/-- The homework counts twice, once for its vertical. -/
theorem shownHomework_not_asksForExisting : ∃ saved,
    saveCcx (fun _ => none) oneHomework noOverrides (fun _ => false) shownHomework = .ok saved ∧
      ¬ AsksForExisting oneHomework shownHomework (policyUnderCcx noOverrides.rows oneHomework)
        (policyUnderCcx saved.store.rows oneHomework) := by
  obtain ⟨saved, hsave, hpolicy, hassignments⟩ := shownHomework_saved
  refine ⟨saved, hsave, fun hasks => ?_⟩
  have hbefore : policyUnderCcx noOverrides.rows oneHomework = [⟨some "Homework", some 2⟩] := by decide +kernel
  rw [hbefore, hpolicy] at hasks
  cases hasks with
  | cons hfirst _ =>
    have hmin := hfirst.2
    rw [hassignments] at hmin
    exact absurd hmin (by decide)

end EdxPlatform.Ccx
