import Mathlib.Order.Bounds.Basic
import EdxPlatform.Ccx.ScheduleRules

/-!
# The dates after a schedule is saved

Every scheduled block gets the dates that were sent for it.  Its components and the
course do not always: a date that is taken from a vertical stays at its components,
and the course starts with the first chapter.
-/

namespace EdxPlatform.Ccx

open Store DateField

variable (int : String → Option Int)

def dateUnderCcx (rows : Dict Key FieldOverride) (block : Block) (dateType : DateField) : Option DateTime :=
  (overriddenDate (mapOf rows) block.location dateType).or (dateType.master block)

def scheduledBlocks : Schedule → Blocks → List (ScheduleUnit × Block)
  | .nil, _ => []
  | .cons unit below rest, blocks =>
    (match blocks.find unit.location with
      | none => []
      | some (block, components) => (unit, block) :: scheduledBlocks below components) ++
      scheduledBlocks rest blocks

def submittedStarts (schedule : Schedule) : Set DateTime :=
  {start | ∃ unit ∈ schedule.units, submitted int unit .start = some start}

/-- The dates under the custom course are those of the schedule. -/
structure DatesSaved (course : Course) (schedule : Schedule) (rows : Dict Key FieldOverride) :
    Prop where
  scheduled : ∀ pair ∈ scheduledBlocks schedule course.blocks, ∀ dateType,
    dateUnderCcx rows pair.2 dateType = (submitted int pair.1 dateType).or (dateType.master pair.2)
  components : ∀ pair ∈ verticalComponents schedule course.blocks, ∀ dateType,
    overriddenDate (mapOf rows) pair.2.location dateType = submitted int pair.1 dateType
  courseStart : ∀ start, IsLeast (submittedStarts int schedule) start →
    overriddenDate (mapOf rows) course.location .start = some start

/-- No date that is taken from a vertical is overridden at a component before, a
component that is scheduled itself gets the dates of its vertical, and the earliest start
of all is that of a chapter. -/
structure WellTimed (course : Course) (table : Table) (schedule : Schedule) : Prop where
  components : ∀ pair ∈ verticalComponents schedule course.blocks, ∀ dateType,
    (pair.2.location ∉ schedule.locations → submitted int pair.1 dateType = none →
      overriddenDate (mapOf table.rows) pair.2.location dateType = none) ∧
    ∀ unit ∈ schedule.units, unit.location = pair.2.location →
      submitted int unit dateType = submitted int pair.1 dateType
  courseStart : ∀ start, IsLeast (submittedStarts int schedule) start →
    (∃ unit ∈ schedule.siblings, submitted int unit .start = some start) ∨
    (∀ unit ∈ schedule.siblings, submitted int unit .start = none) ∧
      overriddenDate (mapOf table.rows) course.location .start = some start

/-- What is saved: the dates of the recursion, and for the course the earliest start of
the chapters. -/
structure SavedRows (course : Course) (table : Table) (schedule : Schedule)
    (rows : Dict Key FieldOverride) : Prop where
  dates : ∀ unit ∈ schedule.units, ∀ dateType,
    overriddenDate (mapOf rows) unit.location dateType = submitted int unit dateType
  components : ∀ pair ∈ verticalComponents schedule course.blocks, pair.2.location ∉ schedule.locations → ∀ dateType,
    overriddenDate (mapOf rows) pair.2.location dateType = (submitted int pair.1 dateType).or
        (overriddenDate (mapOf table.rows) pair.2.location dateType)
  courseStart : overriddenDate (mapOf rows) course.location .start =
    ((schedule.siblings.map (submitted int · .start)).foldl earlier none).or
      (overriddenDate (mapOf table.rows) course.location .start)

variable {int}

section

variable {values others : Dict Key Value} {location : String} {dateType : DateField}

theorem overriddenDate_congr (hsame : values.lookup (location, dateType.field) =
      others.lookup (location, dateType.field)) :
    overriddenDate values location dateType = overriddenDate others location dateType := by
  unfold overriddenDate
  rw [hsame]

theorem overriddenDate_or {date : Option DateTime} (hval : values.lookup (location, dateType.field) =
      (stored date).or (others.lookup (location, dateType.field))) :
    overriddenDate values location dateType = date.or (overriddenDate others location dateType) := by
  cases date with
  | none => exact overriddenDate_congr hval
  | some date =>
    unfold overriddenDate
    rw [hval]
    rfl

end

theorem savedRows_of_save {course : Course} {table : Table} {staffOnly : Block → Bool}
    {schedule : Schedule} (hfits : Fits false schedule course.blocks) {saved : Saved}
    (hsave : saveCcx int course table staffOnly schedule = .ok saved) :
    SavedRows int course table schedule saved.store.rows := by
  obtain ⟨hroot, hdist⟩ := nodup_cons.mp course.distinct
  obtain ⟨⟨earliest, progress⟩, hrun, hsave⟩ := bind_ok hsave
  obtain rfl := ok.inj hsave
  have happ := overrideFields_spec int hfits hdist (fun _ _ h => h) (.inr rfl)
    (load_synced table) (fun key _ => (load_synced table).free rfl key) hrun
  have hins : ∀ location, location ∈ schedule.locations ∨ location ∈ ((verticalComponents
      schedule course.blocks).map fun pair => pair.2.location) → location ∈ course.blocks.locations :=
    fun _ htch => hfits.touched hdist (fun _ _ h => h) htch
  have hdel := bulkDelete_synced happ.synced
  obtain ⟨hcopd, hcopy, -, hst⟩ := copyDate_spec hdel (hdel.free rfl (course.location, start.field)) earliest
  dsimp only
  set copied := (progress.store.bulkDelete progress.toDelete).copyDate course.location .start earliest
  set final := if (gradingPolicy copied course).any (exceeds progress.graded) then
    copied.overrideField (course.location, .gradingPolicy)
      (.policy ((gradingPolicy copied course).map (lowerMinCount progress.graded)))
    else copied with hfinal
  have hlast : final.Synced [] ∧ copied.Writes (· = (course.location, .gradingPolicy)) final := by
    rw [hfinal]
    split
    · obtain ⟨hsync, hwr, -⟩ := overrideField_spec hcopd (hcopd.free rfl _) _
      exact ⟨hsync, hwr⟩
    · exact ⟨hcopd, Store.Writes.refl⟩
  have hpol : ∀ location (dateType : DateField),
      ((location, dateType.field) : Key) ≠ (course.location, .gradingPolicy) := by
    rintro location (_ | _) heq <;> cases heq
  have hrows : ∀ location ∈ course.blocks.locations, ∀ dateType : DateField,
      (mapOf final.rows).lookup (location, dateType.field) =
        progress.store.values.lookup (location, dateType.field) := by
    intro location hmem dateType
    have hne : ((location, dateType.field) : Key) ≠ (course.location, start.field) :=
      fun heq => hroot ((Prod.mk.inj heq).1 ▸ hmem)
    rw [hlast.1.lookup_mapOf, hlast.2.values _ (hpol _ _), hcopy.values _ hne]
    rfl
  refine ⟨fun unit hunit dateType => ?_, fun pair hpair hnot dateType => ?_, ?_⟩
  · have hval := hrows _ (hfits.mem_locations hunit) dateType
    rw [happ.dates unit hunit dateType] at hval
    unfold overriddenDate
    rw [hval]
    cases submitted int unit dateType with
    | none => rfl
    | some date => rfl
  · have hval := hrows _ (hins _ (.inr (mem_map_of_mem hpair))) dateType
    rw [happ.components pair hpair hnot dateType] at hval
    exact overriddenDate_or hval
  · have hkept : progress.store.values.lookup (course.location, start.field) =
        (mapOf table.rows).lookup (course.location, start.field) :=
      happ.writes.values _ fun hmem => hroot (hins _ hmem)
    have hear : earliest = (schedule.siblings.map (submitted int · .start)).foldl earlier none := by
      rw [List.foldl_map]
      exact happ.earliest
    have hval : (mapOf final.rows).lookup (course.location, start.field) =
        (stored earliest).or ((mapOf table.rows).lookup (course.location, start.field)) := by
      rw [hlast.1.lookup_mapOf, hlast.2.values _ (hpol _ _), hst, ← hkept]
      rfl
    rw [← hear]
    exact overriddenDate_or hval

theorem earlier_none {first second : Option DateTime} (hnone : earlier first second = none) :
    first = none ∧ second = none := by
  cases first with
  | none => cases second with
    | none => exact ⟨rfl, rfl⟩
    | some second => cases hnone
  | some first => cases second with
    | none => cases hnone
    | some second =>
      unfold earlier at hnone
      dsimp only at hnone
      split at hnone
      · cases hnone
      · cases hnone

theorem earlier_some {first second : Option DateTime} {start : DateTime} (hsome : earlier first second = some start) :
    (first = some start ∨ second = some start) ∧
      ∀ other, first = some other ∨ second = some other → start ≤ other := by
  cases first with
  | none => cases second with
    | none => cases hsome
    | some second =>
      obtain rfl := some.inj hsome
      simp
  | some first => cases second with
    | none =>
      obtain rfl := some.inj hsome
      simp
    | some second =>
      unfold earlier at hsome
      dsimp only at hsome
      split at hsome
      · next hlt =>
        obtain rfl := some.inj hsome
        refine ⟨.inr rfl, fun other hoth => ?_⟩
        rcases hoth with heq | heq
        · rw [← some.inj heq]
          exact hlt.le
        · exact (some.inj heq).le
      · next hle =>
        obtain rfl := some.inj hsome
        refine ⟨.inl rfl, fun other hoth => ?_⟩
        rcases hoth with heq | heq
        · exact (some.inj heq).le
        · rw [← some.inj heq]
          exact not_lt.mp hle

theorem foldl_earlier (starts : List (Option DateTime)) (earliest : Option DateTime) :
    (starts.foldl earlier earliest = none → ∀ start, some start ∉ earliest :: starts) ∧
    ∀ start, starts.foldl earlier earliest = some start → IsLeast {other | some other ∈ earliest :: starts} start := by
  induction starts generalizing earliest with
  | nil =>
    constructor
    · intro hnone start hmem
      rw [mem_singleton, show earliest = none from hnone] at hmem
      cases hmem
    · intro start hsome
      rw [show earliest = some start from hsome]
      refine ⟨mem_singleton_self _, fun other hmem => ?_⟩
      exact (some.inj (mem_singleton.mp hmem)).ge
  | cons first starts ih =>
    obtain ⟨hnone, hsome⟩ := ih (earlier earliest first)
    constructor
    · intro hfold start hmem
      obtain ⟨rfl, rfl⟩ := earlier_none (eq_none_iff_forall_ne_some.mpr fun date heq =>
        hnone hfold date (heq ▸ mem_cons_self))
      have hrest : some start ∈ starts := by simpa using hmem
      exact hnone hfold start (mem_cons_of_mem _ hrest)
    · intro start hfold
      obtain ⟨hmem, hleast⟩ := hsome start hfold
      have hbound : ∀ date, earlier earliest first = some date → start ≤ date :=
        fun date heq => hleast (mem_cons.mpr (.inl heq.symm))
      have hpair : ∀ other, earliest = some other ∨ first = some other → start ≤ other := by
        intro other hoth
        cases hcase : earlier earliest first with
        | none =>
          obtain ⟨rfl, rfl⟩ := earlier_none hcase
          rcases hoth with heq | heq <;> cases heq
        | some date => exact (hbound date hcase).trans ((earlier_some hcase).2 other hoth)
      refine ⟨?_, fun other hoth => ?_⟩
      · rcases mem_cons.mp hmem with heq | hrest
        · rcases (earlier_some heq.symm).1 with hfst | hsec
          · exact mem_cons.mpr (.inl hfst.symm)
          · exact mem_cons_of_mem _ (mem_cons.mpr (.inl hsec.symm))
        · exact mem_cons_of_mem _ (mem_cons_of_mem _ hrest)
      · rcases mem_cons.mp hoth with heq | hoth
        · exact hpair other (.inl heq.symm)
        · rcases mem_cons.mp hoth with heq | hrest
          · exact hpair other (.inr heq.symm)
          · exact hleast (mem_cons_of_mem _ hrest)

theorem mem_scheduledBlocks {deep : Bool} {units : Schedule} {blocks all : Blocks}
    (hfits : Fits deep units blocks) (hdist : blocks.locations.Nodup)
    (hfnd : FoundIn blocks all) {pair : ScheduleUnit × Block}
    (hpair : pair ∈ scheduledBlocks units all) :
    pair.1 ∈ units.units ∧ pair.2.location = pair.1.location := by
  induction hfits generalizing all with
  | nil => cases hpair
  | skip _ ih =>
    have hrest := ((nodup_cons.mp hdist).2).of_append_right
    exact ih hrest (hfnd.next hdist) hpair
  | cons hloc _ _ _ ihBelow ihRest =>
    have hparts := (nodup_cons.mp hdist).2
    rw [scheduledBlocks, hfnd _ _ (if_pos hloc.symm)] at hpair
    rcases mem_append.mp hpair with hown | hrest
    · rcases mem_cons.mp hown with rfl | hbel
      · exact ⟨mem_cons_self, hloc.symm⟩
      · obtain ⟨hunit, hsame⟩ := ihBelow hparts.of_append_left (fun _ _ h => h) hbel
        exact ⟨mem_cons_of_mem _ (mem_append_left _ hunit), hsame⟩
    · obtain ⟨hunit, hsame⟩ := ihRest hparts.of_append_right (hfnd.next hdist) hrest
      exact ⟨mem_cons_of_mem _ (mem_append_right _ hunit), hsame⟩

theorem mem_units_of_siblings {schedule : Schedule} {unit : ScheduleUnit}
    (hunit : unit ∈ schedule.siblings) : unit ∈ schedule.units := by
  induction schedule with
  | nil => cases hunit
  | cons first below rest _ ih =>
    rcases mem_cons.mp hunit with rfl | hrest
    · exact mem_cons_self
    · exact mem_cons_of_mem _ (mem_append_right _ (ih hrest))

/-- After a schedule that comes from `get_ccx_schedule` is saved with other dates and flags,
all dates are as they were sent exactly when no date is taken from a vertical that stays
at a component, scheduled components agree with their vertical, and the earliest start of
all is that of a chapter. -/
theorem datesSaved_iff {course : Course} {table : Table} {values : Dict Key Value}
    {staffOnly staffOnlyLater : Block → Bool} {schedule : Schedule}
    (hedits : Edits (getCcxSchedule course values staffOnly) schedule) {saved : Saved}
    (hsave : saveCcx int course table staffOnlyLater schedule = .ok saved) :
    DatesSaved int course schedule saved.store.rows ↔ WellTimed int course table schedule := by
  have hfits : Fits false schedule course.blocks :=
    hedits.fits (fits_visit values staffOnly 1 none Nat.one_pos course.blocks)
  have hdistinct := (nodup_cons.mp course.distinct).2
  have hrows := savedRows_of_save hfits hsave
  obtain ⟨hnone, hsome⟩ := foldl_earlier (schedule.siblings.map (submitted int · .start)) none
  have hmem : ∀ start, some start ∈ (none :: schedule.siblings.map (submitted int · .start)) ↔
      ∃ unit ∈ schedule.siblings, submitted int unit .start = some start := by
    intro start
    simp
  constructor
  · intro hsaved
    refine ⟨fun pair hpair dateType => ⟨fun hnot hempty => ?_, fun unit hunit hsame => ?_⟩, fun start hleast => ?_⟩
    · have hafter := hsaved.components pair hpair dateType
      rw [hrows.components pair hpair hnot, hempty] at hafter
      exact hafter
    · rw [← hrows.dates unit hunit, hsame]
      exact hsaved.components pair hpair dateType
    · have hafter := hsaved.courseStart start hleast
      rw [hrows.courseStart] at hafter
      cases hfold : (schedule.siblings.map (submitted int · .start)).foldl earlier none with
      | none =>
        rw [hfold] at hafter
        refine .inr ⟨fun unit hunit => ?_, hafter⟩
        exact eq_none_iff_forall_ne_some.mpr fun date hdate => hnone hfold date ((hmem date).mpr ⟨unit, hunit, hdate⟩)
      | some first =>
        rw [hfold] at hafter
        obtain rfl := some.inj hafter
        exact .inl ((hmem first).mp (hsome first hfold).1)
  · intro htimed
    refine ⟨fun pair hpair dateType => ?_, fun pair hpair dateType => ?_, fun start hleast => ?_⟩
    · obtain ⟨hunit, hsame⟩ := mem_scheduledBlocks hfits hdistinct (fun _ _ h => h) hpair
      rw [dateUnderCcx, hsame, hrows.dates pair.1 hunit]
    · obtain ⟨hempty, hscheduled⟩ := htimed.components pair hpair dateType
      by_cases hnot : pair.2.location ∈ schedule.locations
      · obtain ⟨unit, hunit, hsame⟩ := mem_map.mp hnot
        rw [← hsame, hrows.dates unit hunit, hscheduled unit hunit hsame]
      · rw [hrows.components pair hpair hnot]
        cases hdate : submitted int pair.1 dateType with
        | none => exact hempty hnot hdate
        | some date => rfl
    · rw [hrows.courseStart]
      rcases htimed.courseStart start hleast with hchapter | ⟨hempty, hbefore⟩
      · cases hfold : (schedule.siblings.map (submitted int · .start)).foldl earlier none with
        | none => exact absurd ((hmem start).mpr hchapter) (hnone hfold start)
        | some first =>
          obtain ⟨hfirst, hbound⟩ := hsome first hfold
          obtain ⟨unit, hunit, hdate⟩ := (hmem first).mp hfirst
          have hle := hleast.2 ⟨unit, mem_units_of_siblings hunit, hdate⟩
          exact congrArg some (le_antisymm (hbound ((hmem start).mpr hchapter)) hle)
      · cases hfold : (schedule.siblings.map (submitted int · .start)).foldl earlier none with
        | none => exact hbefore
        | some first =>
          obtain ⟨unit, hunit, hdate⟩ := (hmem first).mp (hsome first hfold).1
          rw [hempty unit hunit] at hdate
          cases hdate

def readDigits (text : String) : Option Int :=
  some (text.toList.foldl (fun number c => 10 * number + (c.toNat - 48)) 0)

def plainBlock (location : String) : Block where
  location := location
  displayName := location
  category := location
  start := none
  due := none
  visibleToStaffOnly := false
  graded := false
  format := none

def oneProblem : Course where
  location := "course"
  start := none
  gradingPolicy := []
  blocks :=
    .cons (plainBlock "chapter") (.cons (plainBlock "sequential")
        (.cons (plainBlock "vertical") (.cons (plainBlock "problem") .nil .nil) .nil) .nil) .nil
  distinct := by decide

def startedProblem : Table where
  rows := (∅ : Dict Key FieldOverride).insert ("problem", .start) ⟨1, .date ⟨2015, 1, 1, 0, 0⟩⟩
  nextId := 2
  given key row hrow := by
    rw [Dict.lookup_insert] at hrow
    split at hrow
    · obtain rfl := Option.some.inj hrow
      exact Nat.lt_succ_self 1
    · cases hrow
  distinct key row other found hrow hfound _ := by
    rw [Dict.lookup_insert] at hrow hfound
    split at hrow
    · next hkey =>
      split at hfound
      · next hother => rw [hkey, hother]
      · cases hfound
    · cases hrow

/-- The schedule of the course, the start of the vertical emptied and that of the
sequential before that of the chapter. -/
def emptiedVertical : Schedule :=
  .cons ⟨"chapter", "chapter", "chapter", some "2015-01-10 00:00", none, false⟩
    (.cons ⟨"sequential", "sequential", "sequential", some "2015-01-05 00:00", some none, false⟩
      (.cons ⟨"vertical", "vertical", "vertical", some "", some none, false⟩ .nil .nil) .nil) .nil

theorem emptiedVertical_edits : Edits (getCcxSchedule oneProblem (mapOf startedProblem.rows) fun _ => false)
      emptiedVertical := by
  have hschedule : getCcxSchedule oneProblem (mapOf startedProblem.rows) (fun _ => false) =
      .cons ⟨"chapter", "chapter", "chapter", none, none, false⟩
        (.cons ⟨"sequential", "sequential", "sequential", none, some none, false⟩
          (.cons ⟨"vertical", "vertical", "vertical", none, some none, false⟩ .nil .nil) .nil)
        .nil := by
    decide +kernel
  rw [hschedule]
  exact .cons rfl rfl rfl rfl (.cons rfl rfl rfl rfl (.cons rfl rfl rfl rfl .nil .nil) .nil) .nil

theorem emptiedVertical_saved : ∃ saved,
    saveCcx readDigits oneProblem startedProblem (fun _ => false) emptiedVertical = .ok saved ∧
    overriddenDate (mapOf saved.store.rows) "problem" .start = some ⟨2015, 1, 1, 0, 0⟩ ∧
    overriddenDate (mapOf saved.store.rows) "course" .start = some ⟨2015, 1, 10, 0, 0⟩ := by
  have hsave : (saveCcx readDigits oneProblem startedProblem (fun _ => false)
      emptiedVertical).toOption.any (fun saved =>
        overriddenDate (mapOf saved.store.rows) "problem" .start = some ⟨2015, 1, 1, 0, 0⟩ ∧
        overriddenDate (mapOf saved.store.rows) "course" .start = some ⟨2015, 1, 10, 0, 0⟩) = true := by
    decide +kernel
  cases hcase : saveCcx readDigits oneProblem startedProblem (fun _ => false) emptiedVertical with
  | error err =>
    rw [hcase] at hsave
    cases hsave
  | ok saved =>
    rw [hcase] at hsave
    exact ⟨saved, rfl, of_decide_eq_true hsave⟩

theorem emptiedVertical_datesSaved_iff : ∃ saved,
    saveCcx readDigits oneProblem startedProblem (fun _ => false) emptiedVertical = .ok saved ∧
    (DatesSaved readDigits oneProblem emptiedVertical saved.store.rows ↔
      WellTimed readDigits oneProblem startedProblem emptiedVertical) := by
  obtain ⟨saved, hsave, -⟩ := emptiedVertical_saved
  exact ⟨saved, hsave, datesSaved_iff emptiedVertical_edits hsave⟩

theorem emptiedVertical_not_datesSaved : ∃ saved,
    saveCcx readDigits oneProblem startedProblem (fun _ => false) emptiedVertical = .ok saved ∧
    ¬ DatesSaved readDigits oneProblem emptiedVertical saved.store.rows := by
  obtain ⟨saved, hsave, hproblem, -⟩ := emptiedVertical_saved
  refine ⟨saved, hsave, fun hsaved => ?_⟩
  have hcomponent := hsaved.components
    (⟨"vertical", "vertical", "vertical", some "", some none, false⟩, plainBlock "problem")
    (by simp [verticalComponents, emptiedVertical, oneProblem, plainBlock, Blocks.find, Blocks.siblings]) .start
  rw [show (plainBlock "problem").location = "problem" from rfl, hproblem] at hcomponent
  exact absurd hcomponent (by decide +kernel)

end EdxPlatform.Ccx
