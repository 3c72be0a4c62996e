import Mathlib.Data.List.ReduceOption
import EdxPlatform.Ccx.Schedule

/-!
# What the recursion over a schedule writes

Each unit writes its own keys and, if it is a vertical, those of its components.  The
blocks of a tree have different locations, so no later unit writes them again, save
for a component that is scheduled itself.
-/

namespace EdxPlatform.Ccx

open Schedule DateField

def stored (date : Option DateTime) : Option Value := date.map Value.date

namespace Progress

variable {progress : Progress}

def pending (progress : Progress) : List Nat := progress.toDelete.reduceOption

section

variable (hsync : progress.store.Synced progress.pending) {location : String}
include hsync

theorem setHidden_spec (hfree : progress.store.Free (location, .visibleToStaffOnly)) (hidden : Bool) :
    (progress.setHidden location hidden).store.Synced (progress.setHidden location hidden).pending ∧
      progress.store.Writes (· = (location, .visibleToStaffOnly)) (progress.setHidden location hidden).store := by
  unfold setHidden
  cases hidden with
  | true =>
    obtain ⟨haft, hwr, -⟩ := Store.overrideField_spec hsync hfree (.flag true)
    exact ⟨haft, hwr⟩
  | false => exact Store.clearOverride_spec hsync (location, .visibleToStaffOnly)

theorem setDate_spec (dateType : DateField) (hfree : progress.store.Free (location, dateType.field))
    (date : Option DateTime) :
    (progress.setDate location dateType date).store.Synced (progress.setDate location dateType date).pending ∧
      progress.store.Writes (· = (location, dateType.field)) (progress.setDate location dateType date).store ∧
      (progress.setDate location dateType date).store.values.lookup (location, dateType.field) = stored date := by
  cases date with
  | some date => exact Store.overrideField_spec hsync hfree (.date date)
  | none =>
    have hspec := Store.clearFieldInfo_spec hsync (location, dateType.field)
    refine ⟨?_, hspec.2⟩
    have hpend : (progress.setDate location dateType none).pending = progress.pending ++
        (progress.store.ids.lookup (location, dateType.field)).toList := by
      unfold pending setDate
      rw [List.reduceOption_append]
      cases progress.store.ids.lookup (location, dateType.field) with
      | none => rfl
      | some id => rfl
    rw [hpend]
    exact hspec.1

end

theorem countGraded_store (progress : Progress) (unit : ScheduleUnit) (block : Block) :
    (progress.countGraded unit block).store = progress.store ∧
      (progress.countGraded unit block).pending = progress.pending := by
  unfold countGraded
  split
  · exact ⟨rfl, rfl⟩
  · exact ⟨rfl, rfl⟩

end Progress

namespace Store

variable {store after : Store} {pending : List Nat}

theorem copyDate_spec (hsync : store.Synced pending) {location : String} {dateType : DateField}
    (hfree : store.Free (location, dateType.field)) (date : Option DateTime) :
    (store.copyDate location dateType date).Synced pending ∧
      store.Writes (· = (location, dateType.field)) (store.copyDate location dateType date) ∧
      (∀ key, store.Free key → (store.copyDate location dateType date).Free key) ∧
      (store.copyDate location dateType date).values.lookup (location, dateType.field) =
        (stored date).or (store.values.lookup (location, dateType.field)) := by
  cases date with
  | none => exact ⟨hsync, Writes.refl, fun _ hkey => hkey, rfl⟩
  | some date =>
    obtain ⟨haft, hwr, hval⟩ := overrideField_spec hsync hfree (.date date)
    refine ⟨haft, hwr, fun key hkey => ?_, hval⟩
    by_cases heq : key = (location, dateType.field)
    · intro hnone
      rw [heq] at hnone
      exact absurd (hval.symm.trans hnone) (by simp)
    · exact hwr.free heq hkey

theorem field_ne {first second : DateField} (hne : first ≠ second) : first.field ≠ second.field := by
  cases first <;> cases second <;> simp_all [field]

theorem copyBoth_spec (hsync : store.Synced pending) {location : String}
    (hfree : ∀ field, store.Free (location, field)) (dates : DateField → Option DateTime) :
    ((store.copyDate location .start (dates .start)).copyDate location .due (dates .due)).Synced pending ∧
      store.Writes (·.1 = location)
        ((store.copyDate location .start (dates .start)).copyDate location .due (dates .due)) ∧
      (∀ key, store.Free key → ((store.copyDate location .start (dates .start)).copyDate location
        .due (dates .due)).Free key) ∧
      ∀ dateType : DateField, ((store.copyDate location .start (dates .start)).copyDate location
        .due (dates .due)).values.lookup (location, dateType.field) =
          (stored (dates dateType)).or (store.values.lookup (location, dateType.field)) := by
  obtain ⟨hfst, hwr, hkept, hst⟩ := copyDate_spec hsync (hfree start.field) (dates .start)
  obtain ⟨hsec, hlast, hkep, hdue⟩ := copyDate_spec hfst (hkept _ (hfree due.field)) (dates .due)
  have hne : ∀ {first second : DateField}, first ≠ second →
      ((location, first.field) : Key) ≠ (location, second.field) :=
    fun hne heq => field_ne hne (Prod.mk.inj heq).2
  refine ⟨hsec, (hwr.mono ?_).trans (hlast.mono ?_), fun key hkey => hkep key (hkept key hkey), fun dateType => ?_⟩
  · exact fun key heq => congrArg Prod.fst heq
  · exact fun key heq => congrArg Prod.fst heq
  · cases dateType with
    | start => rw [hlast.values _ (hne (by simp)), hst]
    | due => rw [hdue, hwr.values _ (hne (by simp))]

theorem copyDates_spec {due : Option (Option DateTime)} {dates : DateField → Option DateTime}
    (hdue : ∀ date, due = some date → date = dates .due) {components : List Block}
    (hdist : (components.map Block.location).Nodup) (hsync : store.Synced pending)
    (hfree : ∀ component ∈ components, ∀ field, store.Free (component.location, field))
    (hcopy : copyDates (dates .start) due components store = .ok after) :
    after.Synced pending ∧ store.Writes (·.1 ∈ components.map Block.location) after ∧
      (∀ key, store.Free key → after.Free key) ∧
      ∀ component ∈ components, ∀ dateType : DateField,
        after.values.lookup (component.location, dateType.field) = (stored (dates dateType)).or
            (store.values.lookup (component.location, dateType.field)) := by
  induction components generalizing store with
  | nil =>
    obtain rfl := ok.inj hcopy
    exact ⟨hsync, Writes.refl, fun _ hkey => hkey, fun _ hmem => nomatch hmem⟩
  | cons component components ih =>
    unfold copyDates at hcopy ih
    rw [foldlM_cons] at hcopy
    obtain ⟨next, hnxt, hcopy⟩ := bind_ok hcopy
    obtain ⟨hnot, hrest⟩ := nodup_cons.mp hdist
    cases hcase : due with
    | none =>
      rw [hcase] at hnxt
      cases hnxt
    | some date =>
      rw [hcase] at hnxt
      obtain rfl := ok.inj hnxt
      rw [hdue date hcase] at hcopy
      obtain ⟨hboth, hwr, hkept, hvals⟩ := copyBoth_spec hsync (hfree component mem_cons_self) dates
      obtain ⟨haft, hlast, hkep, hoths⟩ := ih hrest hboth
        (fun other hmem field => hkept _ (hfree other (mem_cons_of_mem _ hmem) field)) hcopy
      refine ⟨haft, (hwr.mono fun key heq => ?_).trans (hlast.mono fun key hmem => ?_),
        fun key hkey => hkep key (hkept key hkey), fun other hmem dateType => ?_⟩
      · rw [heq]
        exact mem_cons_self
      · exact mem_cons_of_mem _ hmem
      · rcases mem_cons.mp hmem with rfl | hmem
        · rw [hlast.values _ hnot, hvals]
        · rw [hoths other hmem, hwr.values]
          exact fun heq => hnot (heq ▸ mem_map_of_mem hmem)

end Store

variable (int : String → Option Int)

def submitted (unit : ScheduleUnit) : DateField → Option DateTime
  | .start => (parseDate int unit.start).toOption.join
  | .due => (parseDate int (unit.due.getD none)).toOption.join

/-- What one unit changes: its own keys and, for a vertical, those of its components. -/
structure UnitApplied (unit : ScheduleUnit) (location : String) (components : Blocks)
    (progress after : Progress) : Prop where
  synced : after.store.Synced after.pending
  writes : progress.store.Writes (fun key => key.1 = location ∨ unit.category = "vertical" ∧
    key.1 ∈ components.siblings.map Block.location) after.store
  free : ∀ key, key.1 ≠ location → progress.store.Free key → after.store.Free key
  dates : ∀ dateType : DateField, after.store.values.lookup (location, dateType.field) =
    stored (submitted int unit dateType)
  components : unit.category = "vertical" → ∀ component ∈ components.siblings,
    ∀ dateType : DateField, after.store.values.lookup (component.location, dateType.field) =
      (stored (submitted int unit dateType)).or (progress.store.values.lookup (component.location, dateType.field))

section

variable {unit : ScheduleUnit} {block : Block}

theorem ownDates_spec {progress : Progress} (hsync : progress.store.Synced progress.pending)
    (hfree : ∀ field, progress.store.Free (block.location, field)) (start due : Option DateTime)
    {after : Progress}
    (haft : after = (((progress.setHidden block.location unit.hidden).setDate block.location .start
      start).setDate block.location .due due).countGraded unit block) :
    after.store.Synced after.pending ∧ progress.store.Writes (·.1 = block.location) after.store ∧
      after.store.values.lookup (block.location, .start) = stored start ∧
      after.store.values.lookup (block.location, .due) = stored due := by
  have hne : ∀ {first second : Field}, first ≠ second → ((block.location, first) : Key) ≠ (block.location, second) :=
    fun hne heq => hne (Prod.mk.inj heq).2
  obtain ⟨hhid, hfst⟩ := Progress.setHidden_spec hsync (hfree _) unit.hidden
  obtain ⟨hstar, hsec, hst⟩ := Progress.setDate_spec hhid .start
    (hfst.free (hne (by simp [field])) (hfree _)) start
  obtain ⟨hended, hthird, hend⟩ := Progress.setDate_spec hstar .due (hsec.free (hne (by simp [field]))
      (hfst.free (hne (by simp [field])) (hfree _))) due
  obtain ⟨hstore, hpend⟩ := Progress.countGraded_store
    (((progress.setHidden block.location unit.hidden).setDate block.location .start start).setDate
      block.location .due due) unit block
  rw [haft, hstore, hpend]
  refine ⟨hended, (hfst.mono ?_).trans ((hsec.mono ?_).trans (hthird.mono ?_)), ?_, hend⟩
  · exact fun key heq => congrArg Prod.fst heq
  · exact fun key heq => congrArg Prod.fst heq
  · exact fun key heq => congrArg Prod.fst heq
  · rw [hthird.values _ (hne (by simp [field]))]
    exact hst

theorem overrideUnit_spec {components : Blocks} {due : Option (Option DateTime)} {progress : Progress}
    {result : Option DateTime × Option (Option DateTime) × Progress}
    (hdue : unit.due.isSome ∨ due = none)
    (hdist : (block.location :: components.siblings.map Block.location).Nodup)
    (hsync : progress.store.Synced progress.pending)
    (hfree : ∀ key : Key, key.1 ∈ block.location :: components.siblings.map Block.location → progress.store.Free key)
    (hrun : overrideUnit int unit block components due progress = .ok result) :
    result.1 = submitted int unit .start ∧ (unit.due.isSome ∨ result.2.1 = none) ∧
      UnitApplied int unit block.location components progress result.2.2 := by
  unfold overrideUnit at hrun
  dsimp only at hrun
  obtain ⟨start, hst, hrun⟩ := bind_ok hrun
  obtain ⟨date, hdate, hrun⟩ := bind_ok hrun
  have hsub : submitted int unit .start = start ∧ submitted int unit .due = date := by
    simp [submitted, hst, hdate, Except.toOption]
  obtain ⟨hnot, hrest⟩ := nodup_cons.mp hdist
  obtain ⟨hown, hwr, hstarts, hends⟩ := ownDates_spec hsync (fun field => hfree _ mem_cons_self) start date rfl
  set own := (((progress.setHidden block.location unit.hidden).setDate block.location .start
    start).setDate block.location .due date).countGraded unit block with hset
  have hdates : ∀ dateType : DateField, own.store.values.lookup (block.location, dateType.field) =
      stored (submitted int unit dateType) := by
    intro dateType
    cases dateType with
    | start => rw [hsub.1]; exact hstarts
    | due => rw [hsub.2]; exact hends
  have hasgn : ∀ later, (if unit.due.isSome then some date else due) = some later →
      later = submitted int unit .due := by
    intro later hlat
    rw [hsub.2]
    rcases hdue with hsome | hnone
    · rw [if_pos hsome] at hlat
      exact (some.inj hlat).symm
    · rw [hnone] at hlat
      split at hlat
      · exact (some.inj hlat).symm
      · cases hlat
  have huna : unit.due.isSome ∨ (if unit.due.isSome then some date else due) = none := by
    rcases hdue with hsome | hnone
    · exact .inl hsome
    · split
      · next hsome => exact .inl hsome
      · exact .inr hnone
  split at hrun
  · next hver =>
    obtain ⟨store, hstore, hrun⟩ := bind_ok hrun
    obtain rfl := ok.inj hrun
    rw [← hsub.1] at hstore
    obtain ⟨haft, hlast, hkept, hvals⟩ := Store.copyDates_spec hasgn hrest hown
      (fun component hmem field => hwr.free (fun heq => hnot (heq ▸ mem_map_of_mem hmem))
        (hfree _ (mem_cons_of_mem _ (mem_map_of_mem hmem)))) hstore
    refine ⟨hsub.1.symm, huna, haft, (hwr.mono fun key => .inl).trans (hlast.mono fun key hmem => .inr ⟨hver, hmem⟩),
      fun key hne hkey => hkept key (hwr.free hne hkey), fun dateType => ?_,
      fun _ component hmem dateType => ?_⟩
    · rw [hlast.values _ hnot]
      exact hdates dateType
    · rw [hvals component hmem dateType, hwr.values]
      exact fun heq => hnot (heq ▸ mem_map_of_mem hmem)
  · next hoth =>
    obtain ⟨store, hstore, hrun⟩ := bind_ok hrun
    obtain rfl := ok.inj hstore
    obtain rfl := ok.inj hrun
    exact ⟨hsub.1.symm, huna, hown, hwr.mono fun key => .inl,
      fun key hne hkey => hwr.free hne hkey, hdates, fun hver => absurd hver hoth⟩

end

theorem locations_perm (blocks : Blocks) :
    blocks.locations.Perm (blocks.siblings.map Block.location ++ blocks.deeper) := by
  induction blocks with
  | nil => exact List.Perm.refl _
  | cons block children next _ ih =>
    refine List.Perm.cons block.location ?_
    have hshift : (children.locations ++ next.locations).Perm
        (children.locations ++ (next.siblings.map Block.location ++ next.deeper)) :=
      ih.append_left children.locations
    refine hshift.trans ?_
    rw [← append_assoc]
    exact List.perm_append_comm.append_right next.deeper |>.trans (List.Perm.of_eq (append_assoc _ _ _))

variable {blocks : Blocks}

theorem mem_locations_iff {location : String} : location ∈ blocks.locations ↔
    location ∈ blocks.siblings.map Block.location ∨ location ∈ blocks.deeper := by
  rw [(locations_perm blocks).mem_iff, mem_append]

theorem not_mem_deeper (hdist : blocks.locations.Nodup) {location : String}
    (hmem : location ∈ blocks.siblings.map Block.location) : location ∉ blocks.deeper :=
  List.disjoint_of_nodup_append ((locations_perm blocks).nodup_iff.mp hdist) hmem

theorem siblings_nodup (hdist : blocks.locations.Nodup) : (blocks.siblings.map Block.location).Nodup :=
  ((locations_perm blocks).nodup_iff.mp hdist).of_append_left

/-- The units are some of the blocks, in their order, and the units under them some of
their children.  Only the units of the first list may be without entries `due`. -/
inductive Fits : Bool → Schedule → Blocks → Prop
  | nil {deep : Bool} {blocks : Blocks} : Fits deep .nil blocks
  | skip {deep : Bool} {units : Schedule} {block : Block} {children next : Blocks} :
      Fits deep units next → Fits deep units (.cons block children next)
  | cons {deep : Bool} {unit : ScheduleUnit} {below rest : Schedule} {block : Block}
      {children next : Blocks} : unit.location = block.location → unit.due.isSome = deep →
      Fits true below children → Fits deep rest next →
      Fits deep (.cons unit below rest) (.cons block children next)

theorem fits_visit (values : Dict Key Value) (staffOnly : Block → Bool) (depth : Nat)
    (node : Option Block) (hdepth : 0 < depth) (blocks : Blocks) :
    Fits (decide (1 < depth)) (visit values staffOnly depth node blocks) blocks := by
  induction blocks generalizing depth node with
  | nil => exact Fits.nil
  | cons child children next ihChildren ihNext =>
    have hrest := ihNext depth node hdepth
    have hbel := ihChildren (depth + 1) (some child) (Nat.succ_pos depth)
    rw [decide_eq_true (Nat.succ_lt_succ hdepth)] at hbel
    unfold visit
    dsimp only
    split
    · exact hrest.skip
    split
    · split
      · exact hrest.skip
      · refine Fits.cons rfl ?_ hbel hrest
        by_cases hdeep : depth > 1
        · rw [if_pos hdeep, decide_eq_true hdeep]
          rfl
        · rw [if_neg hdeep, decide_eq_false hdeep]
          rfl
    · refine Fits.cons rfl ?_ Fits.nil hrest
      by_cases hdeep : depth > 1
      · rw [if_pos hdeep, decide_eq_true hdeep]
        rfl
      · rw [if_neg hdeep, decide_eq_false hdeep]
        rfl

/-- The schedule with other dates and flags. -/
inductive Edits : Schedule → Schedule → Prop
  | nil : Edits .nil .nil
  | cons {unit edited : ScheduleUnit} {below rest editedBelow editedRest : Schedule} :
      edited.location = unit.location → edited.displayName = unit.displayName →
      edited.category = unit.category → edited.due.isSome = unit.due.isSome →
      Edits below editedBelow → Edits rest editedRest →
      Edits (.cons unit below rest) (.cons edited editedBelow editedRest)

theorem Edits.fits {schedule edited : Schedule} (hedits : Edits schedule edited) {deep : Bool}
    (hfits : Fits deep schedule blocks) : Fits deep edited blocks := by
  induction hfits generalizing edited with
  | nil =>
    cases hedits
    exact Fits.nil
  | skip _ ih => exact (ih hedits).skip
  | cons hloc hdue _ _ ihBelow ihRest =>
    cases hedits with
    | cons hsame _ _ hsome hbel hrest =>
      exact Fits.cons (hsame.trans hloc) (hsome.trans hdue) (ihBelow hbel) (ihRest hrest)

theorem Fits.mem_locations {deep : Bool} {units : Schedule}
    (hfits : Fits deep units blocks) {unit : ScheduleUnit} (hunit : unit ∈ units.units) :
    unit.location ∈ blocks.locations := by
  induction hfits with
  | nil => cases hunit
  | skip _ ih => exact mem_cons_of_mem _ (mem_append_right _ (ih hunit))
  | cons hloc _ _ _ ihBelow ihRest =>
    rcases mem_cons.mp hunit with rfl | hunit
    · rw [hloc]
      exact mem_cons_self
    · refine mem_cons_of_mem _ (mem_append.mpr ?_)
      rcases mem_append.mp hunit with hbel | hrest
      · exact .inl (ihBelow hbel)
      · exact .inr (ihRest hrest)

def verticalComponents : Schedule → Blocks → List (ScheduleUnit × Block)
  | .nil, _ => []
  | .cons unit below rest, blocks =>
    (match blocks.find unit.location with
      | none => []
      | some (_, components) =>
        (if unit.category = "vertical" then components.siblings.map (unit, ·) else []) ++
          verticalComponents below components) ++
      verticalComponents rest blocks

def FoundIn (blocks all : Blocks) : Prop :=
  ∀ location found, blocks.find location = some found → all.find location = some found

variable {all : Blocks}

theorem FoundIn.next {block : Block} {children next : Blocks} (hfnd : FoundIn (.cons block children next) all)
    (hdist : (Blocks.cons block children next).locations.Nodup) : FoundIn next all := by
  intro location found hnxt
  refine hfnd location found ?_
  have hmem : location ∈ next.locations := by
    clear hfnd hdist
    induction next with
    | nil => cases hnxt
    | cons other below rest _ ih =>
      unfold Blocks.find at hnxt
      split at hnxt
      · next heq =>
        rw [← heq]
        exact mem_cons_self
      · exact mem_cons_of_mem _ (mem_append_right _ (ih hnxt))
  have hne : block.location ≠ location := by
    rintro rfl
    exact (nodup_cons.mp hdist).1 (mem_append_right _ hmem)
  exact (if_neg hne).trans hnxt

theorem Fits.mem_deeper {deep : Bool} {units : Schedule}
    (hfits : Fits deep units blocks) (hdist : blocks.locations.Nodup)
    (hfnd : FoundIn blocks all) {pair : ScheduleUnit × Block}
    (hpair : pair ∈ verticalComponents units all) : pair.2.location ∈ blocks.deeper := by
  induction hfits generalizing all with
  | nil => cases hpair
  | skip _ ih =>
    have hrest := ((nodup_cons.mp hdist).2).of_append_right
    exact mem_append_right _ (ih hrest (hfnd.next hdist) hpair)
  | cons hloc _ _ _ ihBelow ihRest =>
    have hparts := (nodup_cons.mp hdist).2
    rw [verticalComponents, hfnd _ _ (if_pos hloc.symm)] at hpair
    refine mem_append.mpr ?_
    rcases mem_append.mp hpair with hbel | hrest
    · refine .inl (mem_locations_iff.mpr ?_)
      rcases mem_append.mp hbel with hown | hdeep
      · split at hown
        · obtain ⟨component, hcom, rfl⟩ := mem_map.mp hown
          exact .inl (mem_map_of_mem hcom)
        · cases hown
      · exact .inr (ihBelow hparts.of_append_left (fun _ _ h => h) hdeep)
    · exact .inr (ihRest hparts.of_append_right (hfnd.next hdist) hrest)

def Schedule.locations (schedule : Schedule) : List String := schedule.units.map ScheduleUnit.location

/-- What a list of units changes, if the children of the node are `all`. -/
structure Applied (units : Schedule) (all : Blocks) (earliest : Option DateTime)
    (progress : Progress) (result : Option DateTime × Progress) : Prop where
  synced : result.2.store.Synced result.2.pending
  writes : progress.store.Writes (fun key => key.1 ∈ units.locations ∨
    key.1 ∈ (verticalComponents units all).map fun pair => pair.2.location) result.2.store
  dates : ∀ unit ∈ units.units, ∀ dateType : DateField,
    result.2.store.values.lookup (unit.location, dateType.field) = stored (submitted int unit dateType)
  components : ∀ pair ∈ verticalComponents units all, pair.2.location ∉ units.locations →
    ∀ dateType : DateField, result.2.store.values.lookup (pair.2.location, dateType.field) =
      (stored (submitted int pair.1 dateType)).or (progress.store.values.lookup (pair.2.location, dateType.field))
  earliest : result.1 =
    units.siblings.foldl (fun earliest unit => earlier earliest (submitted int unit .start)) earliest

section

variable {deep : Bool} {units : Schedule} {blocks all : Blocks}

theorem Fits.touched (hfits : Fits deep units blocks) (hdist : blocks.locations.Nodup)
    (hfnd : FoundIn blocks all) {location : String}
    (htch : location ∈ units.locations ∨ location ∈ (verticalComponents units all).map fun pair => pair.2.location) :
    location ∈ blocks.locations := by
  rcases htch with hmem | hmem
  · obtain ⟨unit, hunit, rfl⟩ := mem_map.mp hmem
    exact hfits.mem_locations hunit
  · obtain ⟨pair, hpair, rfl⟩ := mem_map.mp hmem
    exact mem_locations_iff.mpr (.inr (hfits.mem_deeper hdist hfnd hpair))

theorem Schedule.locations_cons (unit : ScheduleUnit) (below rest : Schedule) :
    (cons unit below rest).locations = unit.location :: (below.locations ++ rest.locations) := by
  simp [locations, units]

theorem verticalComponents_cons {unit : ScheduleUnit} {block : Block} {children all : Blocks}
    (hfind : all.find unit.location = some (block, children)) (below rest : Schedule) :
    verticalComponents (.cons unit below rest) all =
      (if unit.category = "vertical" then children.siblings.map (unit, ·) else []) ++
        verticalComponents below children ++ verticalComponents rest all := by
  rw [verticalComponents, hfind]

/-! What a unit, the units under it and the units after it have changed together. -/

section Node

variable {unit : ScheduleUnit} {below rest : Schedule} {block : Block}
  {children next all : Blocks} {earliest first dropped : Option DateTime}
  {progress own nested : Progress} {result : Option DateTime × Progress}
  (hloc : unit.location = block.location)
  (hfind : all.find unit.location = some (block, children))
  (hdist : (Blocks.cons block children next).locations.Nodup)
  (hfnd : FoundIn (.cons block children next) all)
  (hbel : Fits true below children) (hrest : Fits deep rest next)
  (hown : UnitApplied int unit block.location children progress own)
  (hinner : Applied int below children first own (dropped, nested))
  (hlast : Applied int rest all first nested result)

include hloc hfind hown hinner hlast in
theorem writes_cons : progress.store.Writes (fun key => key.1 ∈ (cons unit below rest).locations ∨
      key.1 ∈ (verticalComponents (.cons unit below rest) all).map fun pair => pair.2.location)
    result.2.store := by
  rw [locations_cons, verticalComponents_cons hfind, hloc]
  refine (hown.writes.mono ?_).trans ((hinner.writes.mono ?_).trans (hlast.writes.mono ?_))
  · rintro key (heq | ⟨hver, hmem⟩)
    · exact .inl (heq ▸ mem_cons_self)
    · obtain ⟨component, hcom, heq⟩ := mem_map.mp hmem
      rw [if_pos hver]
      exact .inr (mem_map.mpr ⟨(unit, component), mem_append_left _ (mem_append_left _ (mem_map_of_mem hcom)), heq⟩)
  · rintro key (hmem | hmem)
    · exact .inl (mem_cons_of_mem _ (mem_append_left _ hmem))
    · rw [map_append, map_append]
      exact .inr (mem_append_left _ (mem_append_right _ hmem))
  · rintro key (hmem | hmem)
    · exact .inl (mem_cons_of_mem _ (mem_append_right _ hmem))
    · rw [map_append]
      exact .inr (mem_append_right _ hmem)

include hdist hfnd hrest hlast in
theorem children_kept {location : String} (hmem : location ∈ children.locations) (field : Field) :
    result.2.store.values.lookup (location, field) = nested.store.values.lookup (location, field) := by
  obtain ⟨-, hparts⟩ := nodup_cons.mp hdist
  refine hlast.writes.values _ fun htch => ?_
  exact List.disjoint_of_nodup_append hparts hmem (hrest.touched hparts.of_append_right (hfnd.next hdist) htch)

include hloc hdist hfnd hbel hrest hown hinner hlast in
theorem dates_cons : ∀ other ∈ (cons unit below rest).units, ∀ dateType : DateField,
    result.2.store.values.lookup (other.location, dateType.field) = stored (submitted int other dateType) := by
  intro other hoth dateType
  obtain ⟨hroot, hparts⟩ := nodup_cons.mp hdist
  rcases mem_cons.mp hoth with rfl | hoth
  · rw [hloc, hlast.writes.values, hinner.writes.values]
    · exact hown.dates dateType
    · exact fun htch => hroot (mem_append_left _ (hbel.touched hparts.of_append_left (fun _ _ h => h) htch))
    · exact fun htch => hroot (mem_append_right _ (hrest.touched hparts.of_append_right (hfnd.next hdist) htch))
  · rcases mem_append.mp hoth with hunder | haft
    · rw [children_kept int hdist hfnd hrest hlast (hbel.mem_locations hunder)]
      exact hinner.dates other hunder dateType
    · exact hlast.dates other haft dateType

include hfind hdist hfnd hbel hrest hown hinner hlast in
theorem components_cons : ∀ pair ∈ verticalComponents (.cons unit below rest) all,
    pair.2.location ∉ (cons unit below rest).locations → ∀ dateType : DateField,
      result.2.store.values.lookup (pair.2.location, dateType.field) = (stored (submitted int pair.1 dateType)).or
          (progress.store.values.lookup (pair.2.location, dateType.field)) := by
  intro pair hpair huns dateType
  obtain ⟨hroot, hparts⟩ := nodup_cons.mp hdist
  have hkids := hparts.of_append_left
  have hdisj := List.disjoint_of_nodup_append hparts
  have hsib : ∀ location ∈ children.siblings.map Block.location,
      location ∈ children.locations := fun location hmem => mem_locations_iff.mpr (.inl hmem)
  have hdeeper : ∀ pair ∈ verticalComponents below children, pair.2.location ∈ children.deeper := fun pair hpair =>
    hbel.mem_deeper hkids (fun _ _ h => h) hpair
  rw [locations_cons, mem_cons, mem_append, not_or, not_or] at huns
  obtain ⟨-, hnotB, hnotRest⟩ := huns
  rw [verticalComponents_cons hfind] at hpair
  rcases mem_append.mp hpair with hpair | hpair
  · rcases mem_append.mp hpair with hpair | hpair
    -- a component of the unit itself
    · split at hpair
      · next hver =>
        obtain ⟨component, hcom, rfl⟩ := mem_map.mp hpair
        have hsibl := mem_map_of_mem (f := Block.location) hcom
        rw [children_kept int hdist hfnd hrest hlast (hsib _ hsibl), hinner.writes.values]
        · exact hown.components hver component hcom dateType
        · rintro (hmem | hmem)
          · exact hnotB hmem
          · obtain ⟨deep, hdeep, heq⟩ := mem_map.mp hmem
            have hins := hdeeper deep hdeep
            rw [heq] at hins
            exact not_mem_deeper hkids hsibl hins
      · cases hpair
    -- a component of a vertical under it
    · have hdeep := hdeeper pair hpair
      rw [children_kept int hdist hfnd hrest hlast (mem_locations_iff.mpr (.inr hdeep)),
        hinner.components pair hpair hnotB dateType, hown.writes.values]
      rintro (heq | ⟨-, hsibl⟩)
      · exact hroot (mem_append_left _ (mem_locations_iff.mpr (.inr (heq ▸ hdeep))))
      · exact not_mem_deeper hkids hsibl hdeep
  -- a component of a vertical after it
  · have hmem : pair.2.location ∈ next.locations := hrest.touched hparts.of_append_right
      (hfnd.next hdist) (.inr (mem_map_of_mem hpair))
    rw [hlast.components pair hpair hnotRest dateType, hinner.writes.values, hown.writes.values]
    · rintro (heq | ⟨-, hsibl⟩)
      · exact hroot (mem_append_right _ (heq ▸ hmem))
      · exact hdisj (hsib _ hsibl) hmem
    · exact fun htch => hdisj (hbel.touched hkids (fun _ _ h => h) htch) hmem

end Node

theorem overrideFields_spec (hfits : Fits deep units blocks) (hdist : blocks.locations.Nodup)
    (hfnd : FoundIn blocks all) {earliest : Option DateTime} {due : Option (Option DateTime)}
    (hdue : deep = true ∨ due = none) {progress : Progress}
    (hsync : progress.store.Synced progress.pending)
    (hfree : ∀ key : Key, key.1 ∈ blocks.locations → progress.store.Free key)
    {result : Option DateTime × Progress}
    (hrun : overrideFields int units all earliest due progress = .ok result) :
    Applied int units all earliest progress result := by
  induction hfits generalizing all earliest due progress result with
  | nil =>
    obtain rfl := ok.inj hrun
    exact ⟨hsync, Store.Writes.refl, fun _ hunit => absurd hunit not_mem_nil,
      fun _ hpair => absurd hpair not_mem_nil, rfl⟩
  | skip _ ih =>
    have hrest := ((nodup_cons.mp hdist).2).of_append_right
    exact ih hrest (hfnd.next hdist) hdue hsync
      (fun key hkey => hfree key (mem_cons_of_mem _ (mem_append_right _ hkey))) hrun
  | @cons deep unit below rest block children next hloc hsome hbel hrest ihBelow ihRest =>
    have hfind := hfnd _ _ (if_pos hloc.symm)
    rw [overrideFields, hfind] at hrun
    obtain ⟨⟨start, later, own⟩, hunit, hrun⟩ := bind_ok hrun
    obtain ⟨⟨dropped, nested⟩, hnest, hrun⟩ := bind_ok hrun
    obtain ⟨hroot, hparts⟩ := nodup_cons.mp hdist
    have hkids := hparts.of_append_left
    have hnxt := hparts.of_append_right
    have hsib : ∀ location ∈ children.siblings.map Block.location,
        location ∈ children.locations := fun location hmem => mem_locations_iff.mpr (.inl hmem)
    obtain ⟨hst, hlat, hown⟩ := overrideUnit_spec int (hdue.imp (fun hdeep => hsome.trans hdeep) id)
      (nodup_cons.mpr ⟨fun hmem => hroot (mem_append_left _ (hsib _ hmem)), siblings_nodup hkids⟩) hsync
      (fun key hkey => hfree key (by
        rcases mem_cons.mp hkey with heq | hmem
        · rw [heq]
          exact mem_cons_self
        · exact mem_cons_of_mem _ (mem_append_left _ (hsib _ hmem)))) hunit
    -- what is below or after the unit is still as it was
    have hfreeB : ∀ key : Key, key.1 ∈ children.locations → own.store.Free key :=
      fun key hkey => hown.free key (fun heq => hroot (heq ▸ mem_append_left _ hkey))
        (hfree key (mem_cons_of_mem _ (mem_append_left _ hkey)))
    have hinner := ihBelow hkids (fun _ _ h => h) (.inr rfl) hown.synced hfreeB hnest
    have hfreeAfter : ∀ key : Key, key.1 ∈ next.locations → nested.store.Free key :=
      fun key hkey => hinner.writes.free (fun htch => List.disjoint_of_nodup_append hparts
          (hbel.touched hkids (fun _ _ h => h) htch) hkey)
        (hown.free key (fun heq => hroot (heq ▸ mem_append_right _ hkey))
          (hfree key (mem_cons_of_mem _ (mem_append_right _ hkey))))
    have hlast := ihRest hnxt (hfnd.next hdist)
      (hlat.imp (fun hdue => hsome.symm.trans hdue) id) hinner.synced hfreeAfter hrun
    refine ⟨hlast.synced, writes_cons int hloc hfind hown hinner hlast,
      dates_cons int hloc hdist hfnd hbel hrest hown hinner hlast,
      components_cons int hfind hdist hfnd hbel hrest hown hinner hlast, ?_⟩
    rw [hlast.earliest, show start = submitted int unit .start from hst]
    rfl

end

end EdxPlatform.Ccx
