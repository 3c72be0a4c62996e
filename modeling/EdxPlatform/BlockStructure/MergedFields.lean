import EdxPlatform.BlockStructure.TraversalOrders
import EdxPlatform.Lib.Paths

/-!
# Fields merged from the parents

The collect phase gives each block a start date and a visibility that take those of its parents into account:
what is denied along one path from the root may be granted along another one.
-/

namespace EdxPlatform

open Relation BlockStructure

variable {κ τ : Type} [DecidableEq κ]

namespace MergedFields

/-- The settings of an XBlock that are merged, `none` where they are not set on it. -/
structure XBlockSettings (τ : Type) where
  start : Option (Option τ) := none
  visibleToStaffOnly : Option Bool := none

/-- A course in the collect phase; `getParent` is the one parent that an XBlock has for its runtime. -/
structure CollectedCourse (κ τ : Type) [DecidableEq κ] where
  blocks : BlockStructure κ Unit
  getXBlock : κ → XBlockSettings τ
  getParent : κ → Option κ
  collected : blocks.Collected
  getParent_mem : ∀ key parent, getParent key = some parent → parent ∈ blocks.getParents key

/-- `get_field_on_block`. -/
def getFieldOnBlock {ν : Type} (set : Option (Option ν)) (defaultValue : Option ν := none) : Option ν :=
  set.getD defaultValue

variable (course : CollectedCourse κ τ)

def blockStart (key : κ) : Option τ := getFieldOnBlock (course.getXBlock key).start

/-! ## Start dates -/

section Dates

variable [LinearOrder τ] (defaultStartDate : τ)

/-- `first < second`; `none` is `False`, which does not compare with a date. -/
def lessThan : Option τ → Option τ → Except PyError Bool
  | some first, some second => .ok (first < second)
  | none, none => .ok false
  | _, _ => .error .typeError

/-- `min(dates)`. -/
def minDate : List (Option τ) → Except PyError (Option τ)
  | [] => .error .valueError
  | first :: dates => dates.foldlM (fun least date => do
      if ← lessThan date least then return date else return least) first

/-- `max(first, second)`. -/
def maxDate (first second : Option τ) : Except PyError (Option τ) := do
  if ← lessThan first second then return second else return first

omit [LinearOrder τ] in
def getMergedStartDate (fields : Dict κ (Option τ)) (blockKey : κ) : Option τ := (fields.lookup blockKey).getD none

/-- One round of the loop of `StartDateTransformer.collect`. -/
def mergeStartDate (fields : Dict κ (Option τ)) (blockKey : κ) : ExceptT PyError Option (Dict κ (Option τ)) := do
  let parents := course.blocks.getParents blockKey
  let mergedStartValue ← ExceptT.mk <| some <|
    if parents.isEmpty then .ok (some ((blockStart course blockKey).getD defaultStartDate))
    else
      match minDate (parents.map (getMergedStartDate fields)), blockStart course blockKey with
      | .ok minAllParentsStartDate, some blockStart => maxDate minAllParentsStartDate (some blockStart)
      | minAllParentsStartDate, none => minAllParentsStartDate
      | .error err, _ => .error err
  return fields.insert blockKey mergedStartValue

/-- `StartDateTransformer.collect`, for the field that it sets. -/
def collectStartDates (fuel : Nat) : ExceptT PyError Option (Dict κ (Option τ)) := do
  let order ← course.blocks.topologicalTraversal fuel
  order.foldlM (mergeStartDate course defaultStartDate) ∅

/-- The latest of the start dates that are set on the blocks of a path from the root. -/
def latestStart (path : List κ) : τ :=
  (path.filterMap (blockStart course)).foldl max
    ((blockStart course course.blocks.rootBlockUsageKey).getD defaultStartDate)

def laterOf (key : κ) (date : τ) : τ :=
  match blockStart course key with
  | some blockStart => max date blockStart
  | none => date

omit [DecidableEq κ] in
theorem minDate_some {dates : List τ} {earliest : τ} (hear : dates.min? = some earliest) :
    minDate (dates.map some) = .ok (some earliest) := by
  cases dates with
  | nil => cases hear
  | cons first rest =>
    rw [List.min?_cons', some_inj] at hear
    subst hear
    change List.foldlM _ (some first) (rest.map some) = _
    induction rest generalizing first with
    | nil => rfl
    | cons second rest ih =>
      rw [foldl_cons, ← ih (min first second), map_cons, foldlM_cons]
      by_cases hless : second < first
      · rw [min_eq_right hless.le]
        simp only [lessThan, hless, decide_true]
        rfl
      · rw [min_eq_left (not_lt.mp hless)]
        simp only [lessThan, hless, decide_false]
        rfl

omit [DecidableEq κ] in
theorem maxDate_some (first second : τ) : maxDate (some first) (some second) = .ok (some (max first second)) := by
  unfold maxDate lessThan
  by_cases hless : first < second
  · rw [max_eq_right hless.le]
    simp only [hless, decide_true]
    rfl
  · rw [max_eq_left (not_lt.mp hless)]
    simp only [hless, decide_false]
    rfl

theorem laterOf_monotone (key : κ) : Monotone (laterOf course key) := by
  intro first second hle
  unfold laterOf
  split
  · exact max_le_max_right _ hle
  · exact hle

theorem latestStart_append (path : List κ) (key : κ) : latestStart course defaultStartDate (path ++ [key]) =
      laterOf course key (latestStart course defaultStartDate path) := by
  unfold latestStart laterOf
  rw [filterMap_append, foldl_append, List.filterMap_cons]
  cases blockStart course key <;> rfl

theorem latestStart_root : latestStart course defaultStartDate [course.blocks.rootBlockUsageKey] =
    (blockStart course course.blocks.rootBlockUsageKey).getD defaultStartDate := by
  unfold latestStart
  rw [List.filterMap_cons]
  cases blockStart course course.blocks.rootBlockUsageKey with
  | none => rfl
  | some blockStart => exact max_self blockStart

def pathStarts (key : κ) : Set τ :=
  pathCosts course.blocks.Edge course.blocks.rootBlockUsageKey (latestStart course defaultStartDate) key

theorem mergeStartDate_least (fields : Dict κ (Option τ)) {key : κ} (hkey : key ∈ course.blocks)
    (hpars : ∀ parent ∈ course.blocks.getParents key, ∃ merged, fields.lookup parent = some merged ∧
      ∃ date, merged = some date ∧ IsLeast (pathStarts course defaultStartDate parent) date) :
    ∃ merged, mergeStartDate course defaultStartDate fields key = pure (fields.insert key merged) ∧
      ∃ date, merged = some date ∧ IsLeast (pathStarts course defaultStartDate key) date := by
  have hcoll := course.collected
  unfold mergeStartDate
  dsimp only
  by_cases hroot : key = course.blocks.rootBlockUsageKey
  · subst hroot
    refine ⟨_, by rw [hcoll.root_parents]; rfl, _, rfl, ?_⟩
    have honly : ∀ path, PathTo course.blocks.Edge course.blocks.rootBlockUsageKey path
        course.blocks.rootBlockUsageKey ↔ path = [course.blocks.rootBlockUsageKey] := fun path =>
      pathTo_start_iff fun parent hrch hedge => hcoll.acyclic _ (TransGen.tail' hrch hedge)
    rw [← latestStart_root]
    refine ⟨⟨_, (honly _).mpr rfl, rfl⟩, ?_⟩
    rintro _ ⟨path, hpath, rfl⟩
    rw [(honly path).mp hpath]
  · have hne : course.blocks.getParents key ≠ [] := fun hnone => hroot ((hcoll.parents_eq_nil_iff hkey).mp hnone)
    have : Nonempty τ := ⟨defaultStartDate⟩
    choose! merged hmgd dates hdates hleast using hpars
    obtain ⟨earliest, hear, hmin, hle⟩ := @exists_cheapest κ τ _ dates _ hne
    have hfnd : (course.blocks.getParents key).map (getMergedStartDate fields) =
        ((course.blocks.getParents key).map dates).map some := by
      rw [map_map]
      refine map_congr_left fun parent hpar => ?_
      unfold getMergedStartDate
      rw [hmgd parent hpar]
      exact hdates parent hpar
    have hlat : IsLeast (pathStarts course defaultStartDate key) (laterOf course key (dates earliest)) :=
      isLeast_pathCosts (laterOf_monotone course key) hroot
        (fun path _ _ => latestStart_append course defaultStartDate path key)
        (fun parent hedge => hleast parent (hcoll.edge_iff.mp hedge)) (hcoll.edge_iff.mpr hear)
        fun parent hedge => hle parent (hcoll.edge_iff.mp hedge)
    refine ⟨some (laterOf course key (dates earliest)), ?_, _, rfl, hlat⟩
    rw [hfnd, minDate_some hmin, if_neg (by rwa [isEmpty_iff])]
    unfold laterOf
    cases blockStart course key with
    | none => rfl
    | some blockStart =>
      dsimp only
      rw [maxDate_some]
      rfl

theorem collectStartDates_least :
    ∃ bound fields, (∀ fuel, bound ≤ fuel → collectStartDates course defaultStartDate fuel = some (.ok fields)) ∧
      ∀ key ∈ course.blocks, ∃ date, fields.lookup key = some (some date) ∧
        IsLeast (pathStarts course defaultStartDate key) date := by
  obtain ⟨order, bound, ⟨-, hbef, hmem⟩, hbound⟩ := course.collected.topologicalTraversal
  obtain ⟨fields, hflds, hdates⟩ := foldlM_along hbef
    (fun fields key hkey => mergeStartDate_least course defaultStartDate fields ((hmem key).mp hkey)) ∅
  refine ⟨bound, fields, fun fuel hfuel => ?_, fun key hkey => ?_⟩
  · unfold collectStartDates
    rw [hbound fuel hfuel]
    exact hflds
  · obtain ⟨_, hlook, date, rfl, hleast⟩ := hdates key ((hmem key).mpr hkey)
    exact ⟨date, hlook, hleast⟩

end Dates

/-! ## Visibility -/

/-- `InheritingFieldData.default`: the value on the nearest ancestor that sets `visible_to_staff_only`. -/
def inheritedVisibility : Nat → κ → ExceptT PyError Option Bool
  | 0, _ => ExceptT.mk none
  | fuel + 1, blockKey =>
    match course.getParent blockKey with
    | none => pure false
    | some ancestor =>
      match (course.getXBlock ancestor).visibleToStaffOnly with
      | some visibleToStaffOnly => pure visibleToStaffOnly
      | none => inheritedVisibility fuel ancestor

/-- `block_structure.get_xblock(block_key).visible_to_staff_only`. -/
def visibleToStaffOnly (fuel : Nat) (blockKey : κ) : ExceptT PyError Option Bool :=
  match (course.getXBlock blockKey).visibleToStaffOnly with
  | some visibleToStaffOnly => pure visibleToStaffOnly
  | none => inheritedVisibility course fuel blockKey

def getVisibleToStaffOnly (fields : Dict κ Bool) (blockKey : κ) : Bool := (fields.lookup blockKey).getD false

def allParentsVisibleToStaffOnly (fields : Dict κ Bool) (blockKey : κ) : Bool :=
  let parents := course.blocks.getParents blockKey
  if parents.isEmpty then false else parents.all (getVisibleToStaffOnly fields)

/-- One round of the loop of `VisibilityTransformer.collect`. -/
def mergeVisibility (fuel : Nat) (fields : Dict κ Bool) (blockKey : κ) : ExceptT PyError Option (Dict κ Bool) := do
  let merged ← if allParentsVisibleToStaffOnly course fields blockKey then pure true
    else visibleToStaffOnly course fuel blockKey
  return fields.insert blockKey merged

/-- `VisibilityTransformer.collect`, for the field that it sets. -/
def collectVisibility (fuel : Nat) : ExceptT PyError Option (Dict κ Bool) := do
  let order ← course.blocks.topologicalTraversal fuel
  order.foldlM (mergeVisibility course fuel) ∅

/-- The nearest ancestor on the chain of `getParent` that sets the field sets it to true. -/
inductive InheritsStaffOnly : κ → Prop
  | parent {key ancestor : κ} (hparent : course.getParent key = some ancestor)
      (hset : (course.getXBlock ancestor).visibleToStaffOnly = some true) : InheritsStaffOnly key
  | above {key ancestor : κ} (hparent : course.getParent key = some ancestor)
      (hunset : (course.getXBlock ancestor).visibleToStaffOnly = none)
      (hinherits : InheritsStaffOnly ancestor) : InheritsStaffOnly key

/-- Every path from the root to the block contains a block on which the field is set. -/
def StaffOnlyOnEveryPath (key : κ) : Prop :=
  ∀ path, PathTo course.blocks.Edge course.blocks.rootBlockUsageKey path key →
    ∃ other ∈ path, (course.getXBlock other).visibleToStaffOnly = some true

variable {course} {key : κ}

theorem inheritsStaffOnly_iff {ancestor : κ} (hpar : course.getParent key = some ancestor) :
    InheritsStaffOnly course key ↔ (course.getXBlock ancestor).visibleToStaffOnly = some true ∨
      (course.getXBlock ancestor).visibleToStaffOnly = none ∧ InheritsStaffOnly course ancestor := by
  constructor
  · rintro (⟨hoth, hset⟩ | ⟨hoth, hunset, hinh⟩)
    · obtain rfl := some_unique hoth hpar
      exact .inl hset
    · obtain rfl := some_unique hoth hpar
      exact .inr ⟨hunset, hinh⟩
  · rintro (hset | ⟨hunset, hinh⟩)
    · exact .parent hpar hset
    · exact .above hpar hunset hinh

theorem inheritedVisibility_returns {rank : κ → Nat}
    (hrank : ∀ parent child, course.blocks.Edge parent child → rank parent < rank child) {fuel : Nat}
    (hfuel : rank key < fuel) :
    ∃ value, inheritedVisibility course fuel key = pure value ∧ (value = true ↔ InheritsStaffOnly course key) := by
  induction fuel generalizing key with
  | zero => exact absurd hfuel (Nat.not_lt_zero _)
  | succ fuel ih =>
    unfold inheritedVisibility
    cases hpar : course.getParent key with
    | none =>
      refine ⟨false, rfl, iff_of_false false_ne_true ?_⟩
      rintro (⟨hoth, -⟩ | ⟨hoth, -, -⟩) <;> exact absurd (hoth.symm.trans hpar) (some_ne_none _)
    | some ancestor =>
      rw [inheritsStaffOnly_iff hpar]
      dsimp only
      cases hset : (course.getXBlock ancestor).visibleToStaffOnly with
      | some set => exact ⟨set, rfl, by simp⟩
      | none =>
        have hless := hrank _ _ (course.collected.edge_iff.mpr (course.getParent_mem _ _ hpar))
        obtain ⟨value, hval, hiff⟩ := ih (Nat.lt_of_lt_of_le hless (Nat.le_of_lt_succ hfuel))
        exact ⟨value, hval, by simp [hiff]⟩

variable (course) in
open Classical in
/-- The value that reading the field on a block gives. -/
noncomputable def readsStaffOnly (key : κ) : Bool :=
  ((course.getXBlock key).visibleToStaffOnly).getD (decide (InheritsStaffOnly course key))

open Classical in
theorem exists_visibleToStaffOnly (course : CollectedCourse κ τ) :
    ∃ bound, ∀ fuel, bound ≤ fuel → ∀ key, visibleToStaffOnly course fuel key = pure (readsStaffOnly course key) := by
  obtain ⟨rank, hrank, hle⟩ := course.collected.acyclic.exists_rank course.blocks.blockRelations.keys.toFinset
    fun parent child hedge => mem_toFinset.mpr (mem_of_linksOf hedge)
  refine ⟨course.blocks.blockRelations.keys.toFinset.card + 1, fun fuel hfuel key => ?_⟩
  unfold visibleToStaffOnly readsStaffOnly
  cases (course.getXBlock key).visibleToStaffOnly with
  | some set => rfl
  | none =>
    obtain ⟨value, hval, hiff⟩ := inheritedVisibility_returns hrank
      (Nat.lt_of_le_of_lt (hle key) (Nat.lt_of_succ_le hfuel))
    exact hval.trans (congrArg pure (eq_iff_iff.mpr (hiff.trans decide_eq_true_iff.symm)))

theorem staffOnlyOnEveryPath_of_set (hset : (course.getXBlock key).visibleToStaffOnly = some true) :
    StaffOnlyOnEveryPath course key :=
  fun _ hpath => ⟨key, hpath.mem, hset⟩

theorem staffOnlyOnEveryPath_root : StaffOnlyOnEveryPath course course.blocks.rootBlockUsageKey ↔
      (course.getXBlock course.blocks.rootBlockUsageKey).visibleToStaffOnly = some true := by
  refine ⟨fun hevery => ?_, staffOnlyOnEveryPath_of_set⟩
  obtain ⟨other, hoth, hset⟩ := hevery _ .start
  rwa [mem_singleton.mp hoth] at hset

theorem staffOnlyOnEveryPath_iff (hroot : key ≠ course.blocks.rootBlockUsageKey) :
    StaffOnlyOnEveryPath course key ↔ (course.getXBlock key).visibleToStaffOnly = some true ∨
      ∀ parent ∈ course.blocks.getParents key, StaffOnlyOnEveryPath course parent := by
  constructor
  · intro hevery
    refine or_iff_not_imp_left.mpr fun hunset parent hpar path hpath => ?_
    obtain ⟨other, hoth, hset⟩ := hevery _ (hpath.step (course.collected.edge_iff.mpr hpar))
    rcases mem_append.mp hoth with hoth | hoth
    · exact ⟨other, hoth, hset⟩
    · exact absurd (mem_singleton.mp hoth ▸ hset) hunset
  · rintro (hset | hpars)
    · exact staffOnlyOnEveryPath_of_set hset
    · intro path hpath
      obtain ⟨front, parent, hfront, hedge, rfl⟩ := (pathTo_iff hroot).mp hpath
      obtain ⟨other, hoth, hset⟩ := hpars parent (course.collected.edge_iff.mp hedge) front hfront
      exact ⟨other, mem_append_left _ hoth, hset⟩

theorem mergeVisibility_merges {fuel : Nat}
    (hreads : ∀ key, visibleToStaffOnly course fuel key = pure (readsStaffOnly course key)) (fields : Dict κ Bool)
    (key : κ) :
    mergeVisibility course fuel fields key =
      pure (fields.insert key (allParentsVisibleToStaffOnly course fields key || readsStaffOnly course key)) := by
  unfold mergeVisibility
  rw [hreads]
  cases allParentsVisibleToStaffOnly course fields key <;> rfl

def InheritsNoMore (course : CollectedCourse κ τ) : Prop :=
  ∀ key ∈ course.blocks, (course.getXBlock key).visibleToStaffOnly = none → InheritsStaffOnly course key →
    StaffOnlyOnEveryPath course key

open Classical in
theorem readsStaffOnly_iff (key : κ) : readsStaffOnly course key = true ↔
    (course.getXBlock key).visibleToStaffOnly = some true ∨
      (course.getXBlock key).visibleToStaffOnly = none ∧ InheritsStaffOnly course key := by
  unfold readsStaffOnly
  cases (course.getXBlock key).visibleToStaffOnly with
  | some set => simp
  | none => simp

theorem merged_right {fields : Dict κ Bool} (hkey : key ∈ course.blocks)
    (hpars : ∀ parent ∈ course.blocks.getParents key, ∃ value, fields.lookup parent = some value ∧
      (readsStaffOnly course parent = true → value = true) ∧
        (InheritsNoMore course → (value = true ↔ StaffOnlyOnEveryPath course parent)))
    (hnoMore : InheritsNoMore course) :
    (allParentsVisibleToStaffOnly course fields key || readsStaffOnly course key) = true ↔
      StaffOnlyOnEveryPath course key := by
  have hreads : readsStaffOnly course key = true → StaffOnlyOnEveryPath course key := by
    rw [readsStaffOnly_iff]
    rintro (hset | ⟨hunset, hinh⟩)
    · exact staffOnlyOnEveryPath_of_set hset
    · exact hnoMore key hkey hunset hinh
  rw [Bool.or_eq_true_iff]
  by_cases hroot : key = course.blocks.rootBlockUsageKey
  · subst hroot
    have hno : allParentsVisibleToStaffOnly course fields course.blocks.rootBlockUsageKey = false := by
      unfold allParentsVisibleToStaffOnly
      rw [course.collected.root_parents]
      rfl
    refine ⟨fun hval => hreads (hval.resolve_left (by rw [hno]; decide)), fun hevery => .inr ?_⟩
    exact (readsStaffOnly_iff _).mpr (.inl (staffOnlyOnEveryPath_root.mp hevery))
  · have hall : allParentsVisibleToStaffOnly course fields key = true ↔
        ∀ parent ∈ course.blocks.getParents key, StaffOnlyOnEveryPath course parent := by
      unfold allParentsVisibleToStaffOnly
      dsimp only
      rw [if_neg fun hnone => hroot ((course.collected.parents_eq_nil_iff hkey).mp (isEmpty_iff.mp hnone)),
        all_eq_true]
      refine forall₂_congr fun parent hpar => ?_
      obtain ⟨found, hlook, -, hrgt⟩ := hpars parent hpar
      unfold getVisibleToStaffOnly
      rw [hlook]
      exact hrgt hnoMore
    rw [hall]
    constructor
    · rintro (hevery | hval)
      · exact (staffOnlyOnEveryPath_iff hroot).mpr (.inr hevery)
      · exact hreads hval
    · exact fun hevery => ((staffOnlyOnEveryPath_iff hroot).mp hevery).symm.imp_right fun hset =>
        (readsStaffOnly_iff key).mpr (.inl hset)

/-- The merged visibility is that of the paths exactly if no block inherits more than they agree on. -/
theorem collectVisibility_right (course : CollectedCourse κ τ) :
    ∃ bound fields, (∀ fuel, bound ≤ fuel → collectVisibility course fuel = some (.ok fields)) ∧
      ((∀ key ∈ course.blocks, ∃ value, fields.lookup key = some value ∧
          (value = true ↔ StaffOnlyOnEveryPath course key)) ↔
        InheritsNoMore course) := by
  obtain ⟨order, orderBound, ⟨-, hbef, hmem⟩, hord⟩ := course.collected.topologicalTraversal
  obtain ⟨readBound, hreads⟩ := exists_visibleToStaffOnly course
  obtain ⟨fields, hflds, hvals⟩ : ∃ fields, order.foldlM (mergeVisibility course readBound) ∅ = pure fields ∧
      ∀ key ∈ order, ∃ value, fields.lookup key = some value ∧ (readsStaffOnly course key = true → value = true) ∧
        (InheritsNoMore course → (value = true ↔ StaffOnlyOnEveryPath course key)) :=
    foldlM_along hbef (fun fields key hkey hpars =>
      ⟨_, mergeVisibility_merges (hreads readBound le_rfl) fields key,
      fun hset => Bool.or_eq_true_iff.mpr (.inr hset), merged_right ((hmem key).mp hkey) hpars⟩) ∅
  refine ⟨max orderBound readBound, fields, fun fuel hfuel => ?_, fun hrgt key hkey hunset hinh => ?_,
    fun hnoMore key hkey => ?_⟩
  · have hstep : mergeVisibility course fuel = mergeVisibility course readBound := by
      funext fields key
      rw [mergeVisibility_merges (hreads fuel ((le_max_right _ _).trans hfuel)),
        mergeVisibility_merges (hreads readBound le_rfl)]
    unfold collectVisibility
    rw [hord fuel ((le_max_left _ _).trans hfuel), hstep]
    exact hflds
  · obtain ⟨value, hlook, hiff⟩ := hrgt key hkey
    obtain ⟨found, hfnd, hcov, -⟩ := hvals key ((hmem key).mpr hkey)
    obtain rfl := some_unique hlook hfnd
    exact hiff.mp (hcov ((readsStaffOnly_iff key).mpr (.inr ⟨hunset, hinh⟩)))
  · obtain ⟨value, hlook, -, hiff⟩ := hvals key ((hmem key).mpr hkey)
    exact ⟨value, hlook, hiff hnoMore⟩

/-- The merged start dates are those of the paths; the merged visibility is exactly if no block inherits more
than the paths to it agree on. -/
theorem mergedFields_iff_inheritsNoMore [LinearOrder τ] (course : CollectedCourse κ τ) (defaultStartDate : τ) :
    ∃ bound startDates visibility, (∀ fuel, bound ≤ fuel →
        collectStartDates course defaultStartDate fuel = some (.ok startDates) ∧
          collectVisibility course fuel = some (.ok visibility)) ∧
      (∀ key ∈ course.blocks, ∃ date, startDates.lookup key = some (some date) ∧
        IsLeast (pathStarts course defaultStartDate key) date) ∧
      ((∀ key ∈ course.blocks, ∃ value, visibility.lookup key = some value ∧
          (value = true ↔ StaffOnlyOnEveryPath course key)) ↔
        InheritsNoMore course) := by
  obtain ⟨startBound, startDates, hstart, hleast⟩ := collectStartDates_least course defaultStartDate
  obtain ⟨visibleBound, visibility, hvisible, hright⟩ := collectVisibility_right course
  exact ⟨max startBound visibleBound, startDates, visibility, fun fuel hfuel =>
    ⟨hstart fuel ((le_max_left _ _).trans hfuel), hvisible fuel ((le_max_right _ _).trans hfuel)⟩, hleast, hright⟩

/-- A course in which a staff-only week and an open one share a quiz, whose XBlock hangs below the former. -/
def sharedQuiz : CollectedCourse String Int where
  blocks := ((((BlockStructure.init "course").addRelation "course" "staff").addRelation "course" "open").addRelation
    "staff" "quiz").addRelation "open" "quiz"
  getXBlock := fun key => if key = "staff" then { visibleToStaffOnly := some true } else {}
  getParent := (Dict.ofList [("staff", "course"), ("open", "course"), ("quiz", "staff")]).lookup
  collected := ((((collected_init "course").addRelation (by decide) (by decide) (by decide)).addRelation
    (by decide) (by decide) (by decide)).addRelation (by decide) (by decide) (by decide)).addRelation
    (by decide) (by decide) (by decide)
  getParent_mem := by
    intro key parent hparent
    have hall : ∀ entry ∈ [("staff", "course"), ("open", "course"), ("quiz", "staff")], entry.2 ∈
        getParents (((((BlockStructure.init "course" : BlockStructure String Unit).addRelation "course"
          "staff").addRelation "course" "open").addRelation "staff" "quiz").addRelation "open" "quiz") entry.1 := by
      decide
    exact hall (key, parent) (Dict.mem_of_lookup_ofList hparent)

/-- `DEFAULT_START_DATE`, the start of 2030, in seconds of the Unix epoch. -/
def startOf2030 : Int := 1893456000

/-- The quiz is hidden, though the path through the open week is open to everybody. -/
theorem sharedQuiz_hidden : ¬ ∃ bound startDates visibility, (∀ fuel, bound ≤ fuel →
        collectStartDates sharedQuiz startOf2030 fuel = some (.ok startDates) ∧
          collectVisibility sharedQuiz fuel = some (.ok visibility)) ∧
      (∀ key ∈ sharedQuiz.blocks, ∃ date, startDates.lookup key = some (some date) ∧
        IsLeast (pathStarts sharedQuiz startOf2030 key) date) ∧
      ∀ key ∈ sharedQuiz.blocks, ∃ value, visibility.lookup key = some value ∧
        (value = true ↔ StaffOnlyOnEveryPath sharedQuiz key) := by
  rintro ⟨bound, startDates, visibility, hruns, -, hright⟩
  obtain ⟨fieldsBound, fields, hfields, hiff⟩ := collectVisibility_right sharedQuiz
  have hsame := (hruns _ (le_max_left bound fieldsBound)).2.symm.trans (hfields _ (le_max_right bound fieldsBound))
  obtain rfl := ok.inj (some.inj hsame)
  have hevery := hiff.mp hright "quiz" (by decide) rfl (.parent rfl rfl)
  have hpath : PathTo sharedQuiz.blocks.Edge "course" ["course", "open", "quiz"] "quiz" :=
    .step (.step .start (by decide)) (by decide)
  obtain ⟨other, hother, hset⟩ := hevery _ hpath
  revert other
  decide

end MergedFields

end EdxPlatform
