import EdxPlatform.Lib.Python
import EdxPlatform.LibraryContent.Renderings

/-!
# The library content of a course

A request goes through all library content blocks of a course and removes the children that none of them selects.
-/

namespace EdxPlatform.LibraryContent

open Look Look

/-- The blocks of a course whose content is from a library; a child has one parent. -/
structure LibraryCourse where
  blocks : List UsageKey
  nodup : blocks.Nodup
  block : UsageKey → LibraryContentBlock
  disjoint : ∀ first ∈ blocks, ∀ second ∈ blocks, first ≠ second →
    (block first).children.Disjoint (block second).children

namespace LibraryCourse

variable (course : LibraryCourse)

abbrev States := UsageKey → UserState

section

variable (chances : UsageKey → Chance) (states : States)

/-- One round of the loop of `transform_block_filters`. -/
def collectSelected (collected : Finset UsageKey × Finset UsageKey)
    (blockKey : UsageKey) : Except SelectionError (Finset UsageKey × Finset UsageKey) := do
  let libraryChildren := (course.block blockKey).children
  if libraryChildren.isEmpty then return collected
  let selected ← selectForRequest (chances blockKey) (course.block blockKey) (states blockKey)
  return (collected.1 ∪ libraryChildren.toFinset, collected.2 ∪ selected)

def checkChildRemoval (allLibraryChildren allSelectedChildren : Finset UsageKey) (blockKey : UsageKey) : Bool :=
  if blockKey ∉ allLibraryChildren then false
  else if blockKey ∈ allSelectedChildren then false
  else true

/-- `transform_block_filters`: which blocks are removed. -/
def transformBlockFilters :
    Except SelectionError (UsageKey → Bool) := do
  let (allLibraryChildren, allSelectedChildren) ← course.blocks.foldlM (course.collectSelected chances states) (∅, ∅)
  return checkChildRemoval allLibraryChildren allSelectedChildren

inductive Event where
  | rendering (blockKey : UsageKey)
  | request
  deriving DecidableEq

def turn : Event → Except SelectionError (States × List (UsageKey × Finset UsageKey))
  | .rendering blockKey => do
    let (state, shown) ← getSelectedChildBlocks (chances blockKey) (course.block blockKey) (states blockKey)
    return (Function.update states blockKey state, [(blockKey, shown)])
  | .request => do
    let removed ← course.transformBlockFilters chances states
    return (states, course.blocks.map fun blockKey =>
      (blockKey, (course.block blockKey).children.toFinset.filter fun child => removed child = false))

end

def present (states : States) : List (Event × (UsageKey → Chance)) →
    Except SelectionError (List (UsageKey × Finset UsageKey))
  | [] => return []
  | (event, chances) :: turns => do
    let (states, shown) ← course.turn chances states event
    return shown ++ (← present states turns)

end LibraryCourse

variable {chance : Chance} {block : LibraryContentBlock} {state : UserState}

/-! ## What a block sees of a run -/

theorem image_makeUsageKey_subset {keys : Finset BlockKey} {children : List UsageKey}
    (hkeys : keys ⊆ validBlockKeys children) : keys.image makeUsageKey ⊆ children.toFinset := by
  intro child hch
  obtain ⟨key, hkey, rfl⟩ := Finset.mem_image.mp hch
  obtain ⟨child, hmem, rfl⟩ := mem_map.mp (mem_toFinset.mp (hkeys hkey))
  exact mem_toFinset.mpr hmem

theorem Look.shows_request : shows chance block state .request = if block.children.isEmpty then return (state, ∅)
    else do
      let selected ← selectForRequest chance block state
      return (state, selected) :=
  rfl

theorem subset_of_selectForRequest {selected : Finset UsageKey}
    (hsel : selectForRequest chance block state = .ok selected) : selected ⊆ block.children.toFinset := by
  unfold selectForRequest at hsel
  obtain ⟨found, -, hrest⟩ := bind_ok hsel
  obtain ⟨result, hres, hfinal⟩ := bind_ok hrest
  obtain rfl := ok.inj hfinal
  rw [block.mode_eq] at hres
  exact image_makeUsageKey_subset (possible_of_makeSelection chance.toDraw hres).2.current

theorem Look.request_shows {next : UserState} {set : Finset UsageKey}
    (hshows : shows chance block state .request = .ok (next, set)) :
    next = state ∧ set ⊆ block.children.toFinset := by
  rw [shows_request] at hshows
  split at hshows
  · obtain ⟨rfl, rfl⟩ := Prod.mk.inj (ok.inj hshows)
    exact ⟨rfl, Finset.empty_subset _⟩
  · obtain ⟨selected, hsel, hfinal⟩ := bind_ok hshows
    obtain ⟨rfl, rfl⟩ := Prod.mk.inj (ok.inj hfinal)
    exact ⟨rfl, subset_of_selectForRequest hsel⟩

namespace LibraryCourse

variable {course : LibraryCourse} {chances : UsageKey → Chance} {states : States}

theorem collectSelected_eq (collected : Finset UsageKey × Finset UsageKey) (blockKey : UsageKey) :
    course.collectSelected chances states collected blockKey =
      (shows (chances blockKey) (course.block blockKey) (states blockKey) .request).map fun shown =>
        (collected.1 ∪ (course.block blockKey).children.toFinset, collected.2 ∪ shown.2) := by
  rw [shows_request]
  unfold collectSelected
  dsimp only
  split
  · next hemp =>
      rw [isEmpty_iff.mp hemp]
      change _ = Except.ok (_ ∪ ∅, _ ∪ ∅)
      rw [Finset.union_empty, Finset.union_empty]
      rfl
  · cases selectForRequest (chances blockKey) (course.block blockKey) (states blockKey) with
    | error err => rfl
    | ok selected => rfl

variable {blockKeys : List UsageKey}

theorem foldlM_collectSelected {selected : UsageKey → Finset UsageKey} (hsel : ∀ blockKey ∈ blockKeys,
      shows (chances blockKey) (course.block blockKey) (states blockKey) .request =
      .ok (states blockKey, selected blockKey)) (collected : Finset UsageKey × Finset UsageKey) :
    ∃ result, blockKeys.foldlM (course.collectSelected chances states) collected = .ok result ∧
      (∀ child, child ∈ result.1 ↔
        child ∈ collected.1 ∨ ∃ blockKey ∈ blockKeys, child ∈ (course.block blockKey).children) ∧
      ∀ child, child ∈ result.2 ↔ child ∈ collected.2 ∨ ∃ blockKey ∈ blockKeys, child ∈ selected blockKey := by
  induction blockKeys generalizing collected with
  | nil => exact ⟨collected, rfl, fun child => by simp, fun child => by simp⟩
  | cons blockKey blockKeys ih =>
    obtain ⟨result, hres, hkids, hshown⟩ := ih (forall_mem_cons.mp hsel).2
      (collected.1 ∪ (course.block blockKey).children.toFinset, collected.2 ∪ selected blockKey)
    refine ⟨result, ?_, fun child => ?_, fun child => ?_⟩
    · rw [foldlM_cons, collectSelected_eq, hsel blockKey mem_cons_self]
      exact hres
    · rw [hkids, Finset.mem_union, mem_toFinset, or_assoc, exists_mem_cons_iff]
    · rw [hshown, Finset.mem_union, or_assoc, exists_mem_cons_iff]

theorem foldlM_collectSelected_error {collected result : Finset UsageKey × Finset UsageKey}
    (hres : blockKeys.foldlM (course.collectSelected chances states) collected = .ok result) :
    ∀ blockKey ∈ blockKeys, ∃ set, shows (chances blockKey) (course.block blockKey) (states blockKey) .request =
      .ok (states blockKey, set) := by
  induction blockKeys generalizing collected with
  | nil => exact fun blockKey hmem => nomatch hmem
  | cons blockKey blockKeys ih =>
    rw [foldlM_cons, collectSelected_eq] at hres
    cases hshows : shows (chances blockKey) (course.block blockKey) (states blockKey) .request with
    | error err =>
      rw [hshows] at hres
      cases hres
    | ok shown =>
      rw [hshows] at hres
      obtain ⟨next, set⟩ := shown
      obtain ⟨rfl, -⟩ := request_shows hshows
      exact forall_mem_cons.mpr ⟨⟨set, hshows⟩, ih hres⟩

def lookAt (course : LibraryCourse) (blockKey : UsageKey) : Event → Option Look
  | .rendering other => if other = blockKey then some .rendering else none
  | .request => if blockKey ∈ course.blocks then some .request else none

def shownOf (blockKey : UsageKey) (shown : List (UsageKey × Finset UsageKey)) : List (Finset UsageKey) :=
  shown.filterMap fun entry => if entry.1 = blockKey then some entry.2 else none

variable (blockKey : UsageKey)

theorem shownOf_append (first second : List (UsageKey × Finset UsageKey)) :
    shownOf blockKey (first ++ second) = shownOf blockKey first ++ shownOf blockKey second :=
  filterMap_append

theorem shownOf_cons_self (set : Finset UsageKey) (rest : List (UsageKey × Finset UsageKey)) :
    shownOf blockKey ((blockKey, set) :: rest) = set :: shownOf blockKey rest :=
  filterMap_cons_some (if_pos rfl)

variable {blockKey : UsageKey}

theorem shownOf_cons_of_ne {other : UsageKey} (hne : other ≠ blockKey) (set : Finset UsageKey)
    (rest : List (UsageKey × Finset UsageKey)) : shownOf blockKey ((other, set) :: rest) = shownOf blockKey rest :=
  filterMap_cons_none (if_neg hne)

theorem shownOf_map (hnod : blockKeys.Nodup) (set : UsageKey → Finset UsageKey)
    (blockKey : UsageKey) : shownOf blockKey (blockKeys.map fun other => (other, set other)) =
      if blockKey ∈ blockKeys then [set blockKey] else [] := by
  induction blockKeys with
  | nil => rfl
  | cons other blockKeys ih =>
    obtain ⟨hfresh, hrest⟩ := nodup_cons.mp hnod
    rw [map_cons]
    by_cases heq : other = blockKey
    · subst heq
      rw [shownOf_cons_self, ih hrest, if_neg hfresh, if_pos mem_cons_self]
    · rw [shownOf_cons_of_ne heq, ih hrest]
      simp [Ne.symm heq]

theorem transformBlockFilters_shows {removed : UsageKey → Bool}
    (hrem : course.transformBlockFilters chances states = .ok removed)
    (hmem : blockKey ∈ course.blocks) :
    shows (chances blockKey) (course.block blockKey) (states blockKey) .request =
      .ok (states blockKey, (course.block blockKey).children.toFinset.filter fun child => removed child = false) := by
  obtain ⟨collected, hcoll, hfinal⟩ := bind_ok hrem
  obtain rfl := ok.inj hfinal
  choose! selected hsel using foldlM_collectSelected_error hcoll
  obtain ⟨result, hres, hkids, hshown⟩ := foldlM_collectSelected hsel (∅, ∅)
  obtain rfl := ok.inj (hcoll.symm.trans hres)
  have hwth : ∀ other ∈ course.blocks, selected other ⊆ (course.block other).children.toFinset := fun other hoth =>
    (request_shows (hsel other hoth)).2
  rw [hsel blockKey hmem]
  congr 2
  ext child
  rw [Finset.mem_filter, mem_toFinset]
  unfold checkChildRemoval
  constructor
  · intro hch
    refine ⟨mem_toFinset.mp (hwth blockKey hmem hch), ?_⟩
    rw [if_pos ((hshown child).mpr (.inr ⟨blockKey, hmem, hch⟩)), ite_self]
  · rintro ⟨hch, hkept⟩
    -- The child is selected, and no other block can have selected it.
    rw [if_neg (not_not.mpr ((hkids child).mpr (.inr ⟨blockKey, hmem, hch⟩)))] at hkept
    have hsome : child ∈ collected.2 := by
      by_contra hnot
      rw [if_neg hnot] at hkept
      cases hkept
    obtain hemp | ⟨other, hoth, hshows⟩ := (hshown child).mp hsome
    · exact absurd hemp (Finset.notMem_empty _)
    · by_contra hnot
      have hne : other ≠ blockKey := fun heq => hnot (heq ▸ hshows)
      exact course.disjoint other hoth blockKey hmem hne (mem_toFinset.mp (hwth other hoth hshows)) hch

variable {shown : List (UsageKey × Finset UsageKey)}

theorem turn_shows {event : Event} {next : States}
    (hturn : course.turn chances states event = .ok (next, shown)) (blockKey : UsageKey) :
    match course.lookAt blockKey event with
    | none => next blockKey = states blockKey ∧ shownOf blockKey shown = []
    | some look => ∃ set, look.shows (chances blockKey) (course.block blockKey) (states blockKey) =
      .ok (next blockKey, set) ∧ shownOf blockKey shown = [set] := by
  cases event with
  | rendering other =>
    obtain ⟨⟨state, set⟩, hshows, hfinal⟩ := bind_ok hturn
    obtain ⟨rfl, rfl⟩ := Prod.mk.inj (ok.inj hfinal)
    by_cases heq : other = blockKey
    · subst heq
      have hlook : course.lookAt other (.rendering other) = some .rendering := if_pos rfl
      rw [hlook]
      refine ⟨set, ?_, shownOf_cons_self other set []⟩
      rw [update_self]
      exact hshows
    · have hlook : course.lookAt blockKey (.rendering other) = none := if_neg heq
      rw [hlook]
      exact ⟨update_of_ne (Ne.symm heq) _ _, shownOf_cons_of_ne heq set []⟩
  | request =>
    obtain ⟨removed, hrem, hfinal⟩ := bind_ok hturn
    obtain ⟨rfl, rfl⟩ := Prod.mk.inj (ok.inj hfinal)
    rw [shownOf_map course.nodup]
    by_cases hmem : blockKey ∈ course.blocks
    · have hlook : course.lookAt blockKey .request = some .request := if_pos hmem
      rw [if_pos hmem, hlook]
      exact ⟨_, transformBlockFilters_shows hrem hmem, rfl⟩
    · have hlook : course.lookAt blockKey .request = none := if_neg hmem
      rw [if_neg hmem, hlook]
      exact ⟨rfl, rfl⟩

theorem turn_returns {event : Event} (hlooks : ∀ blockKey look, course.lookAt blockKey event = some look →
      ∃ result, look.shows (chances blockKey) (course.block blockKey) (states blockKey) = .ok result) :
    ∃ result, course.turn chances states event = .ok result := by
  cases event with
  | rendering blockKey =>
    obtain ⟨⟨state, set⟩, hres⟩ := hlooks blockKey .rendering (if_pos rfl)
    refine ⟨(Function.update states blockKey state, [(blockKey, set)]), ?_⟩
    change getSelectedChildBlocks _ _ _ = _ at hres
    change getSelectedChildBlocks _ _ _ >>= _ = _
    rw [hres]
    rfl
  | request =>
    have hsel : ∀ blockKey ∈ course.blocks, ∃ set, shows (chances blockKey) (course.block blockKey)
        (states blockKey) .request = .ok (states blockKey, set) := by
      intro blockKey hmem
      obtain ⟨⟨next, set⟩, hres⟩ := hlooks blockKey .request (if_pos hmem)
      obtain ⟨rfl, -⟩ := request_shows hres
      exact ⟨set, hres⟩
    choose! selected hsel using hsel
    obtain ⟨result, hres, -⟩ := foldlM_collectSelected hsel (∅, ∅)
    have hrem : course.transformBlockFilters chances states = .ok (checkChildRemoval result.1 result.2) := by
      unfold transformBlockFilters
      rw [hres]
      rfl
    exact ⟨_, congrArg (· >>= _) hrem⟩

def looksOf (course : LibraryCourse) (blockKey : UsageKey) (events : List Event) : List Look :=
  events.filterMap (course.lookAt blockKey)

def turnsOf (course : LibraryCourse) (blockKey : UsageKey) (turns : List (Event × (UsageKey → Chance))) :
    List (Look × Chance) :=
  turns.filterMap fun turn => (course.lookAt blockKey turn.1).map (·, turn.2 blockKey)

theorem looksOf_turns (blockKey : UsageKey) (turns : List (Event × (UsageKey → Chance))) :
    (course.turnsOf blockKey turns).map Prod.fst = course.looksOf blockKey (turns.map Prod.fst) := by
  induction turns with
  | nil => rfl
  | cons turn turns ih =>
    unfold turnsOf looksOf at *
    rw [map_cons]
    cases hlook : course.lookAt blockKey turn.1 with
    | none => rw [filterMap_cons_none (by rw [hlook]; rfl), filterMap_cons_none hlook, ih]
    | some look => rw [filterMap_cons_some (by rw [hlook]; rfl), filterMap_cons_some hlook, map_cons, ih]

variable {turns : List (Event × (UsageKey → Chance))}

theorem present_shows (hpres : course.present states turns = .ok shown) (blockKey : UsageKey) :
    showAll (course.block blockKey) (states blockKey) (course.turnsOf blockKey turns) =
      .ok (shownOf blockKey shown) := by
  induction turns generalizing states shown with
  | nil =>
    obtain rfl := ok.inj hpres
    rfl
  | cons turn turns ih =>
    obtain ⟨event, chances⟩ := turn
    obtain ⟨⟨next, first⟩, hturn, hrest⟩ := bind_ok hpres
    obtain ⟨rest, hlat, hfinal⟩ := bind_ok hrest
    obtain rfl := ok.inj hfinal
    have hshows := turn_shows hturn blockKey
    have hrun := ih hlat
    rw [shownOf_append]
    unfold turnsOf at *
    cases hlook : course.lookAt blockKey event with
    | none =>
      rw [hlook] at hshows
      obtain ⟨hstt, hnone⟩ := hshows
      rw [filterMap_cons_none (by rw [hlook]; rfl), hnone, ← hstt]
      exact hrun
    | some look =>
      rw [hlook] at hshows
      obtain ⟨set, hset, hsome⟩ := hshows
      rw [filterMap_cons_some (by rw [hlook]; rfl), hsome, showAll_cons hset, hrun]
      rfl

theorem present_returns (hblks : ∀ blockKey, ∃ shown,
      showAll (course.block blockKey) (states blockKey) (course.turnsOf blockKey turns) = .ok shown) :
    ∃ shown, course.present states turns = .ok shown := by
  induction turns generalizing states with
  | nil => exact ⟨[], rfl⟩
  | cons turn turns ih =>
    obtain ⟨event, chances⟩ := turn
    have hlooks : ∀ blockKey look, course.lookAt blockKey event = some look →
        ∃ result, look.shows (chances blockKey) (course.block blockKey) (states blockKey) = .ok result := by
      intro blockKey look hlook
      obtain ⟨shown, hshown⟩ := hblks blockKey
      unfold turnsOf at hshown
      rw [filterMap_cons_some (by rw [hlook]; rfl)] at hshown
      obtain ⟨result, hres, -⟩ := bind_ok hshown
      exact ⟨result, hres⟩
    obtain ⟨⟨next, first⟩, hturn⟩ := turn_returns hlooks
    have hrest : ∀ blockKey, ∃ shown,
        showAll (course.block blockKey) (next blockKey) (course.turnsOf blockKey turns) = .ok shown := by
      intro blockKey
      obtain ⟨shown, hshown⟩ := hblks blockKey
      have hshows := turn_shows hturn blockKey
      unfold turnsOf at *
      cases hlook : course.lookAt blockKey event with
      | none =>
        rw [hlook] at hshows
        rw [filterMap_cons_none (by rw [hlook]; rfl), ← hshows.1] at hshown
        exact ⟨shown, hshown⟩
      | some look =>
        rw [hlook] at hshows
        obtain ⟨set, hset, -⟩ := hshows
        rw [filterMap_cons_some (by rw [hlook]; rfl), showAll_cons hset] at hshown
        obtain ⟨rest, hrest, -⟩ := bind_ok hshown
        exact ⟨rest, hrest⟩
    obtain ⟨rest, hlat⟩ := ih hrest
    refine ⟨first ++ rest, ?_⟩
    rw [present, hturn]
    change course.present next turns >>= _ = _
    rw [hlat]
    rfl

theorem exists_turnsOf (blockKey : UsageKey) {events : List Event} {looks : List (Look × Chance)}
    (hlooks : looks.map Prod.fst = course.looksOf blockKey events) :
    ∃ turns : List (Event × (UsageKey → Chance)), turns.map Prod.fst = events ∧
      course.turnsOf blockKey turns = looks := by
  have hchan : Chance := ⟨Draw.towards ∅, fun values => ⟨values.toList, Finset.toList_toFinset values⟩⟩
  induction events generalizing looks with
  | nil =>
    obtain rfl := map_eq_nil_iff.mp hlooks
    exact ⟨[], rfl, rfl⟩
  | cons event events ih =>
    unfold looksOf at hlooks
    cases hlook : course.lookAt blockKey event with
    | none =>
      rw [filterMap_cons_none hlook] at hlooks
      obtain ⟨turns, rfl, hturns⟩ := ih hlooks
      refine ⟨(event, fun _ => hchan) :: turns, rfl, ?_⟩
      unfold turnsOf at *
      rw [filterMap_cons_none (by rw [hlook]; rfl), hturns]
    | some look =>
      rw [filterMap_cons_some hlook] at hlooks
      cases looks with
      | nil => cases hlooks
      | cons turn looks =>
        obtain ⟨look', chance⟩ := turn
        obtain ⟨rfl, hrest⟩ := cons.inj hlooks
        obtain ⟨turns, rfl, hturns⟩ := ih hrest
        refine ⟨(event, fun _ => chance) :: turns, rfl, ?_⟩
        unfold turnsOf at *
        rw [filterMap_cons_some (by rw [hlook]; rfl), hturns]

theorem mem_shownOf {set : Finset UsageKey} : set ∈ shownOf blockKey shown ↔ (blockKey, set) ∈ shown := by
  unfold shownOf
  rw [mem_filterMap]
  constructor
  · rintro ⟨⟨other, found⟩, hmem, hfnd⟩
    split at hfnd
    · next heq =>
        obtain rfl := some.inj hfnd
        exact heq ▸ hmem
    · cases hfnd
  · exact fun hmem => ⟨(blockKey, set), hmem, if_pos rfl⟩

/-- Whatever chance has it, the renderings and requests of a run show the same children of each block. -/
def PresentAgrees (course : LibraryCourse) (states : States) (events : List Event) : Prop :=
  ∀ turns : List (Event × (UsageKey → Chance)), turns.map Prod.fst = events →
    ∃ shown, course.present states turns = .ok shown ∧
      ∀ blockKey, ∃ set, ∀ other, (blockKey, other) ∈ shown → other = set

theorem PresentAgrees.agrees {events : List Event} (hagr : course.PresentAgrees states events) (blockKey : UsageKey) :
    Agrees (course.block blockKey) (states blockKey) (course.looksOf blockKey events) := by
  intro looks hlooks
  obtain ⟨turns, hturns, rfl⟩ := exists_turnsOf blockKey hlooks
  obtain ⟨shown, hpres, hall⟩ := hagr turns hturns
  obtain ⟨set, hset⟩ := hall blockKey
  exact ⟨_, set, present_shows hpres blockKey, fun other hoth => hset other (mem_shownOf.mp hoth)⟩

/-- The same children are shown throughout exactly if this is settled for each block by what it sees of the run. -/
theorem presentAgrees_iff (course : LibraryCourse) (states : States) (events : List Event) :
    course.PresentAgrees states events ↔
      ∀ blockKey, Consistent (course.block blockKey) (states blockKey) (course.looksOf blockKey events) := by
  simp only [← agrees_iff]
  constructor
  · exact fun hagrees blockKey => hagrees.agrees blockKey
  · intro hagrees turns hturns
    have hblocks : ∀ blockKey, ∃ shown set,
        showAll (course.block blockKey) (states blockKey) (course.turnsOf blockKey turns) = .ok shown ∧
          ∀ other ∈ shown, other = set := fun blockKey =>
      hagrees blockKey _ (by rw [looksOf_turns, hturns])
    obtain ⟨shown, hpresent⟩ := present_returns fun blockKey =>
      (hblocks blockKey).imp fun shown hshown => hshown.choose_spec.1
    refine ⟨shown, hpresent, fun blockKey => ?_⟩
    obtain ⟨found, set, hfound, hset⟩ := hblocks blockKey
    obtain rfl := ok.inj (hfound.symm.trans (present_shows hpresent blockKey))
    exact ⟨set, fun other hother => hset other (mem_shownOf.mpr hother)⟩

end LibraryCourse

def problemBank : LibraryCourse where
  blocks := [⟨"library_content", "bank"⟩]
  nodup := nodup_singleton _
  block _ := ⟨[⟨"problem", "algebra"⟩, ⟨"problem", "geometry"⟩], 1, "random", rfl⟩
  disjoint _ hfirst _ hsecond hne :=
    absurd ((List.mem_singleton.mp hfirst).trans (List.mem_singleton.mp hsecond).symm) hne

def newLearner : LibraryCourse.States := fun _ => ⟨[], fun _ hvalue => nomatch hvalue⟩

/-- Two requests before the first rendering may show different problems. -/
theorem problemBank_differs : ¬ problemBank.PresentAgrees newLearner [.request, .request] := by
  intro hagrees
  have hconsistent := consistent_of_agrees (hagrees.agrees ⟨"library_content", "bank"⟩)
  obtain ⟨-, hrendering | ⟨-, hnil | hforced⟩⟩ := hconsistent
  · cases hrendering
  · cases hnil
  · exact absurd hforced (by unfold Forced; decide)

end EdxPlatform.LibraryContent
