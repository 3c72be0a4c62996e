import EdxPlatform.BlockStructure.TraversalOrders
import EdxPlatform.Lib.Heap
import EdxPlatform.Lib.Paths

/-!
# Navigation lists

A block within the navigation depth has a list of the blocks below it.  The lists are objects that the blocks
hand down to their children, up to the next blocks that have lists of their own.
-/

namespace EdxPlatform

open Relation Heap BlockStructure

variable {κ δ : Type} [DecidableEq κ]

/-! ## Depths -/

namespace BlockDepth

open BlockStructure

/-- `min(depths) + 1`; `None` comes before every number and nothing can be added to it. -/
def minDepthPlusOne (depths : List (Option Nat)) : Except PyError Nat :=
  match depths.mapM id with
  | none => .error .typeError
  | some depths =>
    match depths.min? with
    | none => .error .valueError
    | some depth => .ok (depth + 1)

/-- `BlockDepthTransformer.get_block_depth`. -/
def getBlockDepth (depths : Dict κ Nat) (blockKey : κ) : Option Nat := depths.lookup blockKey

/-- One round of the loop of `transform`. -/
def setBlockDepth (blocks : BlockStructure κ δ) (depths : Dict κ Nat) (blockKey : κ) :
    ExceptT PyError Option (Dict κ Nat) := do
  let parents := blocks.getParents blockKey
  let blockDepth ← if parents.isEmpty then pure 0
    else ExceptT.mk (some (minDepthPlusOne (parents.map (getBlockDepth depths))))
  return depths.insert blockKey blockDepth

/-- `BlockDepthTransformer.transform`: the structure that it leaves and the field that it sets. -/
def transform (requestedDepth : Option Int) (fuel : Nat) (blocks : BlockStructure κ δ) (depths : Dict κ Nat) :
    ExceptT PyError Option (BlockStructure κ δ × Dict κ Nat) := do
  let order ← blocks.topologicalTraversal fuel
  let depths ← order.foldlM (setBlockDepth blocks) depths
  match requestedDepth with
  | none => return (blocks, depths)
  | some requestedDepth =>
    let blocks ← removeBlockTraversal fuel (fun blockKey => match getBlockDepth depths blockKey with
        | some depth => requestedDepth < depth
        | none => false) false blocks
    return (blocks, depths)

def pathLength (path : List κ) : Nat := path.length - 1

/-- The length of the shortest path from the root to a block. -/
noncomputable def depth (blocks : BlockStructure κ δ) (key : κ) : Nat :=
  sInf (pathCosts blocks.Edge blocks.rootBlockUsageKey pathLength key)

omit [DecidableEq κ] in
theorem minDepthPlusOne_some {depths : List Nat} {nearest : Nat} (hnear : depths.min? = some nearest) :
    minDepthPlusOne (depths.map some) = .ok (nearest + 1) := by
  have hmap : (depths.map some).mapM id = some depths := by
    rw [List.mapM_map]
    exact (List.mapM_pure).trans (congrArg some (map_id _))
  unfold minDepthPlusOne
  rw [hmap]
  dsimp only
  rw [hnear]

variable {blocks : BlockStructure κ δ}

section

variable (hlink : blocks.Linked blocks.rootBlockUsageKey) (depths : Dict κ Nat)
include hlink

theorem setBlockDepth_least {key : κ} (hsett : Settled blocks.getParents blocks.rootBlockUsageKey key)
    (hpars : ∀ parent ∈ blocks.getParents key, ∃ found, depths.lookup parent = some found ∧
      IsLeast (pathCosts blocks.Edge blocks.rootBlockUsageKey pathLength parent) found) :
    ∃ found, setBlockDepth blocks depths key = pure (depths.insert key found) ∧
      IsLeast (pathCosts blocks.Edge blocks.rootBlockUsageKey pathLength key) found := by
  unfold setBlockDepth
  dsimp only
  cases hsett with
  | start =>
    rw [hlink.root_parents]
    exact ⟨0, rfl, ⟨_, .start, rfl⟩, fun _ _ => Nat.zero_le _⟩
  | node hroot hne _ =>
    choose! found hfnd hleast using hpars
    obtain ⟨nearest, hnear, hmin, hle⟩ := @exists_cheapest κ Nat _ found _ hne
    have hmap : (blocks.getParents key).map (getBlockDepth depths) = ((blocks.getParents key).map found).map some := by
      rw [map_map]
      exact map_congr_left hfnd
    have hedge : ∀ parent, blocks.Edge parent key ↔ parent ∈ blocks.getParents key := fun parent =>
      hlink.edge_iff hroot
    refine ⟨found nearest + 1, ?_, isLeast_pathCosts (fun _ _ => Nat.succ_le_succ) hroot ?_
      (fun parent hpar => hleast parent ((hedge parent).mp hpar)) ((hedge nearest).mpr hnear)
      fun parent hpar => hle parent ((hedge parent).mp hpar)⟩
    · rw [hmap, minDepthPlusOne_some hmin, if_neg (by rwa [isEmpty_iff])]
      rfl
    · intro path parent hpath
      have hpos : 0 < path.length := by
        cases hpath <;> simp
      unfold pathLength
      rw [length_append, length_singleton]
      omega

theorem transform_depths :
    ∃ bound last, (∀ fuel, bound ≤ fuel → transform none fuel blocks depths = some (.ok (blocks, last))) ∧
      ∀ key, Settled blocks.getParents blocks.rootBlockUsageKey key → last.lookup key = some (depth blocks key) := by
  obtain ⟨order, bound, hord, hbound⟩ := @topologicalTraversal_yields κ _ δ blocks (fun _ => true) false
    (.inr fun _ => rfl) fun _ _ hne => hlink.edge_iff hne
  obtain ⟨last, hlast, hdep⟩ := foldlM_along (hord.parents_before hlink.root_parents)
    (fun depths key hkey => setBlockDepth_least hlink depths ((hord.mem_iff key).mp hkey)) depths
  refine ⟨bound, last, fun fuel hfuel => ?_, fun key hsett => ?_⟩
  · unfold transform
    rw [hbound fuel hfuel, filter_true]
    change (order.foldlM (setBlockDepth blocks) depths >>= _) = _
    rw [hlast]
    rfl
  · obtain ⟨found, hlook, hleast⟩ := hdep key ((hord.mem_iff key).mpr hsett)
    rw [hlook, depth, hleast.csInf_eq]

end

end BlockDepth

/-! ## Lists -/

namespace BlockNavigation

open BlockDepth

/-- The items of a `DescendantList`. -/
abbrev DescendantList := List String

/-- The descendant lists, and the two fields that refer to them. -/
structure NavigationState (κ : Type) where
  lists : Heap DescendantList := {}
  blockNavigation : Dict κ Ref := ∅
  blockNavigationForChildren : Dict κ (Option (Finset Ref)) := ∅

variable (unicode : κ → String) (navDepth : Int) (blocks : BlockStructure κ XBlockFields) (depths : Dict κ Nat)

def hideFromToc (blockKey : κ) : Bool := (blocks.getXBlockField blockKey XBlockFields.hideFromToc).getD false

/-- `get_block_depth(blocks, key) > nav_depth`; `None` is greater than no number. -/
def belowNavigation (blockKey : κ) : Bool :=
  match getBlockDepth depths blockKey with
  | some depth => navDepth < depth
  | none => false

def parentsDescendantsList (state : NavigationState κ) (blockKey : κ) : Finset Ref :=
  (blocks.getParents blockKey).foldl (fun lists parentKey =>
      match state.blockNavigationForChildren.lookup parentKey with
      | some (some parentNav) => lists ∪ parentNav
      | _ => lists) ∅

/-- One round of the loop of `transform`. -/
def navigateBlock (state : NavigationState κ) (blockKey : κ) : NavigationState κ :=
  let parentsLists := parentsDescendantsList blocks state blockKey
  if hideFromToc blocks blockKey = false ∧ (blocks.getParents blockKey = [] ∨ parentsLists.Nonempty) then
    let lists := state.lists.updateAll parentsLists (· ++ [unicode blockKey])
    if belowNavigation navDepth depths blockKey then
      { state with
        lists
        blockNavigationForChildren := state.blockNavigationForChildren.insert blockKey (some parentsLists) }
    else
      { lists := lists.alloc []
        blockNavigation := state.blockNavigation.insert blockKey lists.fresh
        blockNavigationForChildren := state.blockNavigationForChildren.insert blockKey (some {lists.fresh}) }
  else
    { state with
      blockNavigationForChildren := state.blockNavigationForChildren.insert blockKey none }

/-- `BlockNavigationTransformer.transform`, for the fields that it sets. -/
def transform (navDepth : Option Int) (fuel : Nat) : ExceptT PyError Option (NavigationState κ) := do
  match navDepth with
  | none => return {}
  | some navDepth =>
    let order ← blocks.topologicalTraversal fuel
    return order.foldl (navigateBlock unicode navDepth blocks depths) {}

/-- The field `block_nav` of a block. -/
def NavigationState.blockNav (state : NavigationState κ) (blockKey : κ) : Option DescendantList :=
  (state.blockNavigation.lookup blockKey).bind state.lists.read

/-! ## What the lists are to hold -/

def Shown (key : κ) : Prop :=
  ∃ path, PathTo blocks.Edge blocks.rootBlockUsageKey path key ∧ ∀ other ∈ path, hideFromToc blocks other = false

/-- A path without hidden blocks leads from a block to one below it, between which all blocks are too deep. -/
def Lists (key below : κ) : Prop :=
  ∃ between, PathTo blocks.Edge key (key :: (between ++ [below])) below ∧
    (∀ other ∈ key :: (between ++ [below]), hideFromToc blocks other = false) ∧
    ∀ other ∈ between, navDepth < depth blocks other

/-- The list of a block is handed down to the children of another one. -/
inductive Carries (key : κ) : κ → Prop
  | self (hshown : hideFromToc blocks key = false) : Carries key key
  | deep {parent child : κ} (hcarries : Carries key parent) (hedge : blocks.Edge parent child)
      (hshown : hideFromToc blocks child = false) (hdeep : navDepth < depth blocks child) : Carries key child

variable {unicode navDepth blocks depths} {below key : κ}

theorem carries_iff : Carries navDepth blocks key below ↔ ∃ between, PathTo blocks.Edge key (key :: between) below ∧
      (∀ other ∈ key :: between, hideFromToc blocks other = false) ∧
        ∀ other ∈ between, navDepth < depth blocks other := by
  constructor
  · intro hcar
    induction hcar with
    | self hshown => exact ⟨[], .start, by simpa using hshown, fun other hoth => nomatch hoth⟩
    | deep _ hedge hshown hdeep ih =>
      obtain ⟨between, hpath, hshownAll, hdeepAll⟩ := ih
      refine ⟨_, hpath.step hedge, fun other hoth => ?_, fun other hoth => ?_⟩
      · rcases mem_append.mp (cons_append ▸ hoth) with hoth | hoth
        · exact hshownAll other hoth
        · rwa [mem_singleton.mp hoth]
      · rcases mem_append.mp hoth with hoth | hoth
        · exact hdeepAll other hoth
        · rwa [mem_singleton.mp hoth]
  · rintro ⟨between, hpath, hshown, hdeep⟩
    generalize hfull : key :: between = full at hpath
    induction hpath generalizing between with
    | start => exact .self (hshown key mem_cons_self)
    | @step path parent child hpath hedge ih =>
      obtain ⟨front, rfl⟩ := hpath.exists_cons
      obtain rfl : between = front ++ [child] := (cons.inj hfull).2
      have hlast : child ∈ front ++ [child] := mem_append_right _ (mem_singleton.mpr rfl)
      refine .deep (ih front (fun other hoth => ?_) (fun other hoth => hdeep other (mem_append_left _ hoth))
        rfl) hedge (hshown child (mem_cons_of_mem _ hlast)) (hdeep child hlast)
      exact hshown other (mem_cons.mpr ((mem_cons.mp hoth).imp_right (mem_append_left _)))

theorem lists_iff : Lists navDepth blocks key below ↔ hideFromToc blocks below = false ∧
      ∃ parent, Carries navDepth blocks key parent ∧ blocks.Edge parent below := by
  have hassoc : ∀ between, key :: (between ++ [below]) = (key :: between) ++ [below] := fun _ => rfl
  constructor
  · rintro ⟨between, hpath, hshown, hdeep⟩
    refine ⟨hshown below hpath.mem, ?_⟩
    generalize hfull : key :: (between ++ [below]) = full at hpath
    cases hpath with
    | start => simp at hfull
    | @step front parent _ hfront hedge =>
      obtain ⟨rfl, -⟩ := append_inj' ((hassoc between).symm.trans hfull) rfl
      exact ⟨parent, carries_iff.mpr ⟨between, hfront, fun other hoth =>
        hshown other (hassoc between ▸ mem_append_left _ hoth), hdeep⟩, hedge⟩
  · rintro ⟨hbel, parent, hcar, hedge⟩
    obtain ⟨between, hpath, hshown, hdeep⟩ := carries_iff.mp hcar
    refine ⟨between, hpath.step hedge, fun other hoth => ?_, hdeep⟩
    rcases mem_append.mp (hassoc between ▸ hoth) with hoth | hoth
    · exact hshown other hoth
    · rwa [mem_singleton.mp hoth]

theorem Carries.reaches (hcar : Carries navDepth blocks key below) : ReflTransGen blocks.Edge key below := by
  induction hcar with
  | self _ => exact ReflTransGen.refl
  | deep _ hedge _ _ ih => exact ih.tail hedge

theorem Carries.shown (hcar : Carries navDepth blocks key below) : hideFromToc blocks below = false := by
  cases hcar with
  | self hshown => exact hshown
  | deep _ _ hshown _ => exact hshown

theorem Shown.not_hidden (hshown : Shown blocks key) : hideFromToc blocks key = false := by
  obtain ⟨path, hpath, hall⟩ := hshown
  exact hall key hpath.mem

theorem Shown.child {parent child : κ} (hpar : Shown blocks parent) (hedge : blocks.Edge parent child)
    (hch : hideFromToc blocks child = false) : Shown blocks child := by
  obtain ⟨path, hpath, hall⟩ := hpar
  refine ⟨path ++ [child], hpath.step hedge, fun other hoth => ?_⟩
  rcases mem_append.mp hoth with hoth | hoth
  · exact hall other hoth
  · rwa [mem_singleton.mp hoth]

theorem Shown.reaches (hshown : Shown blocks key) : ReflTransGen blocks.Edge blocks.rootBlockUsageKey key := by
  obtain ⟨path, hpath, -⟩ := hshown
  exact exists_pathTo_iff.mp ⟨path, hpath⟩

theorem shown_root_iff : Shown blocks blocks.rootBlockUsageKey ↔ hideFromToc blocks blocks.rootBlockUsageKey = false :=
  ⟨Shown.not_hidden, fun hshown => ⟨_, .start, fun other hoth => by rwa [mem_singleton.mp hoth]⟩⟩

theorem Shown.parent (hshown : Shown blocks key) (hroot : key ≠ blocks.rootBlockUsageKey) :
    ∃ parent, blocks.Edge parent key ∧ Shown blocks parent := by
  obtain ⟨path, hpath, hall⟩ := hshown
  obtain ⟨front, parent, hfront, hedge, rfl⟩ := (pathTo_iff hroot).mp hpath
  exact ⟨parent, hedge, front, hfront, fun other hoth => hall other (mem_append_left _ hoth)⟩

theorem Shown.of_carries (hshown : Shown blocks key) (hcar : Carries navDepth blocks key below) :
    Shown blocks below := by
  induction hcar with
  | self _ => exact hshown
  | deep _ hedge hch _ ih => exact ih.child hedge hch

theorem Shown.exists_carries (hroot : (depth blocks blocks.rootBlockUsageKey : Int) ≤ navDepth)
    (hshown : Shown blocks key) :
    ∃ above, Shown blocks above ∧ (depth blocks above : Int) ≤ navDepth ∧ Carries navDepth blocks above key := by
  obtain ⟨path, hpath, hall⟩ := hshown
  induction hpath with
  | start =>
    have hst := hall _ mem_cons_self
    exact ⟨_, shown_root_iff.mpr hst, hroot, .self hst⟩
  | @step path parent child hpath hedge ih =>
    have hch : hideFromToc blocks child = false := hall child (hpath.step hedge).mem
    have hfront : ∀ other ∈ path, hideFromToc blocks other = false := fun other hoth =>
      hall other (mem_append_left _ hoth)
    by_cases hdeep : navDepth < depth blocks child
    · obtain ⟨above, habove, hdepth, hcar⟩ := ih hfront
      exact ⟨above, habove, hdepth, .deep hcar hedge hch hdeep⟩
    · exact ⟨child, Shown.child ⟨path, hpath, hfront⟩ hedge hch, not_lt.mp hdeep, .self hch⟩

/-! ## The pass over the blocks -/

section

variable (hlink : blocks.Linked blocks.rootBlockUsageKey) (hacyc : Acyclic blocks.Edge)
include hlink hacyc

theorem mem_of_above {front : List κ} (hbef : DependencyOrder blocks.getParents front)
    (hkey : ReflTransGen blocks.Edge blocks.rootBlockUsageKey key) (hrch : ReflTransGen blocks.Edge key below)
    (hbel : below ∈ front) : key ∈ front := by
  induction hrch using ReflTransGen.head_induction_on with
  | refl => exact hbel
  | @head parent child hedge _ ih =>
    have hch : child ≠ blocks.rootBlockUsageKey := by
      rintro rfl
      exact hacyc _ (TransGen.tail' hkey hedge)
    exact hbef.closed (ih (hkey.tail hedge)) ((hlink.edge_iff hch).mp hedge)

theorem parent_of_below_shown {parent child : κ} (hshown : Shown blocks key) (hcar : Carries navDepth blocks key parent)
    (hedge : blocks.Edge parent child) : parent ∈ blocks.getParents child := by
  refine (hlink.edge_iff ?_).mp hedge
  rintro rfl
  exact hacyc _ (TransGen.tail' (hshown.reaches.trans hcar.reaches) hedge)

end

/-- The list at a reference holds the visited blocks that the list of a block is to hold. -/
def HoldsList (unicode : κ → String) (navDepth : Int) (blocks : BlockStructure κ XBlockFields) (front : List κ)
    (lists : Heap DescendantList) (key : κ) (ref : Ref) : Prop :=
  ∃ listed : List κ, listed.Nodup ∧ (∀ below, below ∈ listed ↔ below ∈ front ∧ Lists navDepth blocks key below) ∧
    lists.read ref = some (listed.map unicode)

/-- What holds when the blocks of `front` have been visited. -/
structure Navigated (unicode : κ → String) (navDepth : Int) (blocks : BlockStructure κ XBlockFields) (front : List κ)
    (state : NavigationState κ) : Prop where
  navigable : ∀ key, key ∈ state.blockNavigation ↔ key ∈ front ∧ Shown blocks key ∧ (depth blocks key : Int) ≤ navDepth
  injective : ∀ key other ref, state.blockNavigation.lookup key = some ref →
    state.blockNavigation.lookup other = some ref → key = other
  items : ∀ key ref, state.blockNavigation.lookup key = some ref →
    HoldsList unicode navDepth blocks front state.lists key ref
  handed : ∀ key ∈ front, Shown blocks key → ∃ refs, state.blockNavigationForChildren.lookup key = some (some refs) ∧
      ∀ ref, ref ∈ refs ↔ ∃ above, state.blockNavigation.lookup above = some ref ∧ Carries navDepth blocks above key
  hidden : ∀ key ∈ front, ¬ Shown blocks key → state.blockNavigationForChildren.lookup key = some none

theorem mem_parentsDescendantsList {state : NavigationState κ} {ref : Ref} :
    ref ∈ parentsDescendantsList blocks state key ↔ ∃ parent ∈ blocks.getParents key, ∃ refs,
      state.blockNavigationForChildren.lookup parent = some (some refs) ∧ ref ∈ refs := by
  unfold parentsDescendantsList
  have hfold : ∀ (parents : List κ) (lists : Finset Ref), ref ∈ parents.foldl (fun lists parentKey =>
      match state.blockNavigationForChildren.lookup parentKey with
      | some (some parentNav) => lists ∪ parentNav
      | _ => lists) lists ↔ ref ∈ lists ∨ ∃ parent ∈ parents, ∃ refs,
        state.blockNavigationForChildren.lookup parent = some (some refs) ∧ ref ∈ refs := by
    intro parents
    induction parents with
    | nil => simp
    | cons first rest ih =>
      intro lists
      rw [foldl_cons, ih, exists_mem_cons_iff, ← or_assoc]
      refine or_congr_left ?_
      split
      · next refs hrefs => simp [hrefs]
      · next hnone => exact ⟨.inl, fun hor => hor.elim id fun ⟨refs, hrefs, _⟩ => (hnone refs hrefs).elim⟩
  rw [hfold]
  simp

namespace Navigated

variable {front : List κ} {state : NavigationState κ} {key : κ} (hnavi : Navigated unicode navDepth blocks front state)

theorem mem_parentsLists (hnavi : Navigated unicode navDepth blocks front state)
    (hpars : blocks.getParents key ⊆ front) {ref : Ref} :
    ref ∈ parentsDescendantsList blocks state key ↔ ∃ above, state.blockNavigation.lookup above = some ref ∧
      ∃ parent ∈ blocks.getParents key, Carries navDepth blocks above parent := by
  rw [mem_parentsDescendantsList]
  constructor
  · rintro ⟨parent, hpar, refs, hrefs, hmem⟩
    by_cases hshown : Shown blocks parent
    · obtain ⟨found, hfnd, hiff⟩ := hnavi.handed parent (hpars hpar) hshown
      obtain rfl := some.inj (some_unique hrefs hfnd)
      obtain ⟨above, habove, hcar⟩ := (hiff ref).mp hmem
      exact ⟨above, habove, parent, hpar, hcar⟩
    · cases hrefs.symm.trans (hnavi.hidden parent (hpars hpar) hshown)
  · rintro ⟨above, habove, parent, hpar, hcar⟩
    obtain ⟨-, hshown, -⟩ := (hnavi.navigable above).mp (Dict.mem_iff_lookup.mpr ⟨ref, habove⟩)
    obtain ⟨refs, hrefs, hiff⟩ := hnavi.handed parent (hpars hpar) (hshown.of_carries hcar)
    exact ⟨parent, hpar, refs, hrefs, (hiff ref).mpr ⟨above, habove, hcar⟩⟩

section

variable (hlink : blocks.Linked blocks.rootBlockUsageKey) (hacyc : Acyclic blocks.Edge)
include hnavi hlink hacyc

theorem shown_iff (hbef : DependencyOrder blocks.getParents front) (hpars : blocks.getParents key ⊆ front)
    (hsett : Settled blocks.getParents blocks.rootBlockUsageKey key)
    (hroot : (depth blocks blocks.rootBlockUsageKey : Int) ≤ navDepth) :
    hideFromToc blocks key = false ∧
        (blocks.getParents key = [] ∨ (parentsDescendantsList blocks state key).Nonempty) ↔ Shown blocks key := by
  constructor
  · rintro ⟨hkey, hnone | ⟨ref, href⟩⟩
    · cases hsett with
      | start => exact shown_root_iff.mpr hkey
      | node _ hne _ => exact absurd hnone hne
    · obtain ⟨above, habove, parent, hpar, hcar⟩ := (hnavi.mem_parentsLists hpars).mp href
      obtain ⟨-, hshown, -⟩ := (hnavi.navigable above).mp (Dict.mem_iff_lookup.mpr ⟨ref, habove⟩)
      refine (hshown.of_carries hcar).child ((hlink.edge_iff ?_).mpr hpar) hkey
      rintro rfl
      rw [hlink.root_parents] at hpar
      cases hpar
  · intro hshown
    refine ⟨hshown.not_hidden, or_iff_not_imp_left.mpr fun hne => ?_⟩
    have hkey : key ≠ blocks.rootBlockUsageKey := fun heq => hne (heq ▸ hlink.root_parents)
    obtain ⟨parent, hedge, hparentShown⟩ := hshown.parent hkey
    obtain ⟨above, hshownAbove, hdepth, hcar⟩ := hparentShown.exists_carries hroot
    have hpar := (hlink.edge_iff hkey).mp hedge
    have habove := mem_of_above hlink hacyc hbef hshownAbove.reaches hcar.reaches (hpars hpar)
    obtain ⟨ref, href⟩ := Dict.mem_iff_lookup.mp ((hnavi.navigable above).mpr ⟨habove, hshownAbove, hdepth⟩)
    exact ⟨ref, (hnavi.mem_parentsLists hpars).mpr ⟨above, href, parent, hpar, hcar⟩⟩

theorem lists_iff_handed (hpars : blocks.getParents key ⊆ front) (hshown : Shown blocks key) {above : κ} {ref : Ref}
    (habove : state.blockNavigation.lookup above = some ref) :
    Lists navDepth blocks above key ↔ ref ∈ parentsDescendantsList blocks state key := by
  obtain ⟨-, hshownAbove, -⟩ := (hnavi.navigable above).mp (Dict.mem_iff_lookup.mpr ⟨ref, habove⟩)
  rw [lists_iff, hnavi.mem_parentsLists hpars]
  constructor
  · rintro ⟨-, parent, hcar, hedge⟩
    exact ⟨above, habove, parent, parent_of_below_shown hlink hacyc hshownAbove hcar hedge, hcar⟩
  · rintro ⟨other, hoth, parent, hpar, hcar⟩
    obtain rfl := hnavi.injective other above ref hoth habove
    refine ⟨hshown.not_hidden, parent, hcar, (hlink.edge_iff ?_).mpr hpar⟩
    rintro rfl
    rw [hlink.root_parents] at hpar
    cases hpar

theorem holdsList_shown (hkey : key ∉ front)
    (hpars : blocks.getParents key ⊆ front) (hshown : Shown blocks key) {above : κ} {ref : Ref}
    (habove : state.blockNavigation.lookup above = some ref) :
    HoldsList unicode navDepth blocks (front ++ [key])
      (state.lists.updateAll (parentsDescendantsList blocks state key) (· ++ [unicode key])) above ref := by
  obtain ⟨listed, hnod, hmem, hread⟩ := hnavi.items above ref habove
  have hhan := hnavi.lists_iff_handed hlink hacyc hpars hshown habove
  unfold HoldsList
  rw [read_updateAll, hread]
  by_cases href : ref ∈ parentsDescendantsList blocks state key
  · refine ⟨listed ++ [key], ?_, fun below => ?_, ?_⟩
    · refine nodup_append.mpr ⟨hnod, nodup_singleton key, fun other hoth last hlast heq => hkey ?_⟩
      exact ((hmem key).mp (mem_singleton.mp hlast ▸ heq ▸ hoth)).1
    · rw [mem_append, mem_append, hmem, mem_singleton]
      constructor
      · rintro (⟨hfront, hls⟩ | rfl)
        · exact ⟨.inl hfront, hls⟩
        · exact ⟨.inr rfl, hhan.mpr href⟩
      · rintro ⟨hfront | hbel, hls⟩
        · exact .inl ⟨hfront, hls⟩
        · exact .inr hbel
    · rw [if_pos href, map_append]
      rfl
  · refine ⟨listed, hnod, fun below => ?_, if_neg href⟩
    rw [mem_append, hmem, mem_singleton]
    constructor
    · exact fun ⟨hfront, hls⟩ => ⟨.inl hfront, hls⟩
    · rintro ⟨hfront | rfl, hls⟩
      · exact ⟨hfront, hls⟩
      · exact absurd (hhan.mp hls) href

end

theorem visit_hidden (hnavi : Navigated unicode navDepth blocks front state) (hkey : key ∉ front)
    (hshown : ¬ Shown blocks key) :
    Navigated unicode navDepth blocks (front ++ [key])
      { state with blockNavigationForChildren := state.blockNavigationForChildren.insert key none } where
  navigable := by
    intro other
    rw [hnavi.navigable, mem_append, mem_singleton]
    refine and_congr_left fun hoth => ⟨.inl, fun hmem => hmem.resolve_right ?_⟩
    rintro rfl
    exact hshown hoth.1
  injective := hnavi.injective
  items := by
    intro above ref habove
    obtain ⟨listed, hnod, hmem, hread⟩ := hnavi.items above ref habove
    refine ⟨listed, hnod, fun below => ?_, hread⟩
    rw [hmem, mem_append, mem_singleton]
    refine and_congr_left fun hls => ⟨.inl, fun hmem => hmem.resolve_right ?_⟩
    rintro rfl
    obtain ⟨-, hshownAbove, -⟩ := (hnavi.navigable above).mp (Dict.mem_iff_lookup.mpr ⟨ref, habove⟩)
    obtain ⟨hbel, parent, hcar, hedge⟩ := lists_iff.mp hls
    exact hshown ((hshownAbove.of_carries hcar).child hedge hbel)
  handed := by
    intro other hoth hotherShown
    have hne : other ≠ key := fun heq => hshown (heq ▸ hotherShown)
    dsimp only
    rw [lookup_insert_of_ne hne]
    exact hnavi.handed other ((mem_append.mp hoth).resolve_right fun hlast => hne (mem_singleton.mp hlast)) hotherShown
  hidden := by
    intro other hoth hotherHidden
    dsimp only
    by_cases heq : other = key
    · rw [heq, lookup_insert_self]
    · rw [lookup_insert_of_ne heq]
      exact hnavi.hidden other
        ((mem_append.mp hoth).resolve_right fun hlast => heq (mem_singleton.mp hlast)) hotherHidden

section

variable (hlink : blocks.Linked blocks.rootBlockUsageKey) (hacyc : Acyclic blocks.Edge)
include hnavi hlink hacyc

theorem visit_deep (hkey : key ∉ front)
    (hpars : blocks.getParents key ⊆ front) (hshown : Shown blocks key) (hdeep : navDepth < depth blocks key) :
    Navigated unicode navDepth blocks (front ++ [key])
      { state with
        lists := state.lists.updateAll (parentsDescendantsList blocks state key) (· ++ [unicode key])
        blockNavigationForChildren := state.blockNavigationForChildren.insert key
          (some (parentsDescendantsList blocks state key)) } where
  navigable := by
    intro other
    rw [hnavi.navigable, mem_append, mem_singleton]
    refine and_congr_left fun hoth => ⟨.inl, fun hmem => hmem.resolve_right ?_⟩
    rintro rfl
    exact absurd hdeep (not_lt.mpr hoth.2)
  injective := hnavi.injective
  items := fun above ref habove => hnavi.holdsList_shown hlink hacyc hkey hpars hshown habove
  handed := by
    intro other hoth hotherShown
    dsimp only
    by_cases heq : other = key
    · subst heq
      refine ⟨_, lookup_insert_self _ _ _, fun ref => ?_⟩
      rw [hnavi.mem_parentsLists hpars]
      refine exists_congr fun above => and_congr_right fun habove => ?_
      obtain ⟨hfront, hshownAbove, -⟩ := (hnavi.navigable above).mp (Dict.mem_iff_lookup.mpr ⟨ref, habove⟩)
      constructor
      · rintro ⟨parent, hpar, hcar⟩
        refine hcar.deep ((hlink.edge_iff ?_).mpr hpar) hshown.not_hidden hdeep
        rintro rfl
        rw [hlink.root_parents] at hpar
        cases hpar
      · rintro (_ | ⟨hcar, hedge, -, -⟩)
        · exact absurd hfront hkey
        · exact ⟨_, parent_of_below_shown hlink hacyc hshownAbove hcar hedge, hcar⟩
    · rw [lookup_insert_of_ne heq]
      exact hnavi.handed other
        ((mem_append.mp hoth).resolve_right fun hlast => heq (mem_singleton.mp hlast)) hotherShown
  hidden := by
    intro other hoth hotherHidden
    have hne : other ≠ key := fun heq => hotherHidden (heq ▸ hshown)
    dsimp only
    rw [lookup_insert_of_ne hne]
    exact hnavi.hidden other
      ((mem_append.mp hoth).resolve_right fun hlast => hne (mem_singleton.mp hlast)) hotherHidden

section

variable (hbef : DependencyOrder blocks.getParents front) (hkey : key ∉ front) (hpars : blocks.getParents key ⊆ front)
include hbef hkey hpars

theorem visit_navigable (hshown : Shown blocks key) (hdepth : (depth blocks key : Int) ≤ navDepth) :
    let lists := state.lists.updateAll (parentsDescendantsList blocks state key) (· ++ [unicode key])
    Navigated unicode navDepth blocks (front ++ [key])
      { lists := lists.alloc []
        blockNavigation := state.blockNavigation.insert key lists.fresh
        blockNavigationForChildren := state.blockNavigationForChildren.insert key (some {lists.fresh}) } := by
  intro lists
  have hitems : ∀ above ref, state.blockNavigation.lookup above = some ref →
      HoldsList unicode navDepth blocks (front ++ [key]) lists above ref := fun above ref habove =>
    hnavi.holdsList_shown hlink hacyc hkey hpars hshown habove
  have hold : ∀ above ref, state.blockNavigation.lookup above = some ref → lists.Holds ref := by
    intro above ref habove
    obtain ⟨_, _, _, hread⟩ := hitems above ref habove
    exact holds_of_read hread
  have hbel : ∀ below, ReflTransGen blocks.Edge key below → below ∉ front := fun below hrch hmem =>
    hkey (mem_of_above hlink hacyc hbef hshown.reaches hrch hmem)
  refine ⟨?_, ?_, ?_, ?_, ?_⟩
  · intro other
    dsimp only
    rw [mem_insert, hnavi.navigable, mem_append, mem_singleton]
    constructor
    · rintro (rfl | ⟨hfront, hoth⟩)
      · exact ⟨.inr rfl, hshown, hdepth⟩
      · exact ⟨.inl hfront, hoth⟩
    · rintro ⟨hfront | heq, hoth⟩
      · exact .inr ⟨hfront, hoth⟩
      · exact .inl heq
  · intro first second ref hfst hsec
    dsimp only at hfst hsec
    rw [lookup_insert] at hfst hsec
    split at hfst <;> split at hsec
    · next heq heq' => rw [heq, heq']
    · exact absurd (some.inj hfst).symm (hold _ _ hsec).ne_fresh
    · exact absurd (some.inj hsec).symm (hold _ _ hfst).ne_fresh
    · exact hnavi.injective first second ref hfst hsec
  · intro above ref habove
    dsimp only at habove ⊢
    rw [lookup_insert] at habove
    split at habove
    · next heq =>
        obtain rfl := some.inj habove
        subst heq
        refine ⟨[], nodup_nil, fun below => iff_of_false not_mem_nil ?_, read_alloc_fresh _ _⟩
        rintro ⟨hmem, hls⟩
        obtain ⟨-, parent, hcar, hedge⟩ := lists_iff.mp hls
        rcases mem_append.mp hmem with hfront | hlast
        · exact hbel below (hcar.reaches.tail hedge) hfront
        · rw [mem_singleton.mp hlast] at hedge
          exact hacyc _ (TransGen.tail' hcar.reaches hedge)
    · obtain ⟨listed, hnod, hmem, hread⟩ := hitems above ref habove
      exact ⟨listed, hnod, hmem, (read_alloc (hold above ref habove) _).trans hread⟩
  · intro other hoth hotherShown
    dsimp only
    by_cases heq : other = key
    · subst heq
      refine ⟨_, lookup_insert_self _ _ _, fun ref => ?_⟩
      rw [Finset.mem_singleton]
      constructor
      · rintro rfl
        exact ⟨other, lookup_insert_self _ _ _, .self hshown.not_hidden⟩
      · rintro ⟨above, habove, _ | ⟨-, -, -, hdeep⟩⟩
        · exact (some.inj ((lookup_insert_self _ _ _).symm.trans habove)).symm
        · exact absurd hdeep (not_lt.mpr hdepth)
    · have hfront : other ∈ front := (mem_append.mp hoth).resolve_right fun hlast => heq (mem_singleton.mp hlast)
      obtain ⟨refs, hrefs, hiff⟩ := hnavi.handed other hfront hotherShown
      rw [lookup_insert_of_ne heq]
      refine ⟨refs, hrefs, fun ref => (hiff ref).trans (exists_congr fun above => ?_)⟩
      by_cases habove : above = key
      · subst habove
        have hno : ¬ Carries navDepth blocks above other := fun hcar => hbel other hcar.reaches hfront
        exact iff_of_false (fun hboth => hno hboth.2) fun hboth => hno hboth.2
      · rw [lookup_insert_of_ne habove]
  · intro other hoth hotherHidden
    have hne : other ≠ key := fun heq => hotherHidden (heq ▸ hshown)
    dsimp only
    rw [lookup_insert_of_ne hne]
    exact hnavi.hidden other
      ((mem_append.mp hoth).resolve_right fun hlast => hne (mem_singleton.mp hlast)) hotherHidden

theorem visit (hsett : Settled blocks.getParents blocks.rootBlockUsageKey key)
    (hroot : (depth blocks blocks.rootBlockUsageKey : Int) ≤ navDepth)
    (hdepth : depths.lookup key = some (depth blocks key)) :
    Navigated unicode navDepth blocks (front ++ [key]) (navigateBlock unicode navDepth blocks depths state key) := by
  have hiff := hnavi.shown_iff hlink hacyc hbef hpars hsett hroot
  have hbel : belowNavigation navDepth depths key = decide (navDepth < depth blocks key) := by
    unfold belowNavigation getBlockDepth
    rw [hdepth]
  unfold navigateBlock
  dsimp only
  by_cases hshown : Shown blocks key
  · rw [if_pos (hiff.mpr hshown), hbel]
    by_cases hdeep : navDepth < depth blocks key
    · rw [if_pos (decide_eq_true hdeep)]
      exact hnavi.visit_deep hlink hacyc hkey hpars hshown hdeep
    · rw [if_neg (by simpa using hdeep)]
      exact hnavi.visit_navigable hlink hacyc hbef hkey hpars hshown (not_lt.mp hdeep)
  · rw [if_neg (mt hiff.mp hshown)]
    exact hnavi.visit_hidden hkey hshown

end

end

theorem of_order (hlink : blocks.Linked blocks.rootBlockUsageKey) (hacyc : Acyclic blocks.Edge)
    (hroot : (depth blocks blocks.rootBlockUsageKey : Int) ≤ navDepth) {order : List κ} (hnod : order.Nodup)
    (hbef : DependencyOrder blocks.getParents order)
    (hsett : ∀ key ∈ order, Settled blocks.getParents blocks.rootBlockUsageKey key)
    (hdep : ∀ key ∈ order, depths.lookup key = some (depth blocks key)) :
    Navigated unicode navDepth blocks order (order.foldl (navigateBlock unicode navDepth blocks depths) {}) := by
  induction order using reverseRecOn with
  | nil =>
    exact ⟨fun key => iff_of_false (notMem_empty key) fun hboth => not_mem_nil hboth.1,
      fun key other ref hkey => (by cases hkey), fun key ref hkey => (by cases hkey),
      fun key hkey => absurd hkey not_mem_nil, fun key hkey => absurd hkey not_mem_nil⟩
  | append_singleton front key ih =>
    obtain ⟨hfront, -, hdisj⟩ := nodup_append.mp hnod
    have hlast : key ∈ front ++ [key] := mem_append_right _ mem_cons_self
    have hvisd := ih hfront hbef.of_append (fun other hoth => hsett other (mem_append_left _ hoth))
      fun other hoth => hdep other (mem_append_left _ hoth)
    rw [foldl_append, foldl_cons, foldl_nil]
    exact hvisd.visit hlink hacyc hbef.of_append
      (fun hmem => hdisj key hmem key mem_cons_self rfl) hbef.last (hsett key hlast) hroot
      (hdep key hlast)

end Navigated

def RootedAbove (blocks : BlockStructure κ XBlockFields) (key : κ) : Prop :=
  ∀ above, ReflTransGen blocks.ParentOf above key → ReflTransGen blocks.Edge blocks.rootBlockUsageKey above

theorem Settled.reaches {blocks : BlockStructure κ XBlockFields}
    (hlink : blocks.Linked blocks.rootBlockUsageKey) (hsett : Settled blocks.getParents blocks.rootBlockUsageKey key) :
    ReflTransGen blocks.Edge blocks.rootBlockUsageKey key := by
  induction hsett with
  | start => exact ReflTransGen.refl
  | node hroot hne _ ih =>
    obtain ⟨parent, hpar⟩ := exists_mem_of_ne_nil _ hne
    exact (ih parent hpar).tail ((hlink.edge_iff hroot).mpr hpar)

theorem settled_iff (hlink : blocks.Linked blocks.rootBlockUsageKey) (hacyc : Acyclic blocks.Edge) :
    Settled blocks.getParents blocks.rootBlockUsageKey key ↔ RootedAbove blocks key := by
  constructor
  · intro hsett above habove
    refine Settled.reaches hlink ?_
    induction habove using ReflTransGen.head_induction_on with
    | refl => exact hsett
    | @head parent child hpar _ ih =>
      cases ih with
      | start => exact absurd hpar (not_parentOf_root hlink parent)
      | node _ _ hpars => exact hpars parent hpar
  · intro hrooted
    have hfin : {child | ∃ parent, blocks.ParentOf parent child}.Finite :=
      Set.Finite.subset (List.finite_toSet blocks.blockRelations.keys) fun child ⟨_, hpar⟩ => mem_of_linksOf hpar
    have hwf : WellFounded blocks.ParentOf := (hacyc.mono fun _ _ hpar => edge_of_parentOf hlink hpar).wellFounded hfin
    induction key using hwf.induction with
    | _ key ih =>
      by_cases hroot : key = blocks.rootBlockUsageKey
      · rw [hroot]
        exact .start
      · obtain ⟨parent, -, hedge⟩ := (ReflTransGen.cases_tail (hrooted key ReflTransGen.refl)).resolve_left hroot
        refine .node hroot (ne_nil_of_mem ((hlink.edge_iff hroot).mp hedge)) fun other hoth => ?_
        exact ih other hoth fun above habove => hrooted above (habove.tail hoth)

theorem depth_root (blocks : BlockStructure κ XBlockFields) : depth blocks blocks.rootBlockUsageKey = 0 :=
  Nat.sInf_eq_zero.mpr (.inl ⟨_, .start, rfl⟩)

theorem transform_navigated (unicode : κ → String) (hlink : blocks.Linked blocks.rootBlockUsageKey)
    (hacyc : Acyclic blocks.Edge) (depths : Dict κ Nat) {navDepth : Int} (hnavDepth : 0 ≤ navDepth) :
    ∃ bound withDepths state order, (∀ fuel, bound ≤ fuel →
        BlockDepth.transform none fuel blocks depths = some (.ok (blocks, withDepths)) ∧
          transform unicode blocks withDepths (some navDepth) fuel = some (.ok state)) ∧
      (∀ key, key ∈ order ↔ RootedAbove blocks key) ∧ Navigated unicode navDepth blocks order state := by
  obtain ⟨depthBound, withDepths, hdepthRun, hdep⟩ := transform_depths hlink depths
  obtain ⟨order, orderBound, hord, hrun⟩ := @BlockStructure.topologicalTraversal_yields κ _ _ blocks
    (fun _ => true) false (.inr fun _ => rfl) fun _ _ hne => hlink.edge_iff hne
  have hroot : (depth blocks blocks.rootBlockUsageKey : Int) ≤ navDepth := by rwa [depth_root]
  refine ⟨max depthBound orderBound, withDepths, order.foldl (navigateBlock unicode navDepth blocks withDepths) {},
    order, fun fuel hfuel => ⟨hdepthRun fuel ((le_max_left _ _).trans hfuel), ?_⟩,
    fun key => (hord.mem_iff key).trans (settled_iff hlink hacyc), ?_⟩
  · unfold transform
    dsimp only
    rw [hrun fuel ((le_max_right _ _).trans hfuel), filter_true]
    rfl
  · exact Navigated.of_order hlink hacyc hroot hord.nodup (hord.parents_before hlink.root_parents)
      (fun key hkey => (hord.mem_iff key).mp hkey) fun key hkey => hdep key ((hord.mem_iff key).mp hkey)

/-- The field of a block is the list of all blocks that belong on it, each once. -/
def NavigatesTo (unicode : κ → String) (navDepth : Int) (blocks : BlockStructure κ XBlockFields)
    (state : NavigationState κ) (key : κ) : Prop :=
  ∃ listed : List κ, listed.Nodup ∧ (∀ below, below ∈ listed ↔ Lists navDepth blocks key below) ∧
    state.blockNav key = some (listed.map unicode)

theorem Navigated.navigatesTo_iff {order : List κ} {state : NavigationState κ}
    (hnavi : Navigated unicode navDepth blocks order state) (hshown : Shown blocks key)
    (hdepth : (depth blocks key : Int) ≤ navDepth) :
    NavigatesTo unicode navDepth blocks state key ↔
      key ∈ order ∧ ∀ below, Lists navDepth blocks key below → below ∈ order := by
  constructor
  · rintro ⟨listed, hnod, hmem, hnav⟩
    obtain ⟨ref, href, hread⟩ := bind_eq_some_iff.mp hnav
    obtain ⟨visited, hvisitedNodup, hvisd, hvisitedRead⟩ := hnavi.items key ref href
    have hlen : listed.length = visited.length := by
      have hmap := some_unique hread hvisitedRead
      rw [← length_map (f := unicode), hmap, length_map]
    -- the visited blocks are as many as those that are to be listed
    have hperm : visited.Perm listed := (List.subperm_of_subset hvisitedNodup fun below hbel =>
      (hmem below).mpr ((hvisd below).mp hbel).2).perm_of_length_le hlen.le
    exact ⟨((hnavi.navigable key).mp (Dict.mem_iff_lookup.mpr ⟨ref, href⟩)).1, fun below hls =>
      ((hvisd below).mp (hperm.mem_iff.mpr ((hmem below).mpr hls))).1⟩
  · rintro ⟨hkey, hbel⟩
    obtain ⟨ref, href⟩ := Dict.mem_iff_lookup.mp ((hnavi.navigable key).mpr ⟨hkey, hshown, hdepth⟩)
    obtain ⟨listed, hnod, hmem, hread⟩ := hnavi.items key ref href
    refine ⟨listed, hnod, fun below => (hmem below).trans ⟨And.right, fun hls => ⟨hbel below hls, hls⟩⟩, ?_⟩
    unfold NavigationState.blockNav
    rw [href]
    exact hread

/-- A block within the navigation depth has the list it is to have exactly if the traversal comes to the block
and to all blocks that belong on the list. -/
theorem blockNav_iff_rootedAbove (unicode : κ → String) (hlinked : blocks.Linked blocks.rootBlockUsageKey)
    (hacyclic : Acyclic blocks.Edge) (depths : Dict κ Nat) {navDepth : Int} (hnavDepth : 0 ≤ navDepth) :
    ∃ bound withDepths state, (∀ fuel, bound ≤ fuel →
        BlockDepth.transform none fuel blocks depths = some (.ok (blocks, withDepths)) ∧
          transform unicode blocks withDepths (some navDepth) fuel = some (.ok state)) ∧
      ∀ key, Shown blocks key → (depth blocks key : Int) ≤ navDepth → (NavigatesTo unicode navDepth blocks state key ↔
          RootedAbove blocks key ∧ ∀ below, Lists navDepth blocks key below → RootedAbove blocks below) := by
  obtain ⟨bound, withDepths, state, order, hruns, horder, hnavigated⟩ :=
    transform_navigated unicode hlinked hacyclic depths hnavDepth
  refine ⟨bound, withDepths, state, hruns, fun key hshown hdepth => ?_⟩
  rw [hnavigated.navigatesTo_iff hshown hdepth, horder]
  exact and_congr_right' (forall₂_congr fun below _ => horder below)

def sharedQuiz : BlockStructure String XBlockFields :=
  ((((BlockStructure.init "course").addRelation "course" "week1").addRelation "course" "week2").addRelation
    "week1" "quiz").addRelation "week2" "quiz"

theorem sharedQuiz_collected : sharedQuiz.Collected :=
  ((((collected_init "course").addRelation (by decide) (by decide) (by decide)).addRelation
    (by decide) (by decide) (by decide)).addRelation (by decide) (by decide) (by decide)).addRelation
    (by decide) (by decide) (by decide)

theorem acyclic_setRootBlock {blocks : BlockStructure κ δ} (hcoll : blocks.Collected) (start : κ) :
    Acyclic (blocks.setRootBlock start).Edge :=
  edge_setRootBlock blocks start ▸ hcoll.acyclic

/-- In the whole course every block has the list it is to have. -/
theorem sharedQuiz_blockNav : ∃ bound withDepths state, (∀ fuel, bound ≤ fuel →
        BlockDepth.transform none fuel (sharedQuiz.setRootBlock "course") ∅ =
            some (.ok (sharedQuiz.setRootBlock "course", withDepths)) ∧
          transform id (sharedQuiz.setRootBlock "course") withDepths (some 1) fuel = some (.ok state)) ∧
      ∀ key, Shown (sharedQuiz.setRootBlock "course") key → (depth (sharedQuiz.setRootBlock "course") key : Int) ≤ 1 →
        (NavigatesTo id 1 (sharedQuiz.setRootBlock "course") state key ↔
          RootedAbove (sharedQuiz.setRootBlock "course") key ∧ ∀ below,
            Lists 1 (sharedQuiz.setRootBlock "course") key below →
              RootedAbove (sharedQuiz.setRootBlock "course") below) :=
  blockNav_iff_rootedAbove id (sharedQuiz_collected.linked_setRootBlock "course")
    (acyclic_setRootBlock sharedQuiz_collected "course") ∅ (by decide)

theorem sharedQuiz_above_quiz : ¬ RootedAbove (sharedQuiz.setRootBlock "week1") "quiz" := by
  intro hrooted
  have hrch := hrooted "week2" (ReflTransGen.single (by decide +kernel :
    "week2" ∈ (sharedQuiz.setRootBlock "week1").getParents "quiz"))
  have hcl : ∀ key, ReflTransGen (sharedQuiz.setRootBlock "week1").Edge "week1" key → key ∈ ["week1", "quiz"] := by
    intro key hkey
    induction hkey with
    | refl => exact mem_cons_self
    | @tail parent child _ hedge ih =>
      have hall : ∀ parent ∈ ["week1", "quiz"], ∀ child ∈ (sharedQuiz.setRootBlock "week1").getChildren parent,
          child ∈ ["week1", "quiz"] := by decide +kernel
      exact hall parent ih child hedge
  exact absurd (hcl "week2" hrch) (by decide)

/-- Seen from the first week, the quiz is left off the list, as the traversal never comes to its other parent. -/
theorem sharedQuiz_leftOff : ¬ ∃ bound withDepths state, (∀ fuel, bound ≤ fuel →
        BlockDepth.transform none fuel (sharedQuiz.setRootBlock "week1") ∅ =
            some (.ok (sharedQuiz.setRootBlock "week1", withDepths)) ∧
          transform id (sharedQuiz.setRootBlock "week1") withDepths (some 0) fuel = some (.ok state)) ∧
      ∀ key, Shown (sharedQuiz.setRootBlock "week1") key → (depth (sharedQuiz.setRootBlock "week1") key : Int) ≤ 0 →
        NavigatesTo id 0 (sharedQuiz.setRootBlock "week1") state key := by
  rintro ⟨bound, withDepths, state, hruns, hall⟩
  obtain ⟨otherBound, otherDepths, otherState, order, hotherRuns, horder, hnavigated⟩ :=
    transform_navigated id (sharedQuiz_collected.linked_setRootBlock "week1")
      (acyclic_setRootBlock sharedQuiz_collected "week1") ∅ (le_refl 0)
  obtain ⟨hdepths, hnav⟩ := hruns _ (le_max_left bound otherBound)
  obtain ⟨hotherDepths, hotherNav⟩ := hotherRuns _ (le_max_right bound otherBound)
  obtain rfl := (Prod.mk.inj (ok.inj (some_unique hdepths hotherDepths))).2
  obtain rfl := ok.inj (some_unique hnav hotherNav)
  have hshown : Shown (sharedQuiz.setRootBlock "week1") "week1" := shown_root_iff.mpr (by decide +kernel)
  have hdepth : (depth (sharedQuiz.setRootBlock "week1") "week1" : Int) ≤ 0 := le_of_eq (by
    exact congrArg Nat.cast (depth_root (sharedQuiz.setRootBlock "week1")))
  have hlisted := ((hnavigated.navigatesTo_iff hshown hdepth).mp (hall "week1" hshown hdepth)).2 "quiz"
    ⟨[], .step .start (by decide +kernel), by decide +kernel, fun other hother => nomatch hother⟩
  exact sharedQuiz_above_quiz ((horder "quiz").mp hlisted)

end BlockNavigation

end EdxPlatform
