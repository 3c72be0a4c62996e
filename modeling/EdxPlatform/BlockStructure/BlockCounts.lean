import EdxPlatform.BlockStructure.Transform
import EdxPlatform.Lib.Routes

/-!
# Counting blocks

A block hands the counts of its children up, so that a block below it is counted once for each route to it.
-/

namespace EdxPlatform

open Relation BlockStructure

variable {κ : Type} [DecidableEq κ]

namespace BlockCounts

/-- The fields that the transformer sets on the blocks, under the names of the types. -/
abbrev CountFields (κ : Type) := Dict (κ × String) Nat

def descendantsTypeCount (blocks : BlockStructure κ XBlockFields) : NodeRule (κ × String) Nat :=
  fun (blockKey, blockType) known =>
    ((blocks.getChildren blockKey).map fun childKey => (known (childKey, blockType)).getD 0).sum +
      if blocks.getXBlockField blockKey XBlockFields.category = some blockType then 1 else 0

/-- One round of the loop of `transform`. -/
def countBlock (blocks : BlockStructure κ XBlockFields) (blockTypesToCount : List String)
    (fields : CountFields κ) (blockKey : κ) : CountFields κ :=
  blockTypesToCount.foldl (fun fields blockType => fields.insert (blockKey, blockType)
      (descendantsTypeCount blocks (blockKey, blockType) fun field => fields.lookup field)) fields

/-- `BlockCountsTransformer.transform`, for the fields that it sets. -/
def transform (blockTypesToCount : List String) (fuel : Nat) (blocks : BlockStructure κ XBlockFields)
    (fields : CountFields κ) : ExceptT PyError Option (CountFields κ) := do
  if blockTypesToCount.isEmpty then return fields
  let traversal : PostOrder κ ← traversePostOrder blocks.rootBlockUsageKey blocks.getChildren (fun _ => true) fuel
  return traversal.visited.foldl (countBlock blocks blockTypesToCount) fields

variable {blocks : BlockStructure κ XBlockFields} {blockTypesToCount : List String}

theorem foldl_countBlock (order : List κ) (fields : CountFields κ) :
    order.foldl (countBlock blocks blockTypesToCount) fields =
      computeAlong (descendantsTypeCount blocks) (order.flatMap fun key => blockTypesToCount.map (key, ·)) fields := by
  rw [computeAlong, List.foldl_flatMap]
  congr 1
  funext fields key
  rw [List.foldl_map]
  rfl

theorem descendantsTypeCount_local : (descendantsTypeCount blocks).Local
    fun field => (blocks.getChildren field.1).map (·, field.2) := by
  rintro ⟨key, blockType⟩ known known' hsame
  refine congrArg (fun counts => List.sum counts + _) (map_congr_left fun child hch => ?_)
  rw [hsame (child, blockType) (mem_map.mpr ⟨child, hch, rfl⟩)]

def ownCount (blocks : BlockStructure κ XBlockFields) (blockType : String) (key : κ) : Nat :=
  if blocks.getXBlockField key XBlockFields.category = some blockType then 1 else 0

theorem transform_accumulates (blockTypesToCount : List String) (hacyc : Acyclic blocks.Edge)
    (fields : CountFields κ) :
    ∃ bound counts, (∀ fuel, bound ≤ fuel → transform blockTypesToCount fuel blocks fields = some (.ok counts)) ∧
      ∀ blockType ∈ blockTypesToCount, ∃ total : κ → Nat,
        ∀ key, ReflTransGen blocks.Edge blocks.rootBlockUsageKey key →
          counts.lookup (key, blockType) = some (total key) ∧
            Accumulates blocks.getChildren (ownCount blocks blockType) total key := by
  obtain ⟨bound, last, hbound, hord⟩ :=
    traversePostOrder_visited hacyc (finite_parents blocks) blocks.rootBlockUsageKey
  cases blockTypesToCount with
  | nil => exact ⟨bound, fields, fun fuel _ => rfl, fun blockType hbloc => nomatch hbloc⟩
  | cons first rest =>
    refine ⟨bound, last.visited.foldl (countBlock blocks (first :: rest)) fields, fun fuel hfuel => ?_,
      fun blockType hbloc => ?_⟩
    · unfold transform
      rw [hbound fuel hfuel]
      rfl
    rw [foldl_countBlock]
    generalize hcoun : computeAlong _ _ fields = counts
    refine ⟨fun key => (counts.lookup (key, blockType)).getD 0, fun key hkey => ?_⟩
    have hmem : (key, blockType) ∈ last.visited.flatMap fun key => (first :: rest).map (key, ·) :=
      mem_flatMap.mpr ⟨key, (hord.mem_iff key).mpr hkey, mem_map.mpr ⟨blockType, hbloc, rfl⟩⟩
    have hlook : counts.lookup (key, blockType) =
        some (descendantsTypeCount blocks (key, blockType) fun field => counts.lookup field) := by
      rw [← hcoun]
      exact computeAlong_lookup descendantsTypeCount_local (hord.before.tagged _) fields hmem
    refine ⟨?_, ?_⟩
    · change counts.lookup (key, blockType) = some ((counts.lookup (key, blockType)).getD 0)
      rw [hlook, getD_some]
    · change (counts.lookup (key, blockType)).getD 0 = _
      rw [hlook, getD_some]
      exact Nat.add_comm _ _

def ofTypeBelow (blocks : BlockStructure κ XBlockFields) (key : κ) (blockType : String) : Set κ :=
  {other | ReflTransGen blocks.Edge key other ∧ blocks.getXBlockField other XBlockFields.category = some blockType}

/-- What adds up from the children is the number of the blocks exactly if a single route leads to each of them. -/
theorem total_eq_ncard_iff (hacyc : Acyclic blocks.Edge) {blockType : String} {total : κ → Nat} {key : κ}
    (htotal : ∀ other, ReflTransGen blocks.Edge key other →
      Accumulates blocks.getChildren (ownCount blocks blockType) total other) :
    total key = (ofTypeBelow blocks key blockType).ncard ↔
      ∀ other ∈ ofTypeBelow blocks key blockType, ∃! route, follow blocks.getChildren key route = some other := by
  classical
  obtain ⟨routes, hrout, hsum⟩ := exists_allRoutes (hacyc.wellFounded_swap (finite_parents blocks)) key
  let counted := routes.filter fun route => blocks.getXBlockField route.2 XBlockFields.category = some blockType
  have hcntd : ∀ route other, (route, other) ∈ counted ↔ follow blocks.getChildren key route = some other ∧
      other ∈ ofTypeBelow blocks key blockType := by
    intro route other
    rw [Finset.mem_filter, hrout]
    exact ⟨fun ⟨hroute, htype⟩ => ⟨hroute, exists_route_iff.mp ⟨route, hroute⟩, htype⟩,
      fun ⟨hroute, _, htype⟩ => ⟨hroute, htype⟩⟩
  have hends : (ofTypeBelow blocks key blockType) = Prod.snd '' (counted : Set (List Nat × κ)) := by
    ext other
    constructor
    · intro hoth
      obtain ⟨route, hroute⟩ := exists_route_iff.mpr hoth.1
      exact ⟨(route, other), (hcntd route other).mpr ⟨hroute, hoth⟩, rfl⟩
    · rintro ⟨⟨route, other⟩, hmem, rfl⟩
      exact ((hcntd route other).mp hmem).2
  have hcard : total key = (counted : Set (List Nat × κ)).ncard := by
    rw [hsum (ownCount blocks blockType) total htotal, Set.ncard_coe_finset, Finset.card_filter]
    rfl
  rw [hcard, hends, eq_comm, Set.ncard_image_iff counted.finite_toSet, ← hends]
  constructor
  · intro hinj other hoth
    obtain ⟨route, hroute⟩ := exists_route_iff.mpr hoth.1
    refine ⟨route, hroute, fun second hsec => ?_⟩
    exact (Prod.mk.inj (hinj ((hcntd second other).mpr ⟨hsec, hoth⟩) ((hcntd route other).mpr ⟨hroute, hoth⟩) rfl)).1
  · rintro huniq ⟨first, other⟩ hfst ⟨second, _⟩ hsec rfl
    obtain ⟨hfst, hoth⟩ := (hcntd first other).mp hfst
    exact congrArg (·, other) ((huniq other hoth).unique hfst ((hcntd second other).mp hsec).1)

/-- Every block below the root gets, for each type, the number of the blocks of the type below it, exactly
where a single route leads to each of these. -/
theorem blockCounts_iff_singleRoutes (blockTypesToCount : List String) (hacyclic : Acyclic blocks.Edge)
    (fields : CountFields κ) :
    ∃ bound counts, (∀ fuel, bound ≤ fuel → transform blockTypesToCount fuel blocks fields = some (.ok counts)) ∧
      ∀ blockType ∈ blockTypesToCount, ∀ key, ReflTransGen blocks.Edge blocks.rootBlockUsageKey key →
        (counts.lookup (key, blockType) = some (ofTypeBelow blocks key blockType).ncard ↔
          ∀ other ∈ ofTypeBelow blocks key blockType, ∃! route, follow blocks.getChildren key route = some other) := by
  obtain ⟨bound, counts, hbound, hcounts⟩ := transform_accumulates blockTypesToCount hacyclic fields
  refine ⟨bound, counts, hbound, fun blockType hblockType key hkey => ?_⟩
  obtain ⟨total, htotal⟩ := hcounts blockType hblockType
  rw [(htotal key hkey).1, some_inj]
  exact total_eq_ncard_iff hacyclic fun other hother => (htotal other (hkey.trans hother)).2

theorem transform_settled (blockTypesToCount : List String) (blocks : BlockStructure κ XBlockFields)
    (fields : CountFields κ) {fuel more : Nat} (hfuel : fuel ≤ more) :
    ∀ result, (transform blockTypesToCount fuel blocks fields).run = some result →
      (transform blockTypesToCount more blocks fields).run = some result := by
  cases blockTypesToCount with
  | nil => exact fun _ hres => hres
  | cons first rest => exact bind_settled (fun _ hres => whileLoop.mono hres hfuel) fun _ _ hres => hres

def sharedQuiz : BlockStructure String XBlockFields :=
  let course : BlockStructure String XBlockFields := BlockStructure.init "course"
  { (((course.addRelation "course" "week1").addRelation "course" "week2").addRelation "week1" "quiz").addRelation
      "week2" "quiz" with
    blockDataMap := Dict.ofList [("course", { category := some "course" }), ("week1", { category := some "chapter" }),
      ("week2", { category := some "chapter" }), ("quiz", { category := some "problem" })] }

def sharedQuizRank (key : String) : Nat := if key = "course" then 0 else if key = "quiz" then 2 else 1

theorem sharedQuiz_acyclic : Acyclic sharedQuiz.Edge := by
  refine Acyclic.of_rank sharedQuizRank fun parent child hedge => ?_
  have hall : ∀ parent ∈ sharedQuiz.blockRelations.keys, ∀ child ∈ sharedQuiz.getChildren parent,
      sharedQuizRank parent < sharedQuizRank child := by decide +kernel
  exact hall parent (mem_of_linksOf hedge) child hedge

theorem sharedQuiz_ofTypeBelow : ofTypeBelow sharedQuiz "course" "problem" = {"quiz"} := by
  have hall : ∀ key ∈ sharedQuiz.blockDataMap.keys,
      sharedQuiz.getXBlockField key XBlockFields.category = some "problem" → key = "quiz" := by decide +kernel
  ext other
  constructor
  · rintro ⟨-, htype⟩
    obtain ⟨block, hblk, -⟩ := bind_eq_some_iff.mp htype
    exact hall other (mem_of_lookup hblk) htype
  · rintro rfl
    exact ⟨exists_route_iff.mp ⟨[0, 0], by decide +kernel⟩, by decide +kernel⟩

theorem sharedQuiz_countsOnce_iff :
    ∃ bound counts, (∀ fuel, bound ≤ fuel → transform ["problem"] fuel sharedQuiz ∅ = some (.ok counts)) ∧
      ∀ blockType ∈ ["problem"], ∀ key, ReflTransGen sharedQuiz.Edge sharedQuiz.rootBlockUsageKey key →
        (counts.lookup (key, blockType) = some (ofTypeBelow sharedQuiz key blockType).ncard ↔
          ∀ other ∈ ofTypeBelow sharedQuiz key blockType,
            ∃! route, follow sharedQuiz.getChildren key route = some other) :=
  blockCounts_iff_singleRoutes ["problem"] sharedQuiz_acyclic ∅

def countOf (field : String × String) : Option (Except PyError (CountFields String)) → Option Nat
  | some (.ok counts) => counts.lookup field
  | _ => none

/-- The course is said to have two problems. -/
theorem sharedQuiz_countedTwice :
    ¬ ∃ bound counts, (∀ fuel, bound ≤ fuel → transform ["problem"] fuel sharedQuiz ∅ = some (.ok counts)) ∧
      ∀ blockType ∈ ["problem"], ∀ key, ReflTransGen sharedQuiz.Edge sharedQuiz.rootBlockUsageKey key →
        counts.lookup (key, blockType) = some (ofTypeBelow sharedQuiz key blockType).ncard := by
  rintro ⟨bound, counts, hbound, hcounts⟩
  have hcount := hcounts "problem" mem_cons_self "course" ReflTransGen.refl
  rw [sharedQuiz_ofTypeBelow, Set.ncard_singleton] at hcount
  have hrun : countOf ("course", "problem") (transform ["problem"] 30 sharedQuiz ∅).run = some 2 := by
    decide +kernel
  cases hresult : (transform ["problem"] 30 sharedQuiz ∅).run with
  | none =>
    rw [hresult] at hrun
    cases hrun
  | some result =>
    have hmore := transform_settled ["problem"] sharedQuiz ∅ (le_max_right bound 30) result hresult
    obtain rfl := some.inj (hmore.symm.trans (hbound _ (le_max_left bound 30)))
    rw [hresult] at hrun
    exact absurd (hrun.symm.trans hcount) (by decide)

end BlockCounts

end EdxPlatform
