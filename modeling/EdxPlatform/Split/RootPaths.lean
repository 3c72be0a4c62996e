import EdxPlatform.Split.Subtrees
import EdxPlatform.Split.WriteOperations

/-!
# Paths to the root

`has_path_to_root` climbs all parents of a block until it gets to a block without parents that
has the category of a root.  It remembers the answers in one dictionary, and may be given the
parents of all blocks in another.
-/

namespace EdxPlatform.Split

open Relation Blocks

/-! ## Queries -/

abbrev PathCache := Dict BlockKey Bool

abbrev ParentsCache := Dict BlockKey (List BlockKey)

abbrev PathM := EStateM StoreError (Option PathCache)

def addParent (parents : ParentsCache) (link : BlockKey × BlockKey) : ParentsCache :=
  parents.insert link.1 ((parents.lookup link.1).getD [] ++ [link.2])

section

variable (blocks : Blocks)

/-- `build_block_key_to_parents_mapping` -/
def buildBlockKeyToParentsMapping : ParentsCache :=
  blocks.entries.foldl (fun parents entry =>
    (entry.2.childKeys.map fun child => (child, entry.1)).foldl addParent parents) ∅

/-- The parents of a block; a cache has an empty list for the blocks without parents. -/
def parentsOf (parentsCache : Option ParentsCache) (blockKey : BlockKey) : List BlockKey :=
  match parentsCache with
  | none => getParentsFromStructure blockKey blocks
  | some parents => (parents.lookup blockKey).getD []

def rootTypes : List String := ["course", "library"]

def cachePath (blockKey : BlockKey) (hasPath : Bool) : PathM Unit :=
  modify fun pathCache => pathCache.map fun cache => cache.insert blockKey hasPath

/-- `has_path_to_root`; calls may be nested as deep as `limit`. -/
def hasPathToRoot (blocks : Blocks) (parentsCache : Option ParentsCache) : Nat → BlockKey → PathM Bool
  | 0, _ => throw .runtimeError
  | limit + 1, blockKey => do
    let pathCache ← get
    match pathCache.bind fun cache => cache.lookup blockKey with
    | some hasPath => pure hasPath
    | none =>
      let xblockParents := parentsOf blocks parentsCache blockKey
      if xblockParents.length = 0 ∧ blockKey.type ∈ rootTypes then do
        cachePath blockKey true
        pure true
      else do
        let hasPath ← anyOf (hasPathToRoot blocks parentsCache limit) xblockParents
        cachePath blockKey hasPath
        pure hasPath

/-- What `get_items` is asked for. -/
structure ItemQuery where
  /-- Whether an id is in the `name` qualifier, if there is one. -/
  name : Option (String → Bool) := none
  /-- `_block_matches_all` -/
  matchesAll : BlockData → Bool

def keepInTree (platform : Platform) (blocks : Blocks) (parentsCache : ParentsCache)
    (blockKey : BlockKey) : PathM (List BlockKey) := do
  let inTree ← (if platform.detached blockKey.type then pure true
      else hasPathToRoot blocks (some parentsCache) platform.recursionLimit blockKey : PathM Bool)
  pure (if inTree then [blockKey] else [])

/-- The keys of the items that `get_items` loads. -/
def getItems (platform : Platform) (blocks : Blocks) (query : ItemQuery) (includeOrphans : Bool) :
    Except StoreError (List BlockKey) :=
  match query.name with
  | some inName =>
    -- odd case where we don't search just confirm
    .ok ((blocks.entries.filter fun entry => inName entry.1.id && query.matchesAll entry.2).map fun entry => entry.1)
  | none =>
    let found := (blocks.entries.filter fun entry => query.matchesAll entry.2).map fun entry => entry.1
    if includeOrphans then .ok found
    else
      let parentsCache := buildBlockKeyToParentsMapping blocks
      match collect (keepInTree platform blocks parentsCache) found (some ∅) with
      | .ok items _ => .ok items.flatten
      | .error error _ => .error error

/-! ## What the queries find -/

def Blocks.IsTop (key : BlockKey) : Prop := (∀ parent, ¬ blocks.Edge parent key) ∧ key.type ∈ rootTypes

def Blocks.HasTop (key : BlockKey) : Prop := ∃ top, blocks.IsTop top ∧ ReflTransGen blocks.Edge top key

/-- The root is the only block without parents that has the category of a root. -/
def Structure.RootIsTop (struct : Structure) : Prop :=
  ∀ key ∈ struct.blocks, struct.blocks.IsTop key ↔ key = struct.root

def PathsRight (pathCache : Option PathCache) : Prop :=
  ∀ cache, pathCache = some cache → ∀ key hasPath, cache.lookup key = some hasPath →
    (hasPath = true ↔ blocks.HasTop key)

def ParentsRight (parentsCache : Option ParentsCache) : Prop :=
  ∀ parent key, parent ∈ parentsOf blocks parentsCache key ↔ blocks.Edge parent key

end

theorem foldl_addParent (links : List (BlockKey × BlockKey)) (parents : ParentsCache) (parent key : BlockKey) :
    parent ∈ ((links.foldl addParent parents).lookup key).getD [] ↔
      parent ∈ (parents.lookup key).getD [] ∨ (key, parent) ∈ links := by
  induction links generalizing parents with
  | nil => simp
  | cons link links ih =>
    rw [foldl_cons, ih, mem_cons]
    have hadded : parent ∈ ((addParent parents link).lookup key).getD [] ↔
        parent ∈ (parents.lookup key).getD [] ∨ (key, parent) = link := by
      unfold addParent
      rw [lookup_insert]
      by_cases heq : key = link.1
      · subst heq
        rw [if_pos rfl, getD_some, mem_append, mem_singleton]
        refine or_congr_right ⟨fun h => Prod.ext rfl h, fun h => congrArg Prod.snd h⟩
      · rw [if_neg heq, or_iff_left]
        exact fun h => heq (congrArg Prod.fst h)
    rw [hadded, or_assoc]

theorem parentsRight_none (blocks : Blocks) : ParentsRight blocks none :=
  fun _ _ => mem_getParents

theorem parentsRight_mapping (blocks : Blocks) :
    ParentsRight blocks (some (buildBlockKeyToParentsMapping blocks)) := by
  intro parent key
  change parent ∈ ((buildBlockKeyToParentsMapping blocks).lookup key).getD [] ↔ _
  unfold buildBlockKeyToParentsMapping
  rw [← List.foldl_flatMap, foldl_addParent, lookup_empty]
  simp only [getD_none, not_mem_nil, false_or, mem_flatMap, mem_map, Prod.mk.injEq]
  constructor
  · rintro ⟨⟨other, block⟩, hent, child, hch, rfl, rfl⟩
    exact ⟨block, mem_lookup_iff.mpr hent, hch⟩
  · rintro ⟨block, hblk, hch⟩
    exact ⟨⟨parent, block⟩, mem_lookup_iff.mp hblk, key, hch, rfl, rfl⟩

section

variable {blocks : Blocks} {parentsCache : Option ParentsCache}

theorem Blocks.hasTop_iff (key : BlockKey) : blocks.HasTop key ↔
    blocks.IsTop key ∨ ∃ parent, blocks.Edge parent key ∧ blocks.HasTop parent := by
  constructor
  · rintro ⟨top, htop, hpath⟩
    rcases ReflTransGen.cases_tail hpath with rfl | ⟨parent, habove, hedge⟩
    · exact .inl htop
    · exact .inr ⟨parent, hedge, top, htop, habove⟩
  · rintro (htop | ⟨parent, hedge, top, htop, hpath⟩)
    · exact ⟨key, htop, ReflTransGen.refl⟩
    · exact ⟨top, htop, hpath.tail hedge⟩

theorem cachePath_returns {key : BlockKey} {hasPath : Bool} (hrgt : hasPath = true ↔ blocks.HasTop key) :
    Returns (PathsRight blocks) (cachePath key hasPath >>= fun _ => pure hasPath)
      fun result => result = true ↔ blocks.HasTop key := by
  intro pathCache hcache
  refine ⟨hasPath, pathCache.map fun cache => cache.insert key hasPath, rfl, ?_, hrgt⟩
  rintro inserted heq other found hfnd
  obtain ⟨cache, hold, rfl⟩ := map_eq_some_iff.mp heq
  rw [lookup_insert] at hfnd
  split at hfnd
  · next hkey =>
      subst hkey
      exact some.inj hfnd ▸ hrgt
  · exact hcache cache hold other found hfnd

/-- A query answers whether something like a root leads to the block, by induction along the
ranks of an acyclic structure. -/
theorem hasPathToRoot_returns (hpars : ParentsRight blocks parentsCache) {rank : BlockKey → Nat}
    (hrank : ∀ parent child, blocks.Edge parent child → rank parent < rank child) {limit : Nat}
    {key : BlockKey} (hlimit : rank key < limit) :
    Returns (PathsRight blocks) (hasPathToRoot blocks parentsCache limit key)
      fun hasPath => hasPath = true ↔ blocks.HasTop key := by
  induction limit generalizing key with
  | zero => exact absurd hlimit (Nat.not_lt_zero _)
  | succ limit ih =>
    intro pathCache hcache
    change ∃ result next, (match pathCache.bind fun cache => cache.lookup key with
      | some hasPath => pure hasPath
      | none => _ : PathM Bool) pathCache = _ ∧ _
    cases hfnd : pathCache.bind fun cache => cache.lookup key with
    | some hasPath =>
      obtain ⟨cache, hsome, hlook⟩ := bind_eq_some_iff.mp hfnd
      exact ⟨hasPath, pathCache, rfl, hcache, hcache cache hsome key hasPath hlook⟩
    | none =>
      have hemp : (parentsOf blocks parentsCache key).length = 0 ↔ ∀ parent, ¬ blocks.Edge parent key := by
        rw [length_eq_zero_iff, List.eq_nil_iff_forall_not_mem]
        exact forall_congr' fun parent => not_congr (hpars parent key)
      by_cases htop : (parentsOf blocks parentsCache key).length = 0 ∧ key.type ∈ rootTypes
      · simp only [if_pos htop]
        refine cachePath_returns (iff_of_true rfl ?_) pathCache hcache
        exact (hasTop_iff key).mpr (.inl ⟨hemp.mp htop.1, htop.2⟩)
      · simp only [if_neg htop]
        have hany : Returns (PathsRight blocks) (anyOf (hasPathToRoot blocks parentsCache limit)
            (parentsOf blocks parentsCache key)) fun result => result = true ↔
              ∃ parent ∈ parentsOf blocks parentsCache key, blocks.HasTop parent :=
          returns_anyOf fun parent hpar => ih (Nat.lt_of_lt_of_le
            (hrank _ _ ((hpars parent key).mp hpar)) (Nat.le_of_lt_succ hlimit))
        refine returns_bind hany (fun hasPath hhas => cachePath_returns ?_) pathCache hcache
        rw [hhas, hasTop_iff, or_iff_right fun h => htop ⟨hemp.mpr h.1, h.2⟩]
        exact exists_congr fun parent => and_congr_left' (hpars parent key)

theorem query_returns (hpars : ParentsRight blocks parentsCache) (hacyc : Acyclic blocks.Edge)
    {limit : Nat} (hlimit : blocks.keys.length < limit) (key : BlockKey) :
    Returns (PathsRight blocks) (hasPathToRoot blocks parentsCache limit key)
      fun hasPath => hasPath = true ↔ blocks.HasTop key := by
  obtain ⟨rank, hrank, hbound⟩ := hacyc.exists_rank blocks.keys.toFinset
    fun parent child hedge => mem_toFinset.mpr hedge.parent_mem
  refine hasPathToRoot_returns hpars hrank (Nat.lt_of_le_of_lt ((hbound key).trans ?_) hlimit)
  exact List.toFinset_card_le _

theorem pathsRight_empty (blocks : Blocks) {pathCache : Option PathCache}
    (hemp : ∀ cache, pathCache = some cache → cache = ∅) : PathsRight blocks pathCache := by
  intro cache hcache key hasPath hlook
  rw [hemp cache hcache] at hlook
  cases hlook

end

/-- Under this condition, and no weaker one, something like a root leads to exactly the blocks
that the root leads to. -/
theorem rootIsTop_iff {struct : Structure} : struct.RootIsTop ↔ ∀ key ∈ struct.blocks,
      (struct.blocks.HasTop key ↔ ReflTransGen struct.blocks.Edge struct.root key) := by
  have htop : ∀ {top key : BlockKey}, key ∈ struct.blocks → ReflTransGen struct.blocks.Edge top key →
      top ∈ struct.blocks := by
    intro top key hkey hpath
    rcases ReflTransGen.cases_head hpath with rfl | ⟨child, hedge, -⟩
    · exact hkey
    · exact hedge.parent_mem
  constructor
  · intro hroot key hkey
    constructor
    · rintro ⟨top, hlike, hpath⟩
      obtain rfl := (hroot top (htop hkey hpath)).mp hlike
      exact hpath
    · intro hpath
      exact ⟨struct.root, (hroot struct.root (htop hkey hpath)).mpr rfl, hpath⟩
  · intro hall key hkey
    constructor
    · intro hlike
      have hpath := (hall key hkey).mp ⟨key, hlike, ReflTransGen.refl⟩
      rcases ReflTransGen.cases_tail hpath with heq | ⟨parent, -, hedge⟩
      · exact heq
      · exact absurd hedge (hlike.1 parent)
    · rintro rfl
      obtain ⟨top, hlike, hpath⟩ := (hall _ hkey).mpr ReflTransGen.refl
      have hback := (hall top (htop hkey hpath)).mp ⟨top, hlike, ReflTransGen.refl⟩
      rcases ReflTransGen.cases_tail hback with heq | ⟨parent, -, hedge⟩
      · exact heq ▸ hlike
      · exact absurd hedge (hlike.1 parent)

section

variable {platform : Platform} {struct : Structure}

section

variable (hacyc : Acyclic struct.blocks.Edge) (hroot : struct.RootIsTop)
include hacyc hroot

theorem query_reachable {limit : Nat} (hlimit : struct.blocks.keys.length < limit) {parentsCache : Option ParentsCache}
    (hpars : ParentsRight struct.blocks parentsCache) {key : BlockKey} (hkey : key ∈ struct.blocks) :
    Returns (PathsRight struct.blocks) (hasPathToRoot struct.blocks parentsCache limit key)
      fun answer => answer = true ↔ ReflTransGen struct.blocks.Edge struct.root key :=
  returns_weaken (query_returns hpars hacyc hlimit key) fun _ hhas => hhas.trans (rootIsTop_iff.mp hroot key hkey)

theorem keepInTree_returns (hlimit : struct.blocks.keys.length < platform.recursionLimit) {parentsCache : ParentsCache}
    (hpars : ParentsRight struct.blocks (some parentsCache)) {key : BlockKey}
    (hkey : key ∈ struct.blocks) :
    Returns (PathsRight struct.blocks) (keepInTree platform struct.blocks parentsCache key)
      fun kept => ∀ other, other ∈ kept ↔ other = key ∧ (platform.detached key.type = true ∨
        ReflTransGen struct.blocks.Edge struct.root key) := by
  unfold keepInTree
  refine returns_bind (M := fun inTree => inTree = true ↔ platform.detached key.type = true ∨
    ReflTransGen struct.blocks.Edge struct.root key) ?_ fun inTree hin => ?_
  · cases hdet : platform.detached key.type with
    | true => exact returns_pure (iff_of_true rfl (.inl rfl))
    | false =>
      refine returns_weaken (query_reachable hacyc hroot hlimit hpars hkey) fun inTree hin => ?_
      rw [hin, or_iff_right false_ne_true]
  · refine returns_pure ?_
    intro other
    cases inTree with
    | true => simp [hin.mp rfl]
    | false => exact iff_of_false not_mem_nil fun h => false_ne_true (hin.mpr h.2)

end

theorem mem_flatten_of_forall₂ {α β : Type} {adds : α → β → Prop} {values : List α} {results : List (List β)}
    (hress : List.Forall₂ (fun value result => ∀ other, other ∈ result ↔ adds value other) values results)
    (other : β) : other ∈ results.flatten ↔ ∃ value ∈ values, adds value other := by
  induction hress with
  | nil => simp
  | cons hres _ ih => simp [hres other, ih]

/-- What is kept of the blocks that match are those of detached types and those that the root
leads to. -/
theorem getItems_reachable (hacyc : Acyclic struct.blocks.Edge) (hroot : struct.RootIsTop)
    (hlimit : struct.blocks.keys.length < platform.recursionLimit) {query : ItemQuery}
    (hname : query.name = none) :
    ∃ items, getItems platform struct.blocks query false = .ok items ∧ ∀ key, key ∈ items ↔
      ∃ block, struct.blocks.lookup key = some block ∧ query.matchesAll block = true ∧
        (platform.detached key.type = true ∨ ReflTransGen struct.blocks.Edge struct.root key) := by
  have hfnd : ∀ key, key ∈ ((struct.blocks.entries.filter fun entry =>
      query.matchesAll entry.2).map fun entry => entry.1) ↔
        ∃ block, struct.blocks.lookup key = some block ∧ query.matchesAll block = true := by
    intro key
    simp only [mem_map, mem_filter]
    constructor
    · rintro ⟨⟨other, block⟩, ⟨hent, hmats⟩, rfl⟩
      exact ⟨block, mem_lookup_iff.mpr hent, hmats⟩
    · rintro ⟨block, hblk, hmats⟩
      exact ⟨⟨key, block⟩, ⟨mem_lookup_iff.mp hblk, hmats⟩, rfl⟩
  obtain ⟨items, last, hrun, -, hitems⟩ := returns_collect (fun key hkey =>
    keepInTree_returns hacyc hroot hlimit
      (parentsRight_mapping struct.blocks) (by
        obtain ⟨block, hblk, -⟩ := (hfnd key).mp hkey
        exact mem_of_lookup hblk))
    (some ∅) (pathsRight_empty struct.blocks fun cache hcache => (some.inj hcache).symm)
  refine ⟨items.flatten, ?_, fun key => ?_⟩
  · unfold getItems
    simp only [hname, false_eq_true, if_false, hrun]
  · rw [mem_flatten_of_forall₂ hitems]
    constructor
    · rintro ⟨other, hoth, rfl, hkeep⟩
      obtain ⟨block, hblk, hmats⟩ := (hfnd key).mp hoth
      exact ⟨block, hblk, hmats, hkeep⟩
    · rintro ⟨block, hblk, hmats, hkeep⟩
      exact ⟨key, (hfnd key).mpr ⟨block, hblk, hmats⟩, rfl, hkeep⟩

end

/-- Where the root is the only block without parents that has the category of a root, queries
tell the blocks that it leads to, and `get_items` leaves out the others unless they are
detached. -/
theorem reachable_items (platform : Platform) {struct : Structure}
    (hacyclic : Acyclic struct.blocks.Edge) (hroot : struct.RootIsTop) :
    (∀ (limit : Nat) (parentsCache : Option ParentsCache) (pathCache : Option PathCache)
      (queries : List BlockKey), struct.blocks.keys.length < limit →
      (parentsCache = none ∨ parentsCache = some (buildBlockKeyToParentsMapping struct.blocks)) →
      (pathCache = none ∨ pathCache = some ∅) → (∀ key ∈ queries, key ∈ struct.blocks) →
      ∃ answers last, collect (hasPathToRoot struct.blocks parentsCache limit) queries pathCache = .ok answers last ∧
        List.Forall₂ (fun key answer => answer = true ↔
          ReflTransGen struct.blocks.Edge struct.root key) queries answers) ∧
    (∀ query : ItemQuery, struct.blocks.keys.length < platform.recursionLimit → query.name = none →
      ∃ items, getItems platform struct.blocks query false = .ok items ∧ ∀ key, key ∈ items ↔
        ∃ block, struct.blocks.lookup key = some block ∧ query.matchesAll block = true ∧
          (platform.detached key.type = true ∨ ReflTransGen struct.blocks.Edge struct.root key)) := by
  refine ⟨?_, fun query hlimit hname => getItems_reachable hacyclic hroot hlimit hname⟩
  intro limit parentsCache pathCache queries hlimit hparents hpaths hqueries
  have hright : ParentsRight struct.blocks parentsCache := by
    rcases hparents with rfl | rfl
    · exact parentsRight_none struct.blocks
    · exact parentsRight_mapping struct.blocks
  have hempty : PathsRight struct.blocks pathCache := by
    refine pathsRight_empty struct.blocks fun cache hcache => ?_
    rcases hpaths with rfl | rfl
    · cases hcache
    · exact (some.inj hcache).symm
  obtain ⟨answers, last, hrun, -, hanswers⟩ := returns_collect (fun key hkey =>
    query_reachable hacyclic hroot hlimit hright (hqueries key hkey)) pathCache hempty
  exact ⟨answers, last, hrun, hanswers⟩

theorem not_reachable_of_no_parents {blocks : Blocks} {root key : BlockKey} (hne : key ≠ root)
    (hpars : getParentsFromStructure key blocks = []) : ¬ ReflTransGen blocks.Edge root key := by
  intro hpath
  rcases ReflTransGen.cases_tail hpath with heq | ⟨parent, -, hedge⟩
  · exact hne heq
  · have hmem := mem_getParents.mpr hedge
    rw [hpars] at hmem
    cases hmem

def oneChapter : Structure where
  root := ⟨"course", "course"⟩
  blocks := Dict.ofList [(⟨"course", "course"⟩, newBlock ∅ (some [⟨"chapter", "one"⟩]) 0 0),
      (⟨"chapter", "one"⟩, newBlock ∅ none 0 0)]

theorem oneChapter_items : (∀ (limit : Nat) (parentsCache : Option ParentsCache) (pathCache : Option PathCache)
      (queries : List BlockKey), oneChapter.blocks.keys.length < limit →
      (parentsCache = none ∨ parentsCache = some (buildBlockKeyToParentsMapping oneChapter.blocks)) →
      (pathCache = none ∨ pathCache = some ∅) → (∀ key ∈ queries, key ∈ oneChapter.blocks) →
      ∃ answers last, collect (hasPathToRoot oneChapter.blocks parentsCache limit) queries pathCache =
          .ok answers last ∧
        List.Forall₂ (fun key answer => answer = true ↔
          ReflTransGen oneChapter.blocks.Edge oneChapter.root key) queries answers) ∧
    (∀ query : ItemQuery, oneChapter.blocks.keys.length < plainPlatform.recursionLimit →
      query.name = none → ∃ items, getItems plainPlatform oneChapter.blocks query false = .ok items ∧
        ∀ key, key ∈ items ↔ ∃ block, oneChapter.blocks.lookup key = some block ∧ query.matchesAll block = true ∧
            (plainPlatform.detached key.type = true ∨ ReflTransGen oneChapter.blocks.Edge oneChapter.root key)) := by
  refine reachable_items plainPlatform (acyclic_of_rank
    (fun key => if key = oneChapter.root then 0 else 1) (by decide +kernel)) fun key hkey => ?_
  have hcases : key = oneChapter.root ∨ key = ⟨"chapter", "one"⟩ := by
    have hkeys : ∀ other ∈ oneChapter.blocks.keys, other = oneChapter.root ∨
        other = ⟨"chapter", "one"⟩ := by decide +kernel
    exact hkeys key (mem_keys.mpr hkey)
  rcases hcases with rfl | rfl
  · refine iff_of_true ⟨fun parent hedge => ?_, by decide⟩ rfl
    have hmem := mem_getParents.mpr hedge
    have hnone : getParentsFromStructure oneChapter.root oneChapter.blocks = [] := by decide +kernel
    rw [hnone] at hmem
    cases hmem
  · exact iff_of_false (fun htop => absurd htop.2 (by decide)) (by decide)

/-- A course with a page and a second block of its category outside of the tree. -/
def strayCourse : Structure where
  root := ⟨"course", "course"⟩
  blocks := Dict.ofList [(⟨"course", "course"⟩, newBlock ∅ none 0 0), (⟨"static_tab", "faq"⟩, newBlock ∅ none 0 0),
      (⟨"course", "other"⟩, newBlock ∅ none 0 0)]

def pagesPlatform : Platform := { plainPlatform with detached := (· == "static_tab") }

theorem strayCourse_items : Acyclic strayCourse.blocks.Edge ∧ ∃ items,
    getItems pagesPlatform strayCourse.blocks { matchesAll := fun _ => true } false = .ok items ∧
    ∀ key ∈ [(⟨"static_tab", "faq"⟩ : BlockKey), ⟨"course", "other"⟩],
      key ∈ items ∧ ¬ ReflTransGen strayCourse.blocks.Edge strayCourse.root key := by
  have hitems : (getItems pagesPlatform strayCourse.blocks { matchesAll := fun _ => true }
      false).toOption = some [⟨"course", "other"⟩, ⟨"static_tab", "faq"⟩, ⟨"course", "course"⟩] := by
    decide +kernel
  refine ⟨acyclic_of_rank (fun _ => 0) (by decide +kernel), ?_⟩
  cases hrun : getItems pagesPlatform strayCourse.blocks { matchesAll := fun _ => true } false with
  | error error =>
    rw [hrun] at hitems
    cases hitems
  | ok items =>
    rw [hrun] at hitems
    obtain rfl := some.inj hitems
    refine ⟨_, rfl, fun key hkey => ?_⟩
    rcases List.mem_pair.mp hkey with rfl | rfl
    · exact ⟨by decide, not_reachable_of_no_parents (by decide) (by decide +kernel)⟩
    · exact ⟨by decide, not_reachable_of_no_parents (by decide) (by decide +kernel)⟩

end EdxPlatform.Split
