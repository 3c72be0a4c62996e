import EdxPlatform.Split.RootPaths

/-!
# The parents of loaded blocks

`_parent_map` of a descriptor system has the last parent of a block in the order of the
dictionary, `get_parent_location` the least of the parents with a path to the root.
-/

namespace EdxPlatform.Split

open Relation Blocks

section

variable (parents : Dict BlockKey BlockKey) (item : BlockKey × BlockData)

def addChildren : Dict BlockKey BlockKey :=
  item.2.childKeys.foldl (fun parents child => parents.insert child item.1) parents

/-- `_parent_map`, of the blocks in the order of their dictionary. -/
def mapParents (items : List (BlockKey × BlockData)) : Dict BlockKey BlockKey := items.foldl addChildren ∅

def leAlphabetically (parent other : BlockKey) : Bool :=
  decide (parent.type < other.type ∨ parent.type = other.type ∧ parent.id ≤ other.id)

def keepValid (blocks : Blocks) (limit : Nat) (parent : BlockKey) : PathM (List BlockKey) := do
  let valid ← hasPathToRoot blocks none limit parent
  pure (if valid then [parent] else [])

def getParentLocation (blocks : Blocks) (limit : Nat) (locator : BlockKey) : PathM (Option BlockKey) := do
  let parentIds ← collect (keepValid blocks limit) (getParentsFromStructure locator blocks)
  -- find alphabetically least
  pure (parentIds.flatten.mergeSort leAlphabetically).head?

/-- Loaded in this order of its blocks, a structure gives a block the parent that is looked up. -/
def LoadsParent (struct : Structure) (limit : Nat) (items : List (BlockKey × BlockData)) (key : BlockKey) : Prop :=
  ∃ last, getParentLocation struct.blocks limit key none = .ok ((mapParents items).lookup key) last

theorem lookup_addChildren (key : BlockKey) : (addChildren parents item).lookup key =
      if key ∈ item.2.childKeys then some item.1 else parents.lookup key := by
  unfold addChildren
  induction item.2.childKeys generalizing parents with
  | nil => rfl
  | cons child children ih =>
    rw [foldl_cons, ih, lookup_insert]
    by_cases hkey : key = child <;> simp [hkey]

end

theorem mapParents_append_singleton (items : List (BlockKey × BlockData)) (item : BlockKey × BlockData)
    (key : BlockKey) : (mapParents (items ++ [item])).lookup key =
      if key ∈ item.2.childKeys then some item.1 else (mapParents items).lookup key := by
  unfold mapParents
  rw [foldl_append, foldl_cons, foldl_nil, lookup_addChildren]

section

variable {items : List (BlockKey × BlockData)}

theorem mapParents_eq_none_iff {key : BlockKey} :
    (mapParents items).lookup key = none ↔ ∀ item ∈ items, key ∉ item.2.childKeys := by
  induction items using reverseRecOn with
  | nil => simp [mapParents]
  | append_singleton items item ih =>
    rw [mapParents_append_singleton, forall_mem_append, ← ih]
    by_cases hkey : key ∈ item.2.childKeys <;> simp [hkey]

theorem mem_of_mapParents {key parent : BlockKey} (hlook : (mapParents items).lookup key = some parent) :
    ∃ block, (parent, block) ∈ items ∧ key ∈ block.childKeys := by
  induction items using reverseRecOn with
  | nil => cases hlook
  | append_singleton items item ih =>
    rw [mapParents_append_singleton] at hlook
    split at hlook
    · next hkey =>
      obtain rfl := some.inj hlook
      exact ⟨item.2, mem_append_right _ mem_cons_self, hkey⟩
    · obtain ⟨block, hblk, hkey⟩ := ih hlook
      exact ⟨block, mem_append_left _ hblk, hkey⟩

end

section

variable {blocks : Blocks} {items : List (BlockKey × BlockData)}
  (hperm : items.Perm (blocks.entries.map fun entry => (entry.1, entry.2)))
include hperm

theorem exists_mapParents_iff (key : BlockKey) :
    (∃ parent, (mapParents items).lookup key = some parent) ↔ ∃ parent, blocks.Edge parent key := by
  rw [← isSome_iff_exists, ← Option.ne_none_iff_isSome, Ne, mapParents_eq_none_iff]
  push Not
  constructor
  · rintro ⟨item, hmem, hkey⟩
    exact ⟨item.1, item.2, mem_items_iff.mp (hperm.mem_iff.mp hmem), hkey⟩
  · rintro ⟨parent, block, hblk, hkey⟩
    exact ⟨(parent, block), hperm.mem_iff.mpr (mem_items_iff.mpr hblk), hkey⟩

theorem edge_of_mapParents {key parent : BlockKey} (hlook : (mapParents items).lookup key = some parent) :
    blocks.Edge parent key := by
  obtain ⟨block, hmem, hkey⟩ := mem_of_mapParents hlook
  exact ⟨block, mem_items_iff.mp (hperm.mem_iff.mp hmem), hkey⟩

end

theorem exists_order_of_edge {blocks : Blocks} {key parent : BlockKey} (hedge : blocks.Edge parent key) :
    ∃ items : List (BlockKey × BlockData), items.Perm (blocks.entries.map fun entry => (entry.1, entry.2)) ∧
        (mapParents items).lookup key = some parent := by
  obtain ⟨block, hblk, hkey⟩ := hedge
  have hmem := mem_items_iff.mpr hblk
  refine ⟨(blocks.entries.map fun entry => (entry.1, entry.2)).erase (parent, block) ++ [(parent, block)], ?_, ?_⟩
  · exact (List.perm_append_singleton _ _).trans (List.perm_cons_erase hmem).symm
  · rw [mapParents_append_singleton, if_pos hkey]

theorem getParentLocation_returns {blocks : Blocks} (hacyc : Acyclic blocks.Edge) {limit : Nat}
    (hlimit : blocks.keys.length < limit) (key : BlockKey) :
    ∃ found last, getParentLocation blocks limit key none = .ok found last ∧
      (∀ parent, found = some parent → blocks.Edge parent key ∧ blocks.HasTop parent) ∧
      (found = none → ∀ parent, blocks.Edge parent key → ¬ blocks.HasTop parent) := by
  have hkeep : ∀ parent ∈ getParentsFromStructure key blocks, Returns (PathsRight blocks)
      (keepValid blocks limit parent) fun kept => ∀ other, other ∈ kept ↔ other = parent ∧ blocks.HasTop parent := by
    intro parent _
    refine returns_bind (query_returns (parentsRight_none blocks) hacyc hlimit parent) fun valid hval => ?_
    refine returns_pure fun other => ?_
    cases valid with
    | true => simp [hval.mp rfl]
    | false => exact iff_of_false not_mem_nil fun h => false_ne_true (hval.mpr h.2)
  obtain ⟨kept, last, hrun, -, hkept⟩ := returns_collect hkeep none fun _ h => nomatch h
  have hmem : ∀ parent, parent ∈ kept.flatten.mergeSort leAlphabetically ↔
      blocks.Edge parent key ∧ blocks.HasTop parent := by
    intro parent
    rw [List.mem_mergeSort, mem_flatten_of_forall₂ hkept]
    constructor
    · rintro ⟨other, hoth, rfl, htop⟩
      exact ⟨mem_getParents.mp hoth, htop⟩
    · rintro ⟨hedge, htop⟩
      exact ⟨parent, mem_getParents.mpr hedge, rfl, htop⟩
  refine ⟨(kept.flatten.mergeSort leAlphabetically).head?, last, ?_, ?_, ?_⟩
  · unfold getParentLocation
    rw [run_bind, hrun]
    rfl
  · exact fun parent hhead => (hmem parent).mp (mem_of_mem_head? hhead)
  · intro hnone parent hedge htop
    have hin := (hmem parent).mpr ⟨hedge, htop⟩
    rw [List.head?_eq_none_iff.mp hnone] at hin
    cases hin

/-- In every order of its blocks, a structure gives the blocks below the root the parents that are
looked up, exactly if each of them has one parent only, and that one a path to the root. -/
theorem loadsParents_iff {struct : Structure} (hacyclic : Acyclic struct.blocks.Edge) {limit : Nat}
    (hlimit : struct.blocks.keys.length < limit) :
    (∀ items : List (BlockKey × BlockData), items.Perm (struct.blocks.entries.map fun entry => (entry.1, entry.2)) →
      ∀ key, key ≠ struct.root → ReflTransGen struct.blocks.Edge struct.root key →
        LoadsParent struct limit items key) ↔
    ∀ key, key ≠ struct.root → ReflTransGen struct.blocks.Edge struct.root key →
      ∃ parent, struct.blocks.HasTop parent ∧ ∀ other, struct.blocks.Edge other key ↔ other = parent := by
  constructor
  · intro hloads key hne hpath
    obtain ⟨above, -, hedge⟩ := (ReflTransGen.cases_tail hpath).resolve_left hne
    obtain ⟨found, last, hrun, hsome, -⟩ := getParentLocation_returns hacyclic hlimit key
    have hall : ∀ other, struct.blocks.Edge other key → found = some other := by
      intro other hother
      obtain ⟨items, hperm, hlook⟩ := exists_order_of_edge hother
      obtain ⟨final, hsame⟩ := hloads items hperm key hne hpath
      rw [hrun, hlook] at hsame
      exact (EStateM.Result.ok.inj hsame).1
    refine ⟨above, (hsome above (hall above hedge)).2, fun other => ⟨fun hother => ?_, ?_⟩⟩
    · exact some.inj ((hall other hother).symm.trans (hall above hedge))
    · rintro rfl
      exact hedge
  · intro hone items hperm key hne hpath
    obtain ⟨parent, htop, honly⟩ := hone key hne hpath
    obtain ⟨found, last, hrun, hsome, hnone⟩ := getParentLocation_returns hacyclic hlimit key
    obtain ⟨loaded, hlook⟩ := (exists_mapParents_iff hperm key).mpr ⟨parent, (honly parent).mpr rfl⟩
    obtain rfl := (honly loaded).mp (edge_of_mapParents hperm hlook)
    refine ⟨last, ?_⟩
    rw [hrun, hlook]
    cases found with
    | none => exact absurd htop (hnone rfl _ ((honly _).mpr rfl))
    | some other => rw [(honly other).mp (hsome other rfl).1]

theorem oneChapter_loadsParents : (∀ items : List (BlockKey × BlockData),
      items.Perm (oneChapter.blocks.entries.map fun entry => (entry.1, entry.2)) →
      ∀ key, key ≠ oneChapter.root → ReflTransGen oneChapter.blocks.Edge oneChapter.root key →
        LoadsParent oneChapter 1000 items key) ↔
    ∀ key, key ≠ oneChapter.root → ReflTransGen oneChapter.blocks.Edge oneChapter.root key →
      ∃ parent, oneChapter.blocks.HasTop parent ∧ ∀ other, oneChapter.blocks.Edge other key ↔ other = parent :=
  loadsParents_iff (acyclic_of_rank (fun key => if key = oneChapter.root then 0 else 1)
    (by decide +kernel)) (by decide)

/-- A problem of the course is also listed by a unit that the course does not have. -/
def strayUnitItems : List (BlockKey × BlockData) :=
  [(⟨"course", "course"⟩, newBlock ∅ (some [⟨"problem", "p"⟩]) 0 0), (⟨"problem", "p"⟩, newBlock ∅ none 0 0),
    (⟨"vertical", "stray"⟩, newBlock ∅ (some [⟨"problem", "p"⟩]) 0 0)]

def strayUnit : Structure where
  root := ⟨"course", "course"⟩
  blocks := Dict.ofList strayUnitItems

/-- The parent of the loaded problem is the unit, while the course is looked up. -/
theorem strayUnit_not_loadsParent : Acyclic strayUnit.blocks.Edge ∧
    ReflTransGen strayUnit.blocks.Edge strayUnit.root ⟨"problem", "p"⟩ ∧
    strayUnitItems.Perm (strayUnit.blocks.entries.map fun entry => (entry.1, entry.2)) ∧
    ¬ LoadsParent strayUnit 1000 strayUnitItems ⟨"problem", "p"⟩ := by
  refine ⟨acyclic_of_rank (fun key => if key.type = "problem" then 1 else 0) (by decide +kernel),
    .single (mem_getParents.mp (by decide +kernel)), strayUnitItems.reverse_perm.symm, ?_⟩
  rintro ⟨last, hrun⟩
  have hlook : (mapParents strayUnitItems).lookup ⟨"problem", "p"⟩ = some ⟨"vertical", "stray"⟩ := by
    decide +kernel
  have hfound : (match getParentLocation strayUnit.blocks 1000 ⟨"problem", "p"⟩ none with
      | .ok found _ => decide (found = some strayUnit.root)
      | .error _ _ => false) = true := by decide +kernel
  rw [hrun, hlook] at hfound
  exact absurd (of_decide_eq_true hfound) (by decide)

end EdxPlatform.Split
