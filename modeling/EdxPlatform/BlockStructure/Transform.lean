import EdxPlatform.BlockStructure.GraphTraversals
import EdxPlatform.BlockStructure.Relations

/-!
# Transforming a block structure

Filtering transformers are combined into one filter, which a topological
traversal applies while it removes blocks; the structure is then pruned to what
is still linked to the root.
-/

namespace EdxPlatform

variable {κ δ : Type} [DecidableEq κ]

/-- A filter function together with what it does to the structure it closes over. -/
abbrev BlockFilter (κ δ : Type) := BlockStructure κ δ → κ → Except PyError (BlockStructure κ δ × Bool)

namespace BlockStructure

def createUniversalFilter : BlockFilter κ δ :=
  fun blocks _ => .ok (blocks, true)

section

variable (removalCondition : κ → Bool) (keepDescendants : Bool)

/-- Removes the block if it satisfies the condition; tells whether it was retained. -/
def retainOrRemove : BlockFilter κ δ :=
  fun blocks key =>
    if removalCondition key then
      match blocks.removeBlock key keepDescendants with
      | .error err => .error err
      | .ok blocks => .ok (blocks, false)
    else .ok (blocks, true)

def createRemovalFilter : BlockFilter κ δ := retainOrRemove removalCondition keepDescendants

end

def topological (filterFunc : BlockFilter κ δ) : Accessors κ (BlockStructure κ δ) where
  getParents := some getParents
  getChildren := getChildren
  filterFunc := filterFunc

def filterTopologicalTraversal (fuel : Nat) (filterFunc : BlockFilter κ δ)
    (blocks : BlockStructure κ δ) : ExceptT PyError Option (BlockStructure κ δ) := do
  let traversal : Traversal κ (BlockStructure κ δ) ←
    traverseGeneric (topological filterFunc) blocks.rootBlockUsageKey blocks fuel
  return traversal.graph

def removeBlockTraversal (fuel : Nat) (removalCondition : κ → Bool)
    (keepDescendants : Bool) (blocks : BlockStructure κ δ) :
    ExceptT PyError Option (BlockStructure κ δ) :=
  filterTopologicalTraversal fuel (createRemovalFilter removalCondition keepDescendants) blocks

/-- Adds a block of the old relations to the pruned ones, linked to those of its
children that were added before it. -/
def pruneOne (oldRelations pruned : Dict κ (BlockRelations κ)) (key : κ) : Dict κ (BlockRelations κ) :=
  match oldRelations.lookup key with
  | none => pruned
  | some block =>
    block.children.foldl (fun pruned child =>
        if child ∈ pruned then addToRelations pruned key child else pruned)
      (addBlock pruned key)

/-- `_prune_unreachable`. -/
def pruneUnreachable (fuel : Nat) (blocks : BlockStructure κ δ) :
    ExceptT PyError Option (BlockStructure κ δ) := do
  let traversal : PostOrder κ ← traversePostOrder blocks.rootBlockUsageKey blocks.getChildren (fun _ => true) fuel
  return { blocks with
    blockRelations := traversal.visited.foldl (pruneOne blocks.blockRelations) ∅ }

end BlockStructure

/-- `BlockStructureTransformers`, the transformers bound to one usage info: those
with filters give their filters, the others their `transform`. -/
structure BlockStructureTransformers (κ δ : Type) where
  supportsFilter : List (BlockStructure κ δ → List (BlockFilter κ δ))
  noFilter : List (BlockStructure κ δ → Except PyError (BlockStructure κ δ)) := []

namespace BlockStructureTransformers

open BlockStructure

/-- The conjunction of two filters; the second is not run when the first is false. -/
def filterChain (accumulated additional : BlockFilter κ δ) : BlockFilter κ δ :=
  fun blocks key =>
    match accumulated blocks key with
    | .error err => .error err
    | .ok (blocks, true) => additional blocks key
    | .ok (blocks, false) => .ok (blocks, false)

def combineFilters (filters : List (BlockFilter κ δ)) : BlockFilter κ δ :=
  filters.foldl filterChain createUniversalFilter

section

variable (fuel : Nat) (transformers : BlockStructureTransformers κ δ) (blocks : BlockStructure κ δ)

def transformWithFilters : ExceptT PyError Option (BlockStructure κ δ) :=
  if transformers.supportsFilter.isEmpty then return blocks
  else
    let filters := transformers.supportsFilter.flatMap (fun transformBlockFilters => transformBlockFilters blocks)
    filterTopologicalTraversal fuel (combineFilters filters) blocks

def transformWithoutFilters (transformers : BlockStructureTransformers κ δ)
    (blocks : BlockStructure κ δ) : Except PyError (BlockStructure κ δ) :=
  transformers.noFilter.foldlM (fun blocks transform => transform blocks) blocks

def transform : ExceptT PyError Option (BlockStructure κ δ) := do
  let blocks ← transformWithFilters fuel transformers blocks
  let blocks ← ExceptT.mk (some (transformWithoutFilters transformers blocks))
  pruneUnreachable fuel blocks

end

omit [DecidableEq κ] in
theorem foldl_filterChain_of_removed {accumulated : BlockFilter κ δ} {blocks rest : BlockStructure κ δ} {key : κ}
    (hrem : accumulated blocks key = .ok (rest, false)) (filters : List (BlockFilter κ δ)) :
    filters.foldl filterChain accumulated blocks key = .ok (rest, false) := by
  induction filters generalizing accumulated with
  | nil => exact hrem
  | cons filter filters ih =>
    refine ih ?_
    unfold filterChain
    rw [hrem]

theorem foldl_filterChain_of_retained {accumulated : BlockFilter κ δ}
    {blocks rest : BlockStructure κ δ} {key : κ} (conditions : List (κ → Bool))
    (hremo : blocks.removeBlock key false = .ok rest)
    (hretd : accumulated blocks key = .ok (blocks, true)) :
    (conditions.map (createRemovalFilter · false)).foldl filterChain accumulated blocks key =
      if conditions.any (fun condition => condition key) then .ok (rest, false)
      else .ok (blocks, true) := by
  induction conditions generalizing accumulated with
  | nil => exact hretd
  | cons condition conditions ih =>
    have hchain : filterChain accumulated (createRemovalFilter condition false) blocks key =
        createRemovalFilter condition false blocks key := by
      unfold filterChain
      rw [hretd]
    rw [map_cons, foldl_cons, any_cons]
    cases hcond : condition key with
    | true =>
      refine foldl_filterChain_of_removed ?_ _
      rw [hchain]
      unfold createRemovalFilter retainOrRemove
      rw [if_pos hcond, hremo]
    | false =>
      refine ih ?_
      rw [hchain]
      unfold createRemovalFilter retainOrRemove
      rw [if_neg (by rw [hcond]; decide)]

theorem combineFilters_conditions {blocks rest : BlockStructure κ δ} {key : κ}
    (conditions : List (κ → Bool)) (hremo : blocks.removeBlock key false = .ok rest) :
    combineFilters (conditions.map (createRemovalFilter · false)) blocks key =
      if conditions.any (fun condition => condition key) then .ok (rest, false)
      else .ok (blocks, true) :=
  foldl_filterChain_of_retained conditions hremo rfl

end BlockStructureTransformers

namespace BlockStructure

theorem mem_pruneOne (oldRelations pruned : Dict κ (BlockRelations κ)) (key other : κ) :
    other ∈ pruneOne oldRelations pruned key ↔ (other = key ∧ key ∈ oldRelations) ∨ other ∈ pruned := by
  unfold pruneOne
  cases hblk : oldRelations.lookup key with
  | none =>
    have hout : key ∉ oldRelations := lookup_eq_none.mp hblk
    simp [hout]
  | some block =>
    have hmem : key ∈ oldRelations := Dict.mem_iff_lookup.mpr ⟨block, hblk⟩
    have hfold : ∀ (children : List κ) (current : Dict κ (BlockRelations κ)), key ∈ current →
        (other ∈ children.foldl (fun pruned child =>
          if child ∈ pruned then addToRelations pruned key child else pruned) current ↔ other ∈ current) := by
      intro children
      induction children with
      | nil => exact fun current _ => Iff.rfl
      | cons child children ih =>
        intro current hkey
        rw [foldl_cons]
        split
        · next hch =>
            rw [ih _ ((mem_addToRelations _ _ _ _).mpr (.inl rfl)), mem_addToRelations]
            constructor
            · rintro (rfl | rfl | hoth)
              · exact hkey
              · exact hch
              · exact hoth
            · exact fun hoth => .inr (.inr hoth)
        · exact ih current hkey
    rw [hfold _ _ ((mem_addBlock _ _ _).mpr (.inl rfl)), mem_addBlock]
    simp [hmem]

theorem mem_foldl_pruneOne (oldRelations : Dict κ (BlockRelations κ)) (other : κ) :
    ∀ (visited : List κ) (pruned : Dict κ (BlockRelations κ)), other ∈ visited.foldl (pruneOne oldRelations) pruned ↔
        (other ∈ visited ∧ other ∈ oldRelations) ∨ other ∈ pruned := by
  intro visited
  induction visited with
  | nil => intro pruned; simp
  | cons key visited ih =>
    intro pruned
    rw [foldl_cons, ih, mem_pruneOne, mem_cons]
    constructor
    · rintro (⟨hoth, hold⟩ | ⟨rfl, hold⟩ | hoth)
      · exact .inl ⟨.inr hoth, hold⟩
      · exact .inl ⟨.inl rfl, hold⟩
      · exact .inr hoth
    · rintro (⟨rfl | hoth, hold⟩ | hoth)
      · exact .inr (.inl ⟨rfl, hold⟩)
      · exact .inl ⟨hoth, hold⟩
      · exact .inr (.inr hoth)

variable (blocks : BlockStructure κ δ)

theorem finite_parents : {parent | ∃ child, child ∈ blocks.getChildren parent}.Finite := by
  refine Set.Finite.subset (List.finite_toSet blocks.blockRelations.keys) ?_
  rintro parent ⟨child, hch⟩
  exact mem_of_linksOf hch

theorem pruneUnreachable_mem (hacyc : Acyclic blocks.Edge) :
    ∃ bound pruned, (∀ fuel, bound ≤ fuel → blocks.pruneUnreachable fuel = some (.ok pruned)) ∧
      ∀ key, key ∈ pruned ↔ Relation.ReflTransGen blocks.Edge blocks.rootBlockUsageKey key ∧ key ∈ blocks := by
  obtain ⟨bound, last, hbound, hvisd⟩ :=
    traversePostOrder_visited hacyc (finite_parents blocks) blocks.rootBlockUsageKey
  refine ⟨bound, { blocks with
    blockRelations := last.visited.foldl (pruneOne blocks.blockRelations) ∅ },
    fun fuel hfuel => ?_, fun key => ?_⟩
  · unfold pruneUnreachable
    rw [hbound fuel hfuel]
    rfl
  · change key ∈ last.visited.foldl (pruneOne blocks.blockRelations) ∅ ↔ _
    rw [mem_foldl_pruneOne, hvisd.mem_iff]
    change (Relation.ReflTransGen blocks.Edge blocks.rootBlockUsageKey key ∧ _) ∨ _ ↔ _
    constructor
    · rintro (hkey | hkey)
      · exact hkey
      · exact absurd hkey (notMem_empty key)
    · exact .inl

end BlockStructure

end EdxPlatform
