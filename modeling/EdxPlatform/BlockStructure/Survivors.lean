import EdxPlatform.BlockStructure.Transform

/-!
# The blocks that survive a transformation

The traversal applies the removal conditions to a block only after it has
reached a verdict on every parent, and only if one of them was retained.  A
block with an ancestor that never gets a verdict is therefore never examined,
and stays if another parent keeps it linked.
-/

namespace EdxPlatform

open Relation Traversal Traversal

variable {κ δ : Type} [DecidableEq κ]

namespace BlockStructure

/-- What the collect phase delivers: a directed acyclic graph in which every
block hangs below the root and every link is recorded on both of its ends. -/
structure Collected (blocks : BlockStructure κ δ) : Prop where
  count_eq : ∀ parent child, (blocks.getChildren parent).count child = (blocks.getParents child).count parent
  child_mem : ∀ parent child, blocks.Edge parent child → child ∈ blocks
  acyclic : Acyclic blocks.Edge
  root_mem : blocks.rootBlockUsageKey ∈ blocks
  rooted : ∀ key ∈ blocks, ReflTransGen blocks.Edge blocks.rootBlockUsageKey key

theorem collected_init (root : κ) : (init root : BlockStructure κ δ).Collected := by
  have hedge : ∀ parent child, ¬ (init root : BlockStructure κ δ).Edge parent child := by
    intro parent child hedge
    unfold Edge getChildren at hedge
    rw [linksOf_init] at hedge
    cases hedge
  have hmem : ∀ key, key ∈ (init root : BlockStructure κ δ) ↔ key = root := by
    intro key
    change key ∈ addBlock ∅ root ↔ _
    rw [mem_addBlock]
    exact or_iff_left (notMem_empty key)
  constructor
  · intro parent child
    unfold getChildren getParents
    rw [linksOf_init, linksOf_init, count_nil, count_nil]
  · exact fun parent child h => absurd h (hedge parent child)
  · intro key hcycle
    obtain ⟨child, hfst, -⟩ := TransGen.head'_iff.mp hcycle
    exact hedge key child hfst
  · exact (hmem root).mpr rfl
  · intro key hkey
    rw [(hmem key).mp hkey]
    exact ReflTransGen.refl

variable {child : κ}

theorem Collected.addRelation {blocks : BlockStructure κ δ} (hcoll : blocks.Collected)
    {parent : κ} (hpar : parent ∈ blocks) (hne : child ≠ parent)
    (hleaf : blocks.getChildren child = []) : (blocks.addRelation parent child).Collected := by
  have hmem : ∀ key, key ∈ blocks.addRelation parent child ↔ key = child ∨ key ∈ blocks := by
    intro key
    change key ∈ addToRelations _ _ _ ↔ _
    rw [mem_addToRelations]
    constructor
    · rintro (rfl | hkey)
      · exact .inr hpar
      · exact hkey
    · exact .inr
  have hend : ∀ below, ¬ (blocks.addRelation parent child).Edge child below := by
    intro below hbel
    rcases edge_addRelation.mp hbel with hbel | ⟨hch, -⟩
    · unfold Edge at hbel
      rw [hleaf] at hbel
      cases hbel
    · exact hne hch
  constructor
  · exact Mirrored.addRelation hcoll.count_eq parent child
  · intro above below hbel
    rw [hmem]
    rcases edge_addRelation.mp hbel with hbel | ⟨-, hch⟩
    · exact .inr (hcoll.child_mem above below hbel)
    · exact .inl hch
  · have hpath : ∀ above below, TransGen (blocks.addRelation parent child).Edge above below →
        TransGen blocks.Edge above below ∨ below = child := by
      intro above below hpath
      induction hpath with
      | single hstep => exact (edge_addRelation.mp hstep).imp TransGen.single And.right
      | tail _ hstep ih =>
        rcases ih with hpath | hch
        · exact (edge_addRelation.mp hstep).imp hpath.tail And.right
        · exact absurd (hch ▸ hstep) (hend _)
    intro key hcycle
    rcases hpath key key hcycle with hcycle | hch
    · exact hcoll.acyclic key hcycle
    · obtain ⟨below, hfst, -⟩ := TransGen.head'_iff.mp hcycle
      exact hend below (hch ▸ hfst)
  · exact (hmem _).mpr (.inr hcoll.root_mem)
  · intro key hkey
    have hold : ∀ key ∈ blocks, ReflTransGen (blocks.addRelation parent child).Edge
        blocks.rootBlockUsageKey key := fun key hkey =>
      ReflTransGen.mono (fun _ _ hstep => edge_addRelation.mpr (.inl hstep)) _ _ (hcoll.rooted key hkey)
    rcases (hmem key).mp hkey with rfl | hkey
    · exact (hold parent hpar).tail (edge_addRelation.mpr (.inr ⟨rfl, rfl⟩))
    · exact hold key hkey

section

variable (blocks : BlockStructure κ δ) (start : κ)

theorem linksOf_setRootBlock (side : Side) (key : κ) : (blocks.setRootBlock start).linksOf side key =
      if side = .parents ∧ key = start then [] else blocks.linksOf side key := by
  unfold linksOf setRootBlock
  simp only [lookup_modify]
  by_cases hkey : key = start
  · subst hkey
    rw [if_pos rfl]
    cases blocks.blockRelations.lookup key <;> cases side <;> simp [BlockRelations.links]
  · rw [if_neg hkey, if_neg (fun hboth => hkey hboth.2)]

@[simp]
theorem getChildren_setRootBlock (start key : κ) :
    (blocks.setRootBlock start).getChildren key = blocks.getChildren key := by
  unfold getChildren
  rw [linksOf_setRootBlock, if_neg (by rintro ⟨hside, -⟩; cases hside)]

@[simp]
theorem edge_setRootBlock : (blocks.setRootBlock start).Edge = blocks.Edge := by
  funext parent child
  unfold Edge
  rw [getChildren_setRootBlock]

theorem mem_setRootBlock (start key : κ) : key ∈ blocks.setRootBlock start ↔ key ∈ blocks :=
  Dict.mem_modify start key _ blocks.blockRelations

end

theorem Collected.linked_setRootBlock {blocks : BlockStructure κ δ} (hcoll : blocks.Collected)
    (start : κ) : (blocks.setRootBlock start).Linked start := by
  constructor
  · intro parent child hch
    rw [getChildren_setRootBlock, hcoll.count_eq]
    unfold getParents
    rw [linksOf_setRootBlock, if_neg (fun hboth => hch hboth.2)]
  · intro parent child _ hedge
    rw [edge_setRootBlock] at hedge
    exact (mem_setRootBlock blocks start child).mpr (hcoll.child_mem parent child hedge)
  · unfold getParents
    rw [linksOf_setRootBlock, if_pos ⟨rfl, rfl⟩]

/-! ## Examined blocks -/

/-- `parent` is recorded as a parent of `child`. -/
def ParentOf (blocks : BlockStructure κ δ) (parent child : κ) : Prop := parent ∈ blocks.getParents child

/-- Every block from `key` upwards, short of the root, has a parent that
satisfies no removal condition. -/
def Examined (blocks : BlockStructure κ δ) (condition : κ → Bool) (key : κ) : Prop :=
  ∀ above, ReflTransGen blocks.ParentOf above key → above = blocks.rootBlockUsageKey ∨
    ∃ parent, blocks.ParentOf parent above ∧ condition parent = false

variable {blocks : BlockStructure κ δ} {condition : κ → Bool}

section

variable (hlink : blocks.Linked blocks.rootBlockUsageKey)
include hlink

theorem not_parentOf_root (parent : κ) : ¬ blocks.ParentOf parent blocks.rootBlockUsageKey := by
  unfold ParentOf
  rw [hlink.root_parents]
  exact not_mem_nil

theorem edge_of_parentOf {parent : κ} (hpar : blocks.ParentOf parent child) : blocks.Edge parent child :=
  (hlink.edge_iff fun heq => not_parentOf_root hlink parent (heq ▸ hpar)).mpr hpar

theorem examined_root : blocks.Examined condition blocks.rootBlockUsageKey := by
  intro above habove
  cases habove with
  | refl => exact .inl rfl
  | tail _ hpar => exact absurd hpar (not_parentOf_root hlink _)

end

variable {key : κ}

theorem examined_of_parents (hpars : ∀ parent, blocks.ParentOf parent key → blocks.Examined condition parent)
    (hretd : ∃ parent, blocks.ParentOf parent key ∧ condition parent = false) :
    blocks.Examined condition key := by
  intro above habove
  cases habove with
  | refl => exact .inr hretd
  | tail hpath hpar => exact hpars _ hpar above hpath

theorem Examined.parent {parent : κ} (hexa : blocks.Examined condition key)
    (hpar : blocks.ParentOf parent key) : blocks.Examined condition parent :=
  fun above habove => hexa above (habove.tail hpar)

theorem Examined.induction (hlink : blocks.Linked blocks.rootBlockUsageKey)
    (hacyc : Acyclic blocks.Edge) {P : κ → Prop} (hroot : P blocks.rootBlockUsageKey)
    (hstep : ∀ key, (∀ parent, blocks.ParentOf parent key → P parent ∧ blocks.Examined condition parent) →
      (∃ parent, blocks.ParentOf parent key ∧ condition parent = false) → P key)
        (hexa : blocks.Examined condition key) : P key := by
  have hfin : {child | ∃ parent, blocks.ParentOf parent child}.Finite := by
    refine Set.Finite.subset (List.finite_toSet blocks.blockRelations.keys) ?_
    rintro child ⟨parent, hpar⟩
    exact mem_of_linksOf hpar
  have hwf : WellFounded blocks.ParentOf := (hacyc.mono fun _ _ hpar => edge_of_parentOf hlink hpar).wellFounded hfin
  induction key using hwf.induction with
  | _ key ih =>
    rcases hexa key ReflTransGen.refl with hkey | hretd
    · rw [hkey]
      exact hroot
    · exact hstep key (fun parent hpar => ⟨ih parent hpar (hexa.parent hpar), hexa.parent hpar⟩) hretd

/-! ## The filtering traversal -/

def Ready (blocks : BlockStructure κ δ) (yieldResults : Dict κ Bool) (key : κ) : Prop :=
  key = blocks.rootBlockUsageKey ∨ ((∀ parent, blocks.ParentOf parent key → parent ∈ yieldResults) ∧
      ∃ parent, blocks.ParentOf parent key ∧ yieldResults.lookup parent = some true)

def removedBy (yieldResults : Dict κ Bool) (key : κ) : Bool := decide (yieldResults.lookup key = some false)

/-- What holds between two rounds of a traversal that started on `blocks` and
removes the blocks satisfying `condition`. -/
structure Filtering (blocks : BlockStructure κ δ) (condition : κ → Bool)
    (state : Traversal κ (BlockStructure κ δ)) : Prop where
  without : Without blocks blocks.rootBlockUsageKey (removedBy state.yieldResults) state.graph
  verdict : ∀ key retained, state.yieldResults.lookup key = some retained →
    retained = !condition key ∧ blocks.Examined condition key
  result_below : ∀ key ∈ state.yieldResults, ReflTransGen blocks.Edge blocks.rootBlockUsageKey key
  stack_below : ∀ key ∈ state.stack, ReflTransGen blocks.Edge blocks.rootBlockUsageKey key
  ready : ∀ key, blocks.Ready state.yieldResults key → key ∈ state.yieldResults ∨ key ∈ state.stack

section

variable {yieldResults : Dict κ Bool} (hkey : key ∉ yieldResults)
include hkey

theorem not_mem_of_lookup_none : removedBy yieldResults key = false := by
  unfold removedBy
  rw [lookup_eq_none.mpr hkey]
  rfl

theorem removedBy_insert_true : removedBy (yieldResults.insert key true) = removedBy yieldResults := by
  funext other
  unfold removedBy
  rw [lookup_insert]
  by_cases heq : other = key
  · rw [if_pos heq, heq, lookup_eq_none.mpr hkey]
    rfl
  · rw [if_neg heq]

end

theorem removedBy_insert_false (yieldResults : Dict κ Bool) (key : κ) : removedBy (yieldResults.insert key false) =
      fun other => removedBy yieldResults other || decide (other = key) := by
  funext other
  unfold removedBy
  rw [lookup_insert]
  by_cases heq : other = key
  · simp [heq]
  · simp [heq]

variable {state : Traversal κ (BlockStructure κ δ)}

theorem passedOver_iff (hfilt : Filtering blocks condition state) (hkey : key ∉ state.yieldResults)
    (filterFunc : BlockFilter κ δ) :
    passedOver (topological filterFunc) blocks.rootBlockUsageKey state key = false ↔
      blocks.Ready state.yieldResults key := by
  unfold passedOver Ready topological
  by_cases hroot : key = blocks.rootBlockUsageKey
  · simp [hroot]
  have hpars := hfilt.without.getParents_eq (not_mem_of_lookup_none hkey)
  have hmem : ∀ parent, parent ∈ state.graph.getParents key ↔
      blocks.ParentOf parent key ∧ state.yieldResults.lookup parent ≠ some false := by
    intro parent
    rw [hpars, mem_filter]
    simp [ParentOf, removedBy]
  have hall : (state.graph.getParents key).all (fun parent => decide (parent ∈ state.yieldResults)) = true ↔
      ∀ parent, blocks.ParentOf parent key → parent ∈ state.yieldResults := by
    simp only [all_eq_true, decide_eq_true_eq, hmem]
    constructor
    · intro hcur parent hpar
      by_cases hfalse : state.yieldResults.lookup parent = some false
      · exact Dict.mem_iff_lookup.mpr ⟨false, hfalse⟩
      · exact hcur parent ⟨hpar, hfalse⟩
    · exact fun horig parent hpar => horig parent hpar.1
  have hany : (state.graph.getParents key).any (fun parent => (state.yieldResults.lookup parent).getD false) = true ↔
      ∃ parent, blocks.ParentOf parent key ∧ state.yieldResults.lookup parent = some true := by
    simp only [any_eq_true, hmem]
    constructor
    · rintro ⟨parent, ⟨hpar, -⟩, hyiel⟩
      refine ⟨parent, hpar, ?_⟩
      cases hlook : state.yieldResults.lookup parent with
      | none => simp [hlook] at hyiel
      | some retained => simpa [hlook] using hyiel
    · rintro ⟨parent, hpar, hlook⟩
      exact ⟨parent, ⟨hpar, by simp [hlook]⟩, by simp [hlook]⟩
  rw [← hall, ← hany]
  simp [hroot]

theorem not_edge_root (hacyc : Acyclic blocks.Edge) (hbel : ReflTransGen blocks.Edge blocks.rootBlockUsageKey key) :
    ¬ blocks.Edge key blocks.rootBlockUsageKey :=
  fun hedge => hacyc _ (TransGen.tail' hbel hedge)

variable {rest : List κ}

theorem Filtering.pop (hfilt : Filtering blocks condition state) (hstack : state.stack = key :: rest)
    (hpop : key ∈ state.yieldResults ∨ ¬ blocks.Ready state.yieldResults key) :
    Filtering blocks condition { state with stack := rest } where
  __ := hfilt
  stack_below := fun other hoth => hfilt.stack_below other (hstack ▸ mem_cons_of_mem _ hoth)
  ready := by
    intro other hrdy
    rcases hfilt.ready other hrdy with hres | hoth
    · exact .inl hres
    · rw [hstack] at hoth
      rcases mem_cons.mp hoth with heq | hoth
      · subst heq
        exact .inl (hpop.resolve_right (fun hnot => hnot hrdy))
      · exact .inr hoth

theorem Filtering.visit (hfilt : Filtering blocks condition state) (hlink : blocks.Linked blocks.rootBlockUsageKey)
    (hstack : state.stack = key :: rest) (hkey : key ∉ state.yieldResults)
    (hrdy : blocks.Ready state.yieldResults key) (graph : BlockStructure κ δ)
    (hgraph : Without blocks blocks.rootBlockUsageKey
      (removedBy (state.yieldResults.insert key (!condition key))) graph) (yielded : List κ) :
    Filtering blocks condition
      { stack := state.graph.getChildren key ++ rest
        yieldResults := state.yieldResults.insert key (!condition key)
        yielded := yielded
        graph := graph } where
  without := hgraph
  verdict := by
    intro other retained hlook
    by_cases heq : other = key
    · subst heq
      refine ⟨(some.inj ((lookup_insert_self _ _ _).symm.trans hlook)).symm, ?_⟩
      rcases hrdy with hroot | ⟨hall, parent, hpar, hretd⟩
      · rw [hroot]
        exact examined_root hlink
      · refine examined_of_parents (fun above habove => ?_) ⟨parent, hpar, ?_⟩
        · obtain ⟨verdict, hver⟩ := Dict.mem_iff_lookup.mp (hall above habove)
          exact (hfilt.verdict above verdict hver).2
        · simpa using (hfilt.verdict parent true hretd).1
    · rw [lookup_insert_of_ne heq] at hlook
      exact hfilt.verdict other retained hlook
  result_below := by
    intro other hoth
    rcases (mem_insert _).mp hoth with heq | hoth
    · subst heq
      exact hfilt.stack_below other (hstack ▸ mem_cons_self)
    · exact hfilt.result_below other hoth
  stack_below := by
    intro other hoth
    rcases mem_append.mp hoth with hch | hoth
    · have hbel := hfilt.stack_below key (hstack ▸ mem_cons_self)
      exact hbel.tail (hfilt.without.edge_of hch)
    · exact hfilt.stack_below other (hstack ▸ mem_cons_of_mem _ hoth)
  ready := by
    intro other hoth
    by_cases heq : other = key
    · exact .inl ((mem_insert _).mpr (.inl heq))
    by_cases hbef : blocks.Ready state.yieldResults other
    · rcases hfilt.ready other hbef with hres | hmem
      · exact .inl ((mem_insert _).mpr (.inr hres))
      · rw [hstack] at hmem
        exact .inr (mem_append_right _ ((mem_cons.mp hmem).resolve_left heq))
    -- `key` is the parent that `other` was waiting for
    have hpar : blocks.ParentOf key other := by
      by_contra hnot
      refine hbef (hoth.imp_right fun ⟨hall, parent, hparentOf, hretd⟩ => ⟨?_, ?_⟩)
      · intro above habove
        rcases (mem_insert _).mp (hall above habove) with heq | hmem
        · exact absurd (heq ▸ habove) hnot
        · exact hmem
      · have hne : parent ≠ key := fun heq => hnot (heq ▸ hparentOf)
        rw [lookup_insert_of_ne hne] at hretd
        exact ⟨parent, hparentOf, hretd⟩
    by_cases hres : other ∈ state.yieldResults
    · exact .inl ((mem_insert _).mpr (.inr hres))
    have hroot : other ≠ blocks.rootBlockUsageKey := fun hroot => not_parentOf_root hlink key (hroot ▸ hpar)
    refine .inr (mem_append_left _ ?_)
    exact (hfilt.without.edge_iff hroot).mpr ⟨edge_of_parentOf hlink hpar,
      not_mem_of_lookup_none hkey, not_mem_of_lookup_none hres⟩

/-- The rounds that a traversal can still make: one for each node on the stack
and one for each link out of a block that has no verdict yet. -/
def remaining (blocks : BlockStructure κ δ) (state : Traversal κ (BlockStructure κ δ)) : Nat :=
  state.stack.length + ∑ key ∈ blocks.blockRelations.keys.toFinset.filter (· ∉ state.yieldResults),
      (blocks.getChildren key).length

theorem remaining_pop (blocks : BlockStructure κ δ) (hstack : state.stack = key :: rest) :
    blocks.remaining { state with stack := rest } < blocks.remaining state := by
  unfold remaining
  rw [hstack, length_cons]
  exact Nat.add_lt_add_right (lt_succ_self _) _

theorem remaining_visit {next : Traversal κ (BlockStructure κ δ)}
    {children : List κ} {retained : Bool} (hmem : key ∈ blocks)
    (hstack : state.stack = key :: rest) (hkey : key ∉ state.yieldResults)
    (hkids : children.length ≤ (blocks.getChildren key).length)
    (hnextStack : next.stack = children ++ rest)
    (hnextResults : next.yieldResults = state.yieldResults.insert key retained) :
    blocks.remaining next < blocks.remaining state := by
  have herase : blocks.blockRelations.keys.toFinset.filter (· ∉ next.yieldResults) =
      (blocks.blockRelations.keys.toFinset.filter (· ∉ state.yieldResults)).erase key := by
    ext other
    simp only [Finset.mem_filter, Finset.mem_erase, hnextResults, mem_insert]
    tauto
  have hpend : key ∈ blocks.blockRelations.keys.toFinset.filter (· ∉ state.yieldResults) :=
    Finset.mem_filter.mpr ⟨mem_toFinset.mpr hmem, hkey⟩
  have hsum := Finset.add_sum_erase _ (fun other => (blocks.getChildren other).length) hpend
  unfold remaining
  rw [herase, ← hsum, hnextStack, hstack, length_append, length_cons]
  omega

/-- The filter removes a block, alone, exactly when it satisfies the condition. -/
def Removes (condition : κ → Bool) (filterFunc : BlockFilter κ δ) : Prop :=
  ∀ (blocks rest : BlockStructure κ δ) (key : κ), blocks.removeBlock key false = .ok rest →
    filterFunc blocks key = if condition key then .ok (rest, false) else .ok (blocks, true)

theorem mem_of_below (hlink : blocks.Linked blocks.rootBlockUsageKey) (hroot : blocks.rootBlockUsageKey ∈ blocks)
    (hbel : ReflTransGen blocks.Edge blocks.rootBlockUsageKey key) : key ∈ blocks := by
  by_cases hkey : key = blocks.rootBlockUsageKey
  · rwa [hkey]
  · cases hbel with
    | refl => exact hroot
    | tail _ hedge => exact hlink.child_mem _ key hkey hedge

section

variable {filterFunc : BlockFilter κ δ} (hlink : blocks.Linked blocks.rootBlockUsageKey)
  (hacyc : Acyclic blocks.Edge) (hroot : blocks.rootBlockUsageKey ∈ blocks)
  (hfil : Removes condition filterFunc)
include hlink hacyc hroot hfil

theorem Filtering.round (hfilt : Filtering blocks condition state) (hact : state.active = true) :
    ∃ next, Traversal.round (topological filterFunc) blocks.rootBlockUsageKey state = .ok next ∧
      Filtering blocks condition next ∧ blocks.remaining next < blocks.remaining state := by
  cases hstack : state.stack with
  | nil => simp [active, hstack] at hact
  | cons key rest =>
    unfold Traversal.round
    rw [hstack]
    by_cases hkey : key ∈ state.yieldResults
    · refine ⟨{ state with stack := rest }, ?_, hfilt.pop hstack (.inl hkey), remaining_pop blocks hstack⟩
      simp only [hkey, if_true, ite_self]
    by_cases hrdy : blocks.Ready state.yieldResults key
    · have hvisit := (passedOver_iff hfilt hkey filterFunc).mpr hrdy
      have hbel := hfilt.stack_below key (hstack ▸ mem_cons_self)
      have hnotRemoved := not_mem_of_lookup_none hkey
      have hmem : key ∈ state.graph := (hfilt.without.mem_iff key).mpr ⟨mem_of_below hlink hroot hbel, hnotRemoved⟩
      obtain ⟨removed, hremo, hrem⟩ := removeBlock_without (hfilt.without.linked hlink) hmem
        (fun hedge => not_edge_root hacyc hbel (hfilt.without.edge_of hedge))
      have hlen : (state.graph.getChildren key).length ≤ (blocks.getChildren key).length := by
        unfold getChildren
        rw [hfilt.without.links .children key hnotRemoved]
        exact List.length_filter_le _ _
      simp only [hvisit, false_eq_true, if_false, hkey]
      simp only [topological, isSome_some, if_true, hfil _ _ _ hremo]
      cases hcond : condition key with
      | true =>
        refine ⟨_, rfl, ?_, remaining_visit (mem_of_below hlink hroot hbel) hstack hkey hlen rfl rfl⟩
        have hgraph : Without blocks blocks.rootBlockUsageKey
            (removedBy (state.yieldResults.insert key (!condition key))) removed := by
          rw [hcond, Bool.not_true, removedBy_insert_false]
          exact hfilt.without.trans hrem
        have hnxt := hfilt.visit hlink hstack hkey hrdy removed hgraph state.yielded
        rwa [hcond] at hnxt
      | false =>
        refine ⟨_, rfl, ?_, remaining_visit (mem_of_below hlink hroot hbel) hstack hkey hlen rfl rfl⟩
        have hgraph : Without blocks blocks.rootBlockUsageKey
            (removedBy (state.yieldResults.insert key (!condition key))) state.graph := by
          rw [hcond, Bool.not_false, removedBy_insert_true hkey]
          exact hfilt.without
        have hnxt := hfilt.visit hlink hstack hkey hrdy state.graph hgraph (state.yielded ++ [key])
        rwa [hcond] at hnxt
    · refine ⟨{ state with stack := rest }, ?_, hfilt.pop hstack (.inr hrdy), remaining_pop blocks hstack⟩
      have hover : passedOver (topological filterFunc) blocks.rootBlockUsageKey state key = true := by
        rw [← not_eq_false]
        exact fun hfalse => hrdy ((passedOver_iff hfilt hkey filterFunc).mp hfalse)
      simp only [hover, if_true]

theorem filterTopologicalTraversal_without : ∃ bound removed rest, (∀ fuel, bound ≤ fuel →
        filterTopologicalTraversal fuel filterFunc blocks = some (.ok rest)) ∧
      Without blocks blocks.rootBlockUsageKey removed rest ∧
      ∀ key, removed key = true ↔ blocks.Examined condition key ∧ condition key = true := by
  have hinit : Filtering blocks condition (start blocks.rootBlockUsageKey blocks) := by
    constructor
    · exact Without.refl blocks _
    · intro key retained hlook
      cases hlook
    · intro key hkey
      exact absurd hkey (notMem_empty key)
    · intro key hkey
      rw [mem_singleton.mp hkey]
    · rintro key (hkey | ⟨-, parent, -, hretd⟩)
      · exact .inr (mem_singleton.mpr hkey)
      · cases hretd
  obtain ⟨last, hleads, hfilt, hstop⟩ :=
    whileLoop.of_invariant (Filtering blocks condition) blocks.remaining (fun state hfilt hact =>
        hfilt.round hlink hacyc hroot hfil hact) _ hinit
  obtain ⟨bound, hbound⟩ := hleads.returns hstop
  have hstack : last.stack = [] := by
    simpa [active] using hstop
  have hrdy : ∀ key, blocks.Ready last.yieldResults key → key ∈ last.yieldResults := by
    intro key hrdy
    have := hfilt.ready key hrdy
    rw [hstack] at this
    exact this.resolve_right not_mem_nil
  -- an examined block has a verdict, because its parents have one
  have hexa : ∀ key, blocks.Examined condition key → key ∈ last.yieldResults := by
    intro key hkey
    refine Examined.induction hlink hacyc  (hrdy _ (.inl rfl)) (fun child hpars ⟨parent, hpar, hcond⟩ => ?_) hkey
    refine hrdy child (.inr ⟨fun above habove => (hpars above habove).1, parent, hpar, ?_⟩)
    obtain ⟨retained, hretd⟩ := Dict.mem_iff_lookup.mp (hpars parent hpar).1
    rw [hretd, (hfilt.verdict parent retained hretd).1, hcond, Bool.not_false]
  refine ⟨bound, removedBy last.yieldResults, last.graph, fun fuel hfuel => ?_,
    hfilt.without, fun key => ⟨fun hrem => ?_, fun ⟨hkey, hcond⟩ => ?_⟩⟩
  · unfold filterTopologicalTraversal traverseGeneric
    rw [hbound fuel hfuel]
    rfl
  · obtain ⟨hver, hkey⟩ := hfilt.verdict key false (of_decide_eq_true hrem)
    exact ⟨hkey, by simpa using hver.symm⟩
  · obtain ⟨retained, hretd⟩ := Dict.mem_iff_lookup.mp (hexa key hkey)
    unfold removedBy
    rw [hretd, (hfilt.verdict key retained hretd).1, hcond]
    rfl

end

/-! ## Survivors -/

/-- A path of blocks that satisfy no removal condition, from `start` to `key`. -/
def OpenPath (blocks : BlockStructure κ δ) (condition : κ → Bool) (start key : κ) : Prop :=
  condition start = false ∧
    ReflTransGen (fun parent child => blocks.Edge parent child ∧ condition child = false) start key

end BlockStructure

namespace BlockStructureTransformers

open BlockStructure

/-- One transformer for each list, with a removal filter for each of its conditions. -/
def ofConditions (conditionLists : List (List (κ → Bool))) : BlockStructureTransformers κ δ where
  supportsFilter := conditionLists.map (fun conditions _ => conditions.map (createRemovalFilter · false))

def satisfies (conditionLists : List (List (κ → Bool))) (key : κ) : Bool :=
  conditionLists.flatten.any (fun condition => condition key)

variable {blocks : BlockStructure κ δ}

/-- With or without filtering transformers, the blocks taken out are the examined
ones that satisfy a condition. -/
theorem transformWithFilters_without (conditionLists : List (List (κ → Bool)))
    (hlink : blocks.Linked blocks.rootBlockUsageKey) (hacyc : Acyclic blocks.Edge)
    (hroot : blocks.rootBlockUsageKey ∈ blocks) :
    ∃ bound removed rest, (∀ fuel, bound ≤ fuel →
        transformWithFilters fuel (ofConditions conditionLists) blocks = some (.ok rest)) ∧
      Without blocks blocks.rootBlockUsageKey removed rest ∧
      ∀ key, removed key = true ↔ blocks.Examined (satisfies conditionLists) key ∧
        satisfies conditionLists key = true := by
  cases conditionLists with
  | nil =>
    refine ⟨0, fun _ => false, blocks, fun fuel _ => rfl, Without.refl blocks _, fun key => ?_⟩
    simp [satisfies]
  | cons conditions conditionLists =>
    have hfilte : ((ofConditions (conditions :: conditionLists)).supportsFilter.flatMap
          (fun transformBlockFilters => transformBlockFilters blocks)) =
        (conditions :: conditionLists).flatten.map (createRemovalFilter · false) := by
      unfold ofConditions
      rw [flatMap_map, List.map_flatten, List.flatMap_def]
    have hfil : Removes (satisfies (conditions :: conditionLists)) (combineFilters
        ((conditions :: conditionLists).flatten.map (createRemovalFilter · false)) : BlockFilter κ δ) :=
      fun _ _ _ hremo => combineFilters_conditions _ hremo
    obtain ⟨bound, removed, rest, hbound, hwit⟩ := filterTopologicalTraversal_without hlink hacyc hroot hfil
    refine ⟨bound, removed, rest, fun fuel hfuel => ?_, hwit⟩
    rw [← hbound fuel hfuel, ← hfilte]
    rfl

/-- What a transformation from `start` leaves: the filters take the blocks of `removed`
out of the structure, and the pruning keeps what `start` reaches in the rest. -/
structure Leaves (blocks : BlockStructure κ δ) (start : κ) (condition removed : κ → Bool)
    (rest transformed : BlockStructure κ δ) : Prop where
  without : Without (blocks.setRootBlock start) start removed rest
  removed_iff : ∀ key, removed key = true ↔ (blocks.setRootBlock start).Examined condition key ∧ condition key = true
  mem_iff : ∀ key, key ∈ transformed ↔ ReflTransGen rest.Edge start key ∧ key ∈ rest

namespace Leaves

variable {start : κ} {condition removed : κ → Bool} {rest transformed : BlockStructure κ δ}

section

variable (hlvs : Leaves blocks start condition removed rest transformed)
include hlvs

theorem stays_iff (key : κ) : removed key = false ↔
      ((blocks.setRootBlock start).Examined condition key → condition key = false) := by
  rw [← not_eq_true, hlvs.removed_iff, not_and, not_eq_true]

theorem edge_of {parent child : κ} (hedge : rest.Edge parent child) : blocks.Edge parent child := by
  have hbef := hlvs.without.edge_of hedge
  rwa [edge_setRootBlock] at hbef

theorem edge_iff {parent child : κ} (hch : child ≠ start) : rest.Edge parent child ↔
      blocks.Edge parent child ∧ removed parent = false ∧ removed child = false := by
  rw [hlvs.without.edge_iff hch, edge_setRootBlock]

section

variable (hcoll : blocks.Collected)
include hcoll

theorem child_mem {parent child : κ} (hpar : parent ∈ transformed)
    (hedge : blocks.Edge parent child) (hch : child ≠ start) (hstays : removed child = false) :
    child ∈ transformed := by
  obtain ⟨hpath, hparentRest⟩ := (hlvs.mem_iff parent).mp hpar
  have hparentStays := ((hlvs.without.mem_iff parent).mp hparentRest).2
  refine (hlvs.mem_iff child).mpr ⟨hpath.tail ((hlvs.edge_iff hch).mpr ⟨hedge, hparentStays, hstays⟩), ?_⟩
  refine (hlvs.without.mem_iff child).mpr ⟨?_, hstays⟩
  exact (mem_setRootBlock _ _ _).mpr (hcoll.child_mem parent child hedge)

theorem mem_of_openPath (hst : start ∈ blocks) {key : κ} (hopen : blocks.OpenPath condition start key) :
    key ∈ transformed ∧ ReflTransGen blocks.Edge start key := by
  obtain ⟨hstartOpen, hpath⟩ := hopen
  induction hpath with
  | refl =>
    refine ⟨(hlvs.mem_iff start).mpr ⟨ReflTransGen.refl, ?_⟩, ReflTransGen.refl⟩
    exact (hlvs.without.mem_iff start).mpr ⟨(mem_setRootBlock _ _ _).mpr hst,
      (hlvs.stays_iff start).mpr fun _ => hstartOpen⟩
  | @tail parent child _ hstep ih =>
    obtain ⟨hpar, hbel⟩ := ih
    have hch : child ≠ start :=
      fun heq => hcoll.acyclic start (TransGen.tail' hbel (heq ▸ hstep.1))
    exact ⟨hlvs.child_mem hcoll hpar hstep.1 hch ((hlvs.stays_iff child).mpr fun _ => hstep.2), hbel.tail hstep.1⟩

/-- What `start` reaches in the rest lies on an open path, if the blocks to be removed
below such a path are examined. -/
theorem openPath_of_reaches (hexa : ∀ parent child, blocks.OpenPath condition start parent →
      blocks.Edge parent child → condition child = true →
      (blocks.setRootBlock start).Examined condition child)
    {key : κ} (hpath : ReflTransGen rest.Edge start key) (hstays : removed key = false) :
    blocks.OpenPath condition start key := by
  have hlink : (blocks.setRootBlock start).Linked (blocks.setRootBlock start).rootBlockUsageKey :=
    hcoll.linked_setRootBlock start
  induction hpath with
  | refl => exact ⟨(hlvs.stays_iff start).mp hstays (examined_root hlink), ReflTransGen.refl⟩
  | @tail parent child hpath hedge ih =>
    have hbel : ReflTransGen blocks.Edge start parent :=
      ReflTransGen.mono (fun _ _ hstep => hlvs.edge_of hstep) _ _ hpath
    have hch : child ≠ start := by
      rintro rfl
      exact hcoll.acyclic child (TransGen.tail' hbel (hlvs.edge_of hedge))
    obtain ⟨hedgeBlocks, hparentStays, hchildStays⟩ := (hlvs.edge_iff hch).mp hedge
    obtain ⟨hstartOpen, hopenPath⟩ := ih hparentStays
    refine ⟨hstartOpen, hopenPath.tail ⟨hedgeBlocks, ?_⟩⟩
    cases hcond : condition child with
    | false => rfl
    | true =>
      rw [← hcond]
      exact (hlvs.stays_iff child).mp hchildStays (hexa parent child ⟨hstartOpen, hopenPath⟩ hedgeBlocks hcond)

/-- Exactly the blocks on open paths are left if and only if the blocks to be removed
below such a path are examined. -/
theorem openPath_iff (hst : start ∈ blocks) : (∀ key, key ∈ transformed ↔ blocks.OpenPath condition start key) ↔
      ∀ parent child, blocks.OpenPath condition start parent → blocks.Edge parent child → condition child = true →
        (blocks.setRootBlock start).Examined condition child := by
  constructor
  · intro hexact parent child hpar hedge hbad
    by_contra hune
    obtain ⟨hparentMem, hbel⟩ := hlvs.mem_of_openPath hcoll hst hpar
    have hch : child ≠ start :=
      fun heq => hcoll.acyclic start (TransGen.tail' hbel (heq ▸ hedge))
    have hchildMem : child ∈ transformed := hlvs.child_mem hcoll hparentMem hedge hch
      ((hlvs.stays_iff child).mpr fun hkey => absurd hkey hune)
    obtain ⟨-, hpath⟩ := (hexact child).mp hchildMem
    cases hpath with
    | refl => exact hch rfl
    | tail _ hstep => exact Bool.noConfusion (hbad.symm.trans hstep.2)
  · intro hexa key
    refine ⟨fun hkey => ?_, fun hopen => (hlvs.mem_of_openPath hcoll hst hopen).1⟩
    obtain ⟨hpath, hkeyRest⟩ := (hlvs.mem_iff key).mp hkey
    exact hlvs.openPath_of_reaches hcoll hexa hpath ((hlvs.without.mem_iff key).mp hkeyRest).2

end

end

end Leaves

/-- After the root is set to `start`, a transformation leaves exactly the blocks
that an open path reaches, if and only if every block to be removed below such a
path is examined: it and each block above it, short of `start`, has a parent
that satisfies no condition. -/
theorem transform_leaves_openPath_iff {blocks : BlockStructure κ δ} (hcollected : blocks.Collected)
    {start : κ} (hstart : start ∈ blocks) (conditionLists : List (List (κ → Bool))) :
    ∃ bound transformed, (∀ fuel, bound ≤ fuel →
        transform fuel (ofConditions conditionLists) (blocks.setRootBlock start) = some (.ok transformed)) ∧
      ((∀ key, key ∈ transformed ↔ blocks.OpenPath (satisfies conditionLists) start key) ↔
        ∀ parent child, blocks.OpenPath (satisfies conditionLists) start parent →
          blocks.Edge parent child → satisfies conditionLists child = true →
          (blocks.setRootBlock start).Examined (satisfies conditionLists) child) := by
  have hacyclic : Acyclic (blocks.setRootBlock start).Edge := by
    rw [edge_setRootBlock]
    exact hcollected.acyclic
  obtain ⟨bound, removed, rest, hbound, hwithout, hremoved⟩ :=
    transformWithFilters_without conditionLists (hcollected.linked_setRootBlock start) hacyclic
      ((mem_setRootBlock blocks start start).mpr hstart)
  obtain ⟨pruneBound, transformed, hpruneBound, hmem⟩ := rest.pruneUnreachable_mem
    (hacyclic.mono fun _ _ hedge => hwithout.edge_of hedge)
  refine ⟨max bound pruneBound, transformed, fun fuel hfuel => ?_, ?_⟩
  · unfold transform
    rw [hbound fuel (le_trans (le_max_left _ _) hfuel)]
    exact hpruneBound fuel (le_trans (le_max_right _ _) hfuel)
  · rw [show rest.rootBlockUsageKey = start from hwithout.root_eq] at hmem
    exact Leaves.openPath_iff ⟨hwithout, hremoved, hmem⟩ hcollected hstart

/-- A course in which `unit` hangs below a chapter and a `sequential` of another chapter. -/
def sharedUnit : BlockStructure String Unit :=
  (((((init "course").addRelation "course" "hidden").addRelation "course" "open").addRelation
    "hidden" "sequential").addRelation "sequential" "unit").addRelation "open" "unit"

theorem sharedUnit_collected : sharedUnit.Collected :=
  (((((collected_init "course").addRelation (by decide) (by decide) (by decide)).addRelation
    (by decide) (by decide) (by decide)).addRelation (by decide) (by decide) (by decide)).addRelation
    (by decide) (by decide) (by decide)).addRelation (by decide) (by decide) (by decide)

def hideUnit (key : String) : Bool := key = "hidden" || key = "unit"

theorem sharedUnit_transform : ∃ bound transformed, (∀ fuel, bound ≤ fuel →
        transform fuel (ofConditions [[hideUnit]]) (sharedUnit.setRootBlock "course") = some (.ok transformed)) ∧
      ((∀ key, key ∈ transformed ↔ sharedUnit.OpenPath (satisfies [[hideUnit]]) "course" key) ↔
        ∀ parent child, sharedUnit.OpenPath (satisfies [[hideUnit]]) "course" parent →
          sharedUnit.Edge parent child → satisfies [[hideUnit]] child = true →
          (sharedUnit.setRootBlock "course").Examined (satisfies [[hideUnit]]) child) :=
  transform_leaves_openPath_iff sharedUnit_collected (by decide) [[hideUnit]]

theorem transform_settled (transformers : BlockStructureTransformers κ δ)
    (blocks : BlockStructure κ δ) {fuel more : Nat} (hfuel : fuel ≤ more) :
    ∀ result, (transform fuel transformers blocks).run = some result →
      (transform more transformers blocks).run = some result := by
  have hloop : ∀ {ε σ α : Type} (condition : σ → Bool) (body : σ → Except ε σ) (state : σ)
      (finish : σ → ExceptT ε Option α) result,
      (ExceptT.bind (whileLoop condition body fuel state) finish).run = some result →
        (ExceptT.bind (whileLoop condition body more state) finish).run = some result :=
    fun _ _ _ _ => bind_settled (fun _ hres => whileLoop.mono hres hfuel) fun _ _ h => h
  refine bind_settled ?_ (fun _ => bind_settled (fun _ h => h) fun _ => hloop _ _ _ _)
  unfold transformWithFilters
  split
  · exact fun _ h => h
  · exact hloop _ _ _ _

def leaves (key : κ) : Option (Except PyError (BlockStructure κ δ)) → Bool
  | some (.ok blocks) => decide (key ∈ blocks)
  | _ => false

/-- `sequential` loses its only parent and gets no verdict, so the unit never
has all of its parents examined; the open chapter keeps it. -/
theorem sharedUnit_keeps_hidden_unit : ∃ transformed, (∀ fuel, 12 ≤ fuel → transform fuel (ofConditions [[hideUnit]])
        (sharedUnit.setRootBlock "course") = some (.ok transformed)) ∧
      "unit" ∈ transformed ∧
      ¬ sharedUnit.OpenPath (satisfies [[hideUnit]]) "course" "unit" := by
  have hrun : leaves "unit" (transform 12 (ofConditions [[hideUnit]])
      (sharedUnit.setRootBlock "course")).run = true := by decide +kernel
  have hsettled : ∀ fuel, 12 ≤ fuel → ∀ result,
      (transform 12 (ofConditions [[hideUnit]]) (sharedUnit.setRootBlock "course")).run = some result →
      (transform fuel (ofConditions [[hideUnit]]) (sharedUnit.setRootBlock "course")).run =
        some result := fun fuel hfuel => transform_settled _ _ hfuel
  generalize (transform 12 (ofConditions [[hideUnit]])
    (sharedUnit.setRootBlock "course")).run = outcome at hrun hsettled
  match outcome, hrun with
  | some (.ok transformed), hrun =>
    refine ⟨transformed, fun fuel hfuel => hsettled fuel hfuel _ rfl, of_decide_eq_true hrun, ?_⟩
    rintro ⟨-, hpath⟩
    rcases ReflTransGen.cases_tail hpath with heq | ⟨parent, -, hstep⟩
    · exact absurd heq (by decide)
    · exact absurd hstep.2 (by decide)

end BlockStructureTransformers

end EdxPlatform
