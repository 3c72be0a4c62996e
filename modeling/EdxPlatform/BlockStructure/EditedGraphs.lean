import EdxPlatform.BlockStructure.Survivors

/-!
# Editing a block structure

Any block of an acyclic structure can be removed, whether or not it is linked to the root.  A removal keeps the
two records of a link in step, also when the children of the block move up to its parents; pruning records the
links anew, from the leaves up.
-/

namespace EdxPlatform

open Relation

variable {κ δ : Type} [DecidableEq κ]

namespace BlockStructure

/-- The structure after `_add_relation` has been called for each of the links. -/
def addRelations (blocks : BlockStructure κ δ) (links : List (κ × κ)) : BlockStructure κ δ :=
  links.foldl (fun blocks link => blocks.addRelation link.1 link.2) blocks

/-- What calls of `remove_block` and `_prune_unreachable` make of a structure. -/
inductive Edited (start : BlockStructure κ δ) : BlockStructure κ δ → Prop
  | start : Edited start start
  | remove {blocks rest : BlockStructure κ δ} {key : κ} {keepDescendants : Bool} (hedit : Edited start blocks)
      (hrem : blocks.removeBlock key keepDescendants = .ok rest) : Edited start rest
  | prune {blocks pruned : BlockStructure κ δ} {fuel : Nat} (hedit : Edited start blocks)
      (hprune : blocks.pruneUnreachable fuel = some (.ok pruned)) : Edited start pruned

variable {blocks : BlockStructure κ δ}

section

variable {links : List (κ × κ)}

theorem addRelations_root : (blocks.addRelations links).rootBlockUsageKey = blocks.rootBlockUsageKey := by
  induction links generalizing blocks with
  | nil => rfl
  | cons link links ih => exact ih

theorem edge_addRelations {above below : κ} :
    (blocks.addRelations links).Edge above below ↔ blocks.Edge above below ∨ (above, below) ∈ links := by
  induction links generalizing blocks with
  | nil => exact (or_iff_left not_mem_nil).symm
  | cons link links ih =>
    unfold addRelations at ih ⊢
    rw [foldl_cons, ih, edge_addRelation, or_assoc, mem_cons, Prod.ext_iff]

theorem Mirrored.addRelations (hmir : blocks.Mirrored) (links : List (κ × κ)) :
    (blocks.addRelations links).Mirrored := by
  induction links generalizing blocks with
  | nil => exact hmir
  | cons link links ih => exact ih (hmir.addRelation link.1 link.2)

theorem mem_addRelations (hlinks : ∀ link ∈ links, link.1 ∈ blocks ∧ link.2 ∈ blocks) (key : κ) :
    key ∈ blocks.addRelations links ↔ key ∈ blocks := by
  induction links generalizing blocks with
  | nil => exact Iff.rfl
  | cons link links ih =>
    obtain ⟨hpar, hch⟩ := hlinks link mem_cons_self
    have hmem : ∀ other, other ∈ blocks.addRelation link.1 link.2 ↔ other ∈ blocks := by
      intro other
      refine (mem_addToRelations _ _ _ _).trans ⟨?_, fun hoth => .inr (.inr hoth)⟩
      rintro (rfl | rfl | hoth)
      · exact hpar
      · exact hch
      · exact hoth
    refine (ih fun other hoth => ?_).trans (hmem key)
    rw [hmem, hmem]
    exact hlinks other (mem_cons_of_mem _ hoth)

theorem mirrored_init (root : κ) : (init root : BlockStructure κ δ).Mirrored := by
  intro parent child
  unfold getChildren getParents
  rw [linksOf_init, linksOf_init, count_nil, count_nil]

end

namespace Mirrored

section

variable (hmir : blocks.Mirrored)
include hmir

theorem edge_iff {parent child : κ} : blocks.Edge parent child ↔ parent ∈ blocks.getParents child := by
  unfold Edge
  rw [← count_pos_iff, hmir, count_pos_iff]

theorem links_mem {side : Side} {key other : κ} (hoth : other ∈ blocks.linksOf side key) : other ∈ blocks := by
  cases side with
  | parents => exact mem_of_linksOf (hmir.edge_iff.mpr hoth)
  | children => exact mem_of_linksOf (hmir.edge_iff.mp hoth)

/-- Some block of an acyclic structure has no parents. -/
theorem exists_top (hacyc : Acyclic blocks.Edge) (key : κ) : ∃ top, blocks.getParents top = [] := by
  have hfin : {child | ∃ parent, blocks.Edge parent child}.Finite := by
    refine Set.Finite.subset (List.finite_toSet blocks.blockRelations.keys) ?_
    rintro child ⟨parent, hedge⟩
    exact hmir.links_mem hedge
  induction key using (hacyc.wellFounded hfin).induction with
  | _ key ih =>
    cases hpars : blocks.getParents key with
    | nil => exact ⟨key, hpars⟩
    | cons parent parents => exact ih parent (hmir.edge_iff.mpr (hpars ▸ mem_cons_self))

theorem linked {top : κ} (htop : blocks.getParents top = []) : blocks.Linked top where
  count_eq := fun parent child _ => hmir parent child
  child_mem := fun _ _ _ hedge => hmir.links_mem hedge
  root_parents := htop

theorem not_edge_top {top : κ} (htop : blocks.getParents top = []) (parent : κ) : ¬ blocks.Edge parent top := by
  rw [hmir.edge_iff, htop]
  exact not_mem_nil

end

theorem of_linked {top : κ} (hlkd : blocks.Linked top) (htop : ∀ parent, ¬ blocks.Edge parent top) :
    blocks.Mirrored := by
  intro parent child
  by_cases hch : child = top
  · rw [hch, hlkd.root_parents, count_nil, List.count_eq_zero]
    exact htop parent
  · exact hlkd.count_eq parent child hch

end Mirrored

/-! ## Removing a block -/

section

variable {blocks rest : BlockStructure κ δ} {key : κ}

/-- The links from the parents of a block to its children. -/
def joinedLinks (blocks : BlockStructure κ δ) (key : κ) : List (κ × κ) :=
  (blocks.getChildren key).flatMap fun child => (blocks.getParents key).map (·, child)

theorem mem_joinedLinks (hmir : blocks.Mirrored) {parent child : κ} :
    (parent, child) ∈ blocks.joinedLinks key ↔ blocks.Edge parent key ∧ blocks.Edge key child := by
  unfold joinedLinks
  rw [mem_flatMap, hmir.edge_iff]
  constructor
  · rintro ⟨child, hch, hlink⟩
    obtain ⟨parent, hpar, heq⟩ := mem_map.mp hlink
    cases heq
    exact ⟨hpar, hch⟩
  · rintro ⟨hpar, hch⟩
    exact ⟨child, hch, mem_map.mpr ⟨parent, hpar, rfl⟩⟩

theorem removeBlock_joined : blocks.removeBlock key true =
    (blocks.removeBlock key false).map fun rest => rest.addRelations (blocks.joinedLinks key) := by
  unfold removeBlock
  cases hblk : blocks.blockRelations.lookup key with
  | none => rfl
  | some block =>
    have hkids : blocks.getChildren key = block.children := linksOf_of_lookup hblk .children
    have hpars : blocks.getParents key = block.parents := linksOf_of_lookup hblk .parents
    simp only [joinedLinks, hkids, hpars, addRelations, List.foldl_flatMap, List.foldl_map]
    cases block.children.foldlM (unlink .parents key) blocks.blockRelations with
    | error err => rfl
    | ok upper =>
      simp only [bind, Except.bind]
      cases block.parents.foldlM (unlink .children key) upper <;> rfl

/-- What is left of a structure after a block is removed from it. -/
structure Removed (blocks : BlockStructure κ δ) (key : κ) (keepDescendants : Bool) (rest : BlockStructure κ δ) :
    Prop where
  root_eq : rest.rootBlockUsageKey = blocks.rootBlockUsageKey
  mem_iff : ∀ other, other ∈ rest ↔ other ∈ blocks ∧ other ≠ key
  mirrored : rest.Mirrored
  edge_iff : ∀ above below, rest.Edge above below ↔ (blocks.Edge above below ∧ above ≠ key ∧ below ≠ key) ∨
    (keepDescendants = true ∧ blocks.Edge above key ∧ blocks.Edge key below)

section

variable (hmir : blocks.Mirrored) (hacyc : Acyclic blocks.Edge) (hmem : key ∈ blocks)
include hmir hacyc hmem

theorem Mirrored.removeBlock_dropped : ∃ rest, blocks.removeBlock key false = .ok rest ∧ blocks.Removed key false rest := by
  -- the links into a block without parents are the links that need not be recorded on it
  obtain ⟨top, htop⟩ := hmir.exists_top hacyc key
  obtain ⟨rest, hrem, hwit⟩ := removeBlock_without (hmir.linked htop) hmem (hmir.not_edge_top htop key)
  have hout : ∀ parent, ¬ rest.Edge parent top := fun parent hedge =>
    hmir.not_edge_top htop parent (hwit.edge_of hedge)
  refine ⟨rest, hrem, hwit.root_eq, fun other => ?_, .of_linked (hwit.linked (hmir.linked htop)) hout,
    fun above below => ?_⟩
  · rw [hwit.mem_iff, decide_eq_false_iff_not]
  · by_cases hbel : below = top
    · subst hbel
      simp [hout above, hmir.not_edge_top htop]
    · simp [hwit.edge_iff hbel]

theorem Mirrored.removeBlock (keepDescendants : Bool) :
    ∃ rest, blocks.removeBlock key keepDescendants = .ok rest ∧ blocks.Removed key keepDescendants rest := by
  obtain ⟨rest, hrem, hrest⟩ := hmir.removeBlock_dropped hacyc hmem
  cases keepDescendants with
  | false => exact ⟨rest, hrem, hrest⟩
  | true =>
    have hloop : ¬ blocks.Edge key key := fun hedge => hacyc key (.single hedge)
    have hends : ∀ link ∈ blocks.joinedLinks key, link.1 ∈ rest ∧ link.2 ∈ rest := by
      rintro ⟨parent, child⟩ hlink
      obtain ⟨hin, hout⟩ := (mem_joinedLinks hmir).mp hlink
      rw [hrest.mem_iff, hrest.mem_iff]
      exact ⟨⟨mem_of_linksOf hin, fun heq => hloop (heq ▸ hin)⟩, hmir.links_mem hout, fun heq => hloop (heq ▸ hout)⟩
    refine ⟨_, removeBlock_joined.trans (congrArg _ hrem), addRelations_root.trans hrest.root_eq, fun other => ?_,
      hrest.mirrored.addRelations _, fun above below => ?_⟩
    · rw [mem_addRelations hends, hrest.mem_iff]
    · rw [edge_addRelations, hrest.edge_iff, mem_joinedLinks hmir]
      simp

end

namespace Removed

theorem acyclic {keepDescendants : Bool} (hrest : blocks.Removed key keepDescendants rest)
    (hacyc : Acyclic blocks.Edge) : Acyclic rest.Edge :=
  (hacyc.bypass key).mono fun above below hedge => ((hrest.edge_iff above below).mp hedge).imp_right And.right

/-- A block that is removed with its descendants kept is passed by. -/
theorem reaches_iff (hrest : blocks.Removed key true rest) (hacyc : Acyclic blocks.Edge) {above below : κ}
    (habove : above ∈ rest) (hbel : below ∈ rest) :
    ReflTransGen rest.Edge above below ↔ ReflTransGen blocks.Edge above below := by
  have hedges : rest.Edge = bypass blocks.Edge key := by
    funext parent child
    exact propext (by simpa [bypass] using hrest.edge_iff parent child)
  rw [hedges, reaches_bypass (fun hedge => hacyc key (.single hedge)) ((hrest.mem_iff above).mp habove).2
    ((hrest.mem_iff below).mp hbel).2]

end Removed

end

/-! ## Pruning -/

/-- The structure with the relations that pruning has built from the blocks of an order. -/
def prunedAlong (blocks : BlockStructure κ δ) (order : List κ) : BlockStructure κ δ :=
  { blocks with blockRelations := order.foldl (pruneOne blocks.blockRelations) ∅ }

theorem mem_prunedAlong (order : List κ) (key : κ) : key ∈ blocks.prunedAlong order ↔ key ∈ order ∧ key ∈ blocks :=
  (mem_foldl_pruneOne blocks.blockRelations key order ∅).trans (or_iff_left (notMem_empty key))

theorem pruneOne_children (key : κ) : ∀ (children : List κ) (pruned : BlockStructure κ δ),
    (∀ child ∈ children, child ∈ pruned) →
    { pruned with blockRelations := children.foldl (fun relations child =>
        if child ∈ relations then addToRelations relations key child else relations) pruned.blockRelations } =
      pruned.addRelations (children.map (key, ·)) := by
  intro children
  induction children with
  | nil => exact fun _ _ => rfl
  | cons child children ih =>
    intro pruned hmem
    rw [foldl_cons, if_pos (show child ∈ pruned.blockRelations from hmem child mem_cons_self)]
    exact ih (pruned.addRelation key child) fun other hoth =>
      (mem_addToRelations _ _ _ _).mpr (.inr (.inr (hmem other (mem_cons_of_mem _ hoth))))

theorem getChildren_addRelations (key other : κ) (children : List κ) :
    (blocks.addRelations (children.map (key, ·))).getChildren other =
      blocks.getChildren other ++ if other = key then children else [] := by
  induction children generalizing blocks with
  | nil => simp [addRelations]
  | cons child children ih =>
    refine ih.trans ?_
    unfold getChildren
    rw [linksOf_addRelation, append_assoc]
    by_cases hoth : other = key <;> simp [hoth]

/-- The block of an order that comes last is linked to its children, which all come before it. -/
theorem prunedAlong_concat (hmir : blocks.Mirrored) {order : List κ} {key : κ} (hkey : key ∈ blocks)
    (hchs : blocks.getChildren key ⊆ order) : ∃ pruned : BlockStructure κ δ,
      (∀ side other, pruned.linksOf side other = (blocks.prunedAlong order).linksOf side other) ∧
      blocks.prunedAlong (order ++ [key]) = pruned.addRelations ((blocks.getChildren key).map (key, ·)) := by
  obtain ⟨block, hblk⟩ := mem_iff_lookup.mp hkey
  have hkids : blocks.getChildren key = block.children := linksOf_of_lookup hblk .children
  refine ⟨{ blocks with blockRelations := addBlock (blocks.prunedAlong order).blockRelations key },
    linksOf_addBlock (blocks.prunedAlong order) key, ?_⟩
  rw [hkids, ← pruneOne_children]
  · unfold prunedAlong
    rw [List.foldl_concat, pruneOne, hblk]
  · intro child hch
    rw [← hkids] at hch
    exact (mem_addBlock _ _ _).mpr (.inr ((mem_prunedAlong order child).mpr ⟨hchs hch, hmir.links_mem hch⟩))

theorem prunedAlong_links (hmir : blocks.Mirrored) {order : List κ} (hnod : order.Nodup)
    (hord : DependencyOrder blocks.getChildren order) : (blocks.prunedAlong order).Mirrored ∧
      ∀ key, (blocks.prunedAlong order).getChildren key = if key ∈ order then blocks.getChildren key else [] := by
  induction order using reverseRecOn with
  | nil =>
    have hnone : ∀ side key, (blocks.prunedAlong []).linksOf side key = [] := fun side key =>
      linksOf_of_notMem (notMem_empty key) side
    refine ⟨fun parent child => ?_, fun key => hnone .children key⟩
    rw [getChildren, getParents, hnone, hnone, count_nil, count_nil]
  | append_singleton order key ih =>
    obtain ⟨hold, -, hdisj⟩ := nodup_append.mp hnod
    have hout : key ∉ order := fun hin => hdisj key hin key mem_cons_self rfl
    obtain ⟨hmirs, hchildren⟩ := ih hold hord.of_append
    by_cases hkey : key ∈ blocks
    · obtain ⟨pruned, hsame, hlast⟩ := prunedAlong_concat hmir hkey hord.last
      have hpruned : pruned.Mirrored := by
        intro parent child
        rw [getChildren, getParents, hsame, hsame]
        exact hmirs parent child
      rw [hlast]
      refine ⟨hpruned.addRelations _, fun other => ?_⟩
      rw [getChildren_addRelations, getChildren, hsame]
      refine congrArg (· ++ _) (hchildren other) |>.trans ?_
      by_cases hoth : other = key
      · subst hoth
        simp [hout]
      · simp [hoth]
    · -- a root that has been removed is traversed, but it is not a block
      have hsame : blocks.prunedAlong (order ++ [key]) = blocks.prunedAlong order := by
        unfold prunedAlong
        rw [List.foldl_concat, pruneOne, lookup_eq_none.mpr hkey]
      rw [hsame]
      refine ⟨hmirs, fun other => (hchildren other).trans ?_⟩
      by_cases hoth : other = key
      · subst hoth
        simp [hout, getChildren, linksOf_of_notMem hkey]
      · simp [hoth]

/-- What is left of a structure after the blocks that its root does not reach are dropped. -/
structure Pruned (blocks pruned : BlockStructure κ δ) : Prop where
  root_eq : pruned.rootBlockUsageKey = blocks.rootBlockUsageKey
  mem_iff : ∀ key, key ∈ pruned ↔ ReflTransGen blocks.Edge blocks.rootBlockUsageKey key ∧ key ∈ blocks
  mirrored : pruned.Mirrored
  children : ∀ key ∈ pruned, pruned.getChildren key = blocks.getChildren key

theorem Mirrored.pruneUnreachable (hmir : blocks.Mirrored) (hacyc : Acyclic blocks.Edge) :
    ∃ bound pruned, (∀ fuel, bound ≤ fuel → blocks.pruneUnreachable fuel = some (.ok pruned)) ∧
      blocks.Pruned pruned := by
  obtain ⟨bound, last, hbound, hord⟩ :=
    traversePostOrder_visited hacyc (finite_parents blocks) blocks.rootBlockUsageKey
  obtain ⟨hmirs, hchildren⟩ := prunedAlong_links hmir hord.nodup hord.before
  refine ⟨bound, blocks.prunedAlong last.visited, fun fuel hfuel => ?_, rfl, fun key => ?_, hmirs, fun key hkey => ?_⟩
  · unfold BlockStructure.pruneUnreachable
    rw [hbound fuel hfuel]
    rfl
  · rw [mem_prunedAlong, hord.mem_iff]
    exact Iff.rfl
  · rw [hchildren, if_pos ((mem_prunedAlong _ _).mp hkey).1]

theorem pruneUnreachable_mono {fuel more : Nat} {result : Except PyError (BlockStructure κ δ)}
    (hres : blocks.pruneUnreachable fuel = some result) (hle : fuel ≤ more) :
    blocks.pruneUnreachable more = some result :=
  bind_settled (fun _ hfst => whileLoop.mono hfst hle) (fun _ _ hnxt => hnxt) result hres

theorem Pruned.acyclic {pruned : BlockStructure κ δ} (hpruned : blocks.Pruned pruned)
    (hacyc : Acyclic blocks.Edge) : Acyclic pruned.Edge :=
  hacyc.mono fun above below hedge => by
    unfold Edge at hedge ⊢
    rwa [hpruned.children above (mem_of_linksOf hedge)] at hedge

/-! ## Runs -/

/-- What holds of an edited structure. -/
structure Consistent (root : κ) (blocks : BlockStructure κ δ) : Prop where
  root_eq : blocks.rootBlockUsageKey = root
  mirrored : blocks.Mirrored
  acyclic : Acyclic blocks.Edge

variable {root : κ} {blocks rest : BlockStructure κ δ}

theorem Consistent.remove (hcon : blocks.Consistent root) {key : κ} {keepDescendants : Bool}
    (hrem : blocks.removeBlock key keepDescendants = .ok rest) : rest.Consistent root := by
  by_cases hmem : key ∈ blocks
  · obtain ⟨result, hres, hrest⟩ := hcon.mirrored.removeBlock hcon.acyclic hmem keepDescendants
    cases hres.symm.trans hrem
    exact ⟨hrest.root_eq.trans hcon.root_eq, hrest.mirrored, hrest.acyclic hcon.acyclic⟩
  · unfold BlockStructure.removeBlock at hrem
    rw [lookup_eq_none.mpr hmem] at hrem
    cases hrem

theorem Consistent.prune (hcon : blocks.Consistent root) {fuel : Nat}
    (hprune : blocks.pruneUnreachable fuel = some (.ok rest)) : rest.Consistent root := by
  obtain ⟨bound, pruned, hbound, hpruned⟩ := hcon.mirrored.pruneUnreachable hcon.acyclic
  have hmore := pruneUnreachable_mono hprune (Nat.le_max_left fuel bound)
  cases (hbound _ (Nat.le_max_right fuel bound)).symm.trans hmore
  exact ⟨hpruned.root_eq.trans hcon.root_eq, hpruned.mirrored, hpruned.acyclic hcon.acyclic⟩

theorem Edited.consistent {start : BlockStructure κ δ} (hcon : start.Consistent root) (hedit : Edited start blocks) :
    blocks.Consistent root := by
  induction hedit with
  | start => exact hcon
  | remove _ hrem ih => exact ih.remove hrem
  | prune _ hprune ih => exact ih.prune hprune

/-- Whatever has been removed and pruned, the two records of each link agree and lead to blocks of the structure;
each block can be removed, and its neighbours stay connected when its descendants are kept; pruning leaves what the
root reaches. -/
theorem edited_structure (root : κ) (links : List (κ × κ))
    (hacyc : Acyclic ((init root : BlockStructure κ δ).addRelations links).Edge) {blocks : BlockStructure κ δ}
    (hedit : Edited ((init root).addRelations links) blocks) :
    (∀ parent child, (blocks.getChildren parent).count child = (blocks.getParents child).count parent) ∧
    (∀ side key, ∀ other ∈ blocks.linksOf side key, other ∈ blocks) ∧
    (∀ key ∈ blocks, ∀ keepDescendants, ∃ rest, blocks.removeBlock key keepDescendants = .ok rest ∧
      (∀ other, other ∈ rest ↔ other ∈ blocks ∧ other ≠ key) ∧
      (keepDescendants = true → ∀ above ∈ rest, ∀ below ∈ rest,
        (ReflTransGen rest.Edge above below ↔ ReflTransGen blocks.Edge above below))) ∧
    ∃ bound pruned, (∀ fuel, bound ≤ fuel → blocks.pruneUnreachable fuel = some (.ok pruned)) ∧
      (∀ key, key ∈ pruned ↔ ReflTransGen blocks.Edge root key ∧ key ∈ blocks) ∧
      ∀ key ∈ pruned, pruned.getChildren key = blocks.getChildren key ∧
        ∀ parent ∈ pruned, (pruned.getParents key).count parent = (blocks.getParents key).count parent := by
  have hstart : ((init root : BlockStructure κ δ).addRelations links).Consistent root :=
    ⟨addRelations_root, (mirrored_init root).addRelations links, hacyc⟩
  obtain ⟨hroot, hmir, hacycs⟩ := hedit.consistent hstart
  refine ⟨hmir, fun _ _ _ hoth => hmir.links_mem hoth, fun key hkey keepDescendants => ?_, ?_⟩
  · obtain ⟨rest, hrem, hrest⟩ := hmir.removeBlock hacycs hkey keepDescendants
    refine ⟨rest, hrem, hrest.mem_iff, ?_⟩
    rintro rfl above habove below hbel
    exact hrest.reaches_iff hacycs habove hbel
  · obtain ⟨bound, pruned, hbound, hpruned⟩ := hmir.pruneUnreachable hacycs
    refine ⟨bound, pruned, hbound, hroot ▸ hpruned.mem_iff, fun key hkey => ⟨hpruned.children key hkey,
      fun parent hpar => ?_⟩⟩
    rw [← hpruned.mirrored, ← hmir, hpruned.children parent hpar]

/-- Two links lead from the first block to the second, and one from the second to the third; the second block is
removed, with its descendants kept. -/
theorem edited_structure_joined :
    let start := (init 0 : BlockStructure (Fin 3) Unit).addRelations [(0, 1), (0, 1), (1, 2)]
    Acyclic start.Edge ∧ ∃ rest, Edited start rest ∧ rest.getChildren 0 = [2, 2] ∧ rest.getParents 2 = [0, 0] ∧
      ∀ key ∈ rest, ∀ keepDescendants, ∃ last, rest.removeBlock key keepDescendants = .ok last := by
  intro start
  have hacyc : Acyclic start.Edge := Acyclic.of_rank (fun key => key.val) (by decide)
  obtain ⟨rest, hrem, hkids, hpars⟩ : ∃ rest, start.removeBlock 1 true = .ok rest ∧ rest.getChildren 0 = [2, 2] ∧
      rest.getParents 2 = [0, 0] := ⟨_, rfl, by decide, by decide⟩
  have hedit : Edited start rest := .remove .start hrem
  refine ⟨hacyc, rest, hedit, hkids, hpars, fun key hkey keepDescendants => ?_⟩
  obtain ⟨last, hlast, -⟩ := (edited_structure 0 _ hacyc hedit).2.2.1 key hkey keepDescendants
  exact ⟨last, hlast⟩

end BlockStructure

end EdxPlatform
