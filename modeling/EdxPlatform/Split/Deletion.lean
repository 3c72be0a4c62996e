import EdxPlatform.Split.HeadRuns
import EdxPlatform.Split.Subtrees

/-!
# Deleting an item

A deleted block takes those blocks with it that lose their last parent.  The root of
the course is only safe from this if something other than the block leads to it.
-/

namespace EdxPlatform.Split

open Relation Blocks

/-- `rest` is what is left of `blocks` when `key` is deleted, and with it the blocks
that have no parent left. -/
structure DeletedFrom (blocks : Blocks) (root key : BlockKey) (rest : Blocks) : Prop where
  sub : ∀ other ∈ rest, other ∈ blocks
  gone_iff : ∀ other ∈ blocks, (other ∉ rest ↔ other = key ∨
    TransGen blocks.Edge key other ∧ ∀ parent, blocks.Edge parent other → parent ∉ rest)
  linked : ∀ parent child, rest.Edge parent child → child ∈ rest
  kept : ∀ other ∈ rest, ¬ blocks.Edge other key → rest.lookup other = blocks.lookup other
  reachable : ∀ other ∈ blocks, ReflTransGen (fun parent child => blocks.Edge parent child ∧ child ≠ key) root other →
    other ∈ rest

/-- A block without parents leads to `other`, by a path that does not pass through `key`. -/
def Blocks.HeldWithout (blocks : Blocks) (key other : BlockKey) : Prop :=
  ∃ top, top ≠ key ∧ (∀ parent, ¬ blocks.Edge parent top) ∧
    ReflTransGen (fun parent child => blocks.Edge parent child ∧ child ≠ key) top other

/-! ## Unlinking -/

section Unlinking

variable {blocks : Blocks} {key : BlockKey}

/-- The blocks after `key` was taken out of the children of its parents. -/
structure Unlinked (blocks : Blocks) (key : BlockKey) (newId : ObjectId) (rest : Blocks) :
    Prop where
  lookup : ∀ other, rest.lookup other = (blocks.lookup other).map fun block =>
    if key ∈ block.childKeys then block.removeChild key newId else block

theorem forM_unlinkFrom_run (newId : ObjectId) {parents : List BlockKey} (struct : Structure)
    (hdist : parents.Nodup) (hmem : ∀ parent ∈ parents, parent ∈ struct.blocks) :
    ∃ rest, parents.forM (unlinkFrom key newId) struct = .ok () { struct with blocks := rest } ∧
      ∀ other, rest.lookup other = if other ∈ parents then
        (struct.blocks.lookup other).map fun block => block.removeChild key newId
        else struct.blocks.lookup other := by
  induction parents generalizing struct with
  | nil => exact ⟨struct.blocks, rfl, by simp⟩
  | cons parent parents ih =>
    obtain ⟨hnot, hdist⟩ := nodup_cons.mp hdist
    obtain ⟨block, hblk⟩ := mem_iff_lookup.mp (hmem parent mem_cons_self)
    obtain ⟨rest, hrun, hlook⟩ := ih
      { struct with blocks := struct.blocks.insert parent (block.removeChild key newId) } hdist
      fun other hoth => (mem_insert _).mpr (.inr (hmem other (mem_cons_of_mem _ hoth)))
    refine ⟨rest, ?_, fun other => ?_⟩
    · have hfst : unlinkFrom key newId parent struct = .ok ()
          { struct with blocks := struct.blocks.insert parent (block.removeChild key newId) } := by
        unfold unlinkFrom
        rw [run_bind]
        change (orRaise (struct.blocks.lookup parent) _ >>= _ : EStateM StoreError Structure Unit) struct = _
        rw [hblk]
        rfl
      change (unlinkFrom key newId parent >>= fun _ => parents.forM (unlinkFrom key newId) :
        EStateM StoreError Structure Unit) struct = _
      rw [run_bind, hfst]
      exact hrun
    · rw [hlook, lookup_insert]
      by_cases heq : other = parent
      · subst heq
        simp [hnot, hblk]
      · simp [heq]

theorem nodup_getParents (key : BlockKey) (blocks : Blocks) : (getParentsFromStructure key blocks).Nodup :=
  blocks.keys_nodup.filter _

theorem unlink_run (newId : ObjectId) (struct : Structure) (key : BlockKey) :
    ∃ rest, (getParentsFromStructure key struct.blocks).forM (unlinkFrom key newId) struct =
        .ok () { struct with blocks := rest } ∧ Unlinked struct.blocks key newId rest := by
  obtain ⟨rest, hrun, hlook⟩ := forM_unlinkFrom_run newId struct (nodup_getParents key struct.blocks)
    fun parent hpar => (mem_getParents.mp hpar).parent_mem
  refine ⟨rest, hrun, ⟨fun other => ?_⟩⟩
  rw [hlook]
  cases hblk : struct.blocks.lookup other with
  | none => simp
  | some block => by_cases hkey : key ∈ block.childKeys <;> simp [edge_of_lookup hblk, hkey]

variable {newId : ObjectId} {rest : Blocks}

@[simp]
theorem BlockData.childKeys_removeChild (block : BlockData) (child : BlockKey) (newId : ObjectId) :
    (block.removeChild child newId).childKeys = block.childKeys.erase child := by
  unfold BlockData.removeChild BlockData.childKeys
  cases block.children <;> simp

section

variable (hunl : Unlinked blocks key newId rest)
include hunl

theorem Unlinked.mem_iff (other : BlockKey) : other ∈ rest ↔ other ∈ blocks := by
  rw [← lookup_isSome, ← lookup_isSome, hunl.lookup, isSome_map]

theorem Unlinked.edge_iff (hlink : blocks.Linked)
    {parent child : BlockKey} : rest.Edge parent child ↔ blocks.Edge parent child ∧ child ≠ key := by
  unfold Blocks.Edge
  rw [hunl.lookup]
  cases hblk : blocks.lookup parent with
  | none => simp
  | some block =>
    have hdist := hlink.distinct parent block hblk
    by_cases hkey : key ∈ block.childKeys
    · simp [hkey, hdist.mem_erase_iff, and_comm]
    · have hne : ∀ other ∈ block.childKeys, other ≠ key := by
        rintro other hoth rfl
        exact hkey hoth
      simpa [hkey] using fun h => hne child h

theorem Unlinked.linked (hlink : blocks.Linked) : rest.Linked where
  child_mem := by
    intro parent child hedge
    rw [hunl.mem_iff]
    exact hlink.child_mem parent child ((hunl.edge_iff hlink).mp hedge).1
  distinct := by
    intro other block hblk
    rw [hunl.lookup, map_eq_some_iff] at hblk
    obtain ⟨before, hbef, rfl⟩ := hblk
    have hdist := hlink.distinct other before hbef
    split
    · rw [BlockData.childKeys_removeChild]
      exact hdist.erase key
    · exact hdist

end

end Unlinking

section

variable {blocks rest : Blocks} {root key : BlockKey} {other : BlockKey}

theorem transGen_avoid (hacyc : Acyclic blocks.Edge) :
    TransGen (fun parent child => blocks.Edge parent child ∧ child ≠ key) key other ↔
      TransGen blocks.Edge key other := by
  refine ⟨TransGen.mono (fun _ _ hedge => hedge.1) _ _, fun hpath => ?_⟩
  induction hpath with
  | single hedge =>
    refine TransGen.single ⟨hedge, ?_⟩
    rintro rfl
    exact hacyc _ (TransGen.single hedge)
  | tail hpath hedge ih =>
    refine ih.tail ⟨hedge, ?_⟩
    rintro rfl
    exact hacyc _ (hpath.tail hedge)

theorem Blocks.Linked.finite_children (hlink : blocks.Linked) :
    {child | ∃ parent, blocks.Edge parent child}.Finite := by
  refine (List.finite_toSet blocks.keys).subset ?_
  rintro child ⟨parent, hedge⟩
  exact hlink.child_mem parent child hedge

theorem mem_iff_heldWithout (hlink : blocks.Linked) (hacyc : Acyclic blocks.Edge) (hkey : key ∉ rest)
    (hgone : ∀ other ∈ blocks, other ≠ key → (other ∉ rest ↔
      TransGen blocks.Edge key other ∧ ∀ parent, blocks.Edge parent other → parent ∉ rest))
        (hoth : other ∈ blocks) (hne : other ≠ key) :
    other ∈ rest ↔ blocks.HeldWithout key other := by
  constructor
  · have hwf := hacyc.wellFounded hlink.finite_children
    induction other using hwf.induction with
    | _ other ih =>
      intro hrest
      by_cases hpars : ∃ parent, blocks.Edge parent other
      · have hstays : ∃ parent, blocks.Edge parent other ∧ parent ∈ rest := by
          by_contra hnone
          push Not at hnone
          by_cases hbel : TransGen blocks.Edge key other
          · exact (hgone other hoth hne).mpr ⟨hbel, hnone⟩ hrest
          · obtain ⟨parent, hedge⟩ := hpars
            have hpar : parent ≠ key := fun heq => hbel (TransGen.single (heq ▸ hedge))
            exact hbel (((hgone parent hedge.parent_mem hpar).mp (hnone parent hedge)).1.tail hedge)
        obtain ⟨parent, hedge, hpar⟩ := hstays
        obtain ⟨top, htop, hnone, hpath⟩ := ih parent hedge hedge.parent_mem (fun heq => hkey (heq ▸ hpar)) hpar
        exact ⟨top, htop, hnone, hpath.tail ⟨hedge, hne⟩⟩
      · push Not at hpars
        exact ⟨other, hne, hpars, ReflTransGen.refl⟩
  · rintro ⟨top, htop, hnone, hpath⟩
    induction hpath with
    | refl =>
      by_contra hout
      obtain ⟨parent, -, hedge⟩ := TransGen.tail'_iff.mp ((hgone top hoth htop).mp hout).1
      exact hnone parent hedge
    | @tail parent child hpath hedge ih =>
      have hpar : parent ≠ key := by
        rcases ReflTransGen.cases_tail hpath with heq | ⟨above, -, hlast⟩
        · exact heq ▸ htop
        · exact hlast.2
      by_contra hout
      exact ((hgone child hoth hne).mp hout).2 parent hedge.1 (ih hedge.1.parent_mem hpar)

theorem Blocks.HeldWithout.extend (hheld : blocks.HeldWithout key root)
    (hpath : ReflTransGen (fun parent child => blocks.Edge parent child ∧ child ≠ key) root other) :
    blocks.HeldWithout key other := by
  obtain ⟨top, htop, hnone, habove⟩ := hheld
  exact ⟨top, htop, hnone, habove.trans hpath⟩

theorem deletedFrom_iff (hlink : blocks.Linked) (hacyc : Acyclic blocks.Edge)
    (hroot : root ≠ key) {newId : ObjectId} {unlinked : Blocks}
    (hunl : Unlinked blocks key newId unlinked) (hrem : SubtreeRemoved unlinked key rest) :
    DeletedFrom blocks root key rest ↔ blocks.HeldWithout key root := by
  have hedge : unlinked.Edge = fun parent child => blocks.Edge parent child ∧ child ≠ key := by
    funext parent child
    exact propext (hunl.edge_iff hlink)
  have hgone : ∀ other ∈ blocks, other ≠ key → (other ∉ rest ↔
      TransGen blocks.Edge key other ∧ ∀ parent, blocks.Edge parent other → parent ∉ rest) := by
    intro other hoth hne
    rw [hrem.gone_iff other ((hunl.mem_iff other).mpr hoth) hne, hedge, transGen_avoid hacyc]
    simp [hne]
  have hmem := fun other (hoth : other ∈ blocks) (hne : other ≠ key) =>
    mem_iff_heldWithout hlink hacyc hrem.root_notMem hgone hoth hne
  constructor
  · intro hdel
    by_cases hin : root ∈ blocks
    · exact (hmem root hin hroot).mp (hdel.reachable root hin ReflTransGen.refl)
    · exact ⟨root, hroot, fun parent hpar => hin (hlink.child_mem parent root hpar), ReflTransGen.refl⟩
  · intro hheld
    constructor
    · exact fun other hoth => (hunl.mem_iff other).mp (hrem.sub other hoth)
    · intro other hoth
      by_cases hne : other = key
      · subst hne
        exact iff_of_true hrem.root_notMem (.inl rfl)
      · rw [hgone other hoth hne, or_iff_right hne]
    · rintro parent child ⟨block, hblk, hch⟩
      have hpar : parent ∈ rest := mem_of_lookup hblk
      rw [hrem.lookup parent hpar] at hblk
      obtain ⟨hbef, hne⟩ := (hunl.edge_iff hlink).mp ⟨block, hblk, hch⟩
      by_contra hout
      exact ((hgone child (hlink.child_mem parent child hbef) hne).mp hout).2 parent hbef hpar
    · intro other hoth hnot
      rw [hrem.lookup other hoth, hunl.lookup]
      cases hblk : blocks.lookup other with
      | none => rfl
      | some block =>
        rw [edge_of_lookup hblk] at hnot
        simp [hnot]
    · intro other hoth hpath
      refine (hmem other hoth ?_).mpr (hheld.extend hpath)
      rcases ReflTransGen.cases_tail hpath with rfl | ⟨parent, -, hlast⟩
      · exact hroot
      · exact hlast.2

end

theorem removeBlock_run (newId : ObjectId) (struct : Structure) {key : BlockKey}
    (hkey : key ∈ struct.blocks) (hlink : struct.blocks.Linked) :
    ∃ unlinked rest, removeBlock key (getParentsFromStructure key struct.blocks) newId struct =
        .ok () { struct with blocks := rest } ∧
      Unlinked struct.blocks key newId unlinked ∧ SubtreeRemoved unlinked key rest := by
  obtain ⟨unlinked, hunlink, hunl⟩ := unlink_run newId struct key
  have hloop : ¬ TransGen unlinked.Edge key key := by
    intro hpath
    obtain ⟨parent, -, hedge⟩ := TransGen.tail'_iff.mp hpath
    exact ((hunl.edge_iff hlink).mp hedge).2 rfl
  obtain ⟨rest, hremove, hrem⟩ := removeSubtree_run { struct with blocks := unlinked }
    ((hunl.mem_iff key).mpr hkey) (hunl.linked hlink) hloop
  refine ⟨unlinked, rest, ?_, hunl, hrem⟩
  unfold removeBlock
  rw [run_bind, hunlink]
  exact hremove

/-- Deleting an item other than the root returns, and leaves what it is to leave if and
only if something else than the item leads to the root. -/
theorem deleteItem_deletes_iff {store : Store} {locator : CourseLocator}
    {envelope : ObjectId × Structure} (hstands : store.StandsFor locator envelope)
    (hlinked : envelope.2.blocks.Linked) (hacyclic : Acyclic envelope.2.blocks.Edge)
    {key : BlockKey} (hkey : key ∈ envelope.2.blocks) (hroot : envelope.2.root ≠ key) :
    ∃ next id edited, deleteItem locator key store = .ok () next ∧
      next.envelope locator = some (id, edited) ∧ edited.root = envelope.2.root ∧
      (DeletedFrom envelope.2.blocks envelope.2.root key edited.blocks ↔
        envelope.2.blocks.HeldWithout key envelope.2.root) := by
  obtain ⟨loaded, hlookup, hloads, hfound⟩ := lookupCourse_run hstands
  have hstands := hstands.loads hloads
  obtain ⟨unlinked, rest, hrun, hunlinked, hremoved⟩ := removeBlock_run
    (loaded.versionOf locator.branch envelope.1) (loaded.copyOf locator.branch envelope)
    (by simpa using hkey) (by simpa using hlinked)
  simp only [Store.blocks_copyOf] at hrun hunlinked
  obtain ⟨next, hedit, hedited⟩ := editVersion_run hstands hfound _ hrun
  refine ⟨next, loaded.versionOf locator.branch envelope.1,
    { loaded.copyOf locator.branch envelope with blocks := rest }, ?_, ?_, ?_,
    deletedFrom_iff hlinked hacyclic hroot hunlinked hremoved⟩
  · unfold deleteItem
    rw [run_bind, hlookup]
    change (raiseIf (decide (envelope.2.root = key)) _ >>= _ : StoreM Unit) loaded = _
    rw [decide_eq_false hroot]
    change (raiseIf (decide (key ∉ envelope.2.blocks)) _ >>= _ : StoreM Unit) loaded = _
    rw [decide_eq_false (not_not_intro hkey)]
    change (checkIndexValid locator >>= _ : StoreM Unit) loaded = _
    rw [run_bind, checkIndexValid_run hstands]
    change (editVersion _ _ _ >>= _ : StoreM Unit) loaded = _
    rw [run_bind, hedit]
    rfl
  · have hhead := hedited.envelope_eq locator.versionGuid
    rwa [← hstands.course] at hhead
  · simp

def sharedUnitBlocks : Blocks := Dict.ofList
  [(rootKey, newBlock ∅ (some [⟨"chapter", "one"⟩, ⟨"chapter", "two"⟩]) 0 0),
    (⟨"chapter", "one"⟩, newBlock ∅ (some [⟨"vertical", "unit"⟩]) 0 0),
    (⟨"chapter", "two"⟩, newBlock ∅ (some [⟨"vertical", "unit"⟩]) 0 0),
    (⟨"vertical", "unit"⟩, newBlock ∅ none 0 0)]

theorem sharedUnit_deletes_iff : ∃ next id edited,
      deleteItem draftLocator ⟨"chapter", "one"⟩ (courseWith sharedUnitBlocks) = .ok () next ∧
      next.envelope draftLocator = some (id, edited) ∧ edited.root = rootKey ∧
      (DeletedFrom sharedUnitBlocks rootKey ⟨"chapter", "one"⟩ edited.blocks ↔
        sharedUnitBlocks.HeldWithout ⟨"chapter", "one"⟩ rootKey) :=
  deleteItem_deletes_iff (courseWith_standsFor sharedUnitBlocks) (by decide +kernel)
    (acyclic_of_rank (fun key => key.type.length) (by decide +kernel))
    (by decide +kernel) (by decide)

def aboveCourseBlocks : Blocks := Dict.ofList
  [(rootKey, newBlock ∅ none 0 0), (⟨"vertical", "unit"⟩, newBlock ∅ (some [rootKey]) 0 0)]

/-- Its deletion takes the course with it. -/
theorem aboveCourse_not_deletedFrom : aboveCourseBlocks.Linked ∧ Acyclic aboveCourseBlocks.Edge ∧ ∀ next id edited,
      deleteItem draftLocator ⟨"vertical", "unit"⟩ (courseWith aboveCourseBlocks) = .ok () next →
      next.envelope draftLocator = some (id, edited) →
      ¬ DeletedFrom aboveCourseBlocks rootKey ⟨"vertical", "unit"⟩ edited.blocks := by
  refine ⟨by decide +kernel, acyclic_of_rank (fun key => if key = rootKey then 1 else 0) (by decide +kernel), ?_⟩
  intro next id edited hrun henvelope hdeleted
  have hgone : EStateM.Result.casesOn (motive := fun _ => Bool)
      (deleteItem draftLocator ⟨"vertical", "unit"⟩ (courseWith aboveCourseBlocks))
      (fun _ next => (next.envelope draftLocator).all fun envelope => decide (rootKey ∉ envelope.2.blocks))
      (fun _ _ => true) = true := by decide +kernel
  rw [hrun] at hgone
  simp only [henvelope, all_some, decide_eq_true_eq] at hgone
  exact hgone (hdeleted.reachable rootKey (by decide +kernel) ReflTransGen.refl)

end EdxPlatform.Split
