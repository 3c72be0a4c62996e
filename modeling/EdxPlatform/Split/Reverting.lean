import EdxPlatform.Split.HeadRuns
import EdxPlatform.Split.Subtrees

/-!
# Reverting to the published version

The subtree of the draft is removed as the draft has it, and put back as the published
branch has it.  A block that was moved out of the subtree since it was published is then
there a second time.
-/

namespace EdxPlatform.Split

open Relation Blocks

/-- `DIRECT_ONLY_CATEGORIES` -/
def directOnlyCategories : List String := ["course", "chapter", "sequential", "about", "static_tab", "course_info"]

/-- `copy_from_published`, which has no fields to read of a block that is not there.  In a
tree no chain of children is longer than `depth`, if that is more than the blocks. -/
def copyFromPublished (shared : Bool) (published : Blocks) : Nat → BlockKey → EStateM StoreError Structure Unit
  | 0, _ => throw .runtimeError
  | depth + 1, blockKey => do
    let struct ← get
    let block ← orRaise ((sourceBlocks shared published struct.blocks).lookup blockKey) .attributeError
    set { struct with blocks := struct.blocks.insert blockKey block }
    block.childKeys.forM (copyFromPublished shared published depth)

/-- Takes a subtree out of the draft, and puts the published one in its place. -/
def restoreSubtree (shared : Bool) (published : Blocks) (blockKey : BlockKey) :
    EStateM StoreError Structure Unit := do
  removeSubtree blockKey
  copyFromPublished shared published (published.keys.length + 1) blockKey

/-- The published structure is edited itself if it is the version of the draft. -/
def revertToPublished (course : CourseKey) (blockKey : BlockKey) : StoreM Unit := do
  if blockKey.type ∈ directOnlyCategories then pure ()
  else do
    let published ← lookupCourse (publishedCourse course)
    raiseIf (blockKey ∉ published.2.blocks) .invalidVersionError
    let draft ← lookupCourse (draftCourse course)
    let _ ← editVersion "draft-branch" draft fun newId =>
      restoreSubtree (published.1 = newId) published.2.blocks blockKey
    pure ()

/-- Every child is there, once, and has no other parent; and no block is below itself. -/
structure Blocks.Tree (blocks : Blocks) : Prop where
  linked : blocks.Linked
  acyclic : Acyclic blocks.Edge
  parent_unique : ∀ child first second, blocks.Edge first child → blocks.Edge second child → first = second

/-- What the draft is to be after the blocks below `key` were reverted. -/
structure RevertedTo (draft published : Blocks) (key : BlockKey) (rest : Blocks) : Prop where
  tree : rest.Tree
  restored : ∀ other, ReflTransGen published.Edge key other → rest.lookup other = published.lookup other
  unchanged : ∀ other, ¬ ReflTransGen draft.Edge key other →
    ¬ ReflTransGen published.Edge key other → rest.lookup other = draft.lookup other

/-- A block that is published below `key` has its parent in the draft, if any, in the
subtree of the draft or in the published one. -/
def ParentsInside (draft published : Blocks) (key : BlockKey) : Prop :=
  ∀ parent child, draft.Edge parent child → TransGen published.Edge key child →
    ReflTransGen draft.Edge key parent ∨ ReflTransGen published.Edge key parent

variable {blocks draft published rest : Blocks} {key : BlockKey}

theorem Blocks.tree_of_rank (rank : BlockKey → Nat) (hlink : blocks.Linked)
    (hents : ∀ first ∈ blocks.entries, ∀ child ∈ first.2.childKeys, rank first.1 < rank child ∧
      ∀ second ∈ blocks.entries, child ∈ second.2.childKeys → first.1 = second.1) : blocks.Tree where
  linked := hlink
  acyclic := acyclic_of_rank rank fun first hfst child hch => (hents first hfst child hch).1
  parent_unique := by
    rintro child first second ⟨block, hblk, hch⟩ ⟨other, hoth, hsame⟩
    exact (hents ⟨first, block⟩ (mem_lookup_iff.mp hblk) child hch).2 ⟨second, other⟩ (mem_lookup_iff.mp hoth) hsame

theorem SubtreeRemoved.lookup_tree (hrem : SubtreeRemoved blocks key rest) (htree : blocks.Tree) (other : BlockKey) :
    (ReflTransGen blocks.Edge key other → rest.lookup other = none) ∧
      (¬ ReflTransGen blocks.Edge key other → rest.lookup other = blocks.lookup other) := by
  have hbel : ∀ other, ReflTransGen blocks.Edge key other → other ∉ rest := by
    intro other hpath
    induction hpath with
    | refl => exact hrem.root_notMem
    | @tail parent child hpath hedge ih =>
      have hloop : child ≠ key := by
        rintro rfl
        exact htree.acyclic child (TransGen.tail' hpath hedge)
      refine (hrem.gone_iff child (htree.linked.child_mem parent child hedge) hloop).mpr
        ⟨TransGen.tail' hpath hedge, fun second hsec => ?_⟩
      rwa [htree.parent_unique child second parent hsec hedge]
  constructor
  · exact fun hpath => lookup_eq_none.mpr (hbel other hpath)
  · intro hnot
    by_cases hrest : other ∈ rest
    · exact hrem.lookup other hrest
    · rw [lookup_eq_none.mpr hrest, eq_comm, lookup_eq_none]
      intro hmem
      have hne : other ≠ key := by
        rintro rfl
        exact hnot ReflTransGen.refl
      exact hnot ((hrem.gone_iff other hmem hne).mp hrest).1.to_reflTransGen

/-- The blocks that were copied are those of the source, and the others are as before. -/
structure CopiedFrom (source : Blocks) (taken : BlockKey → Prop) (before after : Blocks) : Prop where
  copied : ∀ key, taken key → after.lookup key = source.lookup key
  kept : ∀ key, ¬ taken key → after.lookup key = before.lookup key

variable {after before : Blocks} {first second : BlockKey → Prop} {source : Blocks}

theorem CopiedFrom.trans {middle : Blocks} (hfst : CopiedFrom source first before middle)
    (hsec : CopiedFrom source second middle after) :
    CopiedFrom source (fun key => first key ∨ second key) before after := by
  constructor
  · intro key hkey
    by_cases hlat : second key
    · exact hsec.copied key hlat
    · rw [hsec.kept key hlat, hfst.copied key (hkey.resolve_right hlat)]
  · intro key hkey
    rw [not_or] at hkey
    rw [hsec.kept key hkey.2, hfst.kept key hkey.1]

theorem CopiedFrom.congr (hcopd : CopiedFrom source first before after) (hiff : ∀ key, first key ↔ second key) :
    CopiedFrom source second before after where
  copied := fun key hkey => hcopd.copied key ((hiff key).mpr hkey)
  kept := fun key hkey => hcopd.kept key fun h => hkey ((hiff key).mp h)

theorem copiedFrom_insert {block : BlockData} (hblk : source.lookup key = some block) :
    CopiedFrom source (· = key) before (before.insert key block) := by
  constructor
  · rintro other rfl
    rw [lookup_insert_self, hblk]
  · exact fun other hne => lookup_insert_of_ne hne block before

theorem forM_copiedFrom {body : BlockKey → EStateM StoreError Structure Unit}
    {below : BlockKey → BlockKey → Prop} {keys : List BlockKey}
    (hbody : ∀ key ∈ keys, ∀ struct, ∃ after, body key struct = .ok () { struct with blocks := after } ∧
      CopiedFrom source (below key) struct.blocks after) (struct : Structure) :
    ∃ after, keys.forM body struct = .ok () { struct with blocks := after } ∧
      CopiedFrom source (fun other => ∃ key ∈ keys, below key other) struct.blocks after := by
  induction keys generalizing struct with
  | nil => exact ⟨struct.blocks, rfl, ⟨fun _ h => by simp at h, fun _ _ => rfl⟩⟩
  | cons key keys ih =>
    obtain ⟨middle, hfst, hcopd⟩ := hbody key mem_cons_self struct
    obtain ⟨after, hrest, hlat⟩ := ih (forall_mem_cons.mp hbody).2 { struct with blocks := middle }
    refine ⟨after, ?_, (hcopd.trans hlat).congr fun other => ?_⟩
    · change (body key >>= fun _ => keys.forM body) struct = _
      rw [run_bind, hfst]
      exact hrest
    · simp

/-- The copy goes down from `key`; the blocks above it, all of them different, are no
longer to come. -/
theorem copyFromPublished_run (hlink : published.Linked) (hacyc : Acyclic published.Edge)
    (depth : Nat) (above : List BlockKey) (hnod : above.Nodup)
    (habove : ∀ other ∈ above, other ∈ published ∧ TransGen published.Edge other key)
    (hkey : key ∈ published) (hdepth : published.keys.length + 1 ≤ depth + above.length)
    (struct : Structure) :
    ∃ after, copyFromPublished false published depth key struct = .ok () { struct with blocks := after } ∧
      CopiedFrom published (ReflTransGen published.Edge key) struct.blocks after := by
  induction depth generalizing key above struct with
  | zero =>
    have hsub : above ⊆ published.keys := fun other hoth => (habove other hoth).1
    have hle := (List.subperm_of_subset hnod hsub).length_le
    omega
  | succ depth ih =>
    obtain ⟨block, hblk⟩ := mem_iff_lookup.mp hkey
    have hnew : key ∉ above := fun hmem => hacyc key (habove key hmem).2
    have hkids : ∀ child ∈ block.childKeys, ∀ struct, ∃ after,
        copyFromPublished false published depth child struct = .ok () { struct with blocks := after } ∧
        CopiedFrom published (ReflTransGen published.Edge child) struct.blocks after := by
      intro child hch struct
      have hedge : published.Edge key child := ⟨block, hblk, hch⟩
      refine ih (key :: above) (nodup_cons.mpr ⟨hnew, hnod⟩) ?_
        (hlink.child_mem key child hedge) (by rw [length_cons]; omega) struct
      intro other hoth
      rcases mem_cons.mp hoth with rfl | hoth
      · exact ⟨hkey, TransGen.single hedge⟩
      · exact ⟨(habove other hoth).1, (habove other hoth).2.tail hedge⟩
    obtain ⟨after, hrun, hcopd⟩ := forM_copiedFrom hkids { struct with blocks := struct.blocks.insert key block }
    refine ⟨after, ?_, ((copiedFrom_insert hblk).trans hcopd).congr fun other => ?_⟩
    · unfold copyFromPublished
      rw [run_bind]
      change (orRaise (published.lookup key) _ >>= _ : EStateM StoreError Structure Unit) struct = _
      rw [hblk]
      exact hrun
    · rw [ReflTransGen.cases_head_iff, eq_comm (a := key)]
      simp only [edge_of_lookup hblk]

/-! ## The reverted draft -/

/-- What the removal and the copy leave, block by block. -/
structure Overlaid (draft published : Blocks) (key : BlockKey) (rest : Blocks) : Prop where
  inside : ∀ other, ReflTransGen published.Edge key other → rest.lookup other = published.lookup other
  removed : ∀ other, ¬ ReflTransGen published.Edge key other → ReflTransGen draft.Edge key other →
    rest.lookup other = none
  outside : ∀ other, ¬ ReflTransGen published.Edge key other → ¬ ReflTransGen draft.Edge key other →
    rest.lookup other = draft.lookup other

namespace Overlaid

variable (hoverlaid : Overlaid draft published key rest)

include hoverlaid

theorem edge_iff {parent child : BlockKey} : rest.Edge parent child ↔
    ReflTransGen published.Edge key parent ∧ published.Edge parent child ∨
      ¬ ReflTransGen published.Edge key parent ∧ ¬ ReflTransGen draft.Edge key parent ∧ draft.Edge parent child := by
  by_cases hins : ReflTransGen published.Edge key parent
  · simp [Blocks.edge_congr (hoverlaid.inside parent hins), hins]
  · by_cases hrem : ReflTransGen draft.Edge key parent
    · have hgone : ¬ rest.Edge parent child := fun hedge =>
        lookup_eq_none.mp (hoverlaid.removed parent hins hrem) hedge.parent_mem
      simp [hgone, hins, hrem]
    · simp [Blocks.edge_congr (hoverlaid.outside parent hins hrem), hins, hrem]

section

variable {first last : BlockKey} (hpath : TransGen rest.Edge first last)
include hpath

theorem path_inside (hfst : ReflTransGen published.Edge key first) : TransGen published.Edge first last := by
  have hstep : ∀ {parent child}, ReflTransGen published.Edge key parent → rest.Edge parent child →
      published.Edge parent child := by
    intro parent child hpar hedge
    rcases hoverlaid.edge_iff.mp hedge with ⟨-, hedge⟩ | ⟨hout, -⟩
    · exact hedge
    · exact absurd hpar hout
  induction hpath with
  | single hedge => exact TransGen.single (hstep hfst hedge)
  | tail hpath hedge ih => exact ih.tail (hstep (hfst.trans ih.to_reflTransGen) hedge)

theorem path_outside : ReflTransGen published.Edge key last ∨ TransGen draft.Edge first last := by
  induction hpath with
  | single hedge =>
    rcases hoverlaid.edge_iff.mp hedge with ⟨hins, hedge⟩ | ⟨-, -, hedge⟩
    · exact .inl (hins.tail hedge)
    · exact .inr (TransGen.single hedge)
  | tail hpath hedge ih =>
    rcases hoverlaid.edge_iff.mp hedge with ⟨hins, hedge⟩ | ⟨hout, -, hedge⟩
    · exact .inl (hins.tail hedge)
    · exact .inr ((ih.resolve_left hout).tail hedge)

end

theorem acyclic (hdrf : Acyclic draft.Edge) (hpub : Acyclic published.Edge) : Acyclic rest.Edge := by
  intro other hcycle
  rcases hoverlaid.path_outside hcycle with hins | hcycle
  · exact hpub other (hoverlaid.path_inside hcycle hins)
  · exact hdrf other hcycle

section

variable (hdrf : draft.Tree) (hpub : published.Tree)
include hdrf hpub

theorem linked (hkey : key ∈ published) :
    rest.Linked := by
  have hstays : ∀ other, ReflTransGen published.Edge key other → other ∈ published := by
    intro other hpath
    induction hpath with
    | refl => exact hkey
    | tail _ hedge _ => exact hpub.linked.child_mem _ _ hedge
  constructor
  · intro parent child hedge
    by_cases hch : ReflTransGen published.Edge key child
    · rw [← lookup_isSome, hoverlaid.inside child hch, lookup_isSome]
      exact hstays child hch
    · rcases hoverlaid.edge_iff.mp hedge with ⟨hins, hedge⟩ | ⟨-, hout, hedge⟩
      · exact absurd (hins.tail hedge) hch
      · have hkept : ¬ ReflTransGen draft.Edge key child := by
          intro hpath
          rcases ReflTransGen.cases_tail hpath with rfl | ⟨other, hpath, hoth⟩
          · exact hch ReflTransGen.refl
          · exact hout (hdrf.parent_unique child other parent hoth hedge ▸ hpath)
        rw [← lookup_isSome, hoverlaid.outside child hch hkept, lookup_isSome]
        exact hdrf.linked.child_mem parent child hedge
  · intro other block hblk
    by_cases hins : ReflTransGen published.Edge key other
    · rw [hoverlaid.inside other hins] at hblk
      exact hpub.linked.distinct other block hblk
    · by_cases hrem : ReflTransGen draft.Edge key other
      · rw [hoverlaid.removed other hins hrem] at hblk
        cases hblk
      · rw [hoverlaid.outside other hins hrem] at hblk
        exact hdrf.linked.distinct other block hblk

theorem parent_unique_iff : (∀ child first second, rest.Edge first child → rest.Edge second child → first = second) ↔
      ParentsInside draft published key := by
  constructor
  · intro huniq parent child hedge hpath
    by_contra hnot
    rw [not_or] at hnot
    obtain ⟨other, hoth, hlast⟩ := TransGen.tail'_iff.mp hpath
    have hsame := huniq child parent other (hoverlaid.edge_iff.mpr (.inr ⟨hnot.2, hnot.1, hedge⟩))
      (hoverlaid.edge_iff.mpr (.inl ⟨hoth, hlast⟩))
    exact hnot.2 (hsame ▸ hoth)
  · intro hins
    -- a parent in the published subtree and one outside of both subtrees
    have hmixed : ∀ {child first second}, ReflTransGen published.Edge key first →
        published.Edge first child → ¬ ReflTransGen published.Edge key second →
        ¬ ReflTransGen draft.Edge key second → ¬ draft.Edge second child := by
      intro child first second hfst hedge hpubl hdraf hsec
      rcases hins second child hsec (TransGen.tail' hfst hedge) with hin | hin
      · exact hdraf hin
      · exact hpubl hin
    intro child first second hfst hsec
    rcases hoverlaid.edge_iff.mp hfst with ⟨hone, hfst⟩ | ⟨hone, hout, hfst⟩ <;>
      rcases hoverlaid.edge_iff.mp hsec with ⟨htwo, hsec⟩ | ⟨htwo, hoth, hsec⟩
    · exact hpub.parent_unique child first second hfst hsec
    · exact absurd hsec (hmixed hone hfst htwo hoth)
    · exact absurd hfst (hmixed htwo hsec hone hout)
    · exact hdrf.parent_unique child first second hfst hsec

theorem revertedTo_iff (hkey : key ∈ published) :
    RevertedTo draft published key rest ↔ ParentsInside draft published key := by
  rw [← hoverlaid.parent_unique_iff hdrf hpub]
  constructor
  · exact fun hrev => hrev.tree.parent_unique
  · intro huniq
    exact ⟨⟨hoverlaid.linked hdrf hpub hkey, hoverlaid.acyclic hdrf.acyclic hpub.acyclic, huniq⟩, hoverlaid.inside,
      fun other hout hpubl => hoverlaid.outside other hpubl hout⟩

end

end Overlaid

theorem restoreSubtree_run (hdrf : draft.Tree) (hpub : published.Tree)
    (hkey : key ∈ published) {struct : Structure} (hblks : struct.blocks = draft)
    (hmem : key ∈ draft) :
    ∃ rest, restoreSubtree false published key struct = .ok () { struct with blocks := rest } ∧
      Overlaid draft published key rest := by
  subst hblks
  obtain ⟨left, hremo, hrem⟩ := removeSubtree_run struct hmem hdrf.linked (hdrf.acyclic key)
  obtain ⟨rest, hcopy, hcopd⟩ := copyFromPublished_run hpub.linked hpub.acyclic
    (published.keys.length + 1) [] nodup_nil (fun _ h => nomatch h) hkey (by simp)
    { struct with blocks := left }
  refine ⟨rest, ?_, hcopd.copied, fun other hout hin => ?_, fun other hout hin => ?_⟩
  · unfold restoreSubtree
    rw [run_bind, hremo]
    exact hcopy
  · rw [hcopd.kept other hout, (hrem.lookup_tree hdrf other).1 hin]
  · rw [hcopd.kept other hout, (hrem.lookup_tree hdrf other).2 hin]

theorem restoreSubtree_raises (hdrf : draft.Tree) {struct : Structure}
    (hblks : struct.blocks = draft) (hmem : key ∈ draft) (published : Blocks) :
    ∃ left, restoreSubtree true published key struct = .error .attributeError left := by
  subst hblks
  obtain ⟨left, hremo, hrem⟩ := removeSubtree_run struct hmem hdrf.linked (hdrf.acyclic key)
  refine ⟨{ struct with blocks := left }, ?_⟩
  unfold restoreSubtree
  rw [run_bind, hremo]
  change copyFromPublished true published (published.keys.length + 1) key _ = _
  unfold copyFromPublished
  rw [run_bind]
  change (orRaise (left.lookup key) _ >>= _ : EStateM StoreError Structure Unit) _ = _
  rw [lookup_eq_none.mpr hrem.root_notMem]
  rfl

theorem revertToPublished_edit {store : Store} {course : CourseKey} {published draft : ObjectId × Structure}
    (hpub : store.StandsFor (publishedCourse course) published)
    (hdrf : store.StandsFor (draftCourse course) draft)
    (hcat : key.type ∉ directOnlyCategories) (hkey : key ∈ published.2.blocks) :
    ∃ loaded, loaded.versionOf = store.versionOf ∧ loaded.StandsFor (draftCourse course) draft ∧
      loaded.record.structures.lookup draft.1 = some draft.2 ∧
      revertToPublished course key store = (do
        let _ ← editVersion "draft-branch" draft fun newId =>
          restoreSubtree (published.1 = newId) published.2.blocks key
        pure () : StoreM Unit) loaded := by
  obtain ⟨first, hfst, hlds, -⟩ := lookupCourse_run hpub
  obtain ⟨loaded, hsec, hmore, hfnd⟩ := lookupCourse_run (hdrf.loads hlds)
  refine ⟨loaded, hmore.versionOf.trans hlds.versionOf, (hdrf.loads hlds).loads hmore, hfnd, ?_⟩
  unfold revertToPublished
  rw [if_neg hcat, run_bind, hfst]
  change (raiseIf (decide (key ∉ published.2.blocks)) _ >>= _ : StoreM Unit) first = _
  rw [decide_eq_false (not_not_intro hkey)]
  change (lookupCourse (draftCourse course) >>= _ : StoreM Unit) first = _
  rw [run_bind, hsec]

/-- Reverting a block leaves the tree that it is to leave if and only if the version that
is edited is not the published one, and no block was moved out of the subtree. -/
theorem revertToPublished_reverts_iff {store : Store} {course : CourseKey} {published draft : ObjectId × Structure}
    (hpublished : store.StandsFor (publishedCourse course) published)
    (hdraft : store.StandsFor (draftCourse course) draft)
    (hpublic : published.2.blocks.Tree) (htree : draft.2.blocks.Tree)
    (hcategory : key.type ∉ directOnlyCategories) (hkey : key ∈ published.2.blocks)
    (hmem : key ∈ draft.2.blocks) :
    (∃ next id edited, revertToPublished course key store = .ok () next ∧
      next.envelope (draftCourse course) = some (id, edited) ∧
      RevertedTo draft.2.blocks published.2.blocks key edited.blocks) ↔
    published.1 ≠ store.versionOf "draft-branch" draft.1 ∧ ParentsInside draft.2.blocks published.2.blocks key := by
  obtain ⟨loaded, hversion, hstands, hfound, hrun⟩ := revertToPublished_edit hpublished hdraft hcategory hkey
  rw [hrun, run_bind, ← hversion]
  by_cases hshared : published.1 = loaded.versionOf "draft-branch" draft.1
  · obtain ⟨left, hraised⟩ := restoreSubtree_raises htree
      (loaded.blocks_copyOf "draft-branch" draft) hmem published.2.blocks
    obtain ⟨middle, hedit⟩ := editVersion_raised hstands hfound
      (fun newId => restoreSubtree (published.1 = newId) published.2.blocks key)
      (by simpa [hshared, draftCourse] using hraised)
    refine iff_of_false ?_ fun h => h.1 hshared
    rintro ⟨next, id, edited, hok, -⟩
    rw [show editVersion "draft-branch" draft _ loaded = _ from hedit] at hok
    cases hok
  · obtain ⟨rest, hrestored, hoverlaid⟩ := restoreSubtree_run htree hpublic hkey
      (loaded.blocks_copyOf "draft-branch" draft) hmem
    obtain ⟨next, hedit, hedited⟩ := editVersion_run hstands hfound
      (fun newId => restoreSubtree (published.1 = newId) published.2.blocks key)
      (by simpa [hshared, draftCourse] using hrestored)
    have hhead := hedited.envelope_eq none
    rw [← hstands.course] at hhead
    rw [show editVersion "draft-branch" draft _ loaded = _ from hedit,
      ← hoverlaid.revertedTo_iff htree hpublic hkey, and_iff_right hshared]
    constructor
    · rintro ⟨_, id, edited, hok, henvelope, hreverted⟩
      obtain rfl : next = _ := by
        injection hok
      obtain ⟨-, rfl⟩ := Prod.mk.inj (some_unique hhead henvelope)
      exact hreverted
    · exact fun hreverted => ⟨next, _, _, rfl, hhead, hreverted⟩

/-! ## A problem that was moved -/

def firstUnit : BlockKey := ⟨"vertical", "one"⟩

def secondUnit : BlockKey := ⟨"vertical", "two"⟩

def sumProblem : BlockKey := ⟨"problem", "sum"⟩

def unitsWith (first second : List BlockKey) : Blocks := Dict.ofList
  [(rootKey, newBlock ∅ (some [firstUnit, secondUnit]) 0 0),
    (firstUnit, newBlock ∅ (some first) 0 0), (secondUnit, newBlock ∅ (some second) 0 0),
    (sumProblem, newBlock ∅ none 0 0)]

def depthRank (key : BlockKey) : Nat :=
  if key = rootKey then 0 else if key = sumProblem then 2 else 1

theorem unitsWith_tree_first : (unitsWith [sumProblem] []).Tree :=
  tree_of_rank depthRank (by decide +kernel) (by decide +kernel)

theorem unitsWith_tree_second : (unitsWith [] [sumProblem]).Tree :=
  tree_of_rank depthRank (by decide +kernel) (by decide +kernel)

theorem secondUnit_reverts_iff : (∃ next id edited, revertToPublished "course" secondUnit
        (courseWithBranches (unitsWith [sumProblem] []) (unitsWith [] [sumProblem])) = .ok () next ∧
      next.envelope (draftCourse "course") = some (id, edited) ∧
      RevertedTo (unitsWith [] [sumProblem]) (unitsWith [sumProblem] []) secondUnit edited.blocks) ↔
    0 ≠ (courseWithBranches (unitsWith [sumProblem] []) (unitsWith [] [sumProblem])).versionOf "draft-branch" 1 ∧
      ParentsInside (unitsWith [] [sumProblem]) (unitsWith [sumProblem] []) secondUnit :=
  revertToPublished_reverts_iff (courseWithBranches_published _ _) (courseWithBranches_draft _ _)
    unitsWith_tree_first unitsWith_tree_second (by decide) (by decide +kernel) (by decide +kernel)

/-- A problem that was moved to another unit is in both after the first is reverted. -/
theorem movedProblem_not_tree : (unitsWith [sumProblem] []).Tree ∧ (unitsWith [] [sumProblem]).Tree ∧
      ∃ next id edited, revertToPublished "course" firstUnit
        (courseWithBranches (unitsWith [sumProblem] []) (unitsWith [] [sumProblem])) = .ok () next ∧
      next.envelope (draftCourse "course") = some (id, edited) ∧ ¬ edited.blocks.Tree := by
  refine ⟨unitsWith_tree_first, unitsWith_tree_second, ?_⟩
  obtain ⟨_, next, hrun, hnext⟩ := exists_run (revertToPublished "course" firstUnit)
    (courseWithBranches (unitsWith [sumProblem] []) (unitsWith [] [sumProblem]))
    (fun _ next => (next.envelope (draftCourse "course")).any fun (envelope : ObjectId × Structure) =>
      decide (∃ first ∈ envelope.2.blocks.entries, ∃ second ∈ envelope.2.blocks.entries,
        first.1 ≠ second.1 ∧ sumProblem ∈ first.2.childKeys ∧ sumProblem ∈ second.2.childKeys))
    (by decide +kernel)
  obtain ⟨⟨id, edited⟩, henvelope, hshared⟩ := (Option.any_eq_true _ _).mp hnext
  obtain ⟨first, hfirst, second, hsecond, hne, hone, htwo⟩ := of_decide_eq_true hshared
  refine ⟨next, id, edited, hrun, henvelope, fun htree => hne ?_⟩
  exact htree.parent_unique sumProblem first.1 second.1
    ⟨first.2, mem_lookup_iff.mpr hfirst, hone⟩ ⟨second.2, mem_lookup_iff.mpr hsecond, htwo⟩

end EdxPlatform.Split
