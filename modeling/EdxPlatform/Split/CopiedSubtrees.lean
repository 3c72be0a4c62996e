import EdxPlatform.Split.TrueOrphans

/-!
# Copying subtrees

What a copy does to the blocks can be told from the source and the subtrees alone.  The copy
goes wrong in three ways only: the destination has a parent of a subtree that never had
children, the deletion of the orphans comes by a block again, or a root that is not to be
copied is put in place below a parent that is copied.
-/

namespace EdxPlatform.Split

open Relation

/-! ## What is merged -/

def touches (platform : Platform) (source : Structure) (subtrees : List BlockKey)
    (blacklist : Blacklist) : List Touch :=
  subtrees.flatMap fun subtreeRoot => syncs source.blocks source.root subtreeRoot ++
    copies (walk source.blocks blacklist platform.recursionLimit subtreeRoot)

/-- When the turn of a subtree comes, the parents of its root have lists of children. -/
def ParentsReady (platform : Platform) (source : Structure) (destination : Blocks)
    (subtrees : List BlockKey) (blacklist : Blacklist) : Prop :=
  ∀ before subtreeRoot, before ++ [subtreeRoot] <+: subtrees → subtreeRoot ≠ source.root →
    ∀ parent, source.blocks.Edge parent subtreeRoot →
      HasChildren destination (touches platform source before blacklist) parent

def mergedChildren (platform : Platform) (source : Structure) (destination : Blocks)
    (subtrees : List BlockKey) (blacklist : Blacklist) (key : BlockKey) : List BlockKey :=
  if key ∈ (touches platform source subtrees blacklist).map Touch.block then
    (source.blocks.childrenOf key).filter
      (keepsChild destination blacklist (touches platform source subtrees blacklist) key)
  else destination.childrenOf key

def deletedOrphans (platform : Platform) (source : Structure) (destination : Blocks)
    (subtrees : List BlockKey) (blacklist : Blacklist) : List BlockKey :=
  platform.setOrder (orphansOf source.blocks destination (touches platform source subtrees blacklist))

variable {platform : Platform} {source : Structure}

section Touches

variable {destination : Blocks} {subtrees : List BlockKey} {blacklist : Blacklist}

theorem touches_concat (before : List BlockKey) (subtreeRoot : BlockKey) :
    touches platform source (before ++ [subtreeRoot]) blacklist =
      touches platform source before blacklist ++ (syncs source.blocks source.root subtreeRoot ++
        copies (walk source.blocks blacklist platform.recursionLimit subtreeRoot)) := by
  unfold touches
  rw [flatMap_append, flatMap_singleton]

theorem copied_mem_touches {key : BlockKey} : .copied key ∈ touches platform source subtrees blacklist ↔
    key ∈ walks platform source.blocks subtrees blacklist := by
  unfold touches walks
  simp only [mem_flatMap, mem_append]
  refine exists_congr fun subtreeRoot => and_congr_right fun _ => ?_
  have hnever : .copied key ∉ syncs source.blocks source.root subtreeRoot := by
    unfold syncs
    split <;> simp
  rw [or_iff_right hnever, copies]
  simp

theorem synced_mem_touches {parent child : BlockKey} :
    .synced parent child ∈ touches platform source subtrees blacklist ↔
      child ∈ subtrees ∧ child ≠ source.root ∧ source.blocks.Edge parent child := by
  unfold touches
  simp only [mem_flatMap, mem_append]
  have hsyncs : ∀ subtreeRoot, .synced parent child ∈ syncs source.blocks source.root subtreeRoot ∨
      .synced parent child ∈ copies (walk source.blocks blacklist platform.recursionLimit subtreeRoot) ↔
        subtreeRoot = child ∧ child ≠ source.root ∧ source.blocks.Edge parent child := by
    intro subtreeRoot
    rw [or_iff_left (by simp [copies])]
    unfold syncs
    by_cases hroot : subtreeRoot = source.root
    · rw [if_pos hroot]
      exact iff_of_false not_mem_nil fun h => h.2.1 (h.1 ▸ hroot)
    · simp only [if_neg hroot, mem_map, Blocks.mem_getParents, Touch.synced.injEq]
      constructor
      · rintro ⟨other, hedge, rfl, rfl⟩
        exact ⟨rfl, hroot, hedge⟩
      · rintro ⟨rfl, hne, hedge⟩
        exact ⟨parent, hedge, rfl, rfl⟩
  simp only [hsyncs]
  simp

theorem Shallow.walk_closed {depth : Nat} {key other child : BlockKey}
    (hshal : Shallow source.blocks blacklist depth key) (hmem : other ∈ walk source.blocks blacklist depth key)
    (hedge : CopiedEdge source.blocks blacklist other child) : child ∈ walk source.blocks blacklist depth key := by
  induction depth generalizing key with
  | zero => cases hmem
  | succ depth ih =>
    unfold walk at hmem ⊢
    rcases mem_cons.mp hmem with rfl | hbel
    · obtain ⟨block, hblk, hch⟩ := hedge
      have hnxt := hshal child ⟨block, hblk, hch⟩
      rw [hblk]
      refine mem_cons_of_mem _ (mem_flatMap.mpr ⟨child, hch, ?_⟩)
      cases depth with
      | zero => exact hnxt.elim
      | succ depth => exact mem_cons_self
    · cases hblk : source.blocks.lookup key with
      | none =>
        rw [hblk] at hbel
        cases hbel
      | some block =>
        rw [hblk] at hbel
        obtain ⟨next, hnxt, hoth⟩ := mem_flatMap.mp hbel
        refine mem_cons_of_mem _ (mem_flatMap.mpr ⟨next, hnxt, ?_⟩)
        exact ih (hshal next ⟨block, hblk, hnxt⟩) hoth

theorem shallow_of_acyclic (hacyc : Acyclic source.blocks.Edge) {depth : Nat}
    (hdepth : source.blocks.keys.length < depth) (key : BlockKey) :
    Shallow source.blocks blacklist depth key := by
  obtain ⟨rank, hrank, hbound⟩ := hacyc.exists_rank source.blocks.keys.toFinset
    fun parent child hedge => mem_toFinset.mpr (mem_keys.mp hedge.parent_mem)
  have hcard := List.toFinset_card_le source.blocks.keys
  have hloop : ∀ depth key, source.blocks.keys.length < rank key + depth →
      Shallow source.blocks blacklist depth key := by
    intro depth
    induction depth with
    | zero =>
      intro key hless
      have := hbound key
      omega
    | succ depth ih =>
      rintro key hless child ⟨block, hblk, hch⟩
      have := hrank key child ⟨block, hblk, (mem_filter.mp hch).1⟩
      exact ih child (by omega)
  exact hloop depth key (by omega)

theorem mem_of_mem_walks (hlink : source.blocks.Linked) (hroots : ∀ root ∈ subtrees, root ∈ source.blocks)
    {key : BlockKey} (hkey : key ∈ walks platform source.blocks subtrees blacklist) : key ∈ source.blocks := by
  obtain ⟨root, hroot, hwalk⟩ := mem_flatMap.mp hkey
  have hpath := path_of_mem_walk hwalk
  rcases ReflTransGen.cases_tail hpath with rfl | ⟨parent, -, block, hblk, hch⟩
  · exact hroots _ hroot
  · exact hlink.child_mem parent key ⟨block, hblk, (mem_filter.mp hch).1⟩

end Touches

section Subtrees

variable {destination : Blocks} {subtrees : List BlockKey} {blacklist : Blacklist}

/-- The subtrees can be copied: the source is a graph without cycles that is not too deep, and
the parents of their roots are in the destination. -/
structure Copyable (platform : Platform) (source : Structure) (destination : Blocks)
    (subtrees : List BlockKey) : Prop where
  linked : source.blocks.Linked
  acyclic : Acyclic source.blocks.Edge
  destination_linked : destination.Linked
  roots : ∀ root ∈ subtrees, root ∈ source.blocks
  parents : ∀ root ∈ subtrees, root ≠ source.root → ∀ parent, source.blocks.Edge parent root → parent ∈ destination
  depth : source.blocks.keys.length + destination.keys.length + 2 ≤ platform.recursionLimit
  order : ∀ orphans key, key ∈ platform.setOrder orphans ↔ key ∈ orphans

section

variable (hcopy : Copyable platform source destination subtrees)
include hcopy

theorem Copyable.shallow (key : BlockKey) : Shallow source.blocks blacklist platform.recursionLimit key := by
  have hdepth := hcopy.depth
  exact shallow_of_acyclic hcopy.acyclic (by omega) key

theorem mergeSubtrees_outcome (newId : ObjectId) : Outcome (Progress source.blocks destination blacklist [] [])
      (collect (fun subtreeRoot => do
        let synced ← syncParents false source.blocks source.root subtreeRoot
        let copied ← copySubdag false newId source.blocks blacklist platform.recursionLimit subtreeRoot
        pure (synced ++ copied)) subtrees)
      (fun results struct => Progress source.blocks destination blacklist
          (touches platform source subtrees blacklist) results.flatten struct ∧
        ParentsReady platform source destination subtrees blacklist)
      (fun error => error = .keyError ∧ ¬ ParentsReady platform source destination subtrees blacklist) := by
  refine outcome_weaken (outcome_collect (I := fun before results struct =>
      Progress source.blocks destination blacklist (touches platform source before blacklist) results.flatten struct ∧
        ParentsReady platform source destination before blacklist)
    fun before subtreeRoot after heq results => ?_) ?_ (fun _ _ h => h) fun _ h => h
  · have hmem : subtreeRoot ∈ subtrees := heq ▸ mem_append_right before mem_cons_self
    have hpre : before ++ [subtreeRoot] <+: subtrees := ⟨after, by rw [heq]; simp⟩
    apply outcome_of_state
    rintro start ⟨hst, hrdy⟩
    apply outcome_bind (outcome_weaken (syncParents_outcome (hcopy.parents subtreeRoot hmem) _ _)
      (by rintro _ rfl; exact hst) (fun _ _ h => h) ?_)
    · intro synced
      apply outcome_of_state
      rintro middle ⟨hmid, hpars⟩
      apply outcome_bind (outcome_weaken (copySubdag_outcome hcopy.linked newId
        (hcopy.roots subtreeRoot hmem) (hcopy.shallow subtreeRoot) _ _)
        (by rintro _ rfl; exact hmid) (fun _ _ h => h) fun _ h => h.elim)
      intro copied
      refine outcome_pure fun struct hstr => ⟨?_, fun earlier other hoth hne parent hedge => ?_⟩
      · rw [touches_concat]
        simpa using hstr
      · rcases List.prefix_concat_iff.mp hoth with hlast | hbef
        · obtain ⟨rfl, hsame⟩ := append_inj' hlast rfl
          obtain rfl := List.singleton_injective hsame
          exact hpars hne parent hedge
        · exact hrdy earlier other hbef hne parent hedge
    · rintro error ⟨rfl, hne, parent, hedge, hnone⟩
      exact ⟨rfl, fun hall => hnone (hall before subtreeRoot hpre hne parent hedge)⟩
  · intro struct hstr
    refine ⟨hstr, fun before root hpre => ?_⟩
    simp at hpre

end

theorem progress_self (struct : Structure) : Progress source.blocks struct.blocks blacklist [] [] struct where
  merging :=
    { mem_iff := by simp
      synced_mem := by simp
      touched := fun key htch => absurd (touched_iff.mp htch) not_mem_nil
      untouched := fun _ _ => rfl }
  orphans_eq := rfl

/-! ## The orphans -/

variable {merged : Structure}

theorem Merging.childrenOf_merged (hmerg : Merging source.blocks destination blacklist
      (touches platform source subtrees blacklist) merged) :
    merged.blocks.childrenOf = mergedChildren platform source destination subtrees blacklist := by
  funext key
  unfold mergedChildren
  split
  · next htch => exact hmerg.childrenOf_eq key (touched_iff.mpr htch)
  · next hunt => exact hmerg.childrenOf_untouched fun h => hunt (touched_iff.mp h)

section

variable (hcopy : Copyable platform source destination subtrees)
include hcopy

section

variable (hmerg : Merging source.blocks destination blacklist (touches platform source subtrees blacklist) merged)
include hmerg

theorem Merging.closed (parent child : BlockKey) (hch : child ∈ merged.blocks.childrenOf parent) :
    child ∈ merged.blocks := by
  rw [hmerg.mem_iff, copied_mem_touches]
  have hthere : child ∈ destination.childrenOf parent → child ∈ destination := fun hmem =>
    hcopy.destination_linked.child_mem parent child (mem_childrenOf.mp hmem)
  by_cases htch : Touched (touches platform source subtrees blacklist) parent
  · rw [hmerg.childrenOf_eq parent htch, mem_filter] at hch
    obtain ⟨hsrc, hkept⟩ := hch
    unfold keepsChild at hkept
    rw [or_eq_true, or_eq_true, and_eq_true, decide_eq_true_eq, decide_eq_true_eq,
      decide_eq_true_eq, copied_mem_touches, synced_mem_touches] at hkept
    rcases hkept with (hdest | ⟨hwalk, hcopd⟩) | ⟨hroot, -, -⟩
    · exact .inl (hthere hdest)
    · obtain ⟨root, hroot, hpar⟩ := mem_flatMap.mp hwalk
      obtain ⟨block, hblk, hmem⟩ := mem_childrenOf.mp hsrc
      refine .inr (mem_flatMap.mpr ⟨root, hroot, ?_⟩)
      exact (hcopy.shallow root).walk_closed hpar ⟨block, hblk, mem_filter.mpr ⟨hmem, hcopd⟩⟩
    · refine .inr (mem_flatMap.mpr ⟨child, hroot, ?_⟩)
      have hdepth := hcopy.depth
      obtain ⟨less, hless⟩ : ∃ less, platform.recursionLimit = less + 1 := ⟨platform.recursionLimit - 1, by omega⟩
      rw [hless, walk]
      exact mem_cons_self
  · rw [hmerg.childrenOf_untouched htch] at hch
    exact .inl (hthere hch)

theorem Merging.keys_length_le : merged.blocks.keys.length ≤ source.blocks.keys.length + destination.keys.length := by
  have hsub : merged.blocks.keys.toFinset ⊆ source.blocks.keys.toFinset ∪ destination.keys.toFinset := by
    intro key hkey
    rw [mem_toFinset, ← mem_keys, hmerg.mem_iff, copied_mem_touches] at hkey
    rw [Finset.mem_union, mem_toFinset, mem_toFinset, ← mem_keys, ← mem_keys]
    exact hkey.symm.imp_left (mem_of_mem_walks hcopy.linked hcopy.roots)
  have hcard := (Finset.card_le_card hsub).trans (Finset.card_union_le _ _)
  rw [List.toFinset_card_of_nodup (AList.keys_nodup merged.blocks)] at hcard
  have hsrc := List.toFinset_card_le source.blocks.keys
  have hdest := List.toFinset_card_le destination.keys
  omega

end

theorem Copyable.mem_deletedOrphans {key : BlockKey} :
    key ∈ deletedOrphans platform source destination subtrees blacklist ↔
      ∃ parent, Touched (touches platform source subtrees blacklist) parent ∧
        key ∈ destination.childrenOf parent ∧ key ∉ source.blocks.childrenOf parent := by
  unfold deletedOrphans
  rw [hcopy.order, mem_orphansOf]

theorem Merging.mem_of_orphan (hmerg : Merging source.blocks destination blacklist
    (touches platform source subtrees blacklist) merged)
    {key : BlockKey} (hkey : key ∈ deletedOrphans platform source destination subtrees blacklist) :
    key ∈ merged.blocks := by
  obtain ⟨parent, -, hch, -⟩ := hcopy.mem_deletedOrphans.mp hkey
  exact (hmerg.mem_iff key).mpr (.inl (hcopy.destination_linked.child_mem parent key (mem_childrenOf.mp hch)))

end

def TrueOrphan (platform : Platform) (source : Structure) (destination : Blocks)
    (subtrees : List BlockKey) (blacklist : Blacklist) (key : BlockKey) : Prop :=
  Doomed (mergedChildren platform source destination subtrees blacklist)
    (· ∈ deletedOrphans platform source destination subtrees blacklist) key

/-- The keys that the deletion of the orphans may come by, if none is taken out. -/
def orphanListing (platform : Platform) (source : Structure) (destination : Blocks)
    (subtrees : List BlockKey) (blacklist : Blacklist) : List BlockKey :=
  listing (mergedChildren platform source destination subtrees blacklist) platform.recursionLimit
    (deletedOrphans platform source destination subtrees blacklist)

/-- Each block that is taken out is listed just once after its last parent. -/
def OrphansOnce (platform : Platform) (source : Structure) (destination : Blocks)
    (subtrees : List BlockKey) (blacklist : Blacklist) : Prop :=
  ∀ key, TrueOrphan platform source destination subtrees blacklist key →
    OnceAfterParents (mergedChildren platform source destination subtrees blacklist)
      (orphanListing platform source destination subtrees blacklist) key

theorem Merging.strike_iff (hcopy : Copyable platform source destination subtrees)
    (hmerg : Merging source.blocks destination blacklist (touches platform source subtrees blacklist) merged) :
    (∃ gone, strike merged.blocks.childrenOf ∅ (listing merged.blocks.childrenOf platform.recursionLimit
      (deletedOrphans platform source destination subtrees blacklist)) = some gone) ↔
      OrphansOnce platform source destination subtrees blacklist := by
  have hlen := hmerg.keys_length_le hcopy
  have hdepth := hcopy.depth
  have hcard := List.toFinset_card_le merged.blocks.keys
  unfold OrphansOnce TrueOrphan orphanListing
  rw [← hmerg.childrenOf_merged]
  have hnodes : ∀ key, Doomed merged.blocks.childrenOf
      (· ∈ deletedOrphans platform source destination subtrees blacklist) key → key ∈ merged.blocks.keys.toFinset := by
    intro key hdoom
    rw [mem_toFinset, ← mem_keys]
    cases hdoom with
    | intro hlis _ =>
      rcases hlis with horph | ⟨parent, hch⟩
      · exact hmerg.mem_of_orphan hcopy horph
      · exact hmerg.closed hcopy parent key hch
  exact strike_listing_iff hnodes (by omega)

/-- How a copy leaves the blocks: those that were merged, less the orphans. -/
def CopiedTo (platform : Platform) (source : Structure) (destination : Blocks)
    (subtrees : List BlockKey) (blacklist : Blacklist) (edited : Structure) : Prop :=
  ∃ merged gone, Merging source.blocks destination blacklist
      (touches platform source subtrees blacklist) merged ∧ Struck merged.blocks gone edited ∧
    ∀ key, key ∈ gone ↔ TrueOrphan platform source destination subtrees blacklist key

theorem copySubtrees_outcome (hcopy : Copyable platform source destination subtrees) (newId : ObjectId) :
    Outcome (fun struct => struct.blocks = destination) (copySubtrees platform false newId source subtrees blacklist)
      (fun _ edited => (ParentsReady platform source destination subtrees blacklist ∧
          OrphansOnce platform source destination subtrees blacklist) ∧
        CopiedTo platform source destination subtrees blacklist edited)
      (fun error => error = .keyError ∧ ¬ (ParentsReady platform source destination subtrees blacklist ∧
        OrphansOnce platform source destination subtrees blacklist)) := by
  apply outcome_bind (outcome_weaken (mergeSubtrees_outcome hcopy newId) ?_ (fun _ _ h => h) ?_)
  · intro results
    apply outcome_of_state
    rintro merged ⟨hmgd, hrdy⟩
    have hmerg := hmgd.merging
    have hlen := hmerg.keys_length_le hcopy
    have hdepth := hcopy.depth
    rw [hmgd.orphans_eq]
    refine outcome_weaken (deleteOrphans_strikes (fun parent => hmerg.closed hcopy parent) ∅
      (fun key hkey => hmerg.mem_of_orphan hcopy hkey) (by rw [Finset.card_empty]; omega))
      (by rintro _ rfl; exact struck_self _) ?_ ?_
    · rintro _ edited ⟨gone, hstrike, hstruck⟩
      have honce := (hmerg.strike_iff hcopy).mp ⟨gone, hstrike⟩
      refine ⟨⟨hrdy, honce⟩, merged, gone, hmerg, hstruck, ?_⟩
      unfold OrphansOnce TrueOrphan orphanListing at honce
      rw [← hmerg.childrenOf_merged] at honce
      obtain ⟨same, hsame, hgone⟩ := strike_of_once (fun key hkey => mem_listing hkey) honce
      obtain rfl := some_unique hstrike hsame
      unfold TrueOrphan
      rw [← hmerg.childrenOf_merged]
      exact hgone
    · rintro error ⟨rfl, hnone⟩
      refine ⟨rfl, fun hall => ?_⟩
      obtain ⟨gone, hgone⟩ := (hmerg.strike_iff hcopy).mpr hall.2
      exact some_ne_none gone (hgone.symm.trans hnone)
  · rintro struct rfl
    exact progress_self struct
  · rintro error ⟨rfl, hnever⟩
    exact ⟨rfl, fun hall => hnever hall.1⟩

end Subtrees

end EdxPlatform.Split
