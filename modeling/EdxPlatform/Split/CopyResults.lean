import EdxPlatform.Split.CopiedSubtrees

/-!
# The results of a copy

A copy that goes well leaves no dangling child, gives the copied blocks the children of their
sources that are copied or were there, and takes out only blocks that lost their last parent.
-/

namespace EdxPlatform.Split

open Relation Blocks BlockData

/-- What a copy is to make of the destination. -/
structure MergedFrom (source destination : Blocks) (copied : List BlockKey) (blacklist : Blacklist)
    (edited : Blocks) : Prop where
  closed : ∀ parent child, edited.Edge parent child → child ∈ edited
  children : ∀ key ∈ copied, ∀ block, edited.lookup key = some block → block.childKeys =
    (source.childrenOf key).filter fun child =>
      !blacklist.excludes child || decide (child ∈ destination.childrenOf key)
  left : ∀ key, key ∈ destination ∨ key ∈ copied → key ∉ edited →
    (∃ parent, destination.Edge parent key ∨ source.Edge parent key) ∧ ∀ parent, ¬ edited.Edge parent key

/-- A root that is not to be copied was there already below each copied parent that is left. -/
def RootsInPlace (platform : Platform) (source : Structure) (destination : Blocks)
    (subtrees : List BlockKey) (blacklist : Blacklist) : Prop :=
  ∀ root ∈ subtrees, root ≠ source.root → blacklist.excludes root = true →
    ∀ parent ∈ walks platform source.blocks subtrees blacklist, source.blocks.Edge parent root →
      root ∈ destination.childrenOf parent ∨ TrueOrphan platform source destination subtrees blacklist parent

/-- When a copy goes well. -/
structure CopiesCleanly (platform : Platform) (source : Structure) (destination : Blocks)
    (subtrees : List BlockKey) (blacklist : Blacklist) : Prop where
  ready : ParentsReady platform source destination subtrees blacklist
  once : OrphansOnce platform source destination subtrees blacklist
  roots : RootsInPlace platform source destination subtrees blacklist

variable {platform : Platform} {source : Structure} {destination : Blocks}

section

variable {subtrees : List BlockKey} {blacklist : Blacklist} {edited : Structure}

theorem filter_eq_filter_iff {α : Type} {keeps others : α → Bool} {values : List α} :
    values.filter keeps = values.filter others ↔ ∀ value ∈ values, keeps value = others value := by
  constructor
  · intro heq value hval
    have hsame : value ∈ values.filter keeps ↔ value ∈ values.filter others := by rw [heq]
    rw [mem_filter, mem_filter, and_iff_right hval, and_iff_right hval] at hsame
    exact eq_iff_iff.mpr hsame
  · exact filter_congr

/-- The children of a copied block are those of its source, as they should be, if no root was
put in place there that is not to be copied. -/
theorem Merging.copied_children_iff {merged : Structure} (hmerg : Merging source.blocks destination
      blacklist (touches platform source subtrees blacklist) merged) {key : BlockKey}
    (hkey : key ∈ walks platform source.blocks subtrees blacklist) :
    merged.blocks.childrenOf key = (source.blocks.childrenOf key).filter (fun child =>
        !blacklist.excludes child || decide (child ∈ destination.childrenOf key)) ↔
      ∀ root ∈ subtrees, root ≠ source.root → blacklist.excludes root = true →
        source.blocks.Edge key root → root ∈ destination.childrenOf key := by
  have hcopd : .copied key ∈ touches platform source subtrees blacklist := copied_mem_touches.mpr hkey
  rw [hmerg.childrenOf_eq key (.inl hcopd), filter_eq_filter_iff]
  have hsame : ∀ child, keepsChild destination blacklist (touches platform source subtrees blacklist) key child =
      (!blacklist.excludes child || decide (child ∈ destination.childrenOf key)) ↔
      (child ∈ subtrees ∧ child ≠ source.root ∧ source.blocks.Edge key child →
        blacklist.excludes child = true → child ∈ destination.childrenOf key) := by
    intro child
    have hsync : .synced key child ∈ touches platform source subtrees blacklist ↔
        child ∈ subtrees ∧ child ≠ source.root ∧ source.blocks.Edge key child := synced_mem_touches
    unfold keepsChild
    rw [← hsync]
    by_cases hthere : child ∈ destination.childrenOf key
    · simp [hthere]
    · cases blacklist.excludes child with
      | false => simp [hthere, hcopd]
      | true => simp [hthere]
  constructor
  · intro hall root hroot hne hexcd hedge
    exact (hsame root).mp (hall root (mem_childrenOf.mpr hedge)) ⟨hroot, hne, hedge⟩ hexcd
  · intro hall child _
    exact (hsame child).mpr fun ⟨hroot, hne, hedge⟩ hexcd => hall child hroot hne hexcd hedge

theorem CopiedTo.mergedFrom_iff (hcopy : Copyable platform source destination subtrees)
    (hcopd : CopiedTo platform source destination subtrees blacklist edited) :
    MergedFrom source.blocks destination (walks platform source.blocks subtrees blacklist) blacklist edited.blocks ↔
      RootsInPlace platform source destination subtrees blacklist := by
  obtain ⟨merged, gone, hmerg, hstruck, hgone⟩ := hcopd
  have hlook : ∀ key, key ∉ gone → edited.blocks.lookup key = merged.blocks.lookup key :=
    fun key hkey => by rw [hstruck.lookup, if_neg hkey]
  constructor
  · intro hmgd root hroot hne hexcd parent hpar hedge
    rw [or_iff_not_imp_right, ← hgone]
    intro hthere
    have hmem : parent ∈ merged.blocks := (hmerg.mem_iff parent).mpr (.inr (copied_mem_touches.mpr hpar))
    obtain ⟨block, hblk⟩ := mem_iff_lookup.mp hmem
    have hkids := hmgd.children parent hpar block ((hlook parent hthere).trans hblk)
    rw [← childrenOf_of_lookup hblk, hmerg.copied_children_iff hpar] at hkids
    exact hkids root hroot hne hexcd hedge
  · intro hroots
    constructor
    · exact fun parent child hedge => hstruck.closed (hmerg.closed hcopy) hedge
    · intro key hkey block hblk
      have hthere : key ∉ gone := by
        intro hmem
        rw [hstruck.lookup, if_pos hmem] at hblk
        cases hblk
      rw [hlook key hthere] at hblk
      rw [← childrenOf_of_lookup hblk, hmerg.copied_children_iff hkey]
      intro root hroot hne hexcd hedge
      exact (hroots root hroot hne hexcd key hkey hedge).resolve_right fun h => hthere ((hgone key).mpr h)
    · intro key hkey hout
      have hmem : key ∈ merged.blocks := (hmerg.mem_iff key).mpr (hkey.imp_right copied_mem_touches.mpr)
      have hleft : key ∈ gone := by
        by_contra hthere
        exact hout ((hstruck.mem_iff key).mpr ⟨hthere, hmem⟩)
      refine ⟨?_, fun parent hedge => ?_⟩
      · have horph := (hgone key).mp hleft
        cases horph with
        | intro hlis _ =>
          rcases hlis with horph | ⟨parent, hch⟩
          · obtain ⟨parent, -, hch, -⟩ := hcopy.mem_deletedOrphans.mp horph
            exact ⟨parent, .inl (mem_childrenOf.mp hch)⟩
          · refine ⟨parent, ?_⟩
            unfold mergedChildren at hch
            split at hch
            · exact .inr (mem_childrenOf.mp (mem_filter.mp hch).1)
            · exact .inl (mem_childrenOf.mp hch)
      · obtain ⟨hpar, hch⟩ := hstruck.edge_iff.mp hedge
        exact hpar (hstruck.parents key hleft parent hch)

end

/-! ## One structure -/

/-- The structure has the blocks, and they have the children that they had. -/
structure SameChildren (blocks : Blocks) (struct : Structure) : Prop where
  mem_iff : ∀ key, key ∈ struct.blocks ↔ key ∈ blocks
  children : struct.blocks.childrenOf = blocks.childrenOf

section

variable {subtrees : List BlockKey} {blacklist : Blacklist} {blocks : Blocks} {struct edited : Structure}

variable {child parent : BlockKey}

theorem SameChildren.edge_iff (hsame : SameChildren blocks struct) :
    struct.blocks.Edge parent child ↔ blocks.Edge parent child := by
  rw [← mem_childrenOf, ← mem_childrenOf, hsame.children]

variable {key : BlockKey}

theorem SameChildren.insert (hsame : SameChildren blocks struct) (hkey : key ∈ blocks)
    {block : BlockData} (hkids : block.childKeys = blocks.childrenOf key) :
    SameChildren blocks { struct with blocks := struct.blocks.insert key block } where
  mem_iff := by
    intro other
    rw [mem_insert, hsame.mem_iff, or_iff_right_of_imp]
    rintro rfl
    exact hkey
  children := by
    funext other
    rw [← hsame.children]
    by_cases heq : other = key
    · subst heq
      rw [childrenOf_of_lookup (lookup_insert_self _ _ _), hkids, hsame.children]
    · unfold childrenOf
      rw [lookup_insert_of_ne heq]

theorem copySubdag_same (hlink : blocks.Linked) (newId : ObjectId) {depth : Nat}
    (hkey : key ∈ blocks) (hshal : Shallow blocks blacklist depth key) :
    Outcome (SameChildren blocks) (copySubdag true newId source.blocks blacklist depth key)
      (fun orphans struct => orphans = [] ∧ SameChildren blocks struct) (fun _ => False) := by
  induction depth generalizing key with
  | zero => exact hshal.elim
  | succ depth ih =>
    rw [copySubdag_succ]
    apply outcome_read
    intro entry hent
    obtain ⟨block, hblk⟩ := mem_iff_lookup.mp ((hent.mem_iff key).mpr hkey)
    have hkids : block.childKeys = blocks.childrenOf key := by
      rw [← childrenOf_of_lookup hblk, hent.children]
    have hnod := nodup_childrenOf hlink key
    apply outcome_found
    rotate_left
    · intro hnone
      rw [show entry.blocks.lookup key = none from hnone] at hblk
      cases hblk
    intro found hfnd
    obtain rfl := some_unique hfnd hblk
    apply outcome_bind (M := fun results struct => results.flatten = [] ∧ SameChildren blocks struct)
    · refine outcome_weaken (outcome_collect (I := fun _ results struct =>
          results.flatten = [] ∧ SameChildren blocks struct) fun before child after heq results => ?_)
        (by rintro _ rfl; exact ⟨rfl, hent⟩) (fun _ _ h => h) fun _ h => h
      have hch : child ∈ found.copiedChildren blacklist := heq ▸ mem_append_right before mem_cons_self
      obtain ⟨hmem, hcopd⟩ := mem_filter.mp hch
      rw [hkids] at hmem
      have hedge := mem_childrenOf.mp hmem
      have hnxt : Shallow blocks blacklist depth child := by
        obtain ⟨own, hown, hls⟩ := hedge
        exact hshal child ⟨own, hown, mem_filter.mpr ⟨hls, hcopd⟩⟩
      apply outcome_of_state
      rintro struct ⟨hress, hstr⟩
      refine outcome_weaken (ih (hlink.child_mem key child hedge) hnxt) (by rintro _ rfl; exact hstr) ?_ fun _ h => h
      rintro _ next ⟨rfl, hsame⟩
      exact ⟨by simpa using hress, hsame⟩
    · intro results
      refine outcome_bind (M := fun _ struct => results.flatten = [] ∧ SameChildren blocks struct)
        (outcome_modify ?_) fun _ => outcome_pure ?_
      · rintro struct ⟨hress, hstr⟩
        refine ⟨hress, hstr.insert hkey ?_⟩
        rw [childKeys, children_copiedBlock (hkids ▸ hnod), getD_some, hkids, hent.children, filter_eq_self]
        intro child hch
        simp [hch]
      · rintro struct ⟨hress, hstr⟩
        refine ⟨?_, hstr⟩
        rw [hress, append_nil, hblk, discoveredOrphans, filter_eq_nil_iff]
        simp

theorem syncChildren_same (hedge : blocks.Edge parent child) :
    Outcome (SameChildren blocks) (syncChildren true source.blocks child parent)
      (fun orphans struct => orphans = [] ∧ SameChildren blocks struct) (fun _ => False) := by
  apply outcome_read
  intro struct hstr
  obtain ⟨block, hblk, hch⟩ := hstr.edge_iff.mpr hedge
  obtain ⟨children, hkids⟩ : ∃ children, block.children = some children := by
    unfold childKeys at hch
    cases hcase : block.children with
    | none => simp [hcase] at hch
    | some children => exact ⟨children, rfl⟩
  have hthere : blocks.childrenOf parent = children := by
    rw [← hstr.children, childrenOf_of_lookup hblk, childKeys, hkids]
    rfl
  change Outcome _ (orRaise (struct.blocks.lookup parent) _ >>= fun found =>
    orRaise found.children _ >>= fun kept => orRaise (struct.blocks.lookup parent) _ >>= fun same =>
      orRaise same.children _ >>= _) _ _
  rw [hblk]
  change Outcome _ (orRaise block.children _ >>= fun kept => orRaise block.children _ >>= _) _ _
  rw [hkids]
  rintro _ rfl
  refine ⟨by simp, hstr.insert hedge.parent_mem ?_⟩
  rw [hthere, childKeys, getD_some, filter_eq_self]
  intro other hoth
  simp [hoth]

theorem syncParents_same (subtreeRoot : BlockKey) :
    Outcome (SameChildren blocks) (syncParents true source.blocks source.root subtreeRoot)
      (fun orphans struct => orphans = [] ∧ SameChildren blocks struct) (fun _ => False) := by
  unfold syncParents
  split
  · exact outcome_pure fun struct hstr => ⟨rfl, hstr⟩
  · apply outcome_read
    intro start hst
    simp only [sourceBlocks, if_true]
    have hedge : ∀ parent ∈ getParentsFromStructure subtreeRoot start.blocks, blocks.Edge parent subtreeRoot :=
      fun parent hmem => hst.edge_iff.mp (mem_getParents.mp hmem)
    have hall : (getParentsFromStructure subtreeRoot start.blocks).filter (· ∈ start.blocks) =
        getParentsFromStructure subtreeRoot start.blocks :=
      filter_eq_self.mpr fun parent hmem => decide_eq_true ((hst.mem_iff parent).mpr (hedge parent hmem).parent_mem)
    rw [hall]
    apply outcome_bind (M := fun results struct => results.flatten = [] ∧ SameChildren blocks struct)
    · refine outcome_weaken (outcome_collect (I := fun _ results struct =>
          results.flatten = [] ∧ SameChildren blocks struct) fun before parent after heq results => ?_)
        (by rintro _ rfl; exact ⟨rfl, hst⟩) (fun _ _ h => h) fun _ h => h
      have hpar : parent ∈ getParentsFromStructure subtreeRoot start.blocks :=
        heq ▸ mem_append_right before mem_cons_self
      apply outcome_of_state
      rintro struct ⟨hress, hstr⟩
      refine outcome_weaken (syncChildren_same (hedge parent hpar)) (by rintro _ rfl; exact hstr) ?_ fun _ h => h
      rintro _ next ⟨rfl, hsame⟩
      exact ⟨by simpa using hress, hsame⟩
    · intro results
      apply outcome_checked
      · exact fun _ => outcome_pure fun _ h => h
      · simp

section

variable (hcopy : Copyable platform source source.blocks subtrees)
include hcopy

theorem copySubtrees_same (newId : ObjectId) :
    Outcome (SameChildren source.blocks) (copySubtrees platform true newId source subtrees blacklist)
      (fun _ => SameChildren source.blocks) (fun _ => False) := by
  apply outcome_bind (M := fun results struct => results.flatten = [] ∧ SameChildren source.blocks struct)
  · refine outcome_weaken (outcome_collect (I := fun _ results struct =>
        results.flatten = [] ∧ SameChildren source.blocks struct) fun before root after heq results => ?_)
      (fun struct hstr => ⟨rfl, hstr⟩) (fun _ _ h => h) fun _ h => h
    have hmem : root ∈ subtrees := heq ▸ mem_append_right before mem_cons_self
    apply outcome_of_state
    rintro start ⟨hress, hst⟩
    apply outcome_bind (outcome_weaken (syncParents_same root) (by rintro _ rfl; exact hst)
      (fun _ _ h => h) fun _ h => h)
    intro synced
    apply outcome_of_state
    rintro middle ⟨rfl, hmid⟩
    apply outcome_bind (outcome_weaken (copySubdag_same hcopy.linked newId (hcopy.roots root hmem)
      (hcopy.shallow root)) (by rintro _ rfl; exact hmid) (fun _ _ h => h) fun _ h => h)
    intro copied
    refine outcome_pure ?_
    rintro struct ⟨rfl, hstr⟩
    exact ⟨by simpa using hress, hstr⟩
  · intro results
    apply outcome_of_state
    rintro struct ⟨hress, hstr⟩
    have hnone : platform.setOrder [] = [] :=
      List.eq_nil_iff_forall_not_mem.mpr fun key hkey => not_mem_nil ((hcopy.order [] key).mp hkey)
    rw [hress, hnone]
    refine outcome_pure ?_
    rintro _ rfl
    exact hstr

theorem not_trueOrphan_self (key : BlockKey) : ¬ TrueOrphan platform source source.blocks subtrees blacklist key := by
  intro horph
  induction horph with
  | intro hlis _ ih =>
    rcases hlis with horph | ⟨parent, hpar⟩
    · obtain ⟨parent, -, hch, hnot⟩ := hcopy.mem_deletedOrphans.mp horph
      exact hnot hch
    · exact ih parent hpar

theorem copiesCleanly_self : CopiesCleanly platform source source.blocks subtrees blacklist where
  ready := by
    rintro before root - - parent ⟨block, hblk, hch⟩
    refine .inr ⟨block, hblk, fun hnone => ?_⟩
    rw [childKeys, hnone] at hch
    cases hch
  once := fun key horph => absurd horph (not_trueOrphan_self hcopy key)
  roots := fun root _ _ _ parent _ hedge => .inl (mem_childrenOf.mpr hedge)

end

theorem SameChildren.mergedFrom (hlink : blocks.Linked) (copied : List BlockKey)
    (hcopd : ∀ key ∈ copied, key ∈ blocks) (hsame : SameChildren blocks edited) :
    MergedFrom blocks blocks copied blacklist edited.blocks where
  closed := fun parent child hedge =>
    (hsame.mem_iff child).mpr (hlink.child_mem parent child (hsame.edge_iff.mp hedge))
  children := by
    intro key _ block hblk
    rw [← childrenOf_of_lookup hblk, hsame.children, eq_comm, filter_eq_self]
    intro child hch
    simp [hch]
  left := fun key hkey hout => absurd ((hsame.mem_iff key).mpr (hkey.elim id (hcopd key))) hout

end

section

variable {subtrees : List BlockKey}

/-- A copy that returns has done what it is to do if and only if nothing could go wrong, and one
that raises raises `KeyError`. -/
theorem copySubtrees_merges {shared : Bool} (hshar : shared = true → destination = source.blocks)
    (hcopy : Copyable platform source destination subtrees) (blacklist : Blacklist) (newId : ObjectId) :
    Outcome (fun struct => struct.blocks = destination) (copySubtrees platform shared newId source subtrees blacklist)
      (fun _ edited => MergedFrom source.blocks destination
          (walks platform source.blocks subtrees blacklist) blacklist edited.blocks ↔
        CopiesCleanly platform source destination subtrees blacklist)
      (fun error => error = .keyError ∧ ¬ CopiesCleanly platform source destination subtrees blacklist) := by
  cases shared with
  | true =>
    obtain rfl := hshar rfl
    refine outcome_weaken (copySubtrees_same hcopy newId) ?_ ?_ fun _ h => h.elim
    · intro struct hstr
      exact ⟨fun key => by rw [hstr], by rw [hstr]⟩
    · intro _ edited hsame
      exact iff_of_true (hsame.mergedFrom hcopy.linked _
        fun key hkey => mem_of_mem_walks hcopy.linked hcopy.roots hkey)
        (copiesCleanly_self hcopy)
  | false =>
    refine outcome_weaken (copySubtrees_outcome hcopy newId) (fun _ h => h) ?_ ?_
    · rintro _ edited ⟨⟨hrdy, honce⟩, hcopd⟩
      rw [hcopd.mergedFrom_iff hcopy]
      exact ⟨fun hroots => ⟨hrdy, honce, hroots⟩, fun hclean => hclean.roots⟩
    · rintro error ⟨rfl, hnever⟩
      exact ⟨rfl, fun hclean => hnever ⟨hclean.ready, hclean.once⟩⟩

end

section

variable {store : Store} {sourceCourse locator : CourseLocator} {source destination : ObjectId × Structure}

theorem copy_edit (hsrc : store.Finds sourceCourse source) (hstd : store.StandsFor locator destination)
    (platform : Platform) (subtrees : List BlockKey) (blacklist : Blacklist) :
    ∃ loaded, loaded.versionOf = store.versionOf ∧ loaded.StandsFor locator destination ∧
      loaded.record.structures.lookup destination.1 = some destination.2 ∧
      copy platform sourceCourse locator subtrees blacklist store = (do
        let _ ← editVersion locator.branch destination fun newId => copySubtrees platform
          (sourceCourse.course = locator.course && source.1 = newId) newId source.2 subtrees blacklist
        pure () : StoreM Unit) loaded := by
  obtain ⟨first, hfst, hlds⟩ := lookupCourse_finds hsrc
  have hthere := hstd.loads hlds
  obtain ⟨loaded, hsec, hmore, hfnd⟩ := lookupCourse_run hthere
  refine ⟨loaded, hmore.versionOf.trans hlds.versionOf, hthere.loads hmore, hfnd, ?_⟩
  obtain ⟨index, hidx, hver⟩ := bind_eq_some_iff.mp hthere.head
  have hbr : locator.branch ∈ index.versions := mem_of_lookup hver
  unfold copy
  rw [run_bind, hfst]
  change (getCourseIndex locator.course >>= _ : StoreM Unit) first = _
  rw [run_bind]
  simp only [getCourseIndex, if_pos hthere.course]
  rw [hidx]
  change (if locator.branch ∈ index.versions then _ else _ : StoreM Unit) first = _
  rw [if_pos hbr, run_bind, hsec]

/-- A copy into a branch does what it is to do if and only if each parent of a subtree has a list
of children when its turn comes, the deletion of the orphans comes by no block again that it took
out, and each root that is not to be copied was there already below the copied parents that are
left.  A copy that raises raises `KeyError`. -/
theorem copy_merges_iff (hvalid : store.Valid) (hsource : store.Finds sourceCourse source)
    (hstands : store.StandsFor locator destination) {platform : Platform} {subtrees : List BlockKey}
    (hcopyable : Copyable platform source.2 destination.2.blocks subtrees) (blacklist : Blacklist) :
    (∀ error next, copy platform sourceCourse locator subtrees blacklist store = .error error next →
      error = .keyError) ∧
    ((∃ next id edited, copy platform sourceCourse locator subtrees blacklist store = .ok () next ∧
        next.envelope locator = some (id, edited) ∧
        MergedFrom source.2.blocks destination.2.blocks
          (walks platform source.2.blocks subtrees blacklist) blacklist edited.blocks) ↔
      CopiesCleanly platform source.2 destination.2.blocks subtrees blacklist) := by
  obtain ⟨loaded, hversion, hthere, hfound, hrun⟩ := copy_edit hsource hstands platform subtrees blacklist
  have hshared : (sourceCourse.course = locator.course &&
      source.1 = loaded.versionOf locator.branch destination.1) = true →
      destination.2.blocks = source.2.blocks := by
    rw [and_eq_true, decide_eq_true_eq, decide_eq_true_eq, hversion]
    rintro ⟨hcourse, hsame⟩
    rw [struct_of_version hvalid (hcourse.trans hstands.course) hstands.course hsource.found hstands.found hsame]
  have hedit := copySubtrees_merges hshared hcopyable blacklist (loaded.versionOf locator.branch destination.1)
    (loaded.copyOf locator.branch destination) (loaded.blocks_copyOf _ _)
  rw [hrun, run_bind]
  cases hresult : copySubtrees platform (sourceCourse.course = locator.course &&
      source.1 = loaded.versionOf locator.branch destination.1) (loaded.versionOf locator.branch destination.1)
      source.2 subtrees blacklist (loaded.copyOf locator.branch destination) with
  | error error edited =>
    rw [hresult] at hedit
    obtain ⟨next, hraised⟩ := editVersion_raised hthere hfound (fun newId => copySubtrees platform
      (sourceCourse.course = locator.course && source.1 = newId) newId source.2 subtrees blacklist) hresult
    rw [hraised]
    constructor
    · rintro _ _ heq
      injection heq with herror
      exact herror ▸ hedit.1
    · refine iff_of_false ?_ hedit.2
      rintro ⟨next, id, edited, hok, -⟩
      cases hok
  | ok result edited =>
    rw [hresult] at hedit
    change MergedFrom _ _ _ _ edited.blocks ↔ _ at hedit
    obtain ⟨next, hok, hedited⟩ := editVersion_run hthere hfound (fun newId => copySubtrees platform
      (sourceCourse.course = locator.course && source.1 = newId) newId source.2 subtrees blacklist) hresult
    have hhead := hedited.envelope_eq locator.versionGuid
    rw [← hthere.course] at hhead
    rw [hok, ← hedit]
    constructor
    · rintro _ _ heq
      cases heq
    · constructor
      · rintro ⟨_, id, found, heq, henvelope, hmerged⟩
        obtain rfl : next = _ := by
          injection heq
        obtain ⟨-, rfl⟩ := Prod.mk.inj (some_unique hhead henvelope)
        exact hmerged
      · exact fun hmerged => ⟨next, _, edited, rfl, hhead, hmerged⟩

end

/-! ## A unit that two chapters had -/

def oldChapter : BlockKey := ⟨"chapter", "old"⟩

def keptChapter : BlockKey := ⟨"chapter", "kept"⟩

def bothChapters : Blocks := Dict.ofList [(rootKey, newBlock ∅ (some [oldChapter, keptChapter]) 0 0),
    (oldChapter, newBlock ∅ (some [taggedUnit]) 0 0), (keptChapter, newBlock ∅ (some [taggedUnit]) 0 0),
    (taggedUnit, newBlock ∅ none 0 0)]

def emptyChapter : Blocks := Dict.ofList
  [(rootKey, newBlock ∅ (some [keptChapter]) 0 0), (keptChapter, newBlock ∅ (some []) 0 0)]

def chapterRank (key : BlockKey) : Nat :=
  if key = rootKey then 0 else if key = taggedUnit then 2 else 1

theorem emptyChapter_copyable : Copyable plainPlatform { root := rootKey, blocks := emptyChapter }
    bothChapters [rootKey] where
  linked := by decide +kernel
  acyclic := acyclic_of_rank chapterRank (by decide +kernel)
  destination_linked := by decide +kernel
  roots := by decide +kernel
  parents := fun root hroot hne => absurd (mem_singleton.mp hroot) hne
  depth := by decide +kernel
  order := fun _ _ => Iff.rfl

def publishCourse : StoreM Unit :=
  copy plainPlatform (draftCourse "course") (publishedCourse "course") [rootKey] (.keys [])

theorem publishCourse_merges_iff :
    (∀ error next, publishCourse (courseWithBranches bothChapters emptyChapter) = .error error next →
      error = .keyError) ∧
    ((∃ next id edited, publishCourse (courseWithBranches bothChapters emptyChapter) = .ok () next ∧
        next.envelope (publishedCourse "course") = some (id, edited) ∧
        MergedFrom emptyChapter bothChapters (walks plainPlatform emptyChapter [rootKey] (.keys []))
          (.keys []) edited.blocks) ↔
      CopiesCleanly plainPlatform { root := rootKey, blocks := emptyChapter } bothChapters [rootKey] (.keys [])) :=
  copy_merges_iff ((branchesDatabase_allocated bothChapters emptyChapter).valid "course")
    (courseWithBranches_draft bothChapters emptyChapter).finds
    (courseWithBranches_published bothChapters emptyChapter) emptyChapter_copyable (.keys [])

/-- The chapter takes the unit with it, which is then to be deleted again. -/
theorem publishCourse_raises :
    Copyable plainPlatform { root := rootKey, blocks := emptyChapter } bothChapters [rootKey] ∧
      Acyclic bothChapters.Edge ∧
      ∃ next, publishCourse (courseWithBranches bothChapters emptyChapter) = .error .keyError next := by
  refine ⟨emptyChapter_copyable, acyclic_of_rank chapterRank (by decide +kernel), ?_⟩
  have hraised : EStateM.Result.casesOn (motive := fun _ => Bool)
      (publishCourse (courseWithBranches bothChapters emptyChapter)) (fun _ _ => false)
      (fun error _ => decide (error = .keyError)) = true := by decide +kernel
  cases hrun : publishCourse (courseWithBranches bothChapters emptyChapter) with
  | ok result next =>
    rw [hrun] at hraised
    cases hraised
  | error error next =>
    rw [hrun] at hraised
    exact ⟨next, by rw [of_decide_eq_true hraised]⟩

end EdxPlatform.Split
