import EdxPlatform.Split.Sessions
import EdxPlatform.Split.WriteOperations

/-!
# The fields of a copied block

A copy walks down from the roots of the subtrees.  A block that is not in the
destination when the walk comes by is added without its asides; it gets them if the walk
comes by again.
-/

namespace EdxPlatform.Split

open Relation Store

/-- The block has the definition, the settings and the defaults of its source. -/
structure BlockData.SameFields (block source : BlockData) : Prop where
  definition : block.definition = source.definition
  settings : block.settings = source.settings
  defaults : block.defaults = source.defaults

def BlockData.Carries (block source : BlockData) : Prop := block.SameFields source ∧ block.asides = source.asides

/-! ## The walk -/

def BlockData.copiedChildren (source : BlockData) (blacklist : Blacklist) : List BlockKey :=
  source.childKeys.filter fun child => !blacklist.excludes child

/-- The blocks that the copy of a subtree comes by, each as often as it does. -/
def walk (source : Blocks) (blacklist : Blacklist) : Nat → BlockKey → List BlockKey
  | 0, _ => []
  | depth + 1, blockKey =>
    blockKey :: match source.lookup blockKey with
      | none => []
      | some block => (block.copiedChildren blacklist).flatMap (walk source blacklist depth)

def walks (platform : Platform) (source : Blocks) (subtrees : List BlockKey) (blacklist : Blacklist) : List BlockKey :=
  subtrees.flatMap (walk source blacklist platform.recursionLimit)

def CopiedEdge (source : Blocks) (blacklist : Blacklist) (parent child : BlockKey) : Prop :=
  ∃ block, source.lookup parent = some block ∧ child ∈ block.copiedChildren blacklist

/-- Every way down from a block ends within `depth` blocks. -/
def Shallow (source : Blocks) (blacklist : Blacklist) : Nat → BlockKey → Prop
  | 0, _ => False
  | depth + 1, blockKey => ∀ child, CopiedEdge source blacklist blockKey child → Shallow source blacklist depth child

section Walks

variable {source : Blocks} {blacklist : Blacklist} {depth : Nat} {key other : BlockKey}

theorem path_of_mem_walk (hmem : other ∈ walk source blacklist depth key) :
    ReflTransGen (CopiedEdge source blacklist) key other := by
  induction depth generalizing key with
  | zero => cases hmem
  | succ depth ih =>
    unfold walk at hmem
    rcases mem_cons.mp hmem with rfl | hmem
    · exact ReflTransGen.refl
    · cases hblk : source.lookup key with
      | none =>
        rw [hblk] at hmem
        cases hmem
      | some block =>
        rw [hblk] at hmem
        obtain ⟨child, hch, hbel⟩ := mem_flatMap.mp hmem
        exact ReflTransGen.head ⟨block, hblk, hch⟩ (ih hbel)

theorem Shallow.below (hshal : Shallow source blacklist depth key)
    (hpath : TransGen (CopiedEdge source blacklist) key other) :
    ∃ less < depth, Shallow source blacklist less other := by
  induction hpath with
  | single hedge =>
    cases depth with
    | zero => exact hshal.elim
    | succ depth => exact ⟨depth, lt_succ_self depth, hshal _ hedge⟩
  | tail _ hedge ih =>
    obtain ⟨less, hless, hmid⟩ := ih
    cases less with
    | zero => exact hmid.elim
    | succ less => exact ⟨less, by omega, hmid _ hedge⟩

theorem Shallow.acyclic (hshal : Shallow source blacklist depth key) :
    ¬ TransGen (CopiedEdge source blacklist) key key := by
  intro hcycle
  induction depth using Nat.strong_induction_on with
  | _ depth ih =>
    obtain ⟨less, hless, hagain⟩ := hshal.below hcycle
    exact ih less hless hagain

theorem Shallow.notMem_below {block : BlockData} (hshal : Shallow source blacklist depth key)
    (hblk : source.lookup key = some block) (less : Nat) :
    key ∉ (block.copiedChildren blacklist).flatMap (walk source blacklist less) := by
  intro hmem
  obtain ⟨child, hch, hbel⟩ := mem_flatMap.mp hmem
  exact hshal.acyclic (TransGen.head' ⟨block, hblk, hch⟩ (path_of_mem_walk hbel))

end Walks

/-! ## Blocks that were copied -/

theorem filter_reorderedChildren (sourceChildren existingChildren : List BlockKey) (blacklist : Blacklist) :
    (reorderedChildren sourceChildren existingChildren blacklist).filter (fun child => !blacklist.excludes child) =
      sourceChildren.filter fun child => !blacklist.excludes child := by
  -- the positions play no part for a child that is not excluded
  have hpos : ∀ (kept : BlockKey × Nat → Bool) (children : List BlockKey) (start : Nat),
      ((children.zipIdx start).filterMap fun entry =>
        if !blacklist.excludes entry.1 || kept entry then some entry.1 else none).filter
          (fun child => !blacklist.excludes child) =
        children.filter fun child => !blacklist.excludes child := by
    intro kept children
    induction children with
    | nil => exact fun _ => rfl
    | cons child children ih =>
      intro start
      rw [List.zipIdx_cons, List.filterMap_cons]
      cases hch : blacklist.excludes child with
      | false => simp [hch, ← ih (start + 1)]
      | true => cases kept (child, start) <;> simp [hch, ← ih (start + 1)]
  exact hpos _ sourceChildren 0

section

variable (source : BlockData) (destination : Option BlockData) (version : ObjectId) (blacklist : Blacklist)

theorem filter_copiedBlock : ((copiedBlock source destination version blacklist).childKeys.filter fun child =>
      !blacklist.excludes child) = source.copiedChildren blacklist := by
  cases destination with
  | some destination => exact filter_reorderedChildren source.childKeys destination.childKeys blacklist
  | none =>
    change List.filter _ (List.filter _ source.childKeys) = _
    rw [filter_filter]
    simp [BlockData.copiedChildren]

theorem copiedBlock_carries : (copiedBlock source destination version blacklist).SameFields source ∧
      (copiedBlock source destination version blacklist).asides =
        if destination.isSome then source.asides else [] := by
  cases destination with
  | some destination => exact ⟨⟨rfl, rfl, rfl⟩, rfl⟩
  | none => exact ⟨⟨rfl, rfl, rfl⟩, rfl⟩

end

/-- What was copied of a source into a destination, when the walk has come by the visited
blocks. -/
structure Traced (source start : Blocks) (visited : List BlockKey) (struct : Structure) : Prop where
  mem_iff : ∀ key, key ∈ struct.blocks ↔ key ∈ start ∨ key ∈ visited
  copied : ∀ key ∈ visited, ∀ block, struct.blocks.lookup key = some block →
    ∃ sourceBlock, source.lookup key = some sourceBlock ∧ block.SameFields sourceBlock ∧
      block.asides = if key ∈ start ∨ 2 ≤ visited.count key then sourceBlock.asides else []

section Traces

variable {source start : Blocks} {visited : List BlockKey} {struct : Structure}
  {blacklist : Blacklist} {newId : ObjectId}

theorem Traced.setChildren (htrac : Traced source start visited struct) {key : BlockKey}
    {block : BlockData} (hblk : struct.blocks.lookup key = some block)
    (children : Option (List BlockKey)) :
    Traced source start visited
      { struct with blocks := struct.blocks.insert key { block with children := children } } := by
  constructor
  · intro other
    rw [mem_insert, htrac.mem_iff, or_iff_right_of_imp]
    rintro rfl
    exact (htrac.mem_iff other).mp (mem_of_lookup hblk)
  · intro other hoth found hfnd
    rw [lookup_insert] at hfnd
    split at hfnd
    · next heq =>
        obtain rfl := some.inj hfnd
        obtain ⟨sourceBlock, hsrc, hsame, hasides⟩ := htrac.copied other hoth block (heq ▸ hblk)
        exact ⟨sourceBlock, hsrc, ⟨hsame.definition, hsame.settings, hsame.defaults⟩, hasides⟩
    · exact htrac.copied other hoth found hfnd

theorem Traced.visit {entry : Structure} {below : List BlockKey} (hent : Traced source start visited entry)
    (htrac : Traced source start (visited ++ below) struct) {key : BlockKey}
    {sourceBlock : BlockData} (hsrc : source.lookup key = some sourceBlock) (hkey : key ∉ below)
    {copy : BlockData} (hcopy : copy = copiedBlock sourceBlock (entry.blocks.lookup key) newId blacklist) :
    Traced source start (visited ++ key :: below) { struct with blocks := struct.blocks.insert key copy } := by
  have hcnt : ∀ other, (visited ++ key :: below).count other =
      (visited ++ below).count other + if other = key then 1 else 0 := by
    intro other
    rw [count_append, count_append, List.count_cons, Nat.add_assoc]
    by_cases heq : other = key
    · simp [heq]
    · simp [heq, Ne.symm heq]
  constructor
  · intro other
    rw [mem_insert, htrac.mem_iff]
    simp only [mem_append, mem_cons]
    tauto
  · intro other hoth block hblk
    rw [lookup_insert] at hblk
    split at hblk
    · next heq =>
        subst heq
        obtain rfl := hcopy.symm.trans (some.inj hblk)
        obtain ⟨hsame, hasides⟩ := copiedBlock_carries sourceBlock (entry.blocks.lookup other) newId blacklist
        refine ⟨sourceBlock, hsrc, hsame, hasides.trans ?_⟩
        have hbef : (entry.blocks.lookup other).isSome ↔ other ∈ start ∨
            2 ≤ (visited ++ other :: below).count other := by
          rw [lookup_isSome, hent.mem_iff, hcnt, if_pos rfl, count_append,
            List.count_eq_zero.mpr hkey, ← count_pos_iff]
          exact or_congr_right (by omega)
        simp only [hbef]
    · next hne =>
        have hold : other ∈ visited ++ below := by
          simp only [mem_append, mem_cons] at hoth ⊢
          tauto
        obtain ⟨found, hfnd, hsame, hasides⟩ := htrac.copied other hold block hblk
        refine ⟨found, hfnd, hsame, ?_⟩
        rw [hasides, hcnt, if_neg hne, Nat.add_zero]

theorem copySubdag_succ (shared : Bool) (newId : ObjectId) (source : Blocks) (blacklist : Blacklist)
    (depth : Nat) (key : BlockKey) :
    copySubdag shared newId source blacklist (depth + 1) key = (do
      let entry ← get
      let sourceBlock ← orRaise ((sourceBlocks shared source entry.blocks).lookup key) .keyError
      let orphans ← collect (copySubdag shared newId source blacklist depth) (sourceBlock.copiedChildren blacklist)
      modify fun struct => { struct with
        blocks := struct.blocks.insert key (copiedBlock sourceBlock (entry.blocks.lookup key) newId blacklist) }
      pure (discoveredOrphans sourceBlock (entry.blocks.lookup key) ++ orphans.flatten)) := by
  unfold copySubdag
  simp only [filter_copiedBlock]

theorem shallow_copySubdag (depth : Nat) (key : BlockKey) :
    Triple (fun _ => True) (copySubdag false newId source blacklist depth key)
      (fun _ _ => Shallow source blacklist depth key) (fun _ => True) := by
  induction depth generalizing key with
  | zero => exact triple_throw fun _ h => h
  | succ depth ih =>
    rw [copySubdag_succ]
    apply triple_read
    intro entry _
    apply triple_found _ fun _ _ => trivial
    intro sourceBlock hsrc
    have hbel : Triple (fun _ => True)
        (collect (copySubdag false newId source blacklist depth) (sourceBlock.copiedChildren blacklist))
        (fun _ _ => ∀ child ∈ sourceBlock.copiedChildren blacklist,
          Shallow source blacklist depth child) (fun _ => True) :=
      triple_collect_each fun child _ => ih child
    apply triple_bind (hbel.pre (fun _ _ => trivial))
    intro orphans
    refine triple_bind (M := fun _ _ => Shallow source blacklist (depth + 1) key)
      (triple_modify fun _ hall => ?_) fun _ => triple_pure fun _ h => h
    rintro child ⟨block, hblk, hch⟩
    obtain rfl := some_unique hsrc hblk
    exact hall child hch

theorem copySubdag_traced (depth : Nat) (key : BlockKey) (visited : List BlockKey) :
    Triple (Traced source start visited) (copySubdag false newId source blacklist depth key)
      (fun _ => Traced source start (visited ++ walk source blacklist depth key)) (fun _ => True) := by
  induction depth generalizing key visited with
  | zero => exact triple_throw fun _ _ => trivial
  | succ depth ih =>
    rw [copySubdag_succ]
    apply triple_read
    intro entry hent
    apply triple_found _ fun _ _ => trivial
    intro sourceBlock hsrc
    have hbel : Triple (fun _ => True)
        (collect (copySubdag false newId source blacklist depth) (sourceBlock.copiedChildren blacklist))
        (fun _ _ => ∀ child ∈ sourceBlock.copiedChildren blacklist,
          Shallow source blacklist depth child) (fun _ => True) :=
      triple_collect_each fun child _ => shallow_copySubdag depth child
    have htrac := triple_collect_trace (I := Traced source start) (R := fun _ => True)
      (fun child (_ : child ∈ sourceBlock.copiedChildren blacklist) visited => ih child visited) visited
    apply triple_bind (((triple_and
      (hbel.pre (fun _ _ => trivial)) htrac).pre (by rintro _ rfl; exact hent)).raise fun _ _ => trivial)
    intro orphans
    have hwalk : walk source blacklist (depth + 1) key = key ::
        (sourceBlock.copiedChildren blacklist).flatMap (walk source blacklist depth) := by
      unfold walk
      rw [show source.lookup key = some sourceBlock from hsrc]
    rw [hwalk]
    refine triple_bind (M := fun _ => Traced source start (visited ++ key ::
      (sourceBlock.copiedChildren blacklist).flatMap (walk source blacklist depth)))
      (triple_modify ?_) fun _ => triple_pure fun _ h => h
    rintro struct ⟨hall, hstr⟩
    have hshal : Shallow source blacklist (depth + 1) key := by
      rintro child ⟨block, hblk, hch⟩
      obtain rfl := some_unique hsrc hblk
      exact hall child hch
    exact hent.visit hstr hsrc (hshal.notMem_below hsrc depth) rfl

theorem syncParents_traced (sourceRoot subtreeRoot : BlockKey) :
    Keeps (Traced source start visited) (syncParents false source sourceRoot subtreeRoot) := by
  apply triple_ite
  · exact fun _ => keeps_pure _
  · intro _
    apply triple_read
    intro current htrac
    apply triple_bind (M := fun _ => Traced source start visited)
    · refine triple_weaken (keeps_collect fun parent _ => ?_) (fun _ h => h ▸ htrac) (fun _ _ h => h) fun _ h => h
      apply triple_read
      intro struct hstr
      have hkept : ∀ state, state = struct → Traced source start visited state :=
        fun _ h => h ▸ hstr
      apply triple_found _ hkept
      intro block hblk
      apply triple_found _ hkept
      intro children hkids
      apply triple_found _ hkept
      intro sourceParent hsrc
      apply triple_found _ hkept
      intro sourceChildren hsour
      rintro _ rfl
      exact hstr.setChildren hblk _
    · intro orphans
      exact triple_checked (fun _ => keeps_pure _) fun _ h => h

theorem deleteIfTrueOrphan_sub (merged : Blocks) (depth : Nat) (orphan : BlockKey) :
    Keeps (fun struct : Structure => ∀ key block, struct.blocks.lookup key = some block →
      merged.lookup key = some block) (deleteIfTrueOrphan depth orphan) := by
  induction depth generalizing orphan with
  | zero => exact keeps_throw _
  | succ depth ih =>
    apply triple_read
    intro struct hsub
    have hkept : ∀ state, state = struct → ∀ key block, state.blocks.lookup key = some block →
        merged.lookup key = some block := fun _ h => h ▸ hsub
    apply triple_ite
    · intro _
      apply triple_found _ hkept
      intro block _
      apply triple_bind (M := fun _ (struct : Structure) => ∀ key block,
        struct.blocks.lookup key = some block → merged.lookup key = some block)
      · rintro _ rfl
        intro key found hfnd
        rw [lookup_erase] at hfnd
        split at hfnd
        · cases hfnd
        · exact hsub key found hfnd
      · exact fun _ => triple_forM fun child _ => ih child
    · exact fun _ => triple_pure hkept

theorem copySubtrees_traced (platform : Platform) (source destination : Structure) (subtrees : List BlockKey) :
    Triple (· = destination) (copySubtrees platform false newId source subtrees blacklist)
      (fun _ edited => ∀ key ∈ walks platform source.blocks subtrees blacklist, ∀ block,
        edited.blocks.lookup key = some block → ∃ sourceBlock,
          source.blocks.lookup key = some sourceBlock ∧ block.SameFields sourceBlock ∧
          block.asides = if key ∈ destination.blocks ∨ 2 ≤ (walks platform source.blocks subtrees blacklist).count key
            then sourceBlock.asides else []) (fun _ => True) := by
  have hcopd : Triple (Traced source.blocks destination.blocks [])
      (collect (fun subtreeRoot => do
        let synced ← syncParents false source.blocks source.root subtreeRoot
        let copied ← copySubdag false newId source.blocks blacklist platform.recursionLimit subtreeRoot
        pure (synced ++ copied)) subtrees)
      (fun _ => Traced source.blocks destination.blocks
        ([] ++ walks platform source.blocks subtrees blacklist)) (fun _ => True) := by
    apply triple_collect_trace
    intro subtreeRoot _ visited
    apply triple_bind ((syncParents_traced source.root subtreeRoot).raise fun _ _ => trivial)
    intro synced
    apply triple_bind (copySubdag_traced platform.recursionLimit subtreeRoot visited)
    exact fun _ => triple_pure fun _ h => h
  apply triple_bind (hcopd.pre ?_)
  · intro orphans
    apply triple_of_state
    intro merged hmgd
    refine triple_weaken (triple_forM fun orphan _ => deleteIfTrueOrphan_sub merged.blocks
      platform.recursionLimit orphan) ?_ ?_ fun _ _ => trivial
    · rintro _ rfl key block hblk
      exact hblk
    · intro _ edited hsub key hkey block hblk
      exact hmgd.copied key hkey block (hsub key block hblk)
  · rintro _ rfl
    exact ⟨fun key => by simp, fun key hkey => nomatch hkey⟩

end Traces

/-! ## A source that is the destination -/

def CarriedFrom (start : Blocks) (struct : Structure) : Prop :=
  ∀ key block, struct.blocks.lookup key = some block → ∃ found, start.lookup key = some found ∧ block.Carries found

section Shared

variable {start : Blocks} {struct : Structure} {blacklist : Blacklist} {newId : ObjectId}

theorem carriedFrom_self (struct : Structure) : CarriedFrom struct.blocks struct :=
  fun _ block hblk => ⟨block, hblk, ⟨rfl, rfl, rfl⟩, rfl⟩

theorem CarriedFrom.insert (hcarr : CarriedFrom start struct) {key : BlockKey}
    {found block : BlockData} (hfnd : start.lookup key = some found) (hblk : block.Carries found) :
    CarriedFrom start { struct with blocks := struct.blocks.insert key block } := by
  intro other content hcont
  rw [lookup_insert] at hcont
  split at hcont
  · next heq =>
      obtain rfl := some.inj hcont
      exact ⟨found, heq ▸ hfnd, hblk⟩
  · exact hcarr other content hcont

theorem copySubdag_carried (source : Blocks) (depth : Nat) (key : BlockKey) :
    Keeps (CarriedFrom start) (copySubdag true newId source blacklist depth key) := by
  induction depth generalizing key with
  | zero => exact keeps_throw _
  | succ depth ih =>
    rw [copySubdag_succ]
    apply triple_read
    intro entry hent
    have hkept : ∀ state, state = entry → CarriedFrom start state := fun _ h => h ▸ hent
    apply triple_found _ hkept
    intro block hblk
    apply triple_bind ((keeps_collect fun child _ => ih child).pre hkept)
    intro orphans
    refine triple_bind (M := fun _ => CarriedFrom start) (triple_modify fun struct hstr => ?_) fun _ => keeps_pure _
    obtain ⟨found, hfnd, hcar⟩ := hent key block hblk
    -- the block is copied over itself
    rw [show entry.blocks.lookup key = some block from hblk]
    exact hstr.insert hfnd ⟨⟨hcar.1.definition, hcar.1.settings, hcar.1.defaults⟩, hcar.2⟩

theorem syncParents_carried (source : Blocks) (sourceRoot subtreeRoot : BlockKey) :
    Keeps (CarriedFrom start) (syncParents true source sourceRoot subtreeRoot) := by
  apply triple_ite
  · exact fun _ => keeps_pure _
  · intro _
    apply triple_read
    intro current hcur
    apply triple_bind (M := fun _ => CarriedFrom start)
    · refine triple_weaken (keeps_collect fun parent _ => ?_) (fun _ h => h ▸ hcur) (fun _ _ h => h) fun _ h => h
      apply triple_read
      intro struct hstr
      have hkept : ∀ state, state = struct → CarriedFrom start state := fun _ h => h ▸ hstr
      apply triple_found _ hkept
      intro block hblk
      apply triple_found _ hkept
      intro children hkids
      apply triple_found _ hkept
      intro sourceParent hsrc
      apply triple_found _ hkept
      intro sourceChildren hsour
      rintro _ rfl
      obtain ⟨found, hfnd, hcar⟩ := hstr parent block hblk
      exact hstr.insert hfnd ⟨⟨hcar.1.definition, hcar.1.settings, hcar.1.defaults⟩, hcar.2⟩
    · intro orphans
      exact triple_checked (fun _ => keeps_pure _) fun _ h => h

theorem copySubtrees_carried (platform : Platform) (source : Structure) (subtrees : List BlockKey) :
    Keeps (CarriedFrom start) (copySubtrees platform true newId source subtrees blacklist) := by
  apply keeps_bind
  · apply keeps_collect
    intro subtreeRoot _
    apply keeps_bind (syncParents_carried source.blocks source.root subtreeRoot)
    intro synced
    apply keeps_bind (copySubdag_carried source.blocks platform.recursionLimit subtreeRoot)
    exact fun _ => keeps_pure _
  · intro orphans
    apply triple_of_state
    intro merged hmgd
    refine triple_weaken (triple_forM fun orphan _ => deleteIfTrueOrphan_sub merged.blocks
      platform.recursionLimit orphan) ?_ ?_ ?_
    · rintro _ rfl key block hblk
      exact hblk
    · exact fun _ edited hsub key block hblk => hmgd key block (hsub key block hblk)
    · exact fun edited hsub key block hblk => hmgd key block (hsub key block hblk)

end Shared

/-- The asides of the source are copied with a block: there are none, or there was a block
to copy over, at the latest when the walk came by again. -/
def AsidesCopied (before : BlockKey → Prop) (visited : List BlockKey) (key : BlockKey) (source : BlockData) : Prop :=
  source.asides = [] ∨ before key ∨ 2 ≤ visited.count key

/-- A copied block that is in the destination is its source, up to the children, if and
only if its asides were copied. -/
theorem copySubtrees_carries_iff (platform : Platform) {shared : Bool} (newId : ObjectId)
    {source destination : Structure} (subtrees : List BlockKey) (blacklist : Blacklist)
    (hshar : shared = true → destination.blocks = source.blocks) :
    Triple (· = destination) (copySubtrees platform shared newId source subtrees blacklist)
      (fun _ edited => ∀ key ∈ walks platform source.blocks subtrees blacklist, ∀ block,
        edited.blocks.lookup key = some block → ∃ sourceBlock,
          source.blocks.lookup key = some sourceBlock ∧ (block.Carries sourceBlock ↔
            AsidesCopied (· ∈ destination.blocks) (walks platform source.blocks subtrees blacklist) key
              sourceBlock)) (fun _ => True) := by
  cases shared with
  | true =>
    refine triple_weaken (copySubtrees_carried platform source subtrees)
      (by rintro _ rfl; exact carriedFrom_self _) ?_ fun _ _ => trivial
    intro _ edited hcarr key _ block hblk
    obtain ⟨found, hfnd, hcar⟩ := hcarr key block hblk
    refine ⟨found, hshar rfl ▸ hfnd, iff_of_true hcar (.inr (.inl ?_))⟩
    exact mem_of_lookup hfnd
  | false =>
    refine (copySubtrees_traced platform source destination subtrees).post ?_
    intro _ edited htrac key hkey block hblk
    obtain ⟨sourceBlock, hsrc, hsame, hasides⟩ := htrac key hkey block hblk
    refine ⟨sourceBlock, hsrc, ?_⟩
    unfold BlockData.Carries AsidesCopied
    rw [and_iff_right hsame, hasides]
    split
    · next hthere => exact iff_of_true rfl (.inr hthere)
    · next hnew => simp [hnew, eq_comm]

/-- What a copy to a branch begins with: the blocks of the head, which are those of the
source if the two are shared, or just the root of the source for a branch without a head. -/
structure CopyStart (store : Store) (locator : CourseLocator) (source : Structure)
    (shared : Bool) (start : Structure) : Prop where
  shared_eq : shared = true → start.blocks = source.blocks
  head : ∀ envelope, store.envelope locator = some envelope → start.blocks = envelope.2.blocks
  new : store.envelope locator = none → ∃ definition newId, start = newStructure source.root ∅ none definition newId

theorem struct_of_version {store : Store} (hval : store.Valid) {first second : CourseLocator}
    (hfst : first.course = store.record.courseKey) (hsec : second.course = store.record.courseKey)
    {one two : ObjectId × Structure} (hone : store.envelope first = some one)
    (htwo : store.envelope second = some two)
    (hver : one.1 = store.versionOf second.branch two.1) : two.2 = one.2 := by
  have hfnd := (head_of_envelope hone hfst).2
  have hoth := (head_of_envelope htwo hsec).2
  unfold Store.versionOf at hver
  split at hver
  · rw [hver, hoth] at hfnd
    exact some.inj hfnd
  · -- a new version has an id of its own
    rw [Store.struct, or_eq_some_iff] at hfnd
    rcases hfnd with hrec | ⟨-, hdb⟩
    · have hless := hval.loaded one.1 (mem_of_lookup hrec)
      exact absurd hver (Nat.ne_of_lt hless)
    · have hless := hval.saved one.1 (mem_of_lookup hdb)
      exact absurd hver (Nat.ne_of_lt hless)

theorem copy_edits {store : Store} (hval : store.Valid) {sourceCourse locator : CourseLocator}
    (hcrs : locator.course = store.record.courseKey) {source : ObjectId × Structure}
    (hsrc : store.envelope sourceCourse = some source) (platform : Platform)
    (subtrees : List BlockKey) (blacklist : Blacklist) :
    Triple (· = store) (copy platform sourceCourse locator subtrees blacklist)
      (fun _ next => ∃ shared newId start id edited, CopyStart store locator source.2 shared start ∧
        copySubtrees platform shared newId source.2 subtrees blacklist start = .ok () edited ∧
        next.envelope locator = some (id, edited)) (fun _ => True) := by
  apply triple_bind ((lookupCourse_envelope sourceCourse).raise fun _ _ => trivial)
  intro found
  apply triple_of_state
  rintro loaded ⟨hfnd, hlds, -⟩
  obtain rfl := some_unique hfnd hsrc
  have hload : locator.course = loaded.record.courseKey := by rw [hlds.courseKey, hcrs]
  apply triple_bind ((getCourseIndex_triple locator.course).raise fun _ _ => trivial)
  intro index
  apply triple_of_state
  rintro current ⟨rfl, hidx⟩
  rw [if_pos hload] at hidx
  apply triple_found _ fun _ _ => trivial
  rintro index rfl
  apply triple_ite
  · intro _
    apply triple_bind ((lookupCourse_envelope locator).raise fun _ _ => trivial)
    intro envelope
    apply triple_of_state
    rintro next ⟨henv, hmore, hstr⟩
    have hnxt : locator.course = next.record.courseKey := by rw [hmore.courseKey, hload]
    obtain ⟨hhead, hcont⟩ := head_of_envelope henv hload
    rw [← hmore.head] at hhead
    refine triple_bind (M := fun _ after => ∃ shared newId start id edited,
      CopyStart store locator found.2 shared start ∧
      copySubtrees platform shared newId found.2 subtrees blacklist start = .ok () edited ∧
      after.envelope locator = some (id, edited)) ?_ fun _ => triple_pure fun _ h => h
    refine ((editVersion_triple hhead (hstr hload) _).post ?_).raise fun _ _ => trivial
    rintro result after ⟨-, edited, hrun, hed⟩
    have haft := hed.envelope_eq locator.versionGuid
    rw [← hnxt] at haft
    refine ⟨_, _, _, _, edited, ⟨?_, ?_, ?_⟩, hrun, haft⟩
    · intro hshar
      rw [and_eq_true, decide_eq_true_eq, decide_eq_true_eq] at hshar
      rw [hmore.versionOf, hlds.versionOf] at hshar
      rw [hlds.envelope] at henv
      rw [blocks_copyOf, struct_of_version hval (hshar.1.trans hcrs) hcrs hsrc henv hshar.2]
    · intro other hoth
      rw [hlds.envelope, hoth] at henv
      rw [blocks_copyOf, some.inj henv]
    · intro hnone
      rw [hlds.envelope, hnone] at henv
      cases henv
  · intro hnone
    have hhead : current.record.head locator.branch = none := by
      rw [SplitBulkWriteRecord.head, ← hidx, bind_some]
      exact lookup_eq_none.mpr hnone
    have henv : store.envelope locator = none := by
      rw [← hlds.envelope, Store.envelope, if_pos hload, hhead]
      rfl
    apply triple_checked _ fun _ _ => trivial
    intro _
    apply triple_found _ fun _ _ => trivial
    intro root _
    refine newBranch_triple (hidx ▸ rfl) hhead (fun edited next hedit hed => ?_) trivial
    have haft := hed.envelope_eq locator.versionGuid
    rw [← hload] at haft
    refine ⟨false, _, _, _, edited, ⟨?_, ?_, ?_⟩, hedit, haft⟩
    · exact fun hshar => absurd hshar false_ne_true
    · intro envelope hoth
      rw [henv] at hoth
      cases hoth
    · exact fun _ => ⟨root.definition, current.db.nextObjectId, rfl⟩

/-- The block is in the destination of a copy before it: in the structure of the head, or it
is the root that a new branch gets first. -/
def Store.InDestination (store : Store) (locator : CourseLocator) (source : Structure) (key : BlockKey) : Prop :=
  match store.envelope locator with
  | some envelope => key ∈ envelope.2.blocks
  | none => key = source.root

theorem CopyStart.mem_iff {store : Store} {locator : CourseLocator} {source start : Structure}
    {shared : Bool} (hst : CopyStart store locator source shared start) (key : BlockKey) :
    key ∈ start.blocks ↔ store.InDestination locator source key := by
  unfold InDestination
  cases henv : store.envelope locator with
  | some envelope => rw [hst.head envelope henv]
  | none =>
    obtain ⟨definition, newId, rfl⟩ := hst.new henv
    change key ∈ (∅ : Blocks).insert _ _ ↔ _
    rw [mem_insert, or_iff_left (notMem_empty key)]

/-- After a copy that returned, a copied block that is in the destination has everything of
its source but the children if and only if its asides were copied. -/
theorem copy_carries_iff {store next : Store} (hvalid : store.Valid) {platform : Platform}
    {sourceCourse locator : CourseLocator} (hcourse : locator.course = store.record.courseKey)
    {source : ObjectId × Structure} (hsource : store.envelope sourceCourse = some source)
    {subtrees : List BlockKey} {blacklist : Blacklist}
    (hrun : copy platform sourceCourse locator subtrees blacklist store = .ok () next) :
    ∃ id edited, next.envelope locator = some (id, edited) ∧
      ∀ key ∈ walks platform source.2.blocks subtrees blacklist, ∀ block,
        edited.blocks.lookup key = some block → ∃ sourceBlock,
          source.2.blocks.lookup key = some sourceBlock ∧ (block.Carries sourceBlock ↔
            AsidesCopied (store.InDestination locator source.2)
              (walks platform source.2.blocks subtrees blacklist) key sourceBlock) := by
  have hcopied := copy_edits hvalid hcourse hsource platform subtrees blacklist store rfl
  rw [hrun] at hcopied
  obtain ⟨shared, newId, start, id, edited, hstart, hedit, hnext⟩ := hcopied
  have hcarries := copySubtrees_carries_iff platform newId subtrees blacklist hstart.shared_eq start rfl
  rw [hedit] at hcarries
  refine ⟨id, edited, hnext, fun key hkey block hblock => ?_⟩
  obtain ⟨sourceBlock, hfound, hiff⟩ := hcarries key hkey block hblock
  refine ⟨sourceBlock, hfound, ?_⟩
  rw [hiff, AsidesCopied, AsidesCopied, hstart.mem_iff]

def taggedUnit : BlockKey := ⟨"vertical", "unit"⟩

def taggedBlocks : Blocks := Dict.ofList [(rootKey, newBlock ∅ (some [taggedUnit]) 0 0),
    (taggedUnit, newBlock ∅ none 0 0 [{ asideType := "tags", fields := ∅ }])]

def untaggedBlocks : Blocks := Dict.ofList [(rootKey, newBlock ∅ (some []) 0 0)]

def publishUnit : StoreM Unit :=
  copy plainPlatform (draftCourse "course") (publishedCourse "course") [taggedUnit] (.keys [])

theorem publishUnit_carries_iff :
    ∃ next id edited, publishUnit (courseWithBranches untaggedBlocks taggedBlocks) = .ok () next ∧
      next.envelope (publishedCourse "course") = some (id, edited) ∧
      ∀ key ∈ walks plainPlatform taggedBlocks [taggedUnit] (.keys []), ∀ block,
        edited.blocks.lookup key = some block → ∃ sourceBlock,
          taggedBlocks.lookup key = some sourceBlock ∧ (block.Carries sourceBlock ↔
            AsidesCopied ((courseWithBranches untaggedBlocks taggedBlocks).InDestination
              (publishedCourse "course") { root := rootKey, blocks := taggedBlocks })
              (walks plainPlatform taggedBlocks [taggedUnit] (.keys [])) key sourceBlock) := by
  obtain ⟨_, next, hrun, -⟩ := exists_run publishUnit (courseWithBranches untaggedBlocks taggedBlocks)
    (fun _ _ => true) (by decide +kernel)
  obtain ⟨id, edited, hnext, hiff⟩ := copy_carries_iff
    ((branchesDatabase_allocated untaggedBlocks taggedBlocks).valid "course") rfl
    (courseWithBranches_draft untaggedBlocks taggedBlocks).found hrun
  exact ⟨next, id, edited, hrun, hnext, hiff⟩

/-- The unit is published for the first time, and loses its aside. -/
theorem publishUnit_not_carries : ∃ next id edited block sourceBlock,
      publishUnit (courseWithBranches untaggedBlocks taggedBlocks) = .ok () next ∧
      next.envelope (publishedCourse "course") = some (id, edited) ∧
      taggedUnit ∈ walks plainPlatform taggedBlocks [taggedUnit] (.keys []) ∧
      edited.blocks.lookup taggedUnit = some block ∧
      taggedBlocks.lookup taggedUnit = some sourceBlock ∧ ¬ block.Carries sourceBlock := by
  obtain ⟨_, next, hrun, hnext⟩ := exists_run publishUnit (courseWithBranches untaggedBlocks taggedBlocks)
    (fun _ next => (next.envelope (publishedCourse "course")).any fun envelope =>
      (envelope.2.blocks.lookup taggedUnit).any fun (block : BlockData) => decide (block.asides = []))
    (by decide +kernel)
  obtain ⟨⟨id, edited⟩, henvelope, hblock⟩ := (Option.any_eq_true _ _).mp hnext
  obtain ⟨block, hblock, hasides⟩ := (Option.any_eq_true _ _).mp hblock
  refine ⟨next, id, edited, block, _, hrun, henvelope, by decide +kernel, hblock, rfl, ?_⟩
  intro hcarries
  have hlost := hcarries.2
  rw [of_decide_eq_true hasides] at hlost
  cases hlost

end EdxPlatform.Split
