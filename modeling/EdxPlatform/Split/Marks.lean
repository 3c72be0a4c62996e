import EdxPlatform.Split.ReadRules

/-!
# The blocks that an edit marks

An edit of the version `newId` leaves each block as it was, or marks it with
`newId` as its update version.  The exceptions are the parents whose children a copy
reorders, and the destination of a copy from a template.
-/

namespace EdxPlatform.Split

def Marked (newId : ObjectId) (original : Blocks) (struct : Structure) : Prop :=
  ∀ key block, struct.blocks.lookup key = some block →
    block.editInfo.updateVersion = some newId ∨ original.lookup key = some block

variable {newId : ObjectId} {original : Blocks}

theorem marked_self (struct : Structure) : Marked newId struct.blocks struct :=
  fun _ _ hblk => .inr hblk

variable {block : BlockData}

theorem Marked.insert {struct : Structure} (hmrk : Marked newId original struct) {key : BlockKey}
    (hblk : block.editInfo.updateVersion = some newId ∨ original.lookup key = some block) :
    Marked newId original { struct with blocks := struct.blocks.insert key block } := by
  intro other found hfnd
  rw [lookup_insert] at hfnd
  split at hfnd
  · next heq =>
      obtain rfl := some.inj hfnd
      exact heq ▸ hblk
  · exact hmrk other found hfnd

theorem lookup_of_eraseAll {keys : List BlockKey} {blocks : Blocks} {key : BlockKey}
    (hblk : (keys.foldl (fun (blocks : Blocks) key => blocks.erase key) blocks).lookup key =
      some block) : blocks.lookup key = some block := by
  rw [Dict.lookup_eraseAll] at hblk
  split at hblk
  · cases hblk
  · exact hblk

theorem keeps_replace {key : BlockKey} {error : StoreError} {change : BlockData → BlockData}
    (hchan : ∀ block, (change block).editInfo.updateVersion = some newId) :
    Keeps (Marked newId original) (do
      let struct ← get
      let block ← orRaise (struct.blocks.lookup key) error
      set { struct with blocks := struct.blocks.insert key (change block) }) := by
  apply triple_read
  intro struct hmrk
  apply triple_found
  · rintro block - _ rfl
    exact hmrk.insert (.inl (hchan block))
  · rintro _ rfl
    exact hmrk

theorem marked_insertBlock (blockType : String) (blockId : Option String)
    (hblk : block.editInfo.updateVersion = some newId) :
    Keeps (Marked newId original) (insertBlock blockType blockId block) := by
  apply triple_read
  intro struct hmrk
  have hins : ∀ key, Marked newId original { struct with blocks := struct.blocks.insert key block } :=
    fun _ => hmrk.insert (.inl hblk)
  cases blockId with
  | none =>
    rintro _ rfl
    exact hins _
  | some blockId =>
    apply triple_checked
    · rintro - _ rfl
      exact hins _
    · rintro _ rfl
      exact hmrk

theorem marked_attachChild (parent child : BlockKey) (position : Option Int) :
    Keeps (Marked newId original) (attachChild parent child position newId) :=
  keeps_replace fun _ => updateVersion_versionBlock _ newId

variable (blockKey : BlockKey)

theorem marked_replaceBlock (change : BlockData → BlockData) :
    Keeps (Marked newId original) (replaceBlock blockKey newId change) :=
  keeps_replace fun _ => updateVersion_versionBlock _ newId

theorem marked_removeBlock (parents : List BlockKey) :
    Keeps (Marked newId original) (removeBlock blockKey parents newId) := by
  apply keeps_bind
  · exact triple_forM fun _ _ => keeps_replace fun _ => rfl
  · intro _
    apply triple_read
    intro struct hmrk
    split
    · exact triple_throw (by rintro _ rfl; exact hmrk)
    · rintro _ rfl
      exact fun key block hblk => hmrk key block (lookup_of_eraseAll hblk)

/-- A parent whose children are reordered is marked already, or the order stays. -/
def ParentKept (newId : ObjectId) (original source : Blocks) (child parent : BlockKey) : Prop :=
  ∀ block children sourceParent sourceChildren, original.lookup parent = some block →
    block.children = some children → source.lookup parent = some sourceParent →
    sourceParent.children = some sourceChildren →
    block.editInfo.updateVersion = some newId ∨
      sourceChildren.filter (fun other => other = child || other ∈ children) = children

theorem updateVersion_copiedBlock (source : BlockData) (destination : Option BlockData) (blacklist : Blacklist) :
    (copiedBlock source destination newId blacklist).editInfo.updateVersion = some newId := by
  cases destination with
  | none => rfl
  | some destination => rfl

theorem marked_copySubdag (shared : Bool) (source : Blocks) (blacklist : Blacklist)
    (depth : Nat) (blockKey : BlockKey) :
    Keeps (Marked newId original) (copySubdag shared newId source blacklist depth blockKey) := by
  induction depth generalizing blockKey with
  | zero => exact keeps_throw _
  | succ depth ih =>
    apply triple_read
    intro struct hmrk
    have hstr : ∀ state, state = struct → Marked newId original state :=
      fun _ h => h ▸ hmrk
    apply triple_found _ hstr
    intro source _
    apply triple_bind ((keeps_collect fun child _ => ih child).pre hstr)
    intro orphans
    apply triple_bind (M := fun _ => Marked newId original)
    · exact triple_modify fun _ h => h.insert (.inl (updateVersion_copiedBlock source _ blacklist))
    · exact fun _ => keeps_pure _

theorem marked_deleteIfTrueOrphan (depth : Nat) (orphan : BlockKey) :
    Keeps (Marked newId original) (deleteIfTrueOrphan depth orphan) := by
  induction depth generalizing orphan with
  | zero => exact keeps_throw _
  | succ depth ih =>
    apply triple_read
    intro struct hmrk
    have hstr : ∀ state, state = struct → Marked newId original state :=
      fun _ h => h ▸ hmrk
    apply triple_ite
    · intro _
      apply triple_found _ hstr
      intro block _
      apply triple_bind (M := fun _ => Marked newId original)
      · rintro _ rfl
        intro key found hfnd
        rw [lookup_erase] at hfnd
        split at hfnd
        · cases hfnd
        · exact hmrk key found hfnd
      · exact fun _ => triple_forM fun child _ => ih child
    · exact fun _ => triple_pure hstr

theorem marked_syncChildren {shared : Bool} {source : Blocks} {child parent : BlockKey}
    (hkept : shared = false → ParentKept newId original source child parent) :
    Keeps (Marked newId original) (syncChildren shared source child parent) := by
  apply triple_read
  intro struct hmrk
  have hstr : ∀ state, state = struct → Marked newId original state :=
    fun _ h => h ▸ hmrk
  apply triple_found _ hstr
  intro block hblk
  apply triple_found _ hstr
  intro children hkids
  apply triple_found _ hstr
  intro sourceParent hsrc
  apply triple_found _ hstr
  intro sourceChildren hsour
  rintro _ rfl
  apply hmrk.insert
  rcases hmrk parent block hblk with hown | horig
  · exact .inl hown
  · cases shared with
    | true =>
      -- the parent is its own source, so that all of its children stay
      obtain rfl := some_unique hsrc hblk
      obtain rfl := some_unique hsour hkids
      rw [filter_eq_self.mpr fun other hoth => by simp [hoth], ← hkids]
      exact .inr horig
    | false =>
      rcases hkept rfl block children sourceParent sourceChildren horig hkids hsrc hsour with hown | hsame
      · exact .inl hown
      · rw [hsame, ← hkids]
        exact .inr horig

theorem marked_copySubtrees (platform : Platform) {shared : Bool} {source : Structure}
    {subtrees : List BlockKey} (blacklist : Blacklist)
    (hkept : shared = false → ∀ subtree ∈ subtrees, subtree ≠ source.root →
      ∀ parent ∈ getParentsFromStructure subtree source.blocks,
        ParentKept newId original source.blocks subtree parent) :
    Keeps (Marked newId original) (copySubtrees platform shared newId source subtrees blacklist) := by
  apply keeps_bind
  · apply keeps_collect
    intro subtree hsub
    apply keeps_bind
    · apply triple_ite
      · exact fun _ => keeps_pure _
      · intro hroot
        apply triple_read
        intro struct hmrk
        have hstr : ∀ state, state = struct → Marked newId original state :=
          fun _ h => h ▸ hmrk
        apply triple_bind (M := fun _ => Marked newId original)
        · refine triple_weaken (keeps_collect fun parent hpar => ?_) hstr (fun _ _ h => h) fun _ h => h
          apply marked_syncChildren
          rintro rfl
          exact hkept rfl subtree hsub hroot parent (mem_filter.mp hpar).1
        · intro orphans
          exact triple_checked (fun _ => keeps_pure _) fun _ h => h
    · intro synced
      apply keeps_bind (marked_copySubdag shared source.blocks blacklist _ subtree)
      exact fun _ => keeps_pure _
  · exact fun orphans => triple_forM fun orphan _ => marked_deleteIfTrueOrphan _ orphan

/-! ## Copies from a template -/

/-- The keys of the copies below a block, the block itself included. -/
inductive DerivedBelow (platform : Platform) (blockKey : BlockKey) : BlockKey → Prop where
  | here : DerivedBelow platform blockKey blockKey
  | copied {parent : BlockKey} (key : TemplateKey) (hparent : DerivedBelow platform blockKey parent) :
      DerivedBelow platform blockKey (derivedKey platform key parent)

def NeverReplaced (platform : Platform) (blockKey : BlockKey) : Prop :=
  ∀ key parent, DerivedBelow platform blockKey parent → derivedKey platform key parent ≠ blockKey

section

variable (platform : Platform) (sources : SourceStructures) (destinationVersion : ObjectId) (depth : Nat)

def copyTemplate (newParent : BlockKey) (key : TemplateKey) :
    EStateM StoreError Structure (BlockKey × List BlockKey) := do
  let struct ← get
  let source ← orRaise ((sources.blocks key.course struct.blocks).lookup key.block) .itemNotFoundError
  let newKey := derivedKey platform key newParent
  let block := templateBlock platform key source (struct.blocks.lookup newKey) destinationVersion
  set { struct with blocks := struct.blocks.insert newKey block }
  if source.childKeys.isEmpty then pure (newKey, [newKey])
  else do
    let below ← copyTemplates platform sources destinationVersion depth
      (source.childKeys.map fun child => { key with block := child }) newKey
    pure (newKey, newKey :: below)

theorem copyTemplates_succ (keys : List TemplateKey) (newParent : BlockKey) :
    copyTemplates platform sources destinationVersion (depth + 1) keys newParent = (do
      let copied ← collect (copyTemplate platform sources destinationVersion depth newParent) keys
      setChildren newParent (copied.map Prod.fst)
      pure (copied.map Prod.snd).flatten) :=
  rfl

end

/-- What holds while the copies below `destination` are made: blocks are marked, the copies
whose children are still to be set are marked, and the destination is as it was. -/
structure Copied (platform : Platform) (newId : ObjectId) (original : Blocks)
    (destination : BlockKey) (pending : BlockKey → Prop) (struct : Structure) : Prop where
  marked : Marked newId original struct
  pending : ∀ key, pending key → ∃ block, struct.blocks.lookup key = some block ∧
    block.editInfo.updateVersion = some newId
  destination : NeverReplaced platform destination → struct.blocks.lookup destination = original.lookup destination

section Templates

variable {platform : Platform} {sources : SourceStructures} {destination : BlockKey} {pending : BlockKey → Prop}

theorem Copied.insert {struct : Structure}
    (hcopd : Copied platform newId original destination pending struct) {key : BlockKey}
    {block : BlockData} (hblk : block.editInfo.updateVersion = some newId)
    (hkey : NeverReplaced platform destination → key ≠ destination) :
    Copied platform newId original destination (fun other => pending other ∨ other = key)
      { struct with blocks := struct.blocks.insert key block } where
  marked := hcopd.marked.insert (.inl hblk)
  pending := by
    intro other hoth
    rw [lookup_insert]
    split
    · exact ⟨block, rfl, hblk⟩
    · next hne => exact hcopd.pending other (hoth.resolve_right hne)
  destination := by
    intro hnever
    rw [lookup_insert, if_neg (hkey hnever).symm]
    exact hcopd.destination hnever

theorem Copied.forget {struct : Structure} {others : BlockKey → Prop}
    (hcopd : Copied platform newId original destination pending struct)
    (hoths : ∀ key, others key → pending key) :
    Copied platform newId original destination others struct :=
  { hcopd with pending := fun key hkey => hcopd.pending key (hoths key hkey) }

theorem copied_setChildren {parent : BlockKey} (children : List BlockKey) (hpar : pending parent)
    (hne : NeverReplaced platform destination → parent ≠ destination) :
    Triple (Copied platform newId original destination pending) (setChildren parent children)
      (fun _ => Copied platform newId original destination pending) (Marked newId original) := by
  apply triple_read
  intro struct hcopd
  apply triple_found
  · rintro block hblk current rfl
    obtain ⟨found, hfnd, hmrk⟩ := hcopd.pending parent hpar
    obtain rfl := some_unique hfnd hblk
    have hins : Copied platform newId original destination _ { current with
        blocks := current.blocks.insert parent { found with children := some children } } :=
      hcopd.insert hmrk hne
    exact hins.forget fun _ => .inl
  · rintro _ rfl
    exact hcopd.marked

theorem copied_copyTemplate {depth : Nat} {newParent : BlockKey} (hbel : DerivedBelow platform destination newParent)
    (ih : ∀ keys parent (others : BlockKey → Prop), DerivedBelow platform destination parent →
      (NeverReplaced platform destination → parent ≠ destination) → others parent →
      Triple (Copied platform newId original destination others)
        (copyTemplates platform sources newId depth keys parent)
        (fun _ => Copied platform newId original destination others) (Marked newId original))
    (key : TemplateKey) :
    Triple (Copied platform newId original destination pending)
      (copyTemplate platform sources newId depth newParent key)
      (fun copied struct => copied.1 = derivedKey platform key newParent ∧
        Copied platform newId original destination pending struct) (Marked newId original) := by
  have hne : NeverReplaced platform destination →
      derivedKey platform key newParent ≠ destination := fun hnever => hnever key newParent hbel
  apply triple_read
  intro struct hcopd
  apply triple_found
  · intro source _
    apply triple_bind (M := fun _ => Copied platform newId original destination
      fun other => pending other ∨ other = derivedKey platform key newParent)
    · rintro _ rfl
      exact hcopd.insert rfl hne
    · intro _
      apply triple_ite
      · exact fun _ => triple_pure fun _ h => ⟨rfl, h.forget fun _ => .inl⟩
      · intro _
        apply triple_bind (ih _ _ _ (.copied key hbel) hne (.inr rfl))
        exact fun below => triple_pure fun _ h => ⟨rfl, h.forget fun _ => .inl⟩
  · rintro _ rfl
    exact hcopd.marked

theorem copied_copyTemplates (depth : Nat) (keys : List TemplateKey) {newParent : BlockKey}
    (hbel : DerivedBelow platform destination newParent)
    (hne : NeverReplaced platform destination → newParent ≠ destination)
    (hpar : pending newParent) :
    Triple (Copied platform newId original destination pending)
      (copyTemplates platform sources newId depth keys newParent)
      (fun _ => Copied platform newId original destination pending) (Marked newId original) := by
  induction depth generalizing keys newParent pending with
  | zero => exact triple_throw fun _ h => h.marked
  | succ depth ih =>
    rw [copyTemplates_succ]
    apply triple_bind (triple_collect fun key _ => copied_copyTemplate hbel
      (fun keys parent others hbel hne hpar => ih keys hbel hne hpar) key)
    intro copied
    apply triple_bind ((copied_setChildren _ hpar hne).pre (fun _ h => h.2))
    exact fun _ => triple_pure fun _ h => h

/-- The destination of the copies is changed in its children only. -/
structure CopiedBelow (platform : Platform) (newId : ObjectId) (original : Blocks)
    (destination : BlockKey) (children : List BlockKey) (struct : Structure) : Prop where
  marked : ∀ key block, key ≠ destination → struct.blocks.lookup key = some block →
    block.editInfo.updateVersion = some newId ∨ original.lookup key = some block
  destination : ∃ block, struct.blocks.lookup destination = some block ∧
    (NeverReplaced platform destination → ∃ before, original.lookup destination = some before ∧
      block = { before with children := some children })

theorem copiedBelow_copyTemplates (depth : Nat) (keys : List TemplateKey) :
    Triple (fun struct => struct.blocks = original) (copyTemplates platform sources newId depth keys destination)
      (fun _ => CopiedBelow platform newId original destination
        (keys.map fun key => derivedKey platform key destination)) (Marked newId original) := by
  cases depth with
  | zero => exact triple_throw fun struct h => h ▸ marked_self struct
  | succ depth =>
    rw [copyTemplates_succ]
    have hround : ∀ key ∈ keys, Triple (Copied platform newId original destination fun _ => False)
        (copyTemplate platform sources newId depth destination key)
        (fun copied struct => copied.1 = derivedKey platform key destination ∧
          Copied platform newId original destination (fun _ => False) struct)
        (Marked newId original) := fun key _ =>
      copied_copyTemplate .here (fun keys parent others hbel hne hpar =>
        copied_copyTemplates depth keys hbel hne hpar) key
    apply triple_bind ((triple_collect hround).pre ?_)
    · intro copied
      apply triple_of_state
      rintro struct ⟨hcopd, hstr⟩
      have hkids : copied.map Prod.fst = keys.map fun key => derivedKey platform key destination := by
        rw [← List.forall₂_eq_eq_eq, List.forall₂_map_left_iff, List.forall₂_map_right_iff]
        exact hcopd.flip
      rw [hkids]
      apply triple_bind (M := fun _ => CopiedBelow platform newId original destination
        (keys.map fun key => derivedKey platform key destination))
      · apply triple_read
        rintro _ rfl
        apply triple_found
        · rintro block hblk current rfl
          refine ⟨fun key found hne hfnd => ?_, _, lookup_insert_self _ _ _, ?_⟩
          · rw [lookup_insert_of_ne hne] at hfnd
            exact hstr.marked key found hfnd
          · exact fun hnever => ⟨block, (hstr.destination hnever).symm.trans hblk, rfl⟩
        · rintro _ rfl
          exact hstr.marked
      · exact fun _ => triple_pure fun _ h => h
    · rintro struct rfl
      exact ⟨marked_self struct, fun _ h => h.elim, fun _ => rfl⟩

/-- The blocks after a copy from a template: only the destination bears the id of the
version that the copy was made from. -/
def MarkedBelow (platform : Platform) (newId oldVersion : ObjectId) (original : Blocks)
    (destination : BlockKey) (children : List BlockKey) (struct : Structure) : Prop :=
  ∀ key block, struct.blocks.lookup key = some block →
    block.editInfo.updateVersion = some newId ∨ original.lookup key = some block ∨
      key = destination ∧ block.editInfo.updateVersion = some oldVersion ∧
        (NeverReplaced platform destination → ∃ before, original.lookup destination = some before ∧
          block = { before with children := some children, editInfo := block.editInfo })

theorem markedBelow_replaceDescendants (keys : List TemplateKey) (oldVersion : ObjectId) :
    Triple (fun struct => struct.blocks = original)
      (replaceDescendants platform sources keys destination oldVersion newId)
      (fun _ => MarkedBelow platform newId oldVersion original destination
        (keys.map fun key => derivedKey platform key destination)) (Marked newId original) := by
  apply triple_read
  intro start horig
  subst horig
  have hstr : ∀ state, state = start → Marked newId start.blocks state := by
    rintro _ rfl
    exact marked_self _
  split
  · exact triple_throw hstr
  · apply triple_checked _ hstr
    intro _
    apply triple_bind ((copiedBelow_copyTemplates _ keys).pre (by rintro _ rfl; rfl))
    intro new
    apply triple_read
    intro below hbel
    obtain ⟨block, hblk, hbef⟩ := hbel.destination
    rw [hblk]
    rintro _ rfl
    intro key found hfnd
    have hkept := lookup_of_eraseAll hfnd
    rw [lookup_insert] at hkept
    split at hkept
    · next heq =>
        obtain rfl := some.inj hkept
        refine .inr (.inr ⟨heq, rfl, fun hnever => ?_⟩)
        obtain ⟨before, hdest, rfl⟩ := hbef hnever
        exact ⟨before, hdest, rfl⟩
    · next hne =>
        rcases hbel.marked key found hne hkept with hown | horig
        · exact .inl hown
        · exact .inr (.inl horig)

end Templates

end EdxPlatform.Split
