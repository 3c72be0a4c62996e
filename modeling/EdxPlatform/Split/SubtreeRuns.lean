import EdxPlatform.Split.ReadRules
import EdxPlatform.Split.SubtreeTimes

/-!
# Runs of edits and reads

An edit touches the blocks that it creates, and those whose children or last edit it changes.  In
a run in which nothing is memoised for a touched block nor for any block above it, all reads are
right.
-/

namespace EdxPlatform.Split

open Relation Dict EditedBlock EditRecord

namespace EditRecord

section

variable (state : EditRecord)

/-- Nothing is memoised for a block and the blocks above it, neither in objects nor in
descriptors. -/
def Unmemoised (key : BlockKey) : Prop :=
  ∀ above, ReflTransGen state.Edge above key →
    (∀ block, state.block above = some block → block.subtreeEditedOn = none) ∧
    ∀ descriptor, state.modules.lookup above = some descriptor →
      descriptor.subtreeEditedOn = none ∧ descriptor.subtreeEditedBy = none

/-- No descriptor and no runtime has a block of this key, as after a deletion. -/
def Unheld (key : BlockKey) : Prop :=
  key ∉ state.modules ∧ ∀ runtime moduleData, state.runtimes.lookup runtime = some moduleData → key ∉ moduleData

/-- Whether an update leaves the children and the last edit of a block as they are. -/
def UpdateUnseen (block : EditedBlock) (definition : ObjectId)
    (isUpdated : Bool) (fields : PartitionedFields) (asides : List Aside) : Prop :=
  block.data.editInfo.updateVersion = some state.versioned.head ∧
    (block.data.update definition isUpdated fields asides).childKeys = block.data.childKeys

instance (state : EditRecord) (block : EditedBlock) (definition : ObjectId) (isUpdated : Bool)
    (fields : PartitionedFields) (asides : List Aside) :
    Decidable (state.UpdateUnseen block definition isUpdated fields asides) := by
  unfold UpdateUnseen
  infer_instance

def touched : SubtreeEvent → List BlockKey
  | .getItem .. | .getChild .. | .getSubtreeEditedOn _ | .getSubtreeEditedBy _ => []
  | .updateItem _ key definition definitionUpdated fields asides =>
    match state.block key with
    | none => []
    | some block =>
      let isUpdated := fieldsUpdated block.data definitionUpdated fields
      if (isUpdated || !asides.isEmpty) &&
          !decide (state.UpdateUnseen block definition isUpdated fields asides) then [key]
      else []
  | .createItem _ key .. => if key ∈ state.blocks then [] else [key]
  | .createChild _ parent key .. =>
    if key ∈ state.blocks then []
    else if parent ∈ state.blocks then [key, parent] else [key]
  | .deleteItem _ key =>
    if state.root = key ∨ key ∉ state.blocks then []
    else getParentsFromStructure key state.structureBlocks

/-- An event reads a block of the structure; or it makes an edit that leaves the structure sound,
touches only blocks without anything memoised above them, and creates no block that something is
held of. -/
def Spares (event : SubtreeEvent) : Prop :=
  match event with
  | .getItem key _ | .getChild _ key | .getSubtreeEditedOn key | .getSubtreeEditedBy key => key ∈ state.blocks
  | event =>
    (state.step event).Sound ∧ ∀ key ∈ state.touched event,
      if key ∈ state.blocks then state.versioned.Unmemoised key else state.versioned.Unheld key

end

/-! ## What edits change -/

/-- Two objects tell the same about the last edits of the subtree. -/
structure SameTimes (block later : EditedBlock) : Prop where
  children : later.data.childKeys = block.data.childKeys
  editedOn : later.editedOn = block.editedOn
  editedBy : later.editedBy = block.editedBy
  subtreeEditedOn : later.subtreeEditedOn = block.subtreeEditedOn
  subtreeEditedBy : later.subtreeEditedBy = block.subtreeEditedBy

theorem SameTimes.refl (block : EditedBlock) : SameTimes block block := ⟨rfl, rfl, rfl, rfl, rfl⟩

theorem SameTimes.trans {block middle later : EditedBlock} (hfst : SameTimes block middle)
    (hsec : SameTimes middle later) : SameTimes block later where
  children := hsec.children.trans hfst.children
  editedOn := hsec.editedOn.trans hfst.editedOn
  editedBy := hsec.editedBy.trans hfst.editedBy
  subtreeEditedOn := hsec.subtreeEditedOn.trans hfst.subtreeEditedOn
  subtreeEditedBy := hsec.subtreeEditedBy.trans hfst.subtreeEditedBy

/-- What an edit leaves as it is: untouched blocks, and what is memoised. -/
structure EditedAt (touched : List BlockKey) (state next : EditRecord) : Prop where
  referenced : next.Referenced
  loaded : ∀ key descriptor, next.modules.lookup key = some descriptor →
    ∃ moduleData, next.runtimes.lookup descriptor.runtime = some moduleData ∧ key ∈ moduleData
  descriptors : ∀ key descriptor, next.modules.lookup key = some descriptor →
    state.modules.lookup key = some descriptor ∨ descriptor.subtreeEditedOn = none ∧ descriptor.subtreeEditedBy = none
  kept : ∀ key ∉ touched, ∀ later, next.block key = some later →
    ∃ block, state.block key = some block ∧ SameTimes block later
  memo : ∀ key ∈ touched, ∀ later, next.block key = some later → (∃ block, state.block key = some block ∧
      later.subtreeEditedOn = block.subtreeEditedOn ∧
      later.subtreeEditedBy = block.subtreeEditedBy) ∨
    later.subtreeEditedOn = none ∧ later.subtreeEditedBy = none

variable {state next : EditRecord} {touched : List BlockKey}

theorem Memoised.editedAt_self (hmemd : state.Memoised) (touched : List BlockKey) : EditedAt touched state state where
  referenced := hmemd.referenced
  loaded := fun key descriptor hkey => (hmemd.modules key descriptor hkey).loaded
  descriptors := fun _ _ hkey => .inl hkey
  kept := fun _ _ later hlat => ⟨later, hlat, SameTimes.refl later⟩
  memo := fun _ _ later hlat => .inl ⟨later, hlat, rfl, rfl⟩

variable {key : BlockKey} {start : EditRecord}

section

variable (hed : EditedAt touched state next) (hsnd : next.Sound) (hkey : key ∈ next.blocks)
  (hfree : ∀ below, ReflTransGen state.Edge key below → below ∉ touched)
include hed hsnd hkey hfree

theorem EditedAt.below {below : BlockKey} (hpath : ReflTransGen state.Edge key below) :
    ∃ block later, state.block below = some block ∧ next.block below = some later ∧ SameTimes block later := by
  have hfnd : ∀ other, other ∈ next.blocks → other ∉ touched →
      ∃ block later, state.block other = some block ∧ next.block other = some later ∧ SameTimes block later := by
    intro other hoth hunt
    obtain ⟨later, hlat⟩ := hed.referenced.block_of_mem hoth
    obtain ⟨block, hblk, hsame⟩ := hed.kept other hunt later hlat
    exact ⟨block, later, hblk, hlat, hsame⟩
  induction hpath with
  | refl => exact hfnd key hkey (hfree key .refl)
  | tail hbef hedge ih =>
    obtain ⟨block, later, hblk, hlat, hsame⟩ := ih
    refine hfnd _ (hsnd.child_mem _ _ ((edge_of_block hlat).mpr ?_)) (hfree _ (hbef.tail hedge))
    rw [hsame.children]
    exact (edge_of_block hblk).mp hedge

theorem EditedAt.latestEdit {editedOn : Timestamp}
    {editedBy : Option UserId} (hltst : state.LatestEdit key editedOn editedBy) :
    next.LatestEdit key editedOn editedBy := by
  refine Latest.congr hltst fun below hpath => ?_
  obtain ⟨block, later, hblk, hlat, hsame⟩ := hed.below hsnd hkey hfree hpath
  constructor
  · intro child
    rw [edge_of_block hblk, edge_of_block hlat, hsame.children]
  · rw [lastEdit_of_block hblk, lastEdit_of_block hlat, hsame.editedOn, hsame.editedBy]

end

theorem mem_of_block {block : EditedBlock} (hblk : state.block key = some block) : key ∈ state.blocks := by
  obtain ⟨ref, href, -⟩ := block_eq_some_iff.mp hblk
  exact mem_of_lookup href

theorem Sound.below_mem (hsnd : state.Sound) {below : BlockKey} (hkey : key ∈ state.blocks)
    (hpath : ReflTransGen state.Edge key below) : below ∈ state.blocks := by
  induction hpath with
  | refl => exact hkey
  | tail _ hedge _ => exact hsnd.child_mem _ _ hedge

theorem untouched_of_memo (hsnd : state.Sound) (hspar : ∀ key ∈ touched,
      if key ∈ state.blocks then state.Unmemoised key else state.Unheld key)
    {below : BlockKey} (hkey : key ∈ state.blocks)
    (hmemo : (∃ block, state.block key = some block ∧ block.subtreeEditedOn ≠ none) ∨
      ∃ descriptor, state.modules.lookup key = some descriptor ∧
        (descriptor.subtreeEditedOn ≠ none ∨ descriptor.subtreeEditedBy ≠ none))
    (hpath : ReflTransGen state.Edge key below) : below ∉ touched := by
  intro htch
  have hspared := hspar below htch
  rw [if_pos (hsnd.below_mem hkey hpath)] at hspared
  obtain ⟨hblks, hdes⟩ := hspared key hpath
  rcases hmemo with ⟨block, hblk, hon⟩ | ⟨descriptor, hdscr, hset⟩
  · exact hon (hblks block hblk)
  · obtain ⟨hon, hby⟩ := hdes descriptor hdscr
    exact hset.elim (absurd hon) (absurd hby)

/-- An edit keeps the invariant, if nothing is memoised above the blocks that it touches and
nothing is held of those that it creates. -/
theorem Memoised.edited (hmemd : state.Memoised) (hed : EditedAt touched state next)
    (hsnd : next.Sound) (hspar : ∀ key ∈ touched,
      if key ∈ state.blocks then state.Unmemoised key else state.Unheld key) : next.Memoised := by
  refine ⟨hsnd, hed.referenced, fun key later hlat => ?_, fun key descriptor hkey => ?_⟩
  · by_cases htch : key ∈ touched
    · have hnone : later.subtreeEditedOn = none ∧ later.subtreeEditedBy = none := by
        refine (hed.memo key htch later hlat).elim ?_ id
        rintro ⟨block, hblk, hon, hby⟩
        have hspared := hspar key htch
        rw [if_pos (mem_of_block hblk)] at hspared
        have hunset := (hspared key .refl).1 block hblk
        exact ⟨hon.trans hunset, hby.trans ((hmemd.memo key block hblk).together hunset)⟩
      exact ⟨fun editedOn hon => (nomatch hnone.1.symm.trans hon), fun _ => hnone.2, fun hmemo => absurd hnone.1 hmemo⟩
    · obtain ⟨block, hblk, hsame⟩ := hed.kept key htch later hlat
      have hrgt := hmemd.memo key block hblk
      have hfree : block.subtreeEditedOn ≠ none → ∀ below, ReflTransGen state.Edge key below →
          below ∉ touched := fun hon _ hpath =>
        untouched_of_memo hmemd.sound hspar (mem_of_block hblk) (.inl ⟨block, hblk, hon⟩) hpath
      refine ⟨fun editedOn hon => ?_, fun hon => ?_, fun hon child hch below hbel => ?_⟩
      · rw [hsame.subtreeEditedOn] at hon
        rw [hsame.subtreeEditedBy]
        exact hed.latestEdit hsnd (mem_of_block hlat) (hfree (by simp [hon])) (hrgt.latest editedOn hon)
      · rw [hsame.subtreeEditedOn] at hon
        exact hsame.subtreeEditedBy.trans (hrgt.together hon)
      · rw [hsame.subtreeEditedOn] at hon
        rw [hsame.children] at hch
        obtain ⟨old, found, hold, hfnd, htimes⟩ := hed.below hsnd (mem_of_block hlat)
          (hfree hon) (.single ((edge_of_block hblk).mpr hch))
        obtain rfl := some_unique hbel hfnd
        rw [htimes.subtreeEditedOn]
        exact hrgt.children hon child hch old hold
  · have hkept : key ∈ next.blocks → (descriptor.subtreeEditedOn ≠ none ∨ descriptor.subtreeEditedBy ≠ none) →
          state.DescriptorRight key descriptor ∧ key ∈ state.blocks ∧
            ∀ below, ReflTransGen state.Edge key below → below ∉ touched := by
      intro hmem hset
      have hold : state.modules.lookup key = some descriptor :=
        (hed.descriptors key descriptor hkey).resolve_right fun hnone => hset.elim (absurd hnone.1) (absurd hnone.2)
      have hstt : key ∈ state.blocks := by
        by_contra hout
        obtain ⟨later, hlat⟩ := hed.referenced.block_of_mem hmem
        by_cases htch : key ∈ touched
        · have hspared := hspar key htch
          rw [if_neg hout] at hspared
          exact hspared.1 (mem_of_lookup hold)
        · obtain ⟨block, hblk, -⟩ := hed.kept key htch later hlat
          exact hout (mem_of_block hblk)
      exact ⟨hmemd.modules key descriptor hold, hstt, fun _ hpath =>
        untouched_of_memo hmemd.sound hspar hstt (.inr ⟨descriptor, hold, hset⟩) hpath⟩
    refine ⟨hed.loaded key descriptor hkey, fun hmem editedOn hon => ?_, fun hmem editedBy hby => ?_⟩
    · obtain ⟨hrgt, hstt, hfree⟩ := hkept hmem (.inl (by simp [hon]))
      obtain ⟨editedBy, hltst⟩ := hrgt.editedOn hstt editedOn hon
      exact ⟨editedBy, hed.latestEdit hsnd hmem hfree hltst⟩
    · obtain ⟨hrgt, hstt, hfree⟩ := hkept hmem (.inr (by simp [hby]))
      obtain ⟨editedOn, hltst⟩ := hrgt.editedBy hstt editedBy hby
      exact ⟨editedOn, hed.latestEdit hsnd hmem hfree hltst⟩

/-! ## Steps of an edit -/

namespace EditedAt

variable {key : BlockKey}

section

variable (hed : EditedAt touched start state)
include hed

/-- The object of a touched block changes, or that of an untouched one in what times do not
depend on. -/
theorem modify {ref : Nat} (hkey : state.blocks.lookup key = some ref) {change : EditedBlock → EditedBlock}
    (hmemo : ∀ block, (change block).subtreeEditedOn = block.subtreeEditedOn ∧
      (change block).subtreeEditedBy = block.subtreeEditedBy)
    (hsame : key ∉ touched → ∀ block, state.block key = some block → SameTimes block (change block)) :
    EditedAt touched start { state with objects := Dict.modify ref change state.objects } where
  __ := hed
  referenced := hed.referenced.modify ref change
  kept := by
    intro other hoth later hlat
    rw [block_modify hed.referenced hkey] at hlat
    split at hlat
    · next heq =>
        subst heq
        obtain ⟨middle, hmid, rfl⟩ := map_eq_some_iff.mp hlat
        obtain ⟨block, hblk, hfst⟩ := hed.kept other hoth middle hmid
        exact ⟨block, hblk, hfst.trans (hsame hoth middle hmid)⟩
    · exact hed.kept other hoth later hlat
  memo := by
    intro other hoth later hlat
    rw [block_modify hed.referenced hkey] at hlat
    split at hlat
    · next heq =>
        subst heq
        obtain ⟨middle, hmid, rfl⟩ := map_eq_some_iff.mp hlat
        rw [(hmemo middle).1, (hmemo middle).2]
        exact hed.memo other hoth middle hmid
    · exact hed.memo other hoth later hlat

theorem decache (key : BlockKey) : EditedAt touched start { state with modules := state.modules.erase key } := by
  have hold : ∀ other descriptor, (state.modules.erase key).lookup other = some descriptor →
      state.modules.lookup other = some descriptor := by
    intro other descriptor hoth
    rw [lookup_erase] at hoth
    split at hoth
    · cases hoth
    · exact hoth
  exact {
    referenced := hed.referenced.withModules _
    loaded := fun other descriptor hoth => hed.loaded other descriptor (hold _ _ hoth)
    descriptors := fun other descriptor hoth => hed.descriptors other descriptor (hold _ _ hoth)
    kept := hed.kept
    memo := hed.memo }

theorem clearCourseCache : EditedAt touched start { state with courseCache := none } where
  __ := hed
  referenced := ⟨hed.referenced.present, hed.referenced.distinct,
    hed.referenced.ref_lt, hed.referenced.runtime_lt, hed.referenced.agrees,
    fun _ hnone => nomatch hnone⟩

theorem remove {blocks : Dict BlockKey Nat}
    (hblks : ∀ key ref, blocks.lookup key = some ref → state.blocks.lookup key = some ref) :
    EditedAt touched start { state with blocks := blocks } := by
  have hold : ∀ key later, ({ state with blocks := blocks } : EditRecord).block key = some later →
      state.block key = some later := by
    intro key later hlat
    obtain ⟨ref, hkey, href⟩ := block_eq_some_iff.mp hlat
    exact block_eq_some_iff.mpr ⟨ref, hblks key ref hkey, href⟩
  exact {
    referenced := {
      present := fun key ref hkey => hed.referenced.present key ref (hblks key ref hkey)
      distinct := fun key other ref hkey hoth =>
        hed.referenced.distinct key other ref (hblks key ref hkey) (hblks other ref hoth)
      ref_lt := fun key ref hkey => hed.referenced.ref_lt key ref (hblks key ref hkey)
      runtime_lt := hed.referenced.runtime_lt
      agrees := fun runtime moduleData hrt key ref other href hoth =>
        hed.referenced.agrees runtime moduleData hrt key ref other href (hblks key other hoth)
      courseCache_mem := hed.referenced.courseCache_mem }
    loaded := hed.loaded
    descriptors := hed.descriptors
    kept := fun key hkey later hlat => hed.kept key hkey later (hold key later hlat)
    memo := fun key hkey later hlat => hed.memo key hkey later (hold key later hlat) }

theorem create (hkey : key ∈ touched) (hunh : ∀ runtime moduleData, state.runtimes.lookup runtime = some moduleData →
      key ∉ moduleData) (block : EditedBlock)
    (hblk : block.subtreeEditedOn = none ∧ block.subtreeEditedBy = none) :
    EditedAt touched start
      { state with
        objects := state.objects.insert state.next block
        blocks := state.blocks.insert key state.next
        next := state.next + 1 } := by
  have hlook : ∀ other ref, (state.blocks.insert key state.next).lookup other = some ref →
      other = key ∧ ref = state.next ∨ other ≠ key ∧ ref ≠ state.next ∧ state.blocks.lookup other = some ref := by
    intro other ref hoth
    rw [lookup_insert] at hoth
    split at hoth
    · next heq => exact .inl ⟨heq, (some.inj hoth).symm⟩
    · next hne => exact .inr ⟨hne, Nat.ne_of_lt (hed.referenced.ref_lt other ref hoth), hoth⟩
  have hcases : ∀ other later, ({ state with
        objects := state.objects.insert state.next block
        blocks := state.blocks.insert key state.next
        next := state.next + 1 } : EditRecord).block other = some later →
      other = key ∧ later = block ∨ other ≠ key ∧ state.block other = some later := by
    intro other later hlat
    obtain ⟨ref, hoth, href⟩ := block_eq_some_iff.mp hlat
    dsimp only at href
    rcases hlook other ref hoth with ⟨heq, rfl⟩ | ⟨hne, hrefNe, hold⟩
    · rw [lookup_insert_self] at href
      exact .inl ⟨heq, (some.inj href).symm⟩
    · rw [lookup_insert_of_ne hrefNe] at href
      exact .inr ⟨hne, block_eq_some_iff.mpr ⟨ref, hold, href⟩⟩
  exact {
    referenced := {
      present := by
        intro other ref hoth
        dsimp only
        rcases hlook other ref hoth with ⟨-, rfl⟩ | ⟨-, hrefNe, hold⟩
        · exact ⟨block, lookup_insert_self ..⟩
        · obtain ⟨found, hfnd⟩ := hed.referenced.present other ref hold
          exact ⟨found, (lookup_insert_of_ne hrefNe ..).trans hfnd⟩
      distinct := by
        intro first second ref hfst hsec
        rcases hlook first ref hfst with ⟨rfl, rfl⟩ | ⟨-, hrefNe, hfirstOld⟩
        · exact ((hlook second _ hsec).elim And.left fun hoth => absurd rfl hoth.2.1).symm
        · obtain ⟨-, -, hsecondOld⟩ := (hlook second ref hsec).resolve_left fun hnew => hrefNe hnew.2
          exact hed.referenced.distinct first second ref hfirstOld hsecondOld
      ref_lt := by
        intro other ref hoth
        rcases hlook other ref hoth with ⟨-, rfl⟩ | ⟨-, -, hold⟩
        · exact lt_succ_self _
        · exact lt_succ_of_lt (hed.referenced.ref_lt other ref hold)
      runtime_lt := fun runtime hrt => lt_succ_of_lt (hed.referenced.runtime_lt runtime hrt)
      agrees := by
        intro runtime moduleData hrt other ref known href hknown
        rcases hlook other known hknown with ⟨rfl, -⟩ | ⟨-, -, hold⟩
        · exact absurd (mem_of_lookup href) (hunh runtime moduleData hrt)
        · exact hed.referenced.agrees runtime moduleData hrt other ref known href hold
      courseCache_mem := hed.referenced.courseCache_mem }
    loaded := hed.loaded
    descriptors := hed.descriptors
    kept := by
      intro other hoth later hlat
      rcases hcases other later hlat with ⟨rfl, -⟩ | ⟨-, hold⟩
      · exact absurd hkey hoth
      · exact hed.kept other hoth later hold
    memo := by
      intro other hoth later hlat
      rcases hcases other later hlat with ⟨-, rfl⟩ | ⟨-, hold⟩
      · exact .inr hblk
      · exact hed.memo other hoth later hold }

theorem createRuntime (preloaded : List BlockKey) : EditedAt touched start (state.createRuntime preloaded) where
  __ := hed
  referenced := hed.referenced.createRuntime preloaded
  loaded := by
    intro key descriptor hkey
    obtain ⟨moduleData, hrt, hmem⟩ := hed.loaded key descriptor hkey
    exact ⟨moduleData, hed.referenced.lookup_createRuntime preloaded hrt, hmem⟩

theorem load {ref : Nat} (hkey : state.blocks.lookup key = some ref) (runtime : Nat) :
    EditedAt touched start (state.load runtime key ref) where
  __ := hed
  referenced := hed.referenced.load hkey runtime
  loaded := by
    intro other descriptor hoth
    obtain ⟨moduleData, hrt, hmem⟩ := hed.loaded other descriptor hoth
    obtain ⟨later, hlat, hkeys⟩ := (computed_load hed.referenced hkey runtime).runtimes _ moduleData hrt
    obtain ⟨otherRef, hotherRef⟩ := mem_iff_lookup.mp hmem
    exact ⟨later, hlat, mem_iff_lookup.mpr ⟨otherRef, hkeys other otherRef hotherRef⟩⟩

theorem keepDescriptor {runtime : Nat}
    {moduleData : Dict BlockKey Nat} (hrt : state.runtimes.lookup runtime = some moduleData)
    (hmem : key ∈ moduleData) :
    EditedAt touched start { state with modules := state.modules.insert key { runtime := runtime } } := by
  have hcases : ∀ other descriptor, (state.modules.insert key { runtime := runtime }).lookup other = some descriptor →
        other = key ∧ descriptor = { runtime := runtime } ∨ state.modules.lookup other = some descriptor := by
    intro other descriptor hoth
    rw [lookup_insert] at hoth
    split at hoth
    · next heq => exact .inl ⟨heq, (some.inj hoth).symm⟩
    · exact .inr hoth
  exact {
    referenced := hed.referenced.withModules _
    loaded := by
      intro other descriptor hoth
      rcases hcases other descriptor hoth with ⟨rfl, rfl⟩ | hold
      · exact ⟨moduleData, hrt, hmem⟩
      · exact hed.loaded other descriptor hold
    descriptors := by
      intro other descriptor hoth
      rcases hcases other descriptor hoth with ⟨-, rfl⟩ | hold
      · exact .inr ⟨rfl, rfl⟩
      · exact hed.descriptors other descriptor hold
    kept := hed.kept
    memo := hed.memo }

end

end EditedAt

/-! ## Edits -/

section Edits

theorem loadItem_edited {runtime : Nat} (key : BlockKey) :
    Triple (fun state => EditedAt touched start state ∧ runtime ∈ state.runtimes)
      (loadItem runtime key) (fun _ => EditedAt touched start) (EditedAt touched start) := by
  refine triple_read ?_
  rintro state ⟨hed, hrt⟩
  obtain ⟨moduleData, hlook⟩ := mem_iff_lookup.mp hrt
  apply triple_ite
  · exact fun _ => triple_pure fun _ heq => heq ▸ hed
  · intro _
    apply triple_of_run
    rw [run_bind, getModuleData_eq hlook]
    cases hfnd : moduleData.lookup key with
    | some ref => exact hed.keepDescriptor hlook (mem_of_lookup hfnd)
    | none =>
      cases hkey : state.blocks.lookup key with
      | none => exact hed
      | some ref =>
        have hload : (state.load runtime key ref).runtimes.lookup runtime = some (moduleData.insert key ref) := by
          unfold load
          rw [lookup_modify, if_pos rfl, hlook]
          rfl
        exact (hed.load hkey runtime).keepDescriptor hload ((mem_insert _).mpr (.inl rfl))

theorem getItem_edited (key : BlockKey) (descendants : List BlockKey) :
    Keeps (EditedAt touched start) (getItem key descendants) := by
  refine triple_bind (M := fun runtime state =>
    EditedAt touched start state ∧ runtime ∈ state.runtimes) ?_ fun runtime => loadItem_edited key
  intro state hed
  rw [courseRuntime_eq]
  cases hcache : state.courseCache with
  | some runtime => exact ⟨hed, hed.referenced.courseCache_mem runtime hcache⟩
  | none => exact ⟨hed.createRuntime _, (mem_insert _).mpr (.inl rfl)⟩

section

variable (state : EditRecord)

@[simp]
theorem blocks_versioned : state.versioned.blocks = state.blocks := by
  unfold versioned
  split <;> rfl

@[simp]
theorem objects_versioned : state.versioned.objects = state.objects := by
  unfold versioned
  split <;> rfl

@[simp]
theorem block_versioned : state.versioned.block = state.block := by
  funext key
  unfold block
  rw [blocks_versioned, objects_versioned]

end

theorem Referenced.versioned (hrefd : state.Referenced) : state.versioned.Referenced := by
  unfold EditRecord.versioned
  split
  · exact hrefd
  · exact {
      present := hrefd.present
      distinct := hrefd.distinct
      ref_lt := fun key ref hkey => lt_succ_of_lt (hrefd.ref_lt key ref hkey)
      runtime_lt := fun runtime hrt => absurd hrt (notMem_empty runtime)
      agrees := fun _ _ hrt => (nomatch hrt)
      courseCache_mem := fun _ hnone => (nomatch hnone) }

theorem Memoised.versioned (hmemd : state.Memoised) : state.versioned.Memoised := by
  refine hmemd.congr hmemd.referenced.versioned (blocks_versioned state) (objects_versioned state) ?_
  intro key descriptor hdscr
  unfold EditRecord.versioned at hdscr ⊢
  split at hdscr
  · next hdirty =>
      rw [if_pos hdirty]
      exact hmemd.modules key descriptor hdscr
  · cases hdscr

/-- The record is as it was, or a version of it in which some blocks were touched. -/
def Changed (touched : List BlockKey) (state next : EditRecord) : Prop :=
  next = state ∨ EditedAt touched state.versioned next

theorem versionStructure_run (state : EditRecord) :
    versionStructure state = .ok state.versioned.head state.versioned := by
  unfold versionStructure
  rw [run_bind]
  rfl

theorem version_memo (edit : Edit) (newId : ObjectId) (block : EditedBlock) :
    (block.version edit newId).subtreeEditedOn = block.subtreeEditedOn ∧
      (block.version edit newId).subtreeEditedBy = block.subtreeEditedBy := by
  unfold version
  split <;> exact ⟨rfl, rfl⟩

theorem orRaise_changed {α β : Type} {value : Option α} {error : StoreError}
    {program : α → RecordM β} {after : EditRecord → Prop} (hself : after state)
    (hprog : ∀ result, value = some result → Triple (· = state) (program result) (fun _ => after) after) :
    Triple (· = state) (orRaise value error >>= program) (fun _ => after) after := by
  refine triple_bind (triple_weaken (orRaise_triple value error) (fun _ h => h) (fun _ _ h => h)
    fun _ heq => heq ▸ hself) fun result => ?_
  apply triple_of_state
  rintro _ ⟨hval, rfl⟩
  exact hprog result hval

theorem getObject_changed {β : Type} {ref : Nat} {block : EditedBlock}
    (hblk : state.objects.lookup ref = some block) {program : EditedBlock → RecordM β}
    {after : EditRecord → Prop}
    (hprog : Triple (· = state) (program block) (fun _ => after) after) :
    Triple (· = state) (getObject ref >>= program) (fun _ => after) after := by
  apply triple_of_run
  rw [run_bind, getObject_run hblk]
  exact hprog state rfl

theorem versionStructure_then {β : Type} {program : ObjectId → RecordM β}
    {Q : β → EditRecord → Prop} {R : EditRecord → Prop}
    (hprog : Triple (· = state.versioned) (program state.versioned.head) Q R) :
    Triple (· = state) (versionStructure >>= program) Q R := by
  apply triple_of_run
  rw [run_bind, versionStructure_run]
  exact hprog state.versioned rfl

theorem sameTimes_of_unseen {block : EditedBlock} {definition : ObjectId} {isUpdated : Bool}
    {fields : PartitionedFields} {asides : List Aside}
    (huns : state.UpdateUnseen block definition isUpdated fields asides) (edit : Edit) :
    SameTimes block ({ block with data := block.data.update definition isUpdated fields asides }.version edit
        state.versioned.head) := by
  have hearly : (block.data.update definition isUpdated fields asides).editInfo.updateVersion =
      some state.versioned.head :=
    huns.1
  unfold version
  dsimp only
  rw [if_pos hearly]
  exact ⟨huns.2, rfl, rfl, rfl, rfl⟩

theorem clearCourseCache_edited : Keeps (EditedAt touched start) clearCourseCache :=
  triple_modify fun _ hed => hed.clearCourseCache

theorem decacheBlock_edited (key : BlockKey) : Keeps (EditedAt touched start) (decacheBlock key) :=
  triple_modify fun _ hed => hed.decache key

theorem changed_of_edited {program : RecordM Unit} (hprog : Triple (· = state.versioned) program
      (fun _ => EditedAt touched state.versioned) (EditedAt touched state.versioned)) :
    Triple (· = state.versioned) program (fun _ => Changed touched state) (Changed touched state) :=
  triple_weaken hprog (fun _ h => h) (fun _ _ h => .inr h) fun _ h => .inr h

section

variable (hmemd : state.Memoised)
include hmemd

theorem updateItem_changed (edit : Edit) (key : BlockKey)
    (definition : ObjectId) (definitionUpdated : Bool) (fields : PartitionedFields)
    (asides : List Aside) :
    let touched := state.touched (.updateItem edit key definition definitionUpdated fields asides)
    Triple (· = state) (updateItem edit key definition definitionUpdated fields asides)
      (fun _ => Changed touched state) (Changed touched state) := by
  intro touched
  refine triple_read ?_
  rintro state rfl
  refine orRaise_changed (.inl rfl) fun ref hkey => ?_
  obtain ⟨block, hblk⟩ := hmemd.referenced.present key ref hkey
  have hown := (block_of_lookup hkey).trans hblk
  refine getObject_changed hblk (triple_ite (fun hdone => ?_) fun _ => triple_pure fun _ heq => .inl heq)
  refine versionStructure_then (changed_of_edited ?_)
  refine triple_bind (M := fun _ => EditedAt touched state.versioned) ?_ fun _ =>
    keeps_bind clearCourseCache_edited fun _ => getItem_edited key []
  refine triple_modify ?_
  rintro _ rfl
  refine (hmemd.versioned.editedAt_self touched).modify (by rwa [blocks_versioned])
    (fun block => version_memo edit _ _) fun hunt found hfnd => ?_
  rw [block_versioned, hown] at hfnd
  obtain rfl := some.inj hfnd
  refine sameTimes_of_unseen ?_ edit
  by_contra hseen
  apply hunt
  unfold touched EditRecord.touched
  simp only [hown, hdone, hseen, decide_false, Bool.not_false, Bool.and_true, if_true]
  exact mem_singleton_self key

theorem createItem_edited (touched : List BlockKey) (edit : Edit)
    (key : BlockKey) (definition : ObjectId) (fields : PartitionedFields) (asides : List Aside)
    (htch : key ∉ state.blocks → key ∈ touched ∧ state.versioned.Unheld key) :
    Triple (· = state) (createItem edit key definition fields asides)
      (fun _ next => EditedAt touched state.versioned next ∧ key ∉ state.blocks)
      (EditedAt touched state.versioned) := by
  have hst := hmemd.versioned.editedAt_self touched
  refine versionStructure_then (triple_read ?_)
  rintro _ rfl
  refine triple_bind (triple_weaken (raiseIf_triple _ _) (fun _ h => h) (fun _ _ h => h)
    fun _ heq => heq ▸ hst) fun _ => ?_
  apply triple_of_state
  rintro _ ⟨hfree, rfl⟩
  have hnew : key ∉ state.blocks := by
    simpa using hfree
  obtain ⟨hin, hunh⟩ := htch hnew
  have hcre := hst.create hin hunh.2
    { data := newBlock fields.settings fields.children definition state.versioned.head asides
      editedOn := edit.now
      editedBy := edit.user } ⟨rfl, rfl⟩
  refine triple_bind (M := fun _ => EditedAt touched state.versioned) ?_ fun _ =>
    triple_bind clearCourseCache_edited fun _ => ?_
  · rintro _ rfl
    exact hcre
  · exact (getItem_edited key []).post (fun _ _ h => ⟨h, hnew⟩)

theorem createItem_changed (edit : Edit) (key : BlockKey)
    (definition : ObjectId) (fields : PartitionedFields) (asides : List Aside)
    (hspar : ∀ other ∈ state.touched (.createItem edit key definition fields asides),
      if other ∈ state.blocks then state.versioned.Unmemoised other
      else state.versioned.Unheld other) :
    Triple (· = state) (createItem edit key definition fields asides)
      (fun _ => Changed (state.touched (.createItem edit key definition fields asides)) state)
      (Changed (state.touched (.createItem edit key definition fields asides)) state) := by
  refine triple_weaken (createItem_edited hmemd _ edit key definition fields asides fun hnew => ?_)
    (fun _ h => h) (fun _ _ h => .inr h.1) fun _ h => .inr h
  have hin : key ∈ state.touched (.createItem edit key definition fields asides) := by
    simp [touched, hnew]
  have hspared := hspar key hin
  rw [if_neg hnew] at hspared
  exact ⟨hin, hspared⟩

theorem createChild_changed (edit : Edit) (parent key : BlockKey)
    (definition : ObjectId) (fields : PartitionedFields) (asides : List Aside)
    (position : Option Int)
    (hspar : ∀ other ∈ state.touched (.createChild edit parent key definition fields asides position),
      if other ∈ state.blocks then state.versioned.Unmemoised other
      else state.versioned.Unheld other) :
    Triple (· = state) (createChild edit parent key definition fields asides position) (fun _ => Changed (state.touched
        (.createChild edit parent key definition fields asides position)) state)
      (Changed (state.touched (.createChild edit parent key definition fields asides position)) state) := by
  set touched := state.touched (.createChild edit parent key definition fields asides position) with htch
  have htouchedNew : key ∉ state.blocks →
      touched = if parent ∈ state.blocks then [key, parent] else [key] := fun hnew => by
    simp only [htch, EditRecord.touched, hnew, if_false]
  have hcreate := createItem_edited hmemd touched edit key definition fields asides
    fun hnew => by
      have hin : key ∈ touched := by
        rw [htouchedNew hnew]
        split <;> exact mem_cons_self
      have hspared := hspar key hin
      rw [if_neg hnew] at hspared
      exact ⟨hin, hspared⟩
  refine triple_bind (triple_weaken hcreate (fun _ h => h) (fun _ _ h => h) fun _ h => .inr h) fun _ => ?_
  refine triple_read ?_
  rintro middle ⟨hed, hnew⟩
  refine orRaise_changed (.inr hed) fun ref hpar => ?_
  have hatt : ∀ attach : RecordM Unit, Triple (· = middle) attach (fun _ => EditedAt touched state.versioned)
        (EditedAt touched state.versioned) →
      Triple (· = middle) (do attach; decacheBlock parent; clearCourseCache)
        (fun _ => Changed touched state) (Changed touched state) := fun attach hatta =>
    triple_weaken (triple_bind hatta fun _ => keeps_bind (decacheBlock_edited parent) fun _ => clearCourseCache_edited)
      (fun _ h => h) (fun _ _ h => .inr h) fun _ h => .inr h
  refine hatt _ (triple_modify ?_)
  rintro _ rfl
  refine hed.modify hpar (fun block => version_memo edit _ _) fun hout block hblk => ?_
  obtain ⟨old, hold, -⟩ := hed.kept parent hout block hblk
  rw [block_versioned] at hold
  refine absurd ?_ hout
  rw [htouchedNew hnew, if_pos (mem_of_block hold)]
  exact mem_cons_of_mem _ mem_cons_self

end

theorem unlinkEdited_edited (edit : Edit) (key : BlockKey) (newId : ObjectId) {parent : BlockKey}
    (hpar : parent ∈ touched) :
    Keeps (EditedAt touched start) (unlinkEdited edit key newId parent) := by
  refine triple_read ?_
  intro state hed
  refine orRaise_changed hed fun ref href => ?_
  refine triple_bind (M := fun _ => EditedAt touched start) ?_ fun _ => decacheBlock_edited parent
  refine triple_modify ?_
  rintro _ rfl
  exact hed.modify href (fun _ => ⟨rfl, rfl⟩) fun hout => absurd hpar hout

theorem removeEdited_edited (key : BlockKey) : Keeps (EditedAt touched start) (removeEdited key) := by
  refine triple_read ?_
  intro state hed
  cases tiersToDelete state.structureBlocks (state.blocks.keys.length + 1) [key] [key] with
  | error error => exact triple_throw fun _ heq => heq ▸ hed
  | ok toDelete =>
    rintro _ rfl
    refine hed.remove fun other ref hoth => ?_
    rw [lookup_eraseAll] at hoth
    split at hoth
    · cases hoth
    · exact hoth

theorem deleteItem_changed (hmemd : state.Memoised) (edit : Edit) (key : BlockKey) :
    Triple (· = state) (deleteItem edit key) (fun _ => Changed (state.touched (.deleteItem edit key)) state)
      (Changed (state.touched (.deleteItem edit key)) state) := by
  refine triple_read ?_
  rintro state rfl
  refine triple_bind (triple_weaken (raiseIf_triple _ _) (fun _ h => h) (fun _ _ h => h)
    fun _ heq => .inl heq) fun _ => ?_
  apply triple_of_state
  rintro state ⟨hroot, rfl⟩
  refine triple_bind (triple_weaken (raiseIf_triple _ _) (fun _ h => h) (fun _ _ h => h)
    fun _ heq => .inl heq) fun _ => ?_
  apply triple_of_state
  rintro state ⟨hmem, rfl⟩
  have htch : state.touched (.deleteItem edit key) = getParentsFromStructure key state.structureBlocks := by
    rw [decide_eq_false_iff_not] at hroot hmem
    unfold EditRecord.touched
    dsimp only
    rw [if_neg fun hor => hor.elim hroot hmem]
  refine versionStructure_then (changed_of_edited ?_)
  refine triple_bind (M := fun _ => EditedAt (state.touched (.deleteItem edit key)) state.versioned)
    ?_ fun _ => keeps_bind (removeEdited_edited key) fun _ => clearCourseCache_edited
  refine (triple_forM fun parent hpar => unlinkEdited_edited edit key state.versioned.head (htch ▸ hpar)).pre ?_
  rintro _ rfl
  exact hmemd.versioned.editedAt_self _

end Edits

variable {event : SubtreeEvent}

theorem step_of_triple {after : EditRecord → Prop}
    (htrip : Triple (· = state) event.run (fun _ => after) after) : after (state.step event) := by
  have hrun := htrip state rfl
  unfold step
  cases hevent : event.run state with
  | ok _ next => rw [hevent] at hrun; exact hrun
  | error _ next => rw [hevent] at hrun; exact hrun

theorem Memoised.changed (hmemd : state.Memoised) (hchan : Changed (state.touched event) state (state.step event))
    (hsnd : (state.step event).Sound)
    (hspar : ∀ key ∈ state.touched event,
      if key ∈ state.blocks then state.versioned.Unmemoised key else state.versioned.Unheld key) :
    (state.step event).Memoised := by
  rcases hchan with heq | hed
  · rwa [heq]
  · refine hmemd.versioned.edited hed hsnd fun key hkey => ?_
    rw [blocks_versioned]
    exact hspar key hkey

theorem unloaded_run {α : Type} (hunl : key ∉ state.modules) (program : Descriptor → RecordM α) :
    (do let state ← get; let descriptor ← orRaise (state.modules.lookup key) .attributeError
        program descriptor : RecordM α) state = .error .attributeError state := by
  rw [run_bind]
  change ((orRaise (state.modules.lookup key) .attributeError : RecordM Descriptor) >>= program) state = _
  rw [lookup_eq_none.mpr hunl]
  rfl

theorem Memoised.step (hmemd : state.Memoised) (hspar : state.Spares event) : (state.step event).Memoised := by
  cases event with
  | getItem key descendants =>
    obtain ⟨next, hrun, hnxt, -⟩ := getItem_run hmemd hspar descendants
    have hevent : (SubtreeEvent.getItem key descendants).run state = .ok () next := hrun
    refine step_of_triple (triple_of_run ?_)
    rw [hevent]
    exact hnxt
  | getChild parent key =>
    refine step_of_triple (triple_read ?_)
    rintro _ rfl
    refine orRaise_changed hmemd fun descriptor hdscr => ?_
    obtain ⟨moduleData, hrt, -⟩ := (hmemd.modules parent descriptor hdscr).loaded
    obtain ⟨next, hrun, hnxt, -⟩ := loadItem_run hmemd (mem_of_lookup hrt) hspar
    apply triple_of_run
    rw [hrun]
    exact hnxt
  | getSubtreeEditedOn key =>
    refine step_of_triple (triple_bind (M := fun _ => Memoised) (triple_of_run ?_) fun _ => triple_pure fun _ h => h)
    by_cases hload : key ∈ state.modules
    · obtain ⟨editedOn, -, next, hrun, -, hnxt⟩ := getSubtreeEditedOn_run hmemd hspar hload
      rw [hrun]
      exact hnxt
    · unfold Split.getSubtreeEditedOn
      rw [unloaded_run hload]
      exact hmemd
  | getSubtreeEditedBy key =>
    refine step_of_triple (triple_bind (M := fun _ => Memoised) (triple_of_run ?_) fun _ => triple_pure fun _ h => h)
    by_cases hload : key ∈ state.modules
    · obtain ⟨-, editedBy, next, hrun, -, hnxt⟩ := getSubtreeEditedBy_run hmemd hspar hload
      rw [hrun]
      exact hnxt
    · unfold Split.getSubtreeEditedBy
      rw [unloaded_run hload]
      exact hmemd
  | updateItem edit key definition definitionUpdated fields asides =>
    exact hmemd.changed (step_of_triple (updateItem_changed hmemd edit key definition
      definitionUpdated fields asides)) hspar.1 hspar.2
  | createItem edit key definition fields asides =>
    exact hmemd.changed (step_of_triple (createItem_changed hmemd edit key definition
      fields asides hspar.2)) hspar.1 hspar.2
  | createChild edit parent key definition fields asides position =>
    exact hmemd.changed (step_of_triple (createChild_changed hmemd edit parent key
      definition fields asides position hspar.2)) hspar.1 hspar.2
  | deleteItem edit key => exact hmemd.changed (step_of_triple (deleteItem_changed hmemd edit key)) hspar.1 hspar.2

/-- The record of a bulk operation that has loaded a sound structure, of which nothing is
memoised yet. -/
structure Started (state : EditRecord) : Prop where
  sound : state.Sound
  referenced : state.Referenced
  unmemoised : ∀ key block, state.block key = some block → block.subtreeEditedOn = none ∧ block.subtreeEditedBy = none
  unloaded : state.modules = ∅

theorem Started.memoised (hstar : state.Started) : state.Memoised where
  __ := hstar
  memo := by
    intro key block hblk
    obtain ⟨hon, hby⟩ := hstar.unmemoised key block hblk
    exact ⟨fun editedOn hset => (nomatch hon.symm.trans hset), fun _ => hby, fun hset => absurd hon hset⟩
  modules := by
    intro key descriptor hkey
    rw [hstar.unloaded] at hkey
    cases hkey

/-- Whatever is read and edited in a bulk operation: as long as each edit spares what is memoised,
each block is answered for with the latest edit of its subtree, and with who did it. -/
theorem always_readsRight (hstarted : state.Started) {events : List SubtreeEvent}
    (hspares : Each step Spares state events) : Always step ReadsRight state events :=
  (always_of_each (fun _ _ hmemoised hevent => hmemoised.step hevent) hstarted.memoised
    hspares).imp fun _ hmemoised => hmemoised.readsRight

/-! ## A course with one chapter -/

theorem sound_of_rank (rank : BlockKey → Nat) (hrank : ∀ key ∈ state.blocks.keys, ∀ block ∈ state.block key,
      ∀ child ∈ block.data.childKeys, child ∈ state.blocks ∧ rank key < rank child) :
    state.Sound := by
  have hedge : ∀ parent child, state.Edge parent child → child ∈ state.blocks ∧ rank parent < rank child := by
    rintro parent child ⟨block, hblk, hch⟩
    exact hrank parent (mem_of_block hblk) block hblk child hch
  exact ⟨fun parent child h => (hedge parent child h).1,
    Acyclic.of_rank rank fun parent child h => (hedge parent child h).2⟩

theorem unmemoised_of_blank
    (hblks : ∀ key ∈ state.blocks.keys, ∀ block ∈ state.block key, block.subtreeEditedOn = none)
    (hmods : ∀ key ∈ state.modules.keys, ∀ descriptor ∈ state.modules.lookup key,
      descriptor.subtreeEditedOn = none ∧ descriptor.subtreeEditedBy = none) (key : BlockKey) :
    state.Unmemoised key := fun above _ =>
  ⟨fun block hblk => hblks above (mem_of_block hblk) block hblk, fun descriptor hdscr => hmods above
      (mem_of_lookup hdscr) descriptor hdscr⟩

def courseRoot : BlockKey := ⟨"course", "course"⟩

def oneChapter : BlockKey := ⟨"chapter", "one"⟩

def chapterRecord : EditRecord where
  objects := ofList
    [(0, { data := { definition := 0, children := some [oneChapter] }
           editedOn := 1
           editedBy := some 7 }),
      (1, { data := { definition := 1 }, editedOn := 2, editedBy := some 8 })]
  root := courseRoot
  head := 0
  dirty := false
  blocks := ofList [(courseRoot, 0), (oneChapter, 1)]
  next := 2
  requestCache := true

def renameChapter : SubtreeEvent :=
  .updateItem ⟨some 9, 5⟩ oneChapter 1 false { settings := ofList [("display_name", "One")] } []

theorem chapterRecord_started : chapterRecord.Started where
  sound := sound_of_rank (fun key => if key = courseRoot then 0 else 1) (by decide)
  referenced := {
    present := fun key ref hkey => by
      have hrefs : ∀ key ∈ chapterRecord.blocks.keys, ∀ ref ∈ chapterRecord.blocks.lookup key,
          ref ∈ chapterRecord.objects := by decide
      exact mem_iff_lookup.mp (hrefs key (mem_of_lookup hkey) ref hkey)
    distinct := fun key other ref hkey hoth => by
      have hrefs : ∀ key ∈ chapterRecord.blocks.keys, ∀ other ∈ chapterRecord.blocks.keys,
          chapterRecord.blocks.lookup key = chapterRecord.blocks.lookup other → key = other := by
        decide
      exact hrefs key (mem_of_lookup hkey) other (mem_of_lookup hoth) (hkey.trans hoth.symm)
    ref_lt := fun key ref hkey => by
      have hrefs : ∀ key ∈ chapterRecord.blocks.keys, ∀ ref ∈ chapterRecord.blocks.lookup key, ref < 2 := by decide
      exact hrefs key (mem_of_lookup hkey) ref hkey
    runtime_lt := fun runtime hrt => absurd hrt (notMem_empty runtime)
    agrees := fun _ _ hrt => nomatch hrt
    courseCache_mem := fun _ hnone => nomatch hnone }
  unmemoised := fun key block hblk => by
    have hblank : ∀ key ∈ chapterRecord.blocks.keys, ∀ block ∈ chapterRecord.block key,
        block.subtreeEditedOn = none ∧ block.subtreeEditedBy = none := by decide
    exact hblank key (mem_of_block hblk) block hblk
  unloaded := rfl

/-- A chapter that is renamed before anything is read. -/
theorem chapterRecord_readsRight : Always step ReadsRight chapterRecord
    [renameChapter, .getItem courseRoot [], .getSubtreeEditedOn courseRoot] := by
  have hsound : (chapterRecord.step renameChapter).Sound :=
    sound_of_rank (fun key => if key = courseRoot then 0 else 1) (by decide)
  have htouched : ∀ key ∈ chapterRecord.touched renameChapter, key ∈ chapterRecord.blocks := by
    decide
  have hrename : chapterRecord.Spares renameChapter := by
    refine ⟨hsound, fun key hkey => ?_⟩
    rw [if_pos (htouched key hkey)]
    exact unmemoised_of_blank (by decide) (by decide) key
  have hitem : courseRoot ∈ (chapterRecord.step renameChapter).blocks := by
    decide
  have hread : courseRoot ∈ ((chapterRecord.step renameChapter).step (.getItem courseRoot [])).blocks := by
    decide
  exact always_readsRight chapterRecord_started ⟨hrename, hitem, hread, trivial⟩

/-- A chapter that is renamed after the time for the course was read. -/
theorem chapterRecord_stale : chapterRecord.Started ∧ ¬ Always step ReadsRight chapterRecord
    [.getItem courseRoot [], .getSubtreeEditedOn courseRoot, renameChapter] := by
  refine ⟨chapterRecord_started, fun halways => ?_⟩
  obtain ⟨-, -, -, hright⟩ := halways
  set last := ((chapterRecord.step (.getItem courseRoot [])).step
    (.getSubtreeEditedOn courseRoot)).step renameChapter with hlast
  obtain ⟨⟨editedOn, editedBy, next, hrun, hlatest⟩, -⟩ := hright courseRoot (by decide) []
  have hanswer : returnsWith (do getItem courseRoot []; getSubtreeEditedOn courseRoot) last
      (fun found _ => decide (found = some 2)) = true := by
    decide
  obtain ⟨found, after, hfound, hold⟩ := exists_run _ _ _ hanswer
  obtain ⟨heq, -⟩ := EStateM.Result.ok.inj (hrun.symm.trans hfound)
  have htwo : editedOn = 2 := some.inj (heq.trans (of_decide_eq_true hold))
  have hedit : last.lastEdit oneChapter = some (5, some 9) := by
    decide
  have hchild : (last.block courseRoot).any (fun block =>
      decide (oneChapter ∈ block.data.childKeys)) = true := by
    decide
  have hedge : last.Edge courseRoot oneChapter := by
    cases hblock : last.block courseRoot with
    | none =>
      rw [hblock] at hchild
      cases hchild
    | some block =>
      rw [hblock] at hchild
      exact ⟨block, hblock, of_decide_eq_true hchild⟩
  have hle := hlatest.le oneChapter (.single hedge) _ hedit
  rw [htwo] at hle
  exact absurd hle (by decide)

end EditRecord

end EdxPlatform.Split
