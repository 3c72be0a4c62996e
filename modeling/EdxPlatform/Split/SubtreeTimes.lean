import EdxPlatform.Lib.Acyclic
import EdxPlatform.Lib.Latest
import EdxPlatform.Lib.Programs
import EdxPlatform.Lib.Runs
import EdxPlatform.Split.SubtreeEdits

/-!
# Memoised edit times

What is memoised for a subtree is right as long as no edit happens at or below a block that has
something memoised.  Nothing is ever taken back: an edit leaves the memoised times of the blocks
above it as they are.
-/

namespace EdxPlatform.Split

open Relation Dict

namespace EditRecord

/-- `parent` lists `child` among its children. -/
def Edge (state : EditRecord) (parent child : BlockKey) : Prop :=
  ∃ block, state.block parent = some block ∧ child ∈ block.data.childKeys

def lastEdit (state : EditRecord) (key : BlockKey) : Option (Timestamp × Option UserId) :=
  (state.block key).map fun block => (block.editedOn, block.editedBy)

abbrev LatestEdit (state : EditRecord) (key : BlockKey) (editedOn : Timestamp) (editedBy : Option UserId) : Prop :=
  Latest state.Edge state.lastEdit key editedOn editedBy

/-- Every child is there, and no block is below itself. -/
structure Sound (state : EditRecord) : Prop where
  child_mem : ∀ parent child, state.Edge parent child → child ∈ state.blocks
  acyclic : Acyclic state.Edge

/-- Every block of the structure is answered for with the latest edit of its subtree. -/
def ReadsRight (state : EditRecord) : Prop :=
  ∀ key ∈ state.blocks, ∀ descendants, (∃ editedOn editedBy next,
      (do getItem key descendants; getSubtreeEditedOn key) state = .ok (some editedOn) next ∧
        state.LatestEdit key editedOn editedBy) ∧
    ∃ editedOn editedBy next, (do getItem key descendants; getSubtreeEditedBy key) state = .ok editedBy next ∧
        state.LatestEdit key editedOn editedBy

/-! ## The invariant -/

/-- What an object has memoised is right, and its children have something memoised too. -/
structure MemoRight (state : EditRecord) (key : BlockKey) (block : EditedBlock) : Prop where
  latest : ∀ editedOn, block.subtreeEditedOn = some editedOn → state.LatestEdit key editedOn block.subtreeEditedBy
  together : block.subtreeEditedOn = none → block.subtreeEditedBy = none
  children : block.subtreeEditedOn ≠ none → ∀ child ∈ block.data.childKeys, ∀ below,
    state.block child = some below → below.subtreeEditedOn ≠ none

/-- A descriptor was loaded in a runtime, and what it has memoised is right. -/
structure DescriptorRight (state : EditRecord) (key : BlockKey) (descriptor : Descriptor) :
    Prop where
  loaded : ∃ moduleData, state.runtimes.lookup descriptor.runtime = some moduleData ∧ key ∈ moduleData
  editedOn : key ∈ state.blocks → ∀ editedOn, descriptor.subtreeEditedOn = some editedOn →
    ∃ editedBy, state.LatestEdit key editedOn editedBy
  editedBy : key ∈ state.blocks → ∀ editedBy, descriptor.subtreeEditedBy = some editedBy →
    ∃ editedOn, state.LatestEdit key editedOn editedBy

/-- The references of a record: different blocks have different objects, runtimes have the blocks
of the structure, and numbers not in use are not referred to. -/
structure Referenced (state : EditRecord) : Prop where
  present : ∀ key ref, state.blocks.lookup key = some ref → ∃ block, state.objects.lookup ref = some block
  distinct : ∀ key other ref, state.blocks.lookup key = some ref → state.blocks.lookup other = some ref → key = other
  ref_lt : ∀ key ref, state.blocks.lookup key = some ref → ref < state.next
  runtime_lt : ∀ runtime ∈ state.runtimes, runtime < state.next
  agrees : ∀ runtime moduleData, state.runtimes.lookup runtime = some moduleData →
    ∀ key ref other, moduleData.lookup key = some ref → state.blocks.lookup key = some other → ref = other
  courseCache_mem : ∀ runtime, state.courseCache = some runtime → runtime ∈ state.runtimes

structure Memoised (state : EditRecord) : Prop where
  sound : state.Sound
  referenced : state.Referenced
  memo : ∀ key block, state.block key = some block → state.MemoRight key block
  modules : ∀ key descriptor, state.modules.lookup key = some descriptor → state.DescriptorRight key descriptor

variable {state next : EditRecord} {block : EditedBlock} {key : BlockKey}

theorem block_eq_some_iff : state.block key = some block ↔
      ∃ ref, state.blocks.lookup key = some ref ∧ state.objects.lookup ref = some block :=
  bind_eq_some_iff

variable {ref : Nat}

theorem block_of_lookup (hkey : state.blocks.lookup key = some ref) : state.block key = state.objects.lookup ref := by
  unfold block
  rw [hkey]
  rfl

variable {child : BlockKey}

theorem edge_of_block (hblk : state.block key = some block) : state.Edge key child ↔ child ∈ block.data.childKeys := by
  constructor
  · rintro ⟨found, hfnd, hch⟩
    obtain rfl := some_unique hfnd hblk
    exact hch
  · exact fun hch => ⟨block, hblk, hch⟩

theorem edge_iff_data {parent : BlockKey} : state.Edge parent child =
      ∃ data, (state.block parent).map EditedBlock.data = some data ∧ child ∈ data.childKeys := by
  unfold Edge
  cases state.block parent <;> simp

theorem lastEdit_of_block (hblk : state.block key = some block) :
    state.lastEdit key = some (block.editedOn, block.editedBy) := by
  unfold lastEdit
  rw [hblk]
  rfl

theorem Referenced.block_of_mem (hrefd : state.Referenced)
    (hkey : key ∈ state.blocks) : ∃ block, state.block key = some block := by
  obtain ⟨ref, href⟩ := mem_iff_lookup.mp hkey
  obtain ⟨block, hblk⟩ := hrefd.present key ref href
  exact ⟨block, block_eq_some_iff.mpr ⟨ref, href, hblk⟩⟩

section SameObjects

variable (hblks : next.blocks = state.blocks) (hobjs : next.objects = state.objects)

include hblks hobjs

theorem block_congr : next.block = state.block := by
  funext key
  rw [block, block, hblks, hobjs]

theorem edge_congr : next.Edge = state.Edge := by
  funext parent child
  rw [Edge, Edge, block_congr hblks hobjs]

theorem lastEdit_congr : next.lastEdit = state.lastEdit := by
  funext key
  rw [lastEdit, lastEdit, block_congr hblks hobjs]

theorem Sound.congr (hsnd : state.Sound) : next.Sound where
  child_mem := by
    intro parent child hedge
    rw [edge_congr hblks hobjs] at hedge
    rw [hblks]
    exact hsnd.child_mem parent child hedge
  acyclic := by
    rw [edge_congr hblks hobjs]
    exact hsnd.acyclic

theorem MemoRight.congr {key : BlockKey} {block : EditedBlock} (hrgt : state.MemoRight key block) :
    next.MemoRight key block where
  latest := by
    intro editedOn hon
    rw [LatestEdit, edge_congr hblks hobjs, lastEdit_congr hblks hobjs]
    exact hrgt.latest editedOn hon
  together := hrgt.together
  children := by
    rw [block_congr hblks hobjs]
    exact hrgt.children

end SameObjects

theorem Memoised.congr (hmemd : state.Memoised) (hrefd : next.Referenced)
    (hblks : next.blocks = state.blocks) (hobjs : next.objects = state.objects)
    (hmods : ∀ key descriptor, next.modules.lookup key = some descriptor →
      next.DescriptorRight key descriptor) : next.Memoised where
  sound := hmemd.sound.congr hblks hobjs
  referenced := hrefd
  memo := by
    intro key block hblk
    rw [block_congr hblks hobjs] at hblk
    exact (hmemd.memo key block hblk).congr hblks hobjs
  modules := hmods

theorem Referenced.withModules (hrefd : state.Referenced) (modules : Dict BlockKey Descriptor) :
    ({ state with modules := modules } : EditRecord).Referenced where
  __ := hrefd

/-! ## What reads change -/

def plainBlock (block : EditedBlock) : EditedBlock := { block with subtreeEditedOn := none, subtreeEditedBy := none }

/-- What a computation leaves as it is: all but what is memoised and what runtimes have loaded,
and neither of these gets less. -/
structure Computed (state next : EditRecord) : Prop where
  rest : ∃ objects runtimes, next = { state with objects := objects, runtimes := runtimes }
  plain : ∀ ref, (next.objects.lookup ref).map plainBlock = (state.objects.lookup ref).map plainBlock
  memo : ∀ ref block later, state.objects.lookup ref = some block →
    next.objects.lookup ref = some later → block.subtreeEditedOn ≠ none → later.subtreeEditedOn ≠ none
  runtimes : ∀ runtime moduleData, state.runtimes.lookup runtime = some moduleData →
    ∃ later, next.runtimes.lookup runtime = some later ∧
      ∀ key ref, moduleData.lookup key = some ref → later.lookup key = some ref

namespace Computed

theorem refl (state : EditRecord) : Computed state state where
  rest := ⟨_, _, rfl⟩
  plain := fun _ => rfl
  memo := by
    intro ref block later hblk hlat hmemo
    rwa [← some_unique hblk hlat]
  runtimes := fun _ moduleData hrt => ⟨moduleData, hrt, fun _ _ => id⟩

theorem lookup (hcomp : Computed state next) {ref : Nat} (hblk : state.objects.lookup ref = some block) :
    ∃ later, next.objects.lookup ref = some later ∧ plainBlock later = plainBlock block := by
  have hplain := hcomp.plain ref
  rw [hblk] at hplain
  obtain ⟨later, hlat, heq⟩ := map_eq_some_iff.mp hplain
  exact ⟨later, hlat, heq⟩

theorem trans {last : EditRecord} (hcomp : Computed state next)
    (hlast : Computed next last) : Computed state last where
  rest := by
    obtain ⟨objects, runtimes, rfl⟩ := hcomp.rest
    obtain ⟨objects', runtimes', rfl⟩ := hlast.rest
    exact ⟨_, _, rfl⟩
  plain := fun ref => (hlast.plain ref).trans (hcomp.plain ref)
  memo := by
    intro ref block later hblk hlat hmemo
    obtain ⟨middle, hmid, -⟩ := hcomp.lookup hblk
    exact hlast.memo ref middle later hmid hlat (hcomp.memo ref block middle hblk hmid hmemo)
  runtimes := by
    intro runtime moduleData hrt
    obtain ⟨middle, hmid, hkeys⟩ := hcomp.runtimes runtime moduleData hrt
    obtain ⟨later, hlat, hmore⟩ := hlast.runtimes runtime middle hmid
    exact ⟨later, hlat, fun key ref hkey => hmore key ref (hkeys key ref hkey)⟩

section

variable (hcomp : Computed state next)
include hcomp

theorem blocks_eq : next.blocks = state.blocks := by
  obtain ⟨objects, runtimes, rfl⟩ := hcomp.rest
  rfl

theorem mem_runtimes {runtime : Nat} (hrt : runtime ∈ state.runtimes) : runtime ∈ next.runtimes := by
  obtain ⟨moduleData, hlook⟩ := mem_iff_lookup.mp hrt
  obtain ⟨later, hlat, -⟩ := hcomp.runtimes runtime moduleData hlook
  exact mem_of_lookup hlat

theorem plain_block (key : BlockKey) : (next.block key).map plainBlock = (state.block key).map plainBlock := by
  unfold EditRecord.block
  rw [hcomp.blocks_eq]
  cases state.blocks.lookup key with
  | none => rfl
  | some ref => exact hcomp.plain ref

end

variable {later : EditedBlock}

section

variable (hcomp : Computed state next)
include hcomp

theorem block_of_block {key : BlockKey} (hlat : next.block key = some later) :
    ∃ block, state.block key = some block ∧ later.data = block.data ∧
      later.editedOn = block.editedOn ∧ later.editedBy = block.editedBy := by
  have hplain := hcomp.plain_block key
  rw [hlat] at hplain
  obtain ⟨block, hblk, heq⟩ := map_eq_some_iff.mp hplain.symm
  unfold plainBlock at heq
  injection heq with hdata hon hby
  exact ⟨block, hblk, hdata.symm, hon.symm, hby.symm⟩

theorem lastEdit_eq : next.lastEdit = state.lastEdit := by
  funext key
  have hplain := congrArg (Option.map fun block => (block.editedOn, block.editedBy)) (hcomp.plain_block key)
  rw [Option.map_map, Option.map_map] at hplain
  exact hplain

theorem edge_eq : next.Edge = state.Edge := by
  funext parent child
  have hplain := congrArg (Option.map EditedBlock.data) (hcomp.plain_block parent)
  rw [Option.map_map, Option.map_map] at hplain
  rw [edge_iff_data, edge_iff_data]
  exact congrArg (fun data : Option BlockData => ∃ found, data = some found ∧ child ∈ found.childKeys) hplain

theorem latestEdit_iff {key : BlockKey} {editedOn : Timestamp} {editedBy : Option UserId} :
    next.LatestEdit key editedOn editedBy ↔ state.LatestEdit key editedOn editedBy := by
  unfold LatestEdit
  rw [hcomp.edge_eq, hcomp.lastEdit_eq]

theorem memo_block {key : BlockKey} (hblk : state.block key = some block) (hlat : next.block key = some later)
    (hmemo : block.subtreeEditedOn ≠ none) : later.subtreeEditedOn ≠ none := by
  obtain ⟨ref, hkey, href⟩ := block_eq_some_iff.mp hblk
  rw [← hcomp.blocks_eq] at hkey
  rw [block_of_lookup hkey] at hlat
  exact hcomp.memo ref block later href hlat hmemo

end

end Computed

open Computed

def load (state : EditRecord) (runtime : Nat) (key : BlockKey) (ref : Nat) : EditRecord :=
  { state with
    runtimes := Dict.modify runtime (fun moduleData => moduleData.insert key ref) state.runtimes }

section

variable (hrefd : state.Referenced) (hkey : state.blocks.lookup key = some ref) (runtime : Nat)
include hrefd hkey

theorem computed_load : Computed state (state.load runtime key ref) where
  rest := ⟨_, _, rfl⟩
  plain := fun _ => rfl
  memo := (refl state).memo
  runtimes := by
    intro other moduleData hoth
    unfold load
    rw [lookup_modify]
    split
    · next heq =>
        subst heq
        refine ⟨_, by rw [hoth]; rfl, fun found foundRef hfnd => ?_⟩
        rw [lookup_insert]
        split
        · next heq =>
            subst heq
            rw [hrefd.agrees _ moduleData hoth found foundRef ref hfnd hkey]
        · exact hfnd
    · exact ⟨moduleData, hoth, fun _ _ => id⟩

theorem Referenced.load : (state.load runtime key ref).Referenced where
  __ := hrefd
  runtime_lt := fun other hoth => hrefd.runtime_lt other ((mem_modify ..).mp hoth)
  agrees := by
    intro other moduleData hoth found foundRef known hfnd hknown
    unfold EditRecord.load at hoth
    rw [lookup_modify] at hoth
    split at hoth
    · obtain ⟨old, hold, rfl⟩ := map_eq_some_iff.mp hoth
      rw [lookup_insert] at hfnd
      split at hfnd
      · next heq =>
          subst heq
          exact some.inj (hfnd.symm.trans (hkey.symm.trans hknown))
      · exact hrefd.agrees runtime old hold found foundRef known hfnd hknown
    · exact hrefd.agrees other moduleData hoth found foundRef known hfnd hknown
  courseCache_mem := fun other hoth => (mem_modify ..).mpr (hrefd.courseCache_mem other hoth)

end

variable {descriptor : Descriptor}

theorem DescriptorRight.computed (hrgt : state.DescriptorRight key descriptor) (hcomp : Computed state next) :
    next.DescriptorRight key descriptor where
  loaded := by
    obtain ⟨moduleData, hrt, hkey⟩ := hrgt.loaded
    obtain ⟨later, hlat, hkeys⟩ := hcomp.runtimes _ moduleData hrt
    obtain ⟨ref, href⟩ := mem_iff_lookup.mp hkey
    exact ⟨later, hlat, mem_iff_lookup.mpr ⟨ref, hkeys key ref href⟩⟩
  editedOn := by
    intro hkey editedOn hon
    rw [hcomp.blocks_eq] at hkey
    obtain ⟨editedBy, hltst⟩ := hrgt.editedOn hkey editedOn hon
    exact ⟨editedBy, hcomp.latestEdit_iff.mpr hltst⟩
  editedBy := by
    intro hkey editedBy hby
    rw [hcomp.blocks_eq] at hkey
    obtain ⟨editedOn, hltst⟩ := hrgt.editedBy hkey editedBy hby
    exact ⟨editedOn, hcomp.latestEdit_iff.mpr hltst⟩

theorem Sound.computed (hsnd : state.Sound) (hcomp : Computed state next) : next.Sound where
  child_mem := by
    intro parent child hedge
    rw [hcomp.edge_eq] at hedge
    rw [hcomp.blocks_eq]
    exact hsnd.child_mem parent child hedge
  acyclic := by
    rw [hcomp.edge_eq]
    exact hsnd.acyclic

theorem Memoised.load (hmemd : state.Memoised) (hkey : state.blocks.lookup key = some ref) (runtime : Nat) :
    (state.load runtime key ref).Memoised :=
  hmemd.congr (hmemd.referenced.load hkey runtime) rfl rfl fun other descriptor hoth =>
    (hmemd.modules other descriptor hoth).computed (computed_load hmemd.referenced hkey runtime)

variable {moduleData : Dict BlockKey Nat} {runtime : Nat}

theorem getModuleData_eq (hrt : state.runtimes.lookup runtime = some moduleData) (key : BlockKey) :
    getModuleData runtime key state = match moduleData.lookup key with
      | some ref => .ok ref state
      | none => match state.blocks.lookup key with
        | some ref => .ok ref (state.load runtime key ref)
        | none => .error .itemNotFoundError state := by
  unfold getModuleData
  rw [run_bind]
  change (match ((state.runtimes.lookup runtime).getD ∅).lookup key with
    | some ref => pure ref
    | none => _ : RecordM Nat) state = _
  rw [hrt, getD_some]
  cases moduleData.lookup key with
  | some ref => rfl
  | none =>
    dsimp only
    cases state.blocks.lookup key <;> rfl

theorem getModuleData_run (hmemd : state.Memoised) (hrt : runtime ∈ state.runtimes)
    (hkey : state.blocks.lookup key = some ref) :
    ∃ next, getModuleData runtime key state = .ok ref next ∧ next.Memoised ∧
      Computed state next ∧ next.objects = state.objects ∧
        ∃ moduleData, next.runtimes.lookup runtime = some moduleData ∧ key ∈ moduleData := by
  obtain ⟨moduleData, hlook⟩ := mem_iff_lookup.mp hrt
  rw [getModuleData_eq hlook]
  cases hfnd : moduleData.lookup key with
  | some found =>
    obtain rfl := hmemd.referenced.agrees runtime moduleData hlook key found ref hfnd hkey
    exact ⟨state, rfl, hmemd, refl state, rfl, moduleData, hlook, mem_of_lookup hfnd⟩
  | none =>
    refine ⟨state.load runtime key ref, by rw [hkey], hmemd.load hkey runtime,
      computed_load hmemd.referenced hkey runtime, rfl, moduleData.insert key ref, ?_,
      (mem_insert _).mpr (.inl rfl)⟩
    unfold EditRecord.load
    rw [lookup_modify, if_pos rfl, hlook]
    rfl

/-! ## Computations -/

def memoise (state : EditRecord) (ref : Nat) (editedOn : Timestamp) (editedBy : Option UserId) :
    EditRecord :=
  { state with
    objects := Dict.modify ref (fun block => { block with
      subtreeEditedOn := some editedOn
      subtreeEditedBy := editedBy }) state.objects }

theorem block_modify (hrefd : state.Referenced)
    (hkey : state.blocks.lookup key = some ref) (change : EditedBlock → EditedBlock)
    (other : BlockKey) :
    { state with objects := Dict.modify ref change state.objects : EditRecord }.block other =
      if other = key then (state.block key).map change else state.block other := by
  unfold block
  dsimp only
  split
  · next heq =>
      subst heq
      rw [hkey, bind_some, bind_some, lookup_modify, if_pos rfl]
  · next hne =>
      cases hoth : state.blocks.lookup other with
      | none => rfl
      | some otherRef =>
        rw [bind_some, bind_some, lookup_modify, if_neg]
        rintro rfl
        exact hne (hrefd.distinct other key otherRef hoth hkey)

theorem Referenced.modify (hrefd : state.Referenced) (ref : Nat) (change : EditedBlock → EditedBlock) :
    { state with objects := Dict.modify ref change state.objects : EditRecord }.Referenced where
  __ := hrefd
  present := by
    intro key other hkey
    obtain ⟨block, hblk⟩ := hrefd.present key other hkey
    exact mem_iff_lookup.mp ((mem_modify ..).mpr (mem_of_lookup hblk))

theorem computed_memoise (state : EditRecord) (ref : Nat) (editedOn : Timestamp)
    (editedBy : Option UserId) : Computed state (state.memoise ref editedOn editedBy) where
  rest := ⟨_, _, rfl⟩
  plain := by
    intro other
    unfold memoise
    rw [lookup_modify]
    split
    · next heq =>
        rw [heq, Option.map_map]
        rfl
    · rfl
  memo := by
    intro other block later hblk hlat hmemo
    unfold memoise at hlat
    rw [lookup_modify] at hlat
    split at hlat
    · obtain ⟨old, -, rfl⟩ := map_eq_some_iff.mp hlat
      exact some_ne_none _
    · rwa [← some_unique hblk hlat]
  runtimes := (refl state).runtimes

variable {editedOn : Timestamp} (hmemd : state.Memoised)

theorem Memoised.memoise (hmemd : state.Memoised)
    (hkey : state.blocks.lookup key = some ref) {editedBy : Option UserId}
    (hltst : state.LatestEdit key editedOn editedBy)
    (hkids : ∀ child, state.Edge key child → ∀ below, state.block child = some below →
      below.subtreeEditedOn ≠ none) : (state.memoise ref editedOn editedBy).Memoised := by
  have hcomp := computed_memoise state ref editedOn editedBy
  have hbel : ∀ child later, (state.memoise ref editedOn editedBy).block child = some later →
      (∀ below, state.block child = some below → below.subtreeEditedOn ≠ none) → later.subtreeEditedOn ≠ none := by
    intro child later hlat hmemo
    obtain ⟨below, hbel, -⟩ := hcomp.block_of_block hlat
    exact hcomp.memo_block hbel hlat (hmemo below hbel)
  refine ⟨hmemd.sound.computed hcomp, hmemd.referenced.modify .., ?_,
    fun other descriptor hoth => (hmemd.modules other descriptor hoth).computed hcomp⟩
  intro other later hlat
  have hcase := hlat
  unfold EditRecord.memoise at hcase
  rw [block_modify hmemd.referenced hkey] at hcase
  split at hcase
  · next heq =>
      subst heq
      obtain ⟨block, hblk, rfl⟩ := map_eq_some_iff.mp hcase
      refine ⟨fun found hfnd => ?_, fun hnone => ?_, fun _ child hch below hchil => ?_⟩
      · obtain rfl := some.inj hfnd
        exact hcomp.latestEdit_iff.mpr hltst
      · cases hnone
      · exact hbel child below hchil (hkids child ((edge_of_block hblk).mpr hch))
  · have hold := hmemd.memo other later hcase
    refine ⟨fun found hfnd => hcomp.latestEdit_iff.mpr (hold.latest found hfnd),
      hold.together, fun hmemo child hch below hchil => ?_⟩
    exact hbel child below hchil (hold.children hmemo child hch)

theorem getObject_run (hblk : state.objects.lookup ref = some block) : getObject ref state = .ok block state := by
  unfold getObject
  rw [run_bind]
  change (orRaise (state.objects.lookup ref) _ : RecordM EditedBlock) state = _
  rw [hblk]
  rfl

/-- What the loop over the children of a block finds. -/
structure Compared (state next : EditRecord) (children : List BlockKey)
    (latest result : Timestamp × Option UserId) : Prop where
  memoised : next.Memoised
  computed : Computed state next
  le : latest.1 ≤ result.1
  children_le : ∀ child ∈ children, ∃ editedOn editedBy, state.LatestEdit child editedOn editedBy ∧ editedOn ≤ result.1
  attained : result = latest ∨ ∃ child ∈ children, state.LatestEdit child result.1 result.2
  memo : ∀ child ∈ children, ∀ below, next.block child = some below → below.subtreeEditedOn ≠ none

/-- A computation for each of some blocks returns, and memoises something for the block. -/
def Computes (compute : Nat → RecordM Unit) (state : EditRecord) (children : List BlockKey) :
    Prop :=
  ∀ middle, Computed state middle → middle.Memoised → ∀ child ∈ children, ∀ ref,
    middle.blocks.lookup child = some ref →
      ∃ next, compute ref middle = .ok () next ∧ next.Memoised ∧ Computed middle next ∧
        ∃ block, next.block child = some block ∧ block.subtreeEditedOn ≠ none

theorem Computes.tail {compute : Nat → RecordM Unit}
    {children : List BlockKey} (hcom : Computes compute state (child :: children))
    (hcomp : Computed state next) : Computes compute next children :=
  fun middle hmid hmemd other hoth => hcom middle (hcomp.trans hmid) hmemd other (mem_cons_of_mem _ hoth)

theorem laterEdit_run {latest : Timestamp × Option UserId} {child : EditedBlock}
    (hmemo : child.subtreeEditedOn = some editedOn) :
    laterEdit latest child state =
      .ok (if latest.1 < editedOn then (editedOn, child.subtreeEditedBy) else latest) state := by
  unfold laterEdit
  rw [hmemo]
  rfl

theorem latestOfChildren_run {compute : Nat → RecordM Unit}
    {children : List BlockKey} (hmemd : state.Memoised) (hrt : runtime ∈ state.runtimes)
    (hkey : state.blocks.lookup key = some ref) (hedges : ∀ child ∈ children, state.Edge key child)
    (hcom : Computes compute state children) (latest : Timestamp × Option UserId) :
    ∃ result next, latestOfChildren compute runtime ref children latest state = .ok result next ∧
      Compared state next children latest result := by
  induction children generalizing state latest with
  | nil => exact ⟨latest, state, rfl, hmemd, refl state, le_refl _, by simp, .inl rfl, by simp⟩
  | cons child children ih =>
    have hedge := hedges child mem_cons_self
    obtain ⟨childRef, hch⟩ := mem_iff_lookup.mp (hmemd.sound.child_mem key child hedge)
    obtain ⟨loaded, hload, hloaded, hcomp, -, -⟩ := getModuleData_run hmemd hrt hch
    rw [← hcomp.blocks_eq] at hkey hch
    obtain ⟨block, hblk⟩ := hloaded.referenced.present key ref hkey
    have hown := (block_of_lookup hkey).trans hblk
    have hcompu : ∃ middle, (if block.subtreeEditedOn.isNone then compute childRef else pure () :
        RecordM Unit) loaded = .ok () middle ∧ middle.Memoised ∧ Computed loaded middle ∧
          ∃ below, middle.block child = some below ∧ below.subtreeEditedOn ≠ none := by
      cases hmemo : block.subtreeEditedOn with
      | none => exact hcom loaded hcomp hloaded child mem_cons_self childRef hch
      | some editedOn =>
        obtain ⟨below, hbel⟩ := hloaded.referenced.present child childRef hch
        refine ⟨loaded, rfl, hloaded, refl loaded, below, (block_of_lookup hch).trans hbel, ?_⟩
        refine (hloaded.memo key block hown).children (hmemo ▸ some_ne_none _) child ?_
          below ((block_of_lookup hch).trans hbel)
        exact (edge_of_block hown).mp (hcomp.edge_eq ▸ hedge)
    obtain ⟨middle, hcall, hmid, hcal, below, hbel, hmemo⟩ := hcompu
    obtain ⟨editedOn, hon⟩ := ne_none_iff_exists'.mp hmemo
    have hstt := hcomp.trans hcal
    have hltst : state.LatestEdit child editedOn below.subtreeEditedBy :=
      hstt.latestEdit_iff.mp ((hmid.memo child below hbel).latest editedOn hon)
    obtain ⟨result, next, hrest, hcmpd⟩ := ih hmid (hstt.mem_runtimes hrt) (hcal.blocks_eq ▸ hkey)
      (fun other hoth => hstt.edge_eq ▸ hedges other (mem_cons_of_mem _ hoth))
      (hcom.tail hstt)
      (if latest.1 < editedOn then (editedOn, below.subtreeEditedBy) else latest)
    refine ⟨result, next, ?_, hcmpd.memoised, hstt.trans hcmpd.computed, ?_, ?_, ?_, ?_⟩
    · unfold latestOfChildren
      rw [run_bind, hload]
      dsimp only
      rw [run_bind, getObject_run hblk]
      dsimp only
      rw [run_bind, hcall]
      dsimp only
      rw [run_bind, getObject_run ((block_of_lookup (hcal.blocks_eq ▸ hch)).symm.trans hbel)]
      dsimp only
      rw [run_bind, laterEdit_run hon]
      exact hrest
    · refine le_trans ?_ hcmpd.le
      split
      · next hlt => exact le_of_lt hlt
      · exact le_refl _
    · intro other hoth
      rcases mem_cons.mp hoth with rfl | hoth
      · refine ⟨editedOn, below.subtreeEditedBy, hltst, le_trans ?_ hcmpd.le⟩
        split
        · exact le_refl _
        · next hle => exact le_of_not_gt hle
      · obtain ⟨otherOn, otherBy, hothe, hle⟩ := hcmpd.children_le other hoth
        exact ⟨otherOn, otherBy, hstt.latestEdit_iff.mp hothe, hle⟩
    · rcases hcmpd.attained with rfl | ⟨other, hoth, hothe⟩
      · split
        · exact .inr ⟨child, mem_cons_self, hltst⟩
        · exact .inl rfl
      · exact .inr ⟨other, mem_cons_of_mem _ hoth, hstt.latestEdit_iff.mp hothe⟩
    · intro other hoth later hlat
      rcases mem_cons.mp hoth with rfl | hoth
      · exact hcmpd.computed.memo_block hbel hlat hmemo
      · exact hcmpd.memo other hoth later hlat

/-- The computation for a block of a sound structure returns, if there are enough levels for the
blocks below it. -/
theorem computeSubtreeEdited_run {rank : BlockKey → Nat} {bound levels : Nat} (hmemd : state.Memoised)
    (hrank : ∀ parent child, state.Edge parent child → rank parent < rank child)
    (hbound : ∀ other, rank other ≤ bound) (hlev : bound < levels + rank key)
    (hrt : runtime ∈ state.runtimes) (hkey : state.blocks.lookup key = some ref) :
    ∃ next, computeSubtreeEdited runtime levels ref state = .ok () next ∧ next.Memoised ∧
      Computed state next ∧ ∃ block, next.block key = some block ∧ block.subtreeEditedOn ≠ none := by
  induction levels generalizing state key ref with
  | zero => exact absurd hlev (by have := hbound key; omega)
  | succ levels ih =>
    obtain ⟨block, hblk⟩ := hmemd.referenced.present key ref hkey
    have hown := (block_of_lookup hkey).trans hblk
    have hedges : ∀ child ∈ block.data.childKeys, state.Edge key child := fun child hch => (edge_of_block hown).mpr hch
    have hcom : Computes (computeSubtreeEdited runtime levels) state
        block.data.childKeys := by
      intro middle hcomp hmid child hch childRef hchildKey
      refine ih hmid (fun parent other hedge => hrank parent other (hcomp.edge_eq ▸ hedge))
        ?_ (hcomp.mem_runtimes hrt) hchildKey
      have := hrank key child (hedges child hch)
      omega
    obtain ⟨latest, middle, hloop, hcmpd⟩ := latestOfChildren_run hmemd hrt hkey
      hedges hcom (block.editedOn, block.editedBy)
    have hmidd := hcmpd.computed.blocks_eq ▸ hkey
    have hltst : state.LatestEdit key latest.1 latest.2 := by
      refine Latest.of_successors (lastEdit_of_block hown) hcmpd.le
        (fun child hedge => hcmpd.children_le child ((edge_of_block hown).mp hedge)) ?_
      rcases hcmpd.attained with heq | ⟨child, hch, hchildLatest⟩
      · exact .inl heq
      · exact .inr ⟨child, hedges child hch, hchildLatest⟩
    refine ⟨middle.memoise ref latest.1 latest.2, ?_, ?_, ?_, ?_⟩
    · unfold computeSubtreeEdited
      rw [run_bind, getObject_run hblk]
      dsimp only
      rw [run_bind, hloop]
      rfl
    · refine hcmpd.memoised.memoise hmidd (hcmpd.computed.latestEdit_iff.mpr hltst) fun child hedge => ?_
      rw [hcmpd.computed.edge_eq] at hedge
      exact hcmpd.memo child ((edge_of_block hown).mp hedge)
    · exact hcmpd.computed.trans (computed_memoise ..)
    · obtain ⟨later, hlat, -⟩ := hcmpd.computed.lookup hblk
      unfold memoise
      rw [block_modify hcmpd.memoised.referenced hmidd, if_pos rfl, block_of_lookup hmidd, hlat]
      exact ⟨_, rfl, some_ne_none _⟩

section

include hmemd

theorem computeSubtree_run (hrt : descriptor.runtime ∈ state.runtimes) (hkey : state.blocks.lookup key = some ref) :
    ∃ next, computeSubtree descriptor ref state = .ok () next ∧ next.Memoised ∧
      Computed state next ∧ ∃ block, next.block key = some block ∧ block.subtreeEditedOn ≠ none := by
  obtain ⟨rank, hrank, hbound⟩ := hmemd.sound.acyclic.exists_rank state.blocks.keys.toFinset
    (fun parent child hedge => by
      obtain ⟨block, hblk, -⟩ := hedge
      obtain ⟨ref, href, -⟩ := block_eq_some_iff.mp hblk
      exact mem_toFinset.mpr (mem_of_lookup href))
  refine computeSubtreeEdited_run hmemd hrank hbound ?_ hrt hkey
  have := List.toFinset_card_le state.blocks.keys
  omega

theorem Memoised.modifyDescriptor (key : BlockKey) (change : Descriptor → Descriptor)
    (hrgt : ∀ descriptor, state.modules.lookup key = some descriptor → state.DescriptorRight key (change descriptor)) :
    { state with modules := Dict.modify key change state.modules : EditRecord }.Memoised := by
  refine hmemd.congr (hmemd.referenced.withModules _) rfl rfl fun other descriptor hoth => ?_
  dsimp only at hoth
  rw [lookup_modify] at hoth
  have hold : state.DescriptorRight other descriptor := by
    split at hoth
    · next heq =>
        subst heq
        obtain ⟨old, hold, rfl⟩ := map_eq_some_iff.mp hoth
        exact hrgt old hold
    · exact hmemd.modules other descriptor hoth
  exact ⟨hold.loaded, hold.editedOn, hold.editedBy⟩

/-- The object that a descriptor finds has the latest edit memoised, at the latest once it is
computed. -/
theorem memoisedObject (hrt : descriptor.runtime ∈ state.runtimes)
    (hkey : state.blocks.lookup key = some ref) (hblk : state.objects.lookup ref = some block)
    (unknown : Bool) (hknown : unknown = false → block.subtreeEditedOn ≠ none) :
    ∃ next later editedOn, (if unknown then computeSubtree descriptor ref else pure () :
        RecordM Unit) state = .ok () next ∧
      next.Memoised ∧ Computed state next ∧ next.objects.lookup ref = some later ∧
        later.subtreeEditedOn = some editedOn ∧ state.LatestEdit key editedOn later.subtreeEditedBy := by
  have hfnd : ∃ next, (if unknown then computeSubtree descriptor ref else pure () :
      RecordM Unit) state = .ok () next ∧ next.Memoised ∧ Computed state next ∧
        ∃ later, next.block key = some later ∧ later.subtreeEditedOn ≠ none := by
    cases unknown with
    | true => exact computeSubtree_run hmemd hrt hkey
    | false => exact ⟨state, rfl, hmemd, refl state, block, (block_of_lookup hkey).trans hblk, hknown rfl⟩
  obtain ⟨next, hrun, hnxt, hcomp, later, hlat, hmemo⟩ := hfnd
  obtain ⟨editedOn, hon⟩ := ne_none_iff_exists'.mp hmemo
  refine ⟨next, later, editedOn, hrun, hnxt, hcomp, ?_, hon,
    hcomp.latestEdit_iff.mp ((hnxt.memo key later hlat).latest editedOn hon)⟩
  rwa [block_of_lookup (hcomp.blocks_eq ▸ hkey)] at hlat

end

theorem descriptorObject_run (hrt : state.runtimes.lookup descriptor.runtime = some moduleData)
    (href : moduleData.lookup key = some ref) :
    descriptorObject descriptor key state = .ok ref state := by
  unfold descriptorObject
  rw [run_bind]
  change (orRaise (((state.runtimes.lookup descriptor.runtime).getD ∅).lookup key) _ : RecordM Nat) state = _
  rw [hrt, getD_some, href]
  rfl

section

variable (hkey : key ∈ state.blocks) (hloaded : key ∈ state.modules)
include hmemd hkey hloaded

theorem getSubtreeEditedOn_run : ∃ editedOn editedBy next, getSubtreeEditedOn key state = .ok (some editedOn) next ∧
      state.LatestEdit key editedOn editedBy ∧ next.Memoised := by
  obtain ⟨descriptor, hdscr⟩ := mem_iff_lookup.mp hloaded
  have hrgt := hmemd.modules key descriptor hdscr
  have hst : getSubtreeEditedOn key state = (descriptor.subtreeEditedOn.elim
      (setSubtreeEditedOn descriptor key) fun editedOn => (pure (some editedOn) : RecordM (Option Timestamp))) state := by
    unfold getSubtreeEditedOn
    rw [run_bind]
    change ((orRaise (state.modules.lookup key) _ : RecordM Descriptor) >>= _) state = _
    rw [hdscr]
    cases hon : descriptor.subtreeEditedOn <;> simp [orRaise, hon]
  rw [hst]
  cases hon : descriptor.subtreeEditedOn with
  | some editedOn =>
    obtain ⟨editedBy, hltst⟩ := hrgt.editedOn hkey editedOn hon
    exact ⟨editedOn, editedBy, state, rfl, hltst, hmemd⟩
  | none =>
    obtain ⟨moduleData, hrt, hmem⟩ := hrgt.loaded
    obtain ⟨ref, href⟩ := mem_iff_lookup.mp hmem
    obtain ⟨known, hknown⟩ := mem_iff_lookup.mp hkey
    obtain rfl := hmemd.referenced.agrees _ moduleData hrt key ref known href hknown
    obtain ⟨block, hblk⟩ := hmemd.referenced.present key ref hknown
    obtain ⟨next, later, editedOn, hrun, hnxt, hcomp, hlat, hlaterOn, hltst⟩ :=
      memoisedObject hmemd (mem_of_lookup hrt) hknown hblk
        block.subtreeEditedOn.isNone (fun hsome hnone => by simp [hnone] at hsome)
    refine ⟨editedOn, later.subtreeEditedBy, _, ?_, hltst, hnxt.modifyDescriptor key
      (fun descriptor => { descriptor with subtreeEditedOn := later.subtreeEditedOn }) ?_⟩
    · rw [Option.elim_none]
      unfold setSubtreeEditedOn
      rw [run_bind, descriptorObject_run hrt href]
      dsimp only
      rw [run_bind, getObject_run hblk]
      dsimp only
      rw [run_bind, hrun]
      dsimp only
      rw [run_bind, getObject_run hlat]
      dsimp only
      rw [run_bind, ← hlaterOn]
      rfl
    · intro found hfnd
      have hold := hnxt.modules key found hfnd
      refine ⟨hold.loaded, fun _ foundOn hfoundOn => ?_, hold.editedBy⟩
      obtain rfl := some_unique hlaterOn hfoundOn
      exact ⟨_, hcomp.latestEdit_iff.mpr hltst⟩

theorem getSubtreeEditedBy_run : ∃ editedOn editedBy next, getSubtreeEditedBy key state = .ok editedBy next ∧
      state.LatestEdit key editedOn editedBy ∧ next.Memoised := by
  obtain ⟨descriptor, hdscr⟩ := mem_iff_lookup.mp hloaded
  have hrgt := hmemd.modules key descriptor hdscr
  have hst : getSubtreeEditedBy key state = (descriptor.subtreeEditedBy.elim
      (setSubtreeEditedBy descriptor key) (pure : Option UserId → RecordM (Option UserId))) state := by
    unfold getSubtreeEditedBy
    rw [run_bind]
    change ((orRaise (state.modules.lookup key) _ : RecordM Descriptor) >>= _) state = _
    rw [hdscr]
    cases hby : descriptor.subtreeEditedBy <;> simp [orRaise, hby]
  rw [hst]
  cases hby : descriptor.subtreeEditedBy with
  | some editedBy =>
    obtain ⟨editedOn, hltst⟩ := hrgt.editedBy hkey editedBy hby
    exact ⟨editedOn, editedBy, state, rfl, hltst, hmemd⟩
  | none =>
    obtain ⟨moduleData, hrt, hmem⟩ := hrgt.loaded
    obtain ⟨ref, href⟩ := mem_iff_lookup.mp hmem
    obtain ⟨known, hknown⟩ := mem_iff_lookup.mp hkey
    obtain rfl := hmemd.referenced.agrees _ moduleData hrt key ref known href hknown
    obtain ⟨block, hblk⟩ := hmemd.referenced.present key ref hknown
    have htog := (hmemd.memo key block ((block_of_lookup hknown).trans hblk)).together
    obtain ⟨next, later, editedOn, hrun, hnxt, hcomp, hlat, hlaterOn, hltst⟩ :=
      memoisedObject hmemd (mem_of_lookup hrt) hknown hblk block.subtreeEditedBy.isNone
        (fun hsome hnone => by simp [htog hnone] at hsome)
    refine ⟨editedOn, later.subtreeEditedBy, _, ?_, hltst, hnxt.modifyDescriptor key
      (fun descriptor => { descriptor with subtreeEditedBy := some later.subtreeEditedBy }) ?_⟩
    · rw [Option.elim_none]
      unfold setSubtreeEditedBy
      rw [run_bind, descriptorObject_run hrt href]
      dsimp only
      rw [run_bind, getObject_run hblk]
      dsimp only
      rw [run_bind, hrun]
      dsimp only
      rw [run_bind, getObject_run hlat]
      rfl
    · intro found hfnd
      have hold := hnxt.modules key found hfnd
      refine ⟨hold.loaded, hold.editedOn, fun _ foundBy hfoundBy => ?_⟩
      obtain rfl := some.inj hfoundBy
      exact ⟨_, hcomp.latestEdit_iff.mpr hltst⟩

end

/-! ## Loading descriptors -/

/-- What loading leaves as it is. -/
structure Loaded (state next : EditRecord) : Prop where
  blocks : next.blocks = state.blocks
  objects : next.objects = state.objects

theorem Loaded.block_eq (hloaded : Loaded state next) : next.block = state.block := by
  funext key
  unfold EditRecord.block
  rw [hloaded.blocks, hloaded.objects]

theorem Loaded.latestEdit_iff (hloaded : Loaded state next) {editedBy : Option UserId} :
    next.LatestEdit key editedOn editedBy ↔ state.LatestEdit key editedOn editedBy := by
  unfold LatestEdit Edge lastEdit
  rw [hloaded.block_eq]

section

variable (hrefd : state.Referenced) (preloaded : List BlockKey)
include hrefd

theorem Referenced.lookup_createRuntime (hrt : state.runtimes.lookup runtime = some moduleData) :
    (state.createRuntime preloaded).runtimes.lookup runtime = some moduleData := by
  have hlt := hrefd.runtime_lt runtime (mem_of_lookup hrt)
  exact (lookup_insert_of_ne (Nat.ne_of_lt hlt) _ _).trans hrt

theorem Referenced.createRuntime : (state.createRuntime preloaded).Referenced where
  __ := hrefd
  ref_lt := fun key ref hkey => lt_succ_of_lt (hrefd.ref_lt key ref hkey)
  runtime_lt := by
    intro runtime hrt
    rcases (mem_insert _).mp hrt with rfl | hrt
    · exact lt_succ_self _
    · exact lt_succ_of_lt (hrefd.runtime_lt runtime hrt)
  agrees := by
    intro runtime moduleData hrt key ref other href hoth
    unfold EditRecord.createRuntime at hrt
    rw [lookup_insert] at hrt
    split at hrt
    · obtain rfl := some.inj hrt
      obtain ⟨found, -, hfnd⟩ := mem_filterMap.mp (mem_of_lookup_ofList href)
      obtain ⟨known, hknown, heq⟩ := map_eq_some_iff.mp hfnd
      obtain ⟨rfl, rfl⟩ := Prod.mk.inj heq
      exact some_unique hknown hoth
    · exact hrefd.agrees runtime moduleData hrt key ref other href hoth
  courseCache_mem := by
    intro runtime hrt
    unfold EditRecord.createRuntime at hrt
    dsimp only at hrt
    split at hrt
    · obtain rfl := some.inj hrt
      exact (mem_insert _).mpr (.inl rfl)
    · cases hrt

end

theorem Memoised.createRuntime (hmemd : state.Memoised) (preloaded : List BlockKey) :
    (state.createRuntime preloaded).Memoised := by
  refine hmemd.congr (hmemd.referenced.createRuntime preloaded) rfl rfl fun key descriptor hdscr => ?_
  have hrgt := hmemd.modules key descriptor hdscr
  obtain ⟨moduleData, hrt, hmem⟩ := hrgt.loaded
  exact ⟨⟨moduleData, hmemd.referenced.lookup_createRuntime preloaded hrt, hmem⟩, hrgt.editedOn, hrgt.editedBy⟩

theorem courseRuntime_eq (state : EditRecord) (preloaded : List BlockKey) :
    courseRuntime preloaded state = match state.courseCache with
      | some runtime => .ok runtime state
      | none => .ok state.next (state.createRuntime preloaded) := by
  unfold courseRuntime
  rw [run_bind]
  change (match state.courseCache with
    | some runtime => pure runtime
    | none => do set (state.createRuntime preloaded); pure state.next : RecordM Nat) state = _
  cases state.courseCache <;> rfl

section

include hmemd

theorem courseRuntime_run (preloaded : List BlockKey) :
    ∃ runtime next, courseRuntime preloaded state = .ok runtime next ∧ next.Memoised ∧
      Loaded state next ∧ runtime ∈ next.runtimes := by
  rw [courseRuntime_eq]
  cases hcache : state.courseCache with
  | some runtime => exact ⟨runtime, state, rfl, hmemd, ⟨rfl, rfl⟩, hmemd.referenced.courseCache_mem runtime hcache⟩
  | none =>
    exact ⟨state.next, state.createRuntime preloaded, rfl, hmemd.createRuntime preloaded,
      ⟨rfl, rfl⟩, (mem_insert _).mpr (.inl rfl)⟩

theorem loadItem_run (hrt : runtime ∈ state.runtimes) (hkey : key ∈ state.blocks) :
    ∃ next, loadItem runtime key state = .ok () next ∧ next.Memoised ∧ Loaded state next ∧ key ∈ next.modules := by
  by_cases hmem : key ∈ state.modules
  · refine ⟨state, ?_, hmemd, ⟨rfl, rfl⟩, hmem⟩
    unfold loadItem
    rw [run_bind]
    change (if key ∈ state.modules then pure () else _ : RecordM Unit) state = _
    rw [if_pos hmem]
    rfl
  · obtain ⟨ref, href⟩ := mem_iff_lookup.mp hkey
    obtain ⟨loaded, hload, hloaded, hcomp, hobjs, moduleData, hmod, hin⟩ := getModuleData_run hmemd hrt href
    refine ⟨{ loaded with modules := loaded.modules.insert key { runtime := runtime } }, ?_, ?_,
      ⟨hcomp.blocks_eq, hobjs⟩, (mem_insert _).mpr (.inl rfl)⟩
    · unfold loadItem
      rw [run_bind]
      change (if key ∈ state.modules then pure () else
        (getModuleData runtime key >>= _) : RecordM Unit) state = _
      rw [if_neg hmem, run_bind, hload]
      rfl
    · refine hloaded.congr (hloaded.referenced.withModules _) rfl rfl fun other descriptor hoth => ?_
      dsimp only at hoth
      rw [lookup_insert] at hoth
      split at hoth
      · next heq =>
          subst heq
          obtain rfl := some.inj hoth
          exact ⟨⟨moduleData, hmod, hin⟩, fun _ _ hnone => (nomatch hnone), fun _ _ hnone => (nomatch hnone)⟩
      · have hrgt := hloaded.modules other descriptor hoth
        exact ⟨hrgt.loaded, hrgt.editedOn, hrgt.editedBy⟩

theorem getItem_run (hkey : key ∈ state.blocks) (descendants : List BlockKey) :
    ∃ next, getItem key descendants state = .ok () next ∧ next.Memoised ∧ Loaded state next ∧ key ∈ next.modules := by
  obtain ⟨runtime, middle, hcall, hmid, hsame, hrt⟩ := courseRuntime_run hmemd (key :: descendants)
  obtain ⟨next, hload, hnxt, hloaded, hmem⟩ := loadItem_run hmid hrt (hsame.blocks ▸ hkey)
  refine ⟨next, ?_, hnxt, ⟨hloaded.blocks.trans hsame.blocks, hloaded.objects.trans hsame.objects⟩, hmem⟩
  unfold getItem
  rw [run_bind, hcall]
  exact hload

theorem Memoised.readsRight : state.ReadsRight := by
  intro key hkey descendants
  obtain ⟨middle, hcall, hmid, hloaded, hmem⟩ := getItem_run hmemd hkey descendants
  have hmidd := hloaded.blocks ▸ hkey
  constructor
  · obtain ⟨editedOn, editedBy, next, hread, hltst, -⟩ := getSubtreeEditedOn_run hmid hmidd hmem
    refine ⟨editedOn, editedBy, next, ?_, hloaded.latestEdit_iff.mp hltst⟩
    rw [run_bind, hcall]
    exact hread
  · obtain ⟨editedOn, editedBy, next, hread, hltst, -⟩ := getSubtreeEditedBy_run hmid hmidd hmem
    refine ⟨editedOn, editedBy, next, ?_, hloaded.latestEdit_iff.mp hltst⟩
    rw [run_bind, hcall]
    exact hread

end

end EditRecord

end EdxPlatform.Split
