import EdxPlatform.Access.GroupAccessRules
import EdxPlatform.Lib.Ancestors

/-!
# Split tests

A split test shows each learner the child that is mapped to the learner's group.  The user partition transformer
gets there the other way round: each child is given to the group it is mapped to, before the access rules are merged.
-/

namespace EdxPlatform

variable {κ : Type} [DecidableEq κ]

structure SplitTest (κ : Type) where
  children : List κ
  userPartitionId : Int
  groupIdToChild : Dict String κ

/-- The blocks of a course with one parent each, and the `group_access` values that are set on them. -/
structure CourseTree (κ : Type) extends Ancestry κ where
  groupAccess : κ → Option GroupAccess
  splitTests : List κ
  splitTests_nodup : splitTests.Nodup
  splitTest : κ → SplitTest κ
  children_nodup : ∀ blockKey, (splitTest blockKey).children.Nodup
  parent_eq : ∀ blockKey ∈ splitTests, ∀ child ∈ (splitTest blockKey).children, parent child = some blockKey

inductive SplitTestError where
  | valueError
  | unboundLocalError
  deriving DecidableEq, Repr

namespace SplitTest

variable (block : SplitTest κ)

def childOfGroup (groupId : Int) : Option κ := block.groupIdToChild.lookup (toString groupId)

/-- `child_to_group`; a group without a child stands under `None`. -/
def childToGroup (partition : UserPartition) : Dict (Option κ) Int :=
  Dict.ofList (partition.groups.map fun group => (block.childOfGroup group.id, group.id))

section

variable (partitions : List UserPartition) (assignment : GroupAssignment)

def getGroupId : Except SplitTestError (Option Int) :=
  match getUserPartition partitions block.userPartitionId with
  | none => throw .valueError
  | some partition => return (assignment.getGroupForUser partition).map Group.id

def getChildDescriptorByLocation (location : κ) : Option κ :=
  block.children.find? fun child => decide (child = location)

def getChildDescriptors :
    Except SplitTestError (List κ) := do
  match ← block.getGroupId partitions assignment with
  | none => return []
  | some groupId =>
    match block.childOfGroup groupId with
    -- The configuration error is logged, and `child_descriptor` read all the same.
    | none => throw .unboundLocalError
    | some childLocation =>
      match block.getChildDescriptorByLocation childLocation with
      | none => return []
      | some childDescriptor => return [childDescriptor]

end

end SplitTest

open SplitTest

variable (tree : CourseTree κ)

namespace CourseTree

def blockOf (accesses : κ → Option GroupAccess) (key : κ) : CourseBlock :=
  match _hparent : tree.parent key with
  | none => .course (accesses key)
  | some above => .child (blockOf accesses above) (accesses key)
termination_by tree.depth key
decreasing_by exact tree.parent_depth key above _hparent

/-- `child.group_access`, if need be as it is inherited. -/
def readGroupAccess (key : κ) : GroupAccess := (tree.blockOf tree.groupAccess key).groupAccess

/-- `child.group_access[partition.id] = [group] if group is not None else []`; after that it is set on the child. -/
def setGroupAccess (partition : UserPartition) (childToGroup : Dict (Option κ) Int) (accesses : κ → Option GroupAccess)
    (child : κ) : κ → Option GroupAccess :=
  let groupIds := (childToGroup.lookup (some child)).toList
  Function.update accesses child
    (some (((accesses child).getD (tree.readGroupAccess child)).insert partition.id (some groupIds)))

section

variable (partitions : List UserPartition)

/-- One round of the loop of `SplitTestTransformer.collect`. -/
def collectSplitTest (accesses : κ → Option GroupAccess) (blockKey : κ) : κ → Option GroupAccess :=
  let block := tree.splitTest blockKey
  match getUserPartition partitions block.userPartitionId with
  | none => accesses
  | some partition => block.children.foldl (tree.setGroupAccess partition (block.childToGroup partition)) accesses

/-- `SplitTestTransformer.collect`. -/
def collect : κ → Option GroupAccess := tree.splitTests.foldl (tree.collectSplitTest partitions) tree.groupAccess

/-- The block passes the group check, after the split tests have given away their children. -/
def passes (assignment : GroupAssignment) (key : κ) : Bool :=
  passesUserPartitions partitions assignment (tree.blockOf (tree.collect partitions) key)

end

end CourseTree

section Rounds

variable {ι β : Type} {step : (κ → β) → ι → κ → β} {key : κ}

omit [DecidableEq κ] in
theorem foldl_skips {indices : List ι} (hskips : ∀ index ∈ indices, ∀ values, step values index key = values key)
    (values : κ → β) : indices.foldl step values key = values key := by
  induction indices generalizing values with
  | nil => rfl
  | cons index indices ih =>
    rw [foldl_cons, ih fun other hoth => hskips other (mem_cons_of_mem _ hoth)]
    exact hskips index mem_cons_self values

omit [DecidableEq κ] in
theorem foldl_writes (change : β → β) {indices : List ι} (hnod : indices.Nodup) {index : ι} (hidx : index ∈ indices)
    (hwr : ∀ values, step values index key = change (values key))
    (hskips : ∀ other ∈ indices, other ≠ index → ∀ values, step values other key = values key) (values : κ → β) :
    indices.foldl step values key = change (values key) := by
  induction indices generalizing values with
  | nil => cases hidx
  | cons first indices ih =>
    obtain ⟨hfresh, hrest⟩ := nodup_cons.mp hnod
    have hlat : ∀ other ∈ indices, other ≠ index → ∀ values, step values other key = values key :=
      fun other hoth => hskips other (mem_cons_of_mem _ hoth)
    rw [foldl_cons]
    rcases mem_cons.mp hidx with rfl | hmem
    · rw [foldl_skips fun other hoth => hlat other hoth fun heq => hfresh (heq ▸ hoth)]
      exact hwr values
    · rw [ih hrest hmem hlat, hskips first mem_cons_self fun heq => hfresh (heq ▸ hmem)]

end Rounds

theorem SplitTest.getChildDescriptorByLocation_eq (block : SplitTest κ) (location : κ) :
    block.getChildDescriptorByLocation location = if location ∈ block.children then some location else none := by
  unfold getChildDescriptorByLocation
  cases hfnd : block.children.find? fun child => decide (child = location) with
  | none =>
    refine (if_neg fun hmem => ?_).symm
    exact List.find?_eq_none.mp hfnd location hmem (decide_eq_true rfl)
  | some child =>
    have heq : child = location := of_decide_eq_true (find?_some (p := fun child => decide (child = location)) hfnd)
    rw [heq] at hfnd ⊢
    exact (if_pos (mem_of_find?_eq_some hfnd)).symm

namespace CourseTree

variable {tree : CourseTree κ}

omit [DecidableEq κ] in
theorem blockOf_child {accesses : κ → Option GroupAccess} {child above : κ} (hpar : tree.parent child = some above) :
    tree.blockOf accesses child = .child (tree.blockOf accesses above) (accesses child) := by
  rw [blockOf]
  split
  · next hnone => rw [hpar] at hnone; cases hnone
  · next found hsome =>
      obtain rfl := some_unique hpar hsome
      rfl

section

variable {partitions : List UserPartition} {partition : UserPartition} {blockKey child : κ}

theorem collectSplitTest_child (hpart : getUserPartition partitions (tree.splitTest blockKey).userPartitionId = some partition)
    (hch : child ∈ (tree.splitTest blockKey).children) (accesses : κ → Option GroupAccess) :
    tree.collectSplitTest partitions accesses blockKey child =
      some (((accesses child).getD (tree.readGroupAccess child)).insert partition.id
        (some (((tree.splitTest blockKey).childToGroup partition).lookup (some child)).toList)) := by
  unfold collectSplitTest
  rw [hpart]
  refine foldl_writes (fun access => some ((access.getD (tree.readGroupAccess child)).insert partition.id
    (some (((tree.splitTest blockKey).childToGroup partition).lookup (some child)).toList)))
    (tree.children_nodup blockKey) hch (fun values => ?_) (fun other _ hne values => ?_) accesses
  · exact update_self _ _ _
  · exact update_of_ne hne.symm _ _

theorem collectSplitTest_other (partitions : List UserPartition) {blockKey child : κ}
    (hch : child ∉ (tree.splitTest blockKey).children) (accesses : κ → Option GroupAccess) :
    tree.collectSplitTest partitions accesses blockKey child = accesses child := by
  unfold collectSplitTest
  cases getUserPartition partitions (tree.splitTest blockKey).userPartitionId with
  | none => rfl
  | some partition =>
    refine foldl_skips (fun other hoth values => update_of_ne ?_ _ _) accesses
    rintro rfl
    exact hch hoth

theorem collect_child (hblk : blockKey ∈ tree.splitTests)
    (hpart : getUserPartition partitions (tree.splitTest blockKey).userPartitionId = some partition)
    (hch : child ∈ (tree.splitTest blockKey).children) :
    tree.collect partitions child =
      some (((tree.groupAccess child).getD (tree.readGroupAccess child)).insert partition.id
        (some (((tree.splitTest blockKey).childToGroup partition).lookup (some child)).toList)) := by
  refine foldl_writes (fun access => some ((access.getD (tree.readGroupAccess child)).insert partition.id
    (some (((tree.splitTest blockKey).childToGroup partition).lookup (some child)).toList)))
    tree.splitTests_nodup hblk (collectSplitTest_child hpart hch) (fun other hoth hne accesses => ?_) _
  refine collectSplitTest_other partitions (fun hin => hne ?_) accesses
  -- The child has one parent.
  exact some.inj ((tree.parent_eq other hoth child hin).symm.trans (tree.parent_eq blockKey hblk child hch))

end

omit [DecidableEq κ] in
theorem getD_readGroupAccess (child : κ) :
    (tree.groupAccess child).getD (tree.readGroupAccess child) = tree.readGroupAccess child := by
  unfold readGroupAccess
  rw [blockOf]
  split
  · cases hown : tree.groupAccess child with
    | none => rfl
    | some own => rfl
  · next above _ =>
      cases hown : tree.groupAccess child with
      | none => rfl
      | some own => rfl

end CourseTree

/-! ## The rules of a child -/

theorem GroupAccess.rules_insert (access : GroupAccess) (partitionId other : Int) (groupIds : List Int) :
    GroupAccess.rules (access.insert partitionId (some groupIds)) other =
      if other = partitionId then (if groupIds = [] then [] else [groupIds]) else access.rules other := by
  unfold GroupAccess.rules
  rw [lookup_insert]
  by_cases heq : other = partitionId
  · rw [if_pos heq, if_pos heq]
    cases groupIds with
    | nil => rfl
    | cons => rfl
  · rw [if_neg heq, if_neg heq]

namespace CourseTree

variable (list : UserPartitionList) (assignment : GroupAssignment)

/-- A split test of the course with an active partition. -/
structure ActiveSplitTest where
  blockKey : κ
  mem_splitTests : blockKey ∈ tree.splitTests
  partition : UserPartition
  partition_eq : getUserPartition list.partitions (tree.splitTest blockKey).userPartitionId = some partition
  active : partition.active = true

namespace ActiveSplitTest

variable {tree list} (split : tree.ActiveSplitTest list)

def block : SplitTest κ := tree.splitTest split.blockKey

def openChild (child : κ) : CourseBlock :=
  .child (tree.blockOf (tree.collect list.partitions) split.blockKey)
    (some ((tree.readGroupAccess child).insert split.partition.id (some [])))

def Open (child : κ) : Prop := ¬ (split.openChild child).DeniedByRule list.partitions assignment

/-- The group is mapped to the child, and no later group of the partition is. -/
def LastMapped (group : Group) (child : κ) : Prop :=
  ∃ before after, split.partition.groups = before ++ group :: after ∧ split.block.childOfGroup group.id = some child ∧
    ∀ other ∈ after, split.block.childOfGroup other.id ≠ some child

/-- What a split test has to be for the learner to get the same from both sides. -/
structure Faithful : Prop where
  /-- The learner's group is in the mapping. -/
  mapped : ∀ group, assignment.getGroupForUser split.partition = some group →
    (split.block.childOfGroup group.id).isSome
  /-- The mapped child is open, and not given to a later group. -/
  shown : ∀ group child, assignment.getGroupForUser split.partition = some group →
    split.block.childOfGroup group.id = some child → child ∈ split.block.children →
    split.Open assignment child ∧ split.LastMapped group child
  /-- A child without a group is not open. -/
  hidden : ∀ child ∈ split.block.children,
    (∀ group ∈ split.partition.groups, split.block.childOfGroup group.id ≠ some child) → ¬ split.Open assignment child

variable {assignment} {split}

theorem lookup_childToGroup {child : κ} {groupId : Int} :
    (split.block.childToGroup split.partition).lookup (some child) = some groupId ↔
      ∃ group, group.id = groupId ∧ split.LastMapped group child := by
  unfold childToGroup
  rw [Dict.lookup_ofList_iff_last]
  constructor
  · rintro ⟨before, after, hspl, haft⟩
    obtain ⟨groups, rest, hgrps, rfl, hrest⟩ := List.map_eq_append_iff.mp hspl
    obtain ⟨group, later, rfl, hgrp, rfl⟩ := List.map_eq_cons_iff.mp hrest
    obtain ⟨hmap, hid⟩ := Prod.mk.inj hgrp
    exact ⟨group, hid, groups, later, hgrps, hmap, fun other hoth => haft _ (mem_map_of_mem hoth)⟩
  · rintro ⟨group, rfl, before, after, hgrps, hmap, haft⟩
    refine ⟨before.map fun group => (split.block.childOfGroup group.id, group.id),
      after.map fun group => (split.block.childOfGroup group.id, group.id), ?_, fun entry hent => ?_⟩
    · rw [hgrps, map_append, map_cons, hmap]
    · obtain ⟨other, hoth, rfl⟩ := mem_map.mp hent
      exact haft other hoth

theorem lookup_childToGroup_none {child : κ} : (split.block.childToGroup split.partition).lookup (some child) = none ↔
      ∀ group ∈ split.partition.groups, split.block.childOfGroup group.id ≠ some child := by
  unfold childToGroup
  rw [lookup_eq_none, Dict.mem_ofList]
  simp

theorem blockOf_collect {child : κ} (hch : child ∈ split.block.children) :
    tree.blockOf (tree.collect list.partitions) child =
      .child (tree.blockOf (tree.collect list.partitions) split.blockKey)
        (some ((tree.readGroupAccess child).insert split.partition.id
          (some ((split.block.childToGroup split.partition).lookup (some child)).toList))) := by
  rw [blockOf_child (tree.parent_eq split.blockKey split.mem_splitTests child hch),
    collect_child split.mem_splitTests split.partition_eq hch, getD_readGroupAccess]
  rfl

omit [DecidableEq κ] in
theorem denied_given_iff {above : CourseBlock} {access : GroupAccess} {groupId : Int} :
    (CourseBlock.child above (some (access.insert split.partition.id (some [groupId])))).DeniedByRule list.partitions
        assignment ↔
      (CourseBlock.child above (some (access.insert split.partition.id (some [])))).DeniedByRule list.partitions
          assignment ∨
        ∀ group, assignment.getGroupForUser split.partition = some group → group.id ≠ groupId := by
  obtain ⟨hmem, hid⟩ := (getUserPartition_eq_some list _ _).mp split.partition_eq
  have hrules : ∀ (partitionId : Int) (groupIds : List Int),
      (CourseBlock.child above (some (access.insert split.partition.id (some groupIds)))).rules partitionId =
        above.rules partitionId ++ if partitionId = split.partition.id then (if groupIds = [] then [] else [groupIds])
          else access.rules partitionId := fun partitionId groupIds =>
    congrArg (above.rules partitionId ++ ·) (GroupAccess.rules_insert access split.partition.id partitionId groupIds)
  unfold CourseBlock.DeniedByRule
  simp only [hrules]
  constructor
  · rintro ⟨partition, hpart, hact, rule, hrule, hden⟩
    rcases mem_append.mp hrule with habove | hown
    · exact .inl ⟨partition, hpart, hact, rule, mem_append_left _ habove, hden⟩
    · by_cases heq : partition.id = split.partition.id
      · rw [if_pos heq, if_neg (cons_ne_nil _ _), mem_singleton] at hown
        rw [eq_of_id_eq list.ids_unique hpart hmem heq, hown] at hden
        exact .inr fun group hgrp => List.ne_of_not_mem_cons (hden group hgrp)
      · refine .inl ⟨partition, hpart, hact, rule, mem_append_right _ ?_, hden⟩
        rw [if_neg heq] at hown ⊢
        exact hown
  · rintro (⟨partition, hpart, hact, rule, hrule, hden⟩ | hden)
    · refine ⟨partition, hpart, hact, rule, ?_, hden⟩
      rcases mem_append.mp hrule with habove | hown
      · exact mem_append_left _ habove
      · by_cases heq : partition.id = split.partition.id
        · rw [if_pos heq, if_pos trivial] at hown
          cases hown
        · rw [if_neg heq] at hown ⊢
          exact mem_append_right _ hown
    · refine ⟨split.partition, hmem, split.active, [groupId], mem_append_right _ ?_, fun group hgrp => ?_⟩
      · rw [if_pos rfl, if_neg (cons_ne_nil _ _)]
        exact mem_cons_self
      · exact List.not_mem_cons_of_ne_of_not_mem (hden group hgrp) not_mem_nil

omit [DecidableEq κ] in
theorem lastMapped_unique {group other : Group} {child : κ}
    (hgrp : assignment.getGroupForUser split.partition = some group) (hid : other.id = group.id)
    (hlast : split.LastMapped other child) : other = group := by
  obtain ⟨before, after, hgrps, -⟩ := hlast
  have hoth : other ∈ split.partition.groups := by
    rw [hgrps]
    exact mem_append_right _ mem_cons_self
  exact inj_on_of_nodup_map split.partition.groups_unique hoth (assignment.mem_groups _ _ hgrp) hid

theorem passes_iff {child : κ} (hch : child ∈ split.block.children) :
    tree.passes list.partitions assignment child = true ↔ split.Open assignment child ∧
      ((∀ group ∈ split.partition.groups, split.block.childOfGroup group.id ≠ some child) ∨
        ∃ group, assignment.getGroupForUser split.partition = some group ∧ split.LastMapped group child) := by
  unfold passes
  rw [passesUserPartitions_iff, blockOf_collect hch]
  cases hlook : (split.block.childToGroup split.partition).lookup (some child) with
  | none => exact (and_iff_left (.inl (lookup_childToGroup_none.mp hlook))).symm
  | some groupId =>
    rw [Option.toList_some, denied_given_iff, not_or]
    obtain ⟨other, rfl, hlast⟩ := lookup_childToGroup.mp hlook
    refine and_congr Iff.rfl ⟨fun hgiven => .inr ?_, fun hgiven hden => ?_⟩
    · obtain ⟨group, hgrp⟩ := Classical.not_forall.mp hgiven
      obtain ⟨hgrp, hid⟩ := Classical.not_imp.mp hgrp
      obtain rfl := lastMapped_unique hgrp (not_not.mp hid).symm hlast
      exact ⟨other, hgrp, hlast⟩
    · rcases hgiven with hnone | ⟨group, hgrp, hmap⟩
      · rw [lookup_childToGroup_none.mpr hnone] at hlook
        cases hlook
      · rw [lookup_childToGroup.mpr ⟨group, rfl, hmap⟩] at hlook
        exact hden group hgrp (some.inj hlook)

theorem getChildDescriptors_of_none (hgrp : assignment.getGroupForUser split.partition = none) :
    split.block.getChildDescriptors list.partitions assignment = .ok [] := by
  unfold getChildDescriptors getGroupId
  rw [block, split.partition_eq]
  dsimp only
  rw [hgrp]
  rfl

theorem getChildDescriptors_of_some {group : Group} (hgrp : assignment.getGroupForUser split.partition = some group) :
    split.block.getChildDescriptors list.partitions assignment = match split.block.childOfGroup group.id with
      | none => .error .unboundLocalError
      | some child => .ok (if child ∈ split.block.children then [child] else []) := by
  have hpart : getUserPartition list.partitions split.block.userPartitionId =
    some split.partition := split.partition_eq
  unfold getChildDescriptors getGroupId
  rw [hpart]
  dsimp only
  rw [hgrp]
  change (match split.block.childOfGroup group.id with
    | none => _
    | some childLocation => _) = _
  cases split.block.childOfGroup group.id with
  | none => rfl
  | some child =>
    dsimp only
    rw [getChildDescriptorByLocation_eq]
    by_cases hch : child ∈ split.block.children
    · rw [if_pos hch, if_pos hch]
      rfl
    · rw [if_neg hch, if_neg hch]
      rfl

theorem exists_shown_iff : (∃ shown, split.block.getChildDescriptors list.partitions assignment = .ok shown) ↔
      ∀ group, assignment.getGroupForUser split.partition = some group →
        (split.block.childOfGroup group.id).isSome := by
  cases hgrp : assignment.getGroupForUser split.partition with
  | none => exact iff_of_true ⟨[], getChildDescriptors_of_none hgrp⟩ fun group hfnd => nomatch hfnd
  | some group =>
    rw [getChildDescriptors_of_some hgrp]
    constructor
    · rintro ⟨shown, hshown⟩ found hfnd
      obtain rfl := some.inj hfnd
      cases hmap : split.block.childOfGroup group.id with
      | none => rw [hmap] at hshown; cases hshown
      | some child => rfl
    · intro hmap
      obtain ⟨child, hch⟩ := isSome_iff_exists.mp (hmap group rfl)
      rw [hch]
      exact ⟨_, rfl⟩

theorem mem_shown_iff {shown : List κ} (hshown : split.block.getChildDescriptors list.partitions assignment = .ok shown)
    {child : κ} (hch : child ∈ split.block.children) :
    child ∈ shown ↔ ∃ group, assignment.getGroupForUser split.partition = some group ∧
        split.block.childOfGroup group.id = some child := by
  cases hgrp : assignment.getGroupForUser split.partition with
  | none =>
    obtain rfl := ok.inj ((getChildDescriptors_of_none hgrp).symm.trans hshown)
    simp
  | some group =>
    rw [getChildDescriptors_of_some hgrp] at hshown
    cases hmap : split.block.childOfGroup group.id with
    | none => rw [hmap] at hshown; cases hshown
    | some location =>
      rw [hmap] at hshown
      obtain rfl := ok.inj hshown
      constructor
      · intro hmem
        split at hmem
        · exact ⟨group, rfl, hmap.trans (congrArg some (mem_singleton.mp hmem).symm)⟩
        · cases hmem
      · rintro ⟨found, hfnd, hloc⟩
        obtain rfl := some.inj hfnd
        obtain rfl := some_unique hmap hloc
        rw [if_pos hch]
        exact mem_cons_self

/-- The children that pass are the one that is shown exactly if the split test is faithful for the learner. -/
theorem passes_shown_iff (split : tree.ActiveSplitTest list) (assignment : GroupAssignment) :
    (∃ shown, split.block.getChildDescriptors list.partitions assignment = .ok shown ∧
      ∀ child ∈ split.block.children, tree.passes list.partitions assignment child = true ↔ child ∈ shown) ↔
      split.Faithful assignment := by
  constructor
  · rintro ⟨shown, hshown, hpasses⟩
    refine ⟨exists_shown_iff.mp ⟨shown, hshown⟩, fun group child hgroup hmapped hchild => ?_,
      fun child hchild hnone hopen => ?_⟩
    · have hmem := (mem_shown_iff hshown hchild).mpr ⟨group, hgroup, hmapped⟩
      obtain ⟨hopen, hnone | ⟨other, hother, hlast⟩⟩ := (passes_iff hchild).mp ((hpasses child hchild).mpr hmem)
      · exact absurd hmapped (hnone group (assignment.mem_groups _ _ hgroup))
      · obtain rfl := some_unique hgroup hother
        exact ⟨hopen, hlast⟩
    · have hmem := (hpasses child hchild).mp ((passes_iff hchild).mpr ⟨hopen, .inl hnone⟩)
      obtain ⟨group, hgroup, hmapped⟩ := (mem_shown_iff hshown hchild).mp hmem
      exact hnone group (assignment.mem_groups _ _ hgroup) hmapped
  · intro hfaithful
    obtain ⟨shown, hshown⟩ := exists_shown_iff.mpr hfaithful.mapped
    refine ⟨shown, hshown, fun child hchild => ?_⟩
    rw [mem_shown_iff hshown hchild, passes_iff hchild]
    constructor
    · rintro ⟨hopen, hnone | ⟨group, hgroup, _, _, -, hmapped, -⟩⟩
      · exact absurd hopen (hfaithful.hidden child hchild hnone)
      · exact ⟨group, hgroup, hmapped⟩
    · rintro ⟨group, hgroup, hmapped⟩
      obtain ⟨hopen, hlast⟩ := hfaithful.shown group child hgroup hmapped hchild
      exact ⟨hopen, .inr ⟨group, hgroup, hlast⟩⟩

end ActiveSplitTest

end CourseTree

def randomPartition : UserPartition where
  id := 5
  groups := [⟨0, "control"⟩, ⟨1, "treatment"⟩]
  schemeName := "random"
  active := true
  groups_unique := by decide

def randomPartitions : UserPartitionList := ⟨[randomPartition], by decide⟩

def controlled : GroupAssignment where
  getGroupForUser partition := partition.groups.head?
  mem_groups := firstGroup.mem_groups

def sharedUnitCourse : CourseTree String where
  parent key := if key = "unit" then some "split" else if key = "split" then some "course" else none
  depth key := if key = "unit" then 2 else if key = "split" then 1 else 0
  parent_depth child above habove := by
    split at habove
    · next heq => cases habove; rw [heq]; decide
    · split at habove
      · next heq => cases habove; rw [heq]; decide
      · cases habove
  groupAccess _ := none
  splitTests := ["split"]
  splitTests_nodup := nodup_singleton _
  splitTest _ := ⟨["unit"], 5, Dict.ofList [("0", "unit"), ("1", "unit")]⟩
  children_nodup _ := nodup_singleton _
  parent_eq _ hblock _ hchild := by
    rw [List.mem_singleton.mp hblock, List.mem_singleton.mp hchild, if_pos rfl]

def sharedUnitSplit : sharedUnitCourse.ActiveSplitTest randomPartitions :=
  ⟨"split", List.mem_cons_self, randomPartition, by decide, rfl⟩

/-- The first group is shown the unit, but does not pass its group check. -/
theorem sharedUnit_hidden :
    ¬ ∃ shown, sharedUnitSplit.block.getChildDescriptors randomPartitions.partitions controlled = .ok shown ∧
      ∀ child ∈ sharedUnitSplit.block.children,
        sharedUnitCourse.passes randomPartitions.partitions controlled child = true ↔ child ∈ shown := by
  rintro ⟨shown, hshown, hpasses⟩
  have hgroup : controlled.getGroupForUser sharedUnitSplit.partition = some ⟨0, "control"⟩ := rfl
  have hchild : "unit" ∈ sharedUnitSplit.block.children := mem_cons_self
  have hmapped : sharedUnitSplit.block.childOfGroup 0 = some "unit" := by decide
  have hmem := (CourseTree.ActiveSplitTest.mem_shown_iff hshown hchild).mpr ⟨_, hgroup, hmapped⟩
  obtain ⟨-, hnone | ⟨group, hfound, before, after, hgroups, -, hafter⟩⟩ :=
    (CourseTree.ActiveSplitTest.passes_iff hchild).mp ((hpasses "unit" hchild).mpr hmem)
  · exact hnone ⟨0, "control"⟩ mem_cons_self hmapped
  · obtain rfl := some_unique hgroup hfound
    cases before with
    | nil =>
      obtain rfl := (List.cons.inj hgroups).2
      exact hafter ⟨1, "treatment"⟩ mem_cons_self (by decide)
    | cons first before =>
      have hlater : (⟨0, "control"⟩ : Group) ∈ [(⟨1, "treatment"⟩ : Group)] := by
        rw [(List.cons.inj hgroups).2]
        exact mem_append_right _ mem_cons_self
      exact absurd hlater (by decide)

end EdxPlatform
