import Mathlib.Data.Finset.Lattice.Fold
import EdxPlatform.Lib.Dict
import EdxPlatform.Lib.Python

/-!
# Group access

Two merges of the `group_access` rules of a block with those of its ancestors:
the one the courseware checks, on lists with a `False` marker, and the one of
the user partition transformer, on sets with an absent key for no restriction.
-/

namespace EdxPlatform

structure Group where
  id : Int
  name : String
  deriving DecidableEq, Repr

/-- A user partition; the ids of its groups are unique within it. -/
structure UserPartition where
  id : Int
  groups : List Group
  schemeName : String
  active : Bool
  groups_unique : (groups.map Group.id).Nodup
  deriving DecidableEq

/-- The user partitions of a course, with unique ids. -/
structure UserPartitionList where
  partitions : List UserPartition
  ids_unique : (partitions.map UserPartition.id).Nodup

/-- The group that each partition's scheme puts a user in. -/
structure GroupAssignment where
  getGroupForUser : UserPartition → Option Group
  mem_groups : ∀ partition group, getGroupForUser partition = some group → group ∈ partition.groups

/-- A `group_access` value; `None` and the empty list stand for no restriction. -/
abbrev GroupAccess := Dict Int (Option (List Int))

/-- A block of a course tree with the blocks above it; `none` is a `group_access`
that is not set on the block. -/
inductive CourseBlock where
  | course (groupAccess : Option GroupAccess)
  | child (parent : CourseBlock) (groupAccess : Option GroupAccess)

namespace UserPartition

/-- `get_group`; `none` stands for `NoSuchUserPartitionGroupError`. -/
def getGroup (partition : UserPartition) (groupId : Int) : Option Group :=
  partition.groups.find? (fun group => decide (group.id = groupId))

/-- The groups of a list of ids, `none` as soon as one does not exist. -/
def getGroups (partition : UserPartition) : List Int → Option (List Group)
  | [] => some []
  | groupId :: groupIds =>
    match partition.getGroup groupId with
    | none => none
    | some group =>
      match partition.getGroups groupIds with
      | none => none
      | some groups => some (group :: groups)

end UserPartition

section

variable (partitions : List UserPartition)

/-- `get_split_user_partitions`. -/
def getSplitUserPartitions : List UserPartition :=
  partitions.filter (fun partition => decide (partition.schemeName = "random"))

/-- `_get_user_partition`; `none` stands for `NoSuchUserPartitionError`. -/
def getUserPartition (partitionId : Int) : Option UserPartition :=
  partitions.find? (fun partition => decide (partition.id = partitionId))

namespace CourseBlock

def ownGroupAccess : CourseBlock → Option GroupAccess
  | .course groupAccess => groupAccess
  | .child _ groupAccess => groupAccess

/-- The field as read on the block: inherited from the nearest ancestor that sets
it, and empty by default. -/
def groupAccess : CourseBlock → GroupAccess
  | .course own => own.getD ∅
  | .child parent own => own.getD parent.groupAccess

end CourseBlock

/-! ## The courseware's merge -/

/-- A value of the merged dictionary: `None`, a list of group ids, or the marker
`False` for a partition of which no group is left. -/
inductive MergedGroups where
  | none
  | ids (groupIds : List Int)
  | excluded
  deriving DecidableEq, Repr

/-- `list(set(merged).intersection(local)) or False`. -/
def intersectGroups (merged localIds : List Int) : MergedGroups :=
  match merged.dedup.filter (fun groupId => decide (groupId ∈ localIds)) with
  | [] => .excluded
  | groupIds => .ids groupIds

section

variable (merged : Dict Int MergedGroups) (partitionId : Int)

/-- One round of the loop of `merged_group_access`. -/
def mergeEntry (groupIds : Option (List Int)) : Except PyError (Dict Int MergedGroups) :=
  match groupIds with
  | none | some [] => .ok merged
  | some groupIds =>
    match merged.lookup partitionId with
    | none => .ok (merged.insert partitionId (.ids groupIds))
    | some .excluded => .ok merged
    -- `set(None)`
    | some .none => .error .typeError
    | some (.ids mergedIds) => .ok (merged.insert partitionId (intersectGroups mergedIds groupIds))

/-- The rules of the course as they stand, before anything is merged into them. -/
def rawGroups : Option (List Int) → MergedGroups
  | none => .none
  | some groupIds => .ids groupIds

def CourseBlock.mergedGroupAccess : CourseBlock → Except PyError (Dict Int MergedGroups)
  | .course own => .ok (Dict.ofList ((own.getD ∅).entries.map fun entry => (entry.1, rawGroups entry.2)))
  | .child parent own =>
    match parent.mergedGroupAccess with
    | .error err => .error err
    | .ok merged =>
      (CourseBlock.child parent own).groupAccess.entries.foldlM
        (fun merged entry => mergeEntry merged entry.1 entry.2) merged

/-- The active partitions that the merged rules name, `none` when one of the
named partitions does not exist. -/
def checkedPartitions (partitions : List UserPartition) : List (Int × MergedGroups) → Option (List UserPartition)
  | [] => some []
  | (partitionId, groupIds) :: rest =>
    match getUserPartition partitions partitionId with
    | none => none
    | some partition =>
      match checkedPartitions partitions rest with
      | none => none
      | some checked =>
        if partition.active && decide (groupIds ≠ .none) then some (partition :: checked)
        else some checked

def allowedIds : List Int :=
  match merged.lookup partitionId with
  | some (.ids groupIds) => groupIds
  | _ => []

end

/-- The partitions with the groups allowed in them, without those that allow
none; the result is `none` when a group does not exist. -/
def partitionGroups (merged : Dict Int MergedGroups) : List UserPartition → Option (List (UserPartition × List Group))
  | [] => some []
  | partition :: rest =>
    match partition.getGroups (allowedIds merged partition.id) with
    | none => none
    | some groups =>
      match partitionGroups merged rest with
      | none => none
      | some resolved =>
        if groups.isEmpty then some resolved else some ((partition, groups) :: resolved)

section

variable (assignment : GroupAssignment)

/-- `_has_group_access`. -/
def hasGroupAccess (block : CourseBlock) : Except PyError Bool :=
  if partitions.length = (getSplitUserPartitions partitions).length then .ok true
  else
    match block.mergedGroupAccess with
    | .error err => .error err
    | .ok merged =>
      if merged.entries.any (fun entry => decide (entry.2 = .excluded)) then .ok false
      else
        match checkedPartitions partitions (merged.entries.map fun entry => (entry.1, entry.2)) with
        | none => .ok false
        | some checked =>
          match partitionGroups merged checked with
          | none => .ok false
          | some resolved =>
            let userGroups := Dict.ofList (resolved.map fun entry => (entry.1.id, assignment.getGroupForUser entry.1))
            .ok (resolved.all fun entry =>
              match (userGroups.lookup entry.1.id).join with
              | none => false
              | some group => decide (group ∈ entry.2))

/-! ## The transformer's merge -/

/-- `_MergedGroupAccess`: the sets of groups that have access, for the
partitions that are restricted. -/
structure MergedGroupAccess where
  access : Dict Int (Finset Int)

namespace MergedGroupAccess

/-- The union of what the parent chains allow, `none` for all groups. -/
def mergedParentGroupIds (partitionId : Int) : List MergedGroupAccess → Finset Int → Option (Finset Int)
  | [], groupIds => some groupIds
  | parent :: parents, groupIds =>
    match parent.access.lookup partitionId with
    | none => none
    | some parentIds => mergedParentGroupIds partitionId parents (groupIds ∪ parentIds)

/-- `_intersection`, with `none` for the universe set. -/
def intersection : Option (Finset Int) → Option (Finset Int) → Option (Finset Int)
  | none, second => second
  | first, none => first
  | some first, some second => some (first ∩ second)

/-- `set(xblock_group_access.get(partition.id) or []) or None`. -/
def xblockPartitionAccess (groupAccess : GroupAccess) (partitionId : Int) : Option (Finset Int) :=
  match groupAccess.lookup partitionId with
  | none | some none | some (some []) => none
  | some (some groupIds) => some groupIds.toFinset

/-- The merged access of one partition, `none` when it is not restricted. -/
def mergedGroupIds (groupAccess : GroupAccess) (parents : List MergedGroupAccess)
    (partitionId : Int) : Option (Finset Int) :=
  let parentIds :=
    match parents with
    | [] => none
    | parents => mergedParentGroupIds partitionId parents ∅
  intersection (xblockPartitionAccess groupAccess partitionId) parentIds

/-- `_MergedGroupAccess.__init__`, reading the value set on the block itself. -/
def init (userPartitions : List UserPartition) (own : Option GroupAccess)
    (parents : List MergedGroupAccess) : MergedGroupAccess :=
  ⟨Dict.ofList (userPartitions.filterMap fun partition =>
    (mergedGroupIds (own.getD ∅) parents partition.id).map fun ids => (partition.id, ids))⟩

def checkGroupAccess (merged : MergedGroupAccess) (userGroups : Dict Int Group) : Bool :=
  merged.access.entries.all fun entry =>
    match userGroups.lookup entry.1 with
    | none => false
    | some group => decide (group.id ∈ entry.2)

end MergedGroupAccess

/-- `_get_user_partition_groups`. -/
def getUserPartitionGroups (partitions : List UserPartition) : Dict Int Group :=
  Dict.ofList (partitions.filterMap fun partition =>
    (assignment.getGroupForUser partition).map fun group => (partition.id, group))

def collectedPartitions : List UserPartition := partitions.filter UserPartition.active

def CourseBlock.collectedAccess (userPartitions : List UserPartition) : CourseBlock → MergedGroupAccess
  | .course own => MergedGroupAccess.init userPartitions own []
  | .child parent own => MergedGroupAccess.init userPartitions own [parent.collectedAccess userPartitions]

def passesUserPartitions (block : CourseBlock) : Bool :=
  (block.collectedAccess (collectedPartitions partitions)).checkGroupAccess
    (getUserPartitionGroups assignment (collectedPartitions partitions))

end

end

end EdxPlatform
