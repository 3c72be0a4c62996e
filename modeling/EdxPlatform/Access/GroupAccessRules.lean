import EdxPlatform.Access.GroupAccess

/-!
# The two group access checks compared

Both checks ask for a group of the user in every list of group ids that a block
or an ancestor sets for an active partition.  The courseware's merge departs
from this in two places: an empty entry of the course turns into a rule once a
list is merged into it, and the `False` marker counts for inactive partitions.
-/

namespace EdxPlatform

open CourseBlock MergedGroupAccess

/-- The rule that a `group_access` value sets for a partition, if any. -/
def GroupAccess.rules (groupAccess : GroupAccess) (partitionId : Int) : List (List Int) :=
  match groupAccess.lookup partitionId with
  | some (some (groupId :: groupIds)) => [groupId :: groupIds]
  | _ => []

namespace CourseBlock

/-- The rules for a partition set on the block and above it, from the course down. -/
def rules (partitionId : Int) : CourseBlock → List (List Int)
  | .course own => (own.getD ∅).rules partitionId
  | .child parent own => parent.rules partitionId ++ (own.getD ∅).rules partitionId

def courseEntry (partitionId : Int) : CourseBlock → Option (Option (List Int))
  | .course own => (own.getD ∅).lookup partitionId
  | .child parent _ => parent.courseEntry partitionId

/-- A rule is set below a course whose own entry for the partition is `None` or `[]`. -/
def RuleBelowEmptyEntry (block : CourseBlock) (partitionId : Int) : Prop :=
  (block.courseEntry partitionId = some none ∨ block.courseEntry partitionId = some (some [])) ∧
    block.rules partitionId ≠ []

def RulesExcludeAll (block : CourseBlock) (partitionId : Int) : Prop :=
  block.rules partitionId ≠ [] ∧ ∀ groupId, ∃ rule ∈ block.rules partitionId, groupId ∉ rule

/-- Every partition with a rule exists, and so does every group the rule names. -/
def Defined (block : CourseBlock) (partitions : List UserPartition) : Prop :=
  match block with
  | .course own => DefinedIn (own.getD ∅)
  | .child parent own => parent.Defined partitions ∧ DefinedIn (own.getD ∅)
where
  DefinedIn (groupAccess : GroupAccess) : Prop :=
    ∀ partitionId groupIds, groupAccess.lookup partitionId = some groupIds →
      ∃ partition ∈ partitions, partition.id = partitionId ∧
        ∀ groupId ∈ groupIds.getD [], ∃ group ∈ partition.groups, group.id = groupId

def DeniedByRule (block : CourseBlock) (partitions : List UserPartition) (assignment : GroupAssignment) : Prop :=
  ∃ partition ∈ partitions, partition.active = true ∧ ∃ rule ∈ block.rules partition.id,
    ∀ group, assignment.getGroupForUser partition = some group → group.id ∉ rule

theorem group_of_not_denied {block : CourseBlock} {partitions : List UserPartition}
    {assignment : GroupAssignment} (hallo : ¬ block.DeniedByRule partitions assignment)
    {partition : UserPartition} (hpart : partition ∈ partitions)
    (hact : partition.active = true) (hrules : block.rules partition.id ≠ []) :
    ∃ group, assignment.getGroupForUser partition = some group ∧
      ∀ rule ∈ block.rules partition.id, group.id ∈ rule := by
  have huser : ∀ rule ∈ block.rules partition.id, ∃ group,
      assignment.getGroupForUser partition = some group ∧ group.id ∈ rule := by
    intro rule hrule
    by_contra hno
    exact hallo ⟨partition, hpart, hact, rule, hrule, fun group hgrp hin => hno ⟨group, hgrp, hin⟩⟩
  obtain ⟨first, hfst⟩ := exists_mem_of_ne_nil _ hrules
  obtain ⟨group, hgrp, -⟩ := huser first hfst
  refine ⟨group, hgrp, fun rule hrule => ?_⟩
  obtain ⟨other, hoth, hin⟩ := huser rule hrule
  rwa [some_unique hgrp hoth]

end CourseBlock

open CourseBlock MergedGroupAccess Dict

def Restricts (rules : List (List Int)) : Option (Finset Int) → Prop
  | none => rules = []
  | some groupIds => rules ≠ [] ∧ ∀ groupId, groupId ∈ groupIds ↔ ∀ rule ∈ rules, groupId ∈ rule

theorem Restricts.intersection {rules : List (List Int)} {access : Option (Finset Int)}
    (hrestr : Restricts rules access) (groupAccess : GroupAccess) (partitionId : Int) :
    Restricts (rules ++ groupAccess.rules partitionId) (MergedGroupAccess.intersection
        (xblockPartitionAccess groupAccess partitionId) access) := by
  unfold xblockPartitionAccess GroupAccess.rules
  rcases groupAccess.lookup partitionId with _ | _ | _ | ⟨first, rest⟩
  · simpa [MergedGroupAccess.intersection] using hrestr
  · simpa [MergedGroupAccess.intersection] using hrestr
  · simpa [MergedGroupAccess.intersection] using hrestr
  · cases access with
    | none =>
      rw [show rules = [] from hrestr]
      refine ⟨cons_ne_nil _ _, fun groupId => ?_⟩
      simp
    | some groupIds =>
      obtain ⟨-, hmem⟩ := hrestr
      refine ⟨by simp, fun groupId => ?_⟩
      rw [Finset.mem_inter, hmem, mem_toFinset, forall_mem_append, List.forall_mem_singleton, and_comm]

theorem lookup_init (userPartitions : List UserPartition) (own : Option GroupAccess)
    (parents : List MergedGroupAccess) (partitionId : Int) :
    (init userPartitions own parents).access.lookup partitionId =
      if ∃ partition ∈ userPartitions, partition.id = partitionId then
        mergedGroupIds (own.getD ∅) parents partitionId
      else none := by
  have hent : ∀ groupIds, (init userPartitions own parents).access.lookup partitionId =
        some groupIds ↔ (∃ partition ∈ userPartitions, partition.id = partitionId) ∧
          mergedGroupIds (own.getD ∅) parents partitionId = some groupIds := by
    intro groupIds
    unfold init
    dsimp only
    rw [lookup_ofList]
    · simp only [mem_filterMap, map_eq_some_iff, Prod.mk.injEq]
      constructor
      · rintro ⟨partition, hpart, found, hfnd, hid, rfl⟩
        exact ⟨⟨partition, hpart, hid⟩, hid ▸ hfnd⟩
      · rintro ⟨⟨partition, hpart, hid⟩, hfnd⟩
        exact ⟨partition, hpart, groupIds, hid ▸ hfnd, hid, rfl⟩
    · simp only [mem_filterMap, map_eq_some_iff]
      rintro - ⟨first, -, firstIds, hfst, rfl⟩ - ⟨second, -, secondIds, hsec, rfl⟩ heq
      rw [show first.id = second.id from heq, hsec] at hfst
      exact (some.inj hfst).symm
  split
  · next hmem =>
      cases hmgd : mergedGroupIds (own.getD ∅) parents partitionId with
      | none =>
        rw [eq_none_iff_forall_ne_some]
        intro groupIds hlook
        cases hmgd.symm.trans ((hent groupIds).mp hlook).2
      | some groupIds => exact (hent groupIds).mpr ⟨hmem, hmgd⟩
  · next hmem =>
      rw [eq_none_iff_forall_ne_some]
      exact fun groupIds hlook => hmem ((hent groupIds).mp hlook).1

variable {partition : UserPartition}

theorem collectedAccess_restricts {userPartitions : List UserPartition}
    (hpart : partition ∈ userPartitions) (block : CourseBlock) :
    Restricts (block.rules partition.id) ((block.collectedAccess userPartitions).access.lookup partition.id) := by
  have hexi : ∃ other ∈ userPartitions, other.id = partition.id := ⟨partition, hpart, rfl⟩
  induction block with
  | course own =>
    unfold collectedAccess
    rw [lookup_init, if_pos hexi]
    have hnone : Restricts [] none := rfl
    exact hnone.intersection (own.getD ∅) partition.id
  | child parent own ih =>
    unfold collectedAccess
    rw [lookup_init, if_pos hexi]
    have hpar : mergedParentGroupIds partition.id [parent.collectedAccess userPartitions] ∅ =
          (parent.collectedAccess userPartitions).access.lookup partition.id := by
      unfold mergedParentGroupIds
      cases (parent.collectedAccess userPartitions).access.lookup partition.id with
      | none => rfl
      | some groupIds => simp [mergedParentGroupIds]
    unfold mergedGroupIds
    dsimp only
    rw [hpar]
    exact ih.intersection (own.getD ∅) partition.id

variable {partitions : List UserPartition}

section

variable (huniq : (partitions.map UserPartition.id).Nodup)
include huniq

theorem eq_of_id_eq {first second : UserPartition}
    (hfst : first ∈ partitions) (hsec : second ∈ partitions) (hid : first.id = second.id) :
    first = second :=
  inj_on_of_nodup_map huniq hfst hsec hid

theorem lookup_getUserPartitionGroups (assignment : GroupAssignment) (hpart : partition ∈ partitions) (group : Group) :
    (getUserPartitionGroups assignment partitions).lookup partition.id = some group ↔
      assignment.getGroupForUser partition = some group := by
  unfold getUserPartitionGroups
  rw [lookup_ofList]
  · simp only [mem_filterMap, map_eq_some_iff, Prod.mk.injEq]
    constructor
    · rintro ⟨other, hoth, found, hfnd, hid, rfl⟩
      rwa [← eq_of_id_eq huniq hoth hpart hid]
    · exact fun hgrp => ⟨partition, hpart, group, hgrp, rfl, rfl⟩
  · simp only [mem_filterMap, map_eq_some_iff]
    rintro - ⟨first, hfst, firstGroup, hfir, rfl⟩ - ⟨second, hsec, secondGroup, hseco, rfl⟩ heq
    rw [eq_of_id_eq huniq hfst hsec heq, hseco] at hfir
    exact (some.inj hfir).symm

end

theorem MergedGroupAccess.checkGroupAccess_iff (merged : MergedGroupAccess) (userGroups : Dict Int Group) :
    merged.checkGroupAccess userGroups = true ↔
      ∀ partitionId groupIds, merged.access.lookup partitionId = some groupIds →
        ∃ group, userGroups.lookup partitionId = some group ∧ group.id ∈ groupIds := by
  unfold checkGroupAccess
  rw [all_eq_true]
  constructor
  · intro hall partitionId groupIds hlook
    have hent := hall _ (mem_lookup_iff.mp hlook)
    split at hent
    · cases hent
    · next group hgrp => exact ⟨group, hgrp, of_decide_eq_true hent⟩
  · rintro hall ⟨partitionId, groupIds⟩ hent
    obtain ⟨group, hgrp, hin⟩ := hall partitionId groupIds (mem_lookup_iff.mpr hent)
    simp only [hgrp]
    exact decide_eq_true hin

theorem passesUserPartitions_iff (list : UserPartitionList) (assignment : GroupAssignment) (block : CourseBlock) :
    passesUserPartitions list.partitions assignment block = true ↔
      ¬ block.DeniedByRule list.partitions assignment := by
  have hmem : ∀ partition, partition ∈ collectedPartitions list.partitions ↔
      partition ∈ list.partitions ∧ partition.active = true := fun _ => mem_filter
  have huniq : ((collectedPartitions list.partitions).map UserPartition.id).Nodup :=
    list.ids_unique.sublist (List.filter_sublist.map _)
  unfold passesUserPartitions
  rw [checkGroupAccess_iff]
  constructor
  · rintro hall ⟨partition, hpart, hact, rule, hrule, hden⟩
    have hcoll := (hmem partition).mpr ⟨hpart, hact⟩
    have hrestr := collectedAccess_restricts hcoll block
    cases hacc : (block.collectedAccess (collectedPartitions list.partitions)).access.lookup partition.id with
    | none =>
      rw [hacc] at hrestr
      rw [show block.rules partition.id = [] from hrestr] at hrule
      cases hrule
    | some groupIds =>
      rw [hacc] at hrestr
      obtain ⟨group, hgrp, hin⟩ := hall _ _ hacc
      rw [lookup_getUserPartitionGroups huniq assignment hcoll] at hgrp
      exact hden group hgrp ((hrestr.2 group.id).mp hin rule hrule)
  · intro hallo partitionId groupIds hacc
    obtain ⟨partition, hcoll, rfl⟩ : ∃ partition ∈ collectedPartitions list.partitions,
        partition.id = partitionId := by
      by_contra hnone
      cases block with
      | course own =>
        unfold collectedAccess at hacc
        rw [lookup_init, if_neg hnone] at hacc
        cases hacc
      | child parent own =>
        unfold collectedAccess at hacc
        rw [lookup_init, if_neg hnone] at hacc
        cases hacc
    have hrestr := collectedAccess_restricts hcoll block
    rw [hacc] at hrestr
    obtain ⟨hrules, hgroupIds⟩ := hrestr
    obtain ⟨hpart, hact⟩ := (hmem partition).mp hcoll
    obtain ⟨group, hgrp, hin⟩ := group_of_not_denied hallo hpart hact hrules
    exact ⟨group, (lookup_getUserPartitionGroups huniq assignment hcoll group).mpr hgrp, (hgroupIds group.id).mpr hin⟩

/-! ## The courseware -/

/-- What the merged value of a partition says of the rules and of the course's entry. -/
def MergedSays (block : CourseBlock) (partitionId : Int) : Option MergedGroups → Prop
  | none => block.rules partitionId = [] ∧ block.courseEntry partitionId = none
  | some .none => block.rules partitionId = [] ∧ block.courseEntry partitionId = some none
  | some (.ids []) => block.rules partitionId = [] ∧ block.courseEntry partitionId = some (some [])
  | some (.ids (first :: rest)) =>
    block.rules partitionId ≠ [] ∧ ¬ block.RuleBelowEmptyEntry partitionId ∧
      ∀ groupId, groupId ∈ first :: rest ↔ ∀ rule ∈ block.rules partitionId, groupId ∈ rule
  | some .excluded =>
    block.rules partitionId ≠ [] ∧ (block.RuleBelowEmptyEntry partitionId ∨ block.RulesExcludeAll partitionId)

def mergeAt (merged : Option MergedGroups) (groupIds : Option (List Int)) : Except PyError (Option MergedGroups) :=
  match groupIds with
  | none | some [] => .ok merged
  | some groupIds =>
    match merged with
    | none => .ok (some (.ids groupIds))
    | some .excluded => .ok merged
    | some .none => .error .typeError
    | some (.ids mergedIds) => .ok (some (intersectGroups mergedIds groupIds))

theorem mergeEntry_cases (merged : Dict Int MergedGroups) (partitionId : Int) (groupIds : Option (List Int)) :
    (∃ err, mergeEntry merged partitionId groupIds = .error err ∧
      mergeAt (merged.lookup partitionId) groupIds = .error err) ∨
    (∃ result, mergeEntry merged partitionId groupIds = .ok result ∧
      mergeAt (merged.lookup partitionId) groupIds = .ok (result.lookup partitionId) ∧
      ∀ other, other ≠ partitionId → result.lookup other = merged.lookup other) := by
  unfold mergeEntry mergeAt
  rcases groupIds with _ | _ | ⟨first, rest⟩
  · exact .inr ⟨merged, rfl, rfl, fun _ _ => rfl⟩
  · exact .inr ⟨merged, rfl, rfl, fun _ _ => rfl⟩
  · cases hmgd : merged.lookup partitionId with
    | none => exact .inr ⟨_, rfl, by rw [lookup_insert_self], fun _ hne => lookup_insert_of_ne hne _ _⟩
    | some value =>
      cases value with
      | none => exact .inl ⟨_, rfl, rfl⟩
      | excluded => exact .inr ⟨merged, rfl, by rw [hmgd], fun _ _ => rfl⟩
      | ids mergedIds => exact .inr ⟨_, rfl, by rw [lookup_insert_self], fun _ hne => lookup_insert_of_ne hne _ _⟩

theorem mergeEntries_cases {entries : List (Sigma fun _ : Int => Option (List Int))}
    (hkeys : entries.NodupKeys) (merged : Dict Int MergedGroups) :
    (∃ err, entries.foldlM (fun merged entry => mergeEntry merged entry.1 entry.2) merged = .error err ∧ ∃ partitionId,
          mergeAt (merged.lookup partitionId) (entries.dlookup partitionId).join = .error err) ∨
    (∃ result, entries.foldlM (fun merged entry => mergeEntry merged entry.1 entry.2) merged =
        .ok result ∧ ∀ partitionId, mergeAt (merged.lookup partitionId) (entries.dlookup partitionId).join =
            .ok (result.lookup partitionId)) := by
  induction entries generalizing merged with
  | nil => exact .inr ⟨merged, rfl, fun _ => rfl⟩
  | cons entry rest ih =>
    obtain ⟨partitionId, groupIds⟩ := entry
    obtain ⟨hout, hrest⟩ := nodupKeys_cons.mp hkeys
    have hhere : ((⟨partitionId, groupIds⟩ :: rest : List (Sigma _)).dlookup partitionId).join =
        groupIds := by
      rw [dlookup_cons_eq]
      rfl
    have hthere : ∀ other, other ≠ partitionId →
        ((⟨partitionId, groupIds⟩ :: rest : List (Sigma _)).dlookup other).join = (rest.dlookup other).join := by
      intro other hoth
      rw [dlookup_cons_ne _ _ hoth]
    have hnone : (rest.dlookup partitionId).join = none := by
      rw [List.dlookup_eq_none.mpr hout]
      rfl
    rcases mergeEntry_cases merged partitionId groupIds with
      ⟨err, herr, hat⟩ | ⟨middle, hmid, hat, hoths⟩
    · refine .inl ⟨err, ?_, partitionId, by rw [hhere, hat]⟩
      rw [foldlM_cons, herr]
      rfl
    · rcases ih hrest middle with ⟨err, herr, other, hoth⟩ | ⟨result, hres, hall⟩
      · have hne : other ≠ partitionId := by
          rintro rfl
          rw [hnone] at hoth
          cases hoth
        refine .inl ⟨err, ?_, other, by rw [hthere other hne, ← hoths other hne, hoth]⟩
        rw [foldlM_cons, hmid]
        exact herr
      · refine .inr ⟨result, ?_, fun other => ?_⟩
        · rw [foldlM_cons, hmid]
          exact hres
        · by_cases hne : other = partitionId
          · subst hne
            have := hall other
            rw [hnone] at this
            rw [hhere, hat]
            exact this
          · rw [hthere other hne, ← hoths other hne, hall]

def entryAt (block : CourseBlock) (partitionId : Int) : Option (List Int) :=
  (block.groupAccess.lookup partitionId).join

variable {first partitionId : Int} {rest : List Int} (groupAccess : GroupAccess)

theorem rules_of_lookup (hent : (groupAccess.lookup partitionId).join = some (first :: rest)) :
    groupAccess.rules partitionId = [first :: rest] := by
  unfold GroupAccess.rules
  rcases hlook : groupAccess.lookup partitionId with _ | _ | _ | ⟨head, tail⟩ <;> rw [hlook] at hent <;> cases hent
  rfl

theorem rules_of_empty (hent : (groupAccess.lookup partitionId).join.getD [] = []) :
    groupAccess.rules partitionId = [] := by
  unfold GroupAccess.rules
  rcases hlook : groupAccess.lookup partitionId with _ | _ | _ | ⟨head, tail⟩
  · rfl
  · rfl
  · rfl
  · rw [hlook] at hent
    cases hent

theorem rules_child (parent : CourseBlock) (own : Option GroupAccess) (partitionId : Int) :
    (child parent own).rules partitionId = parent.rules partitionId ++ (own.getD ∅).rules partitionId :=
  rfl

theorem entryAt_mem_rules (block : CourseBlock) (hent : entryAt block partitionId = some (first :: rest)) :
    first :: rest ∈ block.rules partitionId := by
  induction block with
  | course own =>
    change first :: rest ∈ (own.getD ∅).rules partitionId
    rw [rules_of_lookup (own.getD ∅) hent]
    exact mem_singleton_self _
  | child parent own ih =>
    cases own with
    | none => exact mem_append_left _ (ih hent)
    | some groupAccess =>
      refine mem_append_right _ ?_
      change first :: rest ∈ groupAccess.rules partitionId
      rw [rules_of_lookup groupAccess hent]
      exact mem_singleton_self _

variable {parent : CourseBlock}

theorem mem_rules_child {own : Option GroupAccess}
    (hent : entryAt (.child parent own) partitionId = some (first :: rest))
    (rule : List Int) : rule ∈ (child parent own).rules partitionId ↔
      rule ∈ parent.rules partitionId ∨ rule = first :: rest := by
  rw [rules_child]
  cases own with
  | none =>
    have hmem := entryAt_mem_rules parent hent
    change rule ∈ parent.rules partitionId ++ [] ↔ _
    rw [append_nil]
    exact ⟨.inl, fun hrule => hrule.elim id fun heq => heq ▸ hmem⟩
  | some groupAccess => rw [getD_some, rules_of_lookup groupAccess hent, mem_append, mem_singleton]

theorem rules_child_of_empty {own : Option GroupAccess}
    (hent : (entryAt (.child parent own) partitionId).getD [] = []) :
    (child parent own).rules partitionId = parent.rules partitionId := by
  rw [rules_child]
  cases own with
  | none => exact append_nil _
  | some groupAccess => rw [getD_some, rules_of_empty groupAccess hent, append_nil]

theorem CourseBlock.RuleBelowEmptyEntry.child
    (hpar : parent.RuleBelowEmptyEntry partitionId) (own : Option GroupAccess) :
    (child parent own).RuleBelowEmptyEntry partitionId :=
  ⟨hpar.1, append_ne_nil_of_left_ne_nil hpar.2 _⟩

theorem CourseBlock.RulesExcludeAll.child (hpar : parent.RulesExcludeAll partitionId) (own : Option GroupAccess) :
    (child parent own).RulesExcludeAll partitionId := by
  refine ⟨append_ne_nil_of_left_ne_nil hpar.1 _, fun groupId => ?_⟩
  obtain ⟨rule, hrule, hout⟩ := hpar.2 groupId
  exact ⟨rule, mem_append_left _ hrule, hout⟩

theorem mem_intersectGroups (merged localIds : List Int) :
    (intersectGroups merged localIds = .excluded ∧ ∀ groupId ∈ merged, groupId ∉ localIds) ∨
    (∃ first rest, intersectGroups merged localIds = .ids (first :: rest) ∧
      ∀ groupId, groupId ∈ first :: rest ↔ groupId ∈ merged ∧ groupId ∈ localIds) := by
  have hmem : ∀ groupId, groupId ∈ merged.dedup.filter (fun groupId => decide (groupId ∈ localIds)) ↔
      groupId ∈ merged ∧ groupId ∈ localIds := by
    intro groupId
    rw [mem_filter, List.mem_dedup, decide_eq_true_eq]
  unfold intersectGroups
  cases hids : merged.dedup.filter (fun groupId => decide (groupId ∈ localIds)) with
  | nil =>
    rw [hids] at hmem
    exact .inl ⟨rfl, fun groupId hin hlocal => not_mem_nil ((hmem groupId).mpr ⟨hin, hlocal⟩)⟩
  | cons first rest =>
    rw [hids] at hmem
    exact .inr ⟨first, rest, rfl, hmem⟩

/-- One round of the merge at a child: either it fails because of an empty course
entry, or the new value says what the rules of the child say. -/
theorem mergeAt_mergedSays {merged : Option MergedGroups}
    (hsaid : MergedSays parent partitionId merged) (own : Option GroupAccess) :
    (∃ err, mergeAt merged (entryAt (.child parent own) partitionId) = .error err ∧
      (child parent own).RuleBelowEmptyEntry partitionId) ∨
    (∃ result, mergeAt merged (entryAt (.child parent own) partitionId) = .ok result ∧
      MergedSays (.child parent own) partitionId result) := by
  by_cases hemp : (entryAt (.child parent own) partitionId).getD [] = []
  · have hrules := rules_child_of_empty hemp
    refine .inr ⟨merged, ?_, ?_⟩
    · unfold mergeAt
      rcases hent : entryAt (.child parent own) partitionId with _ | _ | ⟨first, rest⟩
      · rfl
      · rfl
      · rw [hent] at hemp
        cases hemp
    · unfold MergedSays RuleBelowEmptyEntry RulesExcludeAll at hsaid ⊢
      rw [hrules]
      exact hsaid
  obtain ⟨first, rest, hent⟩ : ∃ first rest, entryAt (.child parent own) partitionId = some (first :: rest) := by
    rcases hent : entryAt (.child parent own) partitionId with _ | _ | ⟨first, rest⟩
    · rw [hent] at hemp
      exact absurd rfl hemp
    · rw [hent] at hemp
      exact absurd rfl hemp
    · exact ⟨first, rest, rfl⟩
  have hmem := mem_rules_child hent
  have hrules : (child parent own).rules partitionId ≠ [] := ne_nil_of_mem ((hmem (first :: rest)).mpr (.inr rfl))
  rw [hent]
  rcases merged with _ | _ | ⟨_ | ⟨head, tail⟩⟩ | _
  · -- the first rule for the partition is taken as it stands
    obtain ⟨hnone, hcrs⟩ := hsaid
    refine .inr ⟨_, rfl, hrules, ?_, fun groupId => ?_⟩
    · rintro ⟨hcour, -⟩
      change parent.courseEntry partitionId = _ ∨ parent.courseEntry partitionId = _ at hcour
      rw [hcrs] at hcour
      rcases hcour with h | h <;> cases h
    · constructor
      · intro hin rule hrule
        rcases (hmem rule).mp hrule with hrule | rfl
        · rw [hnone] at hrule
          cases hrule
        · exact hin
      · exact fun hall => hall _ ((hmem _).mpr (.inr rfl))
  · exact .inl ⟨_, rfl, .inl hsaid.2, hrules⟩
  · exact .inr ⟨_, rfl, hrules, .inl ⟨.inr hsaid.2, hrules⟩⟩
  · obtain ⟨hpare, hnot, hids⟩ := hsaid
    have hnotE : ¬ (child parent own).RuleBelowEmptyEntry partitionId :=
      fun hbel => hnot ⟨hbel.1, hpare⟩
    rcases mem_intersectGroups (head :: tail) (first :: rest) with
      ⟨hexcd, hdisj⟩ | ⟨newFirst, newRest, hnew, hnewMem⟩
    · refine .inr ⟨some .excluded, congrArg (Except.ok ∘ some) hexcd, hrules, .inr ⟨hrules, fun groupId => ?_⟩⟩
      by_cases hin : groupId ∈ first :: rest
      · have hout : groupId ∉ head :: tail := fun h => hdisj groupId h hin
        rw [hids] at hout
        push Not at hout
        obtain ⟨rule, hrule, hnotin⟩ := hout
        exact ⟨rule, (hmem rule).mpr (.inl hrule), hnotin⟩
      · exact ⟨first :: rest, (hmem _).mpr (.inr rfl), hin⟩
    · refine .inr ⟨some (.ids (newFirst :: newRest)), congrArg (Except.ok ∘ some) hnew, hrules,
        hnotE, fun groupId => ?_⟩
      rw [hnewMem, hids]
      constructor
      · rintro ⟨hall, hlocal⟩ rule hrule
        rcases (hmem rule).mp hrule with hrule | rfl
        · exact hall rule hrule
        · exact hlocal
      · exact fun hall => ⟨fun rule hrule => hall rule ((hmem rule).mpr (.inl hrule)),
          hall _ ((hmem _).mpr (.inr rfl))⟩
  · obtain ⟨hpare, hwhy⟩ := hsaid
    exact .inr ⟨_, rfl, hrules, hwhy.imp (·.child own) (·.child own)⟩

/-- The merge fails only because of a rule below an empty course entry, and
otherwise says for every partition what the rules say. -/
theorem mergedGroupAccess_mergedSays (block : CourseBlock) : (∃ err, block.mergedGroupAccess = .error err ∧
      ∃ partitionId, block.RuleBelowEmptyEntry partitionId) ∨
    (∃ merged, block.mergedGroupAccess = .ok merged ∧
      ∀ partitionId, MergedSays block partitionId (merged.lookup partitionId)) := by
  induction block with
  | course own =>
    refine .inr ⟨_, rfl, fun partitionId => ?_⟩
    rw [lookup_ofList_map]
    unfold MergedSays RuleBelowEmptyEntry rules courseEntry GroupAccess.rules
    rcases hlook : (own.getD ∅).lookup partitionId with _ | _ | _ | ⟨first, rest⟩ <;> simp [rawGroups]
  | child parent own ih =>
    unfold mergedGroupAccess
    rcases ih with ⟨err, herr, partitionId, hbel⟩ | ⟨merged, hmgd, hsaid⟩
    · rw [herr]
      exact .inl ⟨err, rfl, partitionId, hbel.child own⟩
    rw [hmgd]
    rcases mergeEntries_cases (child parent own).groupAccess.nodupKeys merged with
      ⟨err, herr, partitionId, hat⟩ | ⟨result, hres, hall⟩
    · rcases mergeAt_mergedSays (hsaid partitionId) own with ⟨-, -, hbel⟩ | ⟨result, hres, -⟩
      · exact .inl ⟨err, herr, partitionId, hbel⟩
      · cases hat.symm.trans hres
    · refine .inr ⟨result, hres, fun partitionId => ?_⟩
      rcases mergeAt_mergedSays (hsaid partitionId) own with ⟨err, herr, -⟩ | ⟨value, hval, hch⟩
      · cases herr.symm.trans (hall partitionId)
      · cases hval.symm.trans (hall partitionId)
        exact hch

theorem find?_eq_some_of_nodup {α : Type} {elements : List α} {id : α → Int}
    (huniq : (elements.map id).Nodup) (wanted : Int) (element : α) :
    elements.find? (fun other => decide (id other = wanted)) = some element ↔
      element ∈ elements ∧ id element = wanted := by
  constructor
  · intro hfind
    exact ⟨mem_of_find?_eq_some hfind, of_decide_eq_true
      (find?_some (p := fun other => decide (id other = wanted)) hfind)⟩
  · rintro ⟨hmem, hid⟩
    have hsome : (elements.find? (fun other => decide (id other = wanted))).isSome = true := by
      rw [List.find?_isSome]
      exact ⟨element, hmem, decide_eq_true hid⟩
    obtain ⟨found, hfnd⟩ := isSome_iff_exists.mp hsome
    have hfoundId : id found = wanted := of_decide_eq_true
      (find?_some (p := fun other => decide (id other = wanted)) hfnd)
    rw [hfnd, inj_on_of_nodup_map huniq (mem_of_find?_eq_some hfnd) hmem (hfoundId.trans hid.symm)]

variable (list : UserPartitionList)

theorem getUserPartition_eq_some (partitionId : Int) (partition : UserPartition) :
    getUserPartition list.partitions partitionId = some partition ↔
      partition ∈ list.partitions ∧ partition.id = partitionId :=
  find?_eq_some_of_nodup list.ids_unique partitionId partition

theorem getGroup_eq_some (partition : UserPartition) (groupId : Int) (group : Group) :
    partition.getGroup groupId = some group ↔ group ∈ partition.groups ∧ group.id = groupId :=
  find?_eq_some_of_nodup partition.groups_unique groupId group

theorem getGroups_eq_some (partition : UserPartition) {groupIds : List Int}
    (hdef : ∀ groupId ∈ groupIds, ∃ group ∈ partition.groups, group.id = groupId) :
    ∃ groups, partition.getGroups groupIds = some groups ∧ (groups = [] ↔ groupIds = []) ∧
      ∀ group, group ∈ groups ↔ group ∈ partition.groups ∧ group.id ∈ groupIds := by
  induction groupIds with
  | nil => exact ⟨[], rfl, by simp, fun group => by simp⟩
  | cons groupId groupIds ih =>
    obtain ⟨head, hhead, hid⟩ := hdef groupId mem_cons_self
    obtain ⟨groups, hgrps, -, hmem⟩ := ih fun other hoth => hdef other (mem_cons_of_mem _ hoth)
    refine ⟨head :: groups, ?_, by simp, fun group => ?_⟩
    · unfold UserPartition.getGroups
      rw [(getGroup_eq_some partition groupId head).mpr ⟨hhead, hid⟩, hgrps]
    · rw [mem_cons, mem_cons, hmem]
      constructor
      · rintro (rfl | ⟨hgrp, hin⟩)
        · exact ⟨hhead, .inl hid⟩
        · exact ⟨hgrp, .inr hin⟩
      · rintro ⟨hgrp, hin | hin⟩
        · exact .inl (inj_on_of_nodup_map partition.groups_unique hgrp hhead (hin.trans hid.symm))
        · exact .inr ⟨hgrp, hin⟩

theorem checkedPartitions_eq_some (entries : List (Int × MergedGroups))
    (hdef : ∀ entry ∈ entries, ∃ partition ∈ list.partitions, partition.id = entry.1) :
    ∃ checked, checkedPartitions list.partitions entries = some checked ∧
      ∀ partition, partition ∈ checked ↔ partition ∈ list.partitions ∧
        partition.active = true ∧ ∃ groupIds, (partition.id, groupIds) ∈ entries ∧ groupIds ≠ .none := by
  induction entries with
  | nil => exact ⟨[], rfl, fun partition => by simp⟩
  | cons entry entries ih =>
    obtain ⟨partitionId, groupIds⟩ := entry
    obtain ⟨head, hhead, hid⟩ := hdef _ mem_cons_self
    obtain ⟨checked, hchecked, hmem⟩ := ih fun other hoth => hdef other (mem_cons_of_mem _ hoth)
    change head.id = partitionId at hid
    subst hid
    have hlook := (getUserPartition_eq_some list head.id head).mpr ⟨hhead, rfl⟩
    unfold checkedPartitions
    rw [hlook, hchecked]
    have hsame : ∀ partition ∈ list.partitions, partition.id = head.id → partition = head :=
      fun partition hpart heq => eq_of_id_eq list.ids_unique hpart hhead heq
    by_cases hcheck : head.active = true ∧ groupIds ≠ .none
    · refine ⟨head :: checked, by simp [hcheck.1, hcheck.2], fun partition => ?_⟩
      rw [mem_cons, hmem]
      constructor
      · rintro (rfl | ⟨hpart, hact, found, hfnd, hne⟩)
        · exact ⟨hhead, hcheck.1, groupIds, mem_cons_self, hcheck.2⟩
        · exact ⟨hpart, hact, found, mem_cons_of_mem _ hfnd, hne⟩
      · rintro ⟨hpart, hact, found, hfnd, hne⟩
        rcases mem_cons.mp hfnd with heq | hfnd
        · exact .inl (hsame partition hpart (Prod.mk.inj heq).1)
        · exact .inr ⟨hpart, hact, found, hfnd, hne⟩
    · refine ⟨checked, ?_, fun partition => ?_⟩
      · dsimp only
        rw [if_neg]
        simpa using hcheck
      · rw [hmem]
        constructor
        · rintro ⟨hpart, hact, found, hfnd, hne⟩
          exact ⟨hpart, hact, found, mem_cons_of_mem _ hfnd, hne⟩
        · rintro ⟨hpart, hact, found, hfnd, hne⟩
          rcases mem_cons.mp hfnd with heq | hfnd
          · obtain ⟨hid, rfl⟩ := Prod.mk.inj heq
            rw [hsame partition hpart hid] at hact
            exact absurd ⟨hact, hne⟩ hcheck
          · exact ⟨hpart, hact, found, hfnd, hne⟩

theorem partitionGroups_eq_some (merged : Dict Int MergedGroups) {checked : List UserPartition}
    (hdef : ∀ partition ∈ checked, ∀ groupId ∈ allowedIds merged partition.id,
      ∃ group ∈ partition.groups, group.id = groupId) :
    ∃ resolved, partitionGroups merged checked = some resolved ∧
      (∀ partition ∈ checked, allowedIds merged partition.id ≠ [] → ∃ groups, (partition, groups) ∈ resolved) ∧
      ∀ entry ∈ resolved, entry.1 ∈ checked ∧ allowedIds merged entry.1.id ≠ [] ∧ ∀ group, group ∈ entry.2 ↔
          group ∈ entry.1.groups ∧ group.id ∈ allowedIds merged entry.1.id := by
  induction checked with
  | nil => exact ⟨[], rfl, by simp, by simp⟩
  | cons partition checked ih =>
    obtain ⟨groups, hgrps, hemp, hmem⟩ := getGroups_eq_some partition (hdef partition mem_cons_self)
    obtain ⟨resolved, hreso, hcom, hsnd⟩ := ih fun other hoth => hdef other (mem_cons_of_mem _ hoth)
    have hsoun : ∀ entry ∈ resolved, entry.1 ∈ partition :: checked ∧
        allowedIds merged entry.1.id ≠ [] ∧ ∀ group, group ∈ entry.2 ↔
          group ∈ entry.1.groups ∧ group.id ∈ allowedIds merged entry.1.id :=
      fun entry hent => ⟨mem_cons_of_mem _ (hsnd entry hent).1, (hsnd entry hent).2⟩
    unfold partitionGroups
    rw [hgrps, hreso]
    by_cases hnone : groups = []
    · refine ⟨resolved, by simp [hnone], ?_, hsoun⟩
      intro other hoth hids
      rcases mem_cons.mp hoth with rfl | hoth
      · exact absurd (hemp.mp hnone) hids
      · exact hcom other hoth hids
    · refine ⟨(partition, groups) :: resolved, by simp [hnone], ?_, ?_⟩
      · intro other hoth hids
        rcases mem_cons.mp hoth with rfl | hoth
        · exact ⟨groups, mem_cons_self⟩
        · obtain ⟨found, hfnd⟩ := hcom other hoth hids
          exact ⟨found, mem_cons_of_mem _ hfnd⟩
      · intro entry hent
        rcases mem_cons.mp hent with rfl | hent
        · exact ⟨mem_cons_self, fun h => hnone (hemp.mpr h), hmem⟩
        · exact hsoun entry hent

variable {block : CourseBlock}

theorem CourseBlock.Defined.partition_of_courseEntry (hdef : block.Defined partitions)
    {groupIds : Option (List Int)} (hent : block.courseEntry partitionId = some groupIds) :
    ∃ partition ∈ partitions, partition.id = partitionId := by
  induction block with
  | course own =>
    obtain ⟨partition, hpart, hid, -⟩ := hdef partitionId groupIds hent
    exact ⟨partition, hpart, hid⟩
  | child parent own ih => exact ih hdef.1 hent

theorem CourseBlock.Defined.of_rule (hdef : block.Defined partitions) {rule : List Int}
    (hrule : rule ∈ block.rules partitionId) :
    ∃ partition ∈ partitions, partition.id = partitionId ∧
      ∀ groupId ∈ rule, ∃ group ∈ partition.groups, group.id = groupId := by
  have hlook : ∀ groupAccess : GroupAccess, rule ∈ groupAccess.rules partitionId →
      groupAccess.lookup partitionId = some (some rule) := by
    intro groupAccess hmem
    unfold GroupAccess.rules at hmem
    split at hmem
    · next heq => rw [heq, mem_singleton.mp hmem]
    · cases hmem
  induction block with
  | course own => exact hdef partitionId (some rule) (hlook _ hrule)
  | child parent own ih =>
    rcases mem_append.mp hrule with hrule | hrule
    · exact ih hdef.1 hrule
    · exact hdef.2 partitionId (some rule) (hlook _ hrule)

/-! ## Agreement -/

theorem split_length_ne (list : UserPartitionList)
    (hnon : ∃ partition ∈ list.partitions, partition.schemeName ≠ "random") :
    list.partitions.length ≠ (getSplitUserPartitions list.partitions).length := by
  intro hlen
  obtain ⟨partition, hpart, hscheme⟩ := hnon
  have hall := List.length_filter_eq_length_iff.mp hlen.symm partition hpart
  exact hscheme (of_decide_eq_true hall)

variable {merged : Dict Int MergedGroups}

section

variable (hsaid : ∀ partitionId, MergedSays block partitionId (merged.lookup partitionId))
include hsaid

theorem mem_allowedIds (hrules : block.rules partitionId ≠ []) (hmgd : merged.lookup partitionId ≠ some .excluded) :
    allowedIds merged partitionId ≠ [] ∧ ∀ groupId, groupId ∈ allowedIds merged partitionId ↔
        ∀ rule ∈ block.rules partitionId, groupId ∈ rule := by
  have hpart := hsaid partitionId
  unfold allowedIds
  rcases hlook : merged.lookup partitionId with _ | _ | ⟨_ | ⟨first, rest⟩⟩ | _ <;> rw [hlook] at hpart
  · exact absurd hpart.1 hrules
  · exact absurd hpart.1 hrules
  · exact absurd hpart.1 hrules
  · exact ⟨cons_ne_nil _ _, hpart.2.2⟩
  · exact absurd hlook hmgd

theorem allowedIds_eq_nil (hrules : block.rules partitionId = []) : allowedIds merged partitionId = [] := by
  have hpart := hsaid partitionId
  unfold allowedIds
  split
  · next groupIds hlook =>
      rw [hlook] at hpart
      cases groupIds with
      | nil => rfl
      | cons first rest => exact absurd hrules hpart.1
  · rfl

end

section Merged

variable {list : UserPartitionList} {block : CourseBlock} {merged : Dict Int MergedGroups} {partitionId : Int}

theorem partition_of_merged (hdef : block.Defined list.partitions)
    (hsaid : ∀ partitionId, MergedSays block partitionId (merged.lookup partitionId)) {groupIds : MergedGroups}
    (hlook : merged.lookup partitionId = some groupIds) :
    ∃ partition ∈ list.partitions, partition.id = partitionId := by
  have hpart := hsaid partitionId
  rw [hlook] at hpart
  by_cases hrules : block.rules partitionId = []
  · rcases groupIds with _ | ⟨_ | _⟩ | _
    · exact hdef.partition_of_courseEntry hpart.2
    · exact hdef.partition_of_courseEntry hpart.2
    · exact absurd hrules hpart.1
    · exact absurd hrules hpart.1
  · obtain ⟨rule, hmem⟩ := exists_mem_of_ne_nil _ hrules
    obtain ⟨partition, hin, hid, -⟩ := hdef.of_rule hmem
    exact ⟨partition, hin, hid⟩

theorem rules_ne_nil_of_allowed (hsaid : ∀ partitionId, MergedSays block partitionId (merged.lookup partitionId))
    (hids : allowedIds merged partitionId ≠ []) :
    block.rules partitionId ≠ [] :=
  fun hnil => hids (allowedIds_eq_nil hsaid hnil)

theorem group_of_allowed (hdef : block.Defined list.partitions)
    (hsaid : ∀ partitionId, MergedSays block partitionId (merged.lookup partitionId))
    (hkept : ∀ partitionId, merged.lookup partitionId ≠ some .excluded)
    {partition : UserPartition} (hpart : partition ∈ list.partitions) {groupId : Int}
    (hgroupId : groupId ∈ allowedIds merged partition.id) :
    ∃ group ∈ partition.groups, group.id = groupId := by
  have hrules := rules_ne_nil_of_allowed hsaid (ne_nil_of_mem hgroupId)
  obtain ⟨rule, hmem⟩ := exists_mem_of_ne_nil _ hrules
  obtain ⟨other, hoth, hid, hgrps⟩ := hdef.of_rule hmem
  rw [eq_of_id_eq list.ids_unique hoth hpart hid] at hgrps
  exact hgrps groupId (((mem_allowedIds hsaid hrules (hkept _)).2 groupId).mp hgroupId rule hmem)

theorem lookup_of_allowed (hids : allowedIds merged partitionId ≠ []) :
    ∃ groupIds, merged.lookup partitionId = some groupIds ∧ groupIds ≠ .none := by
  unfold allowedIds at hids
  split at hids
  · next groupIds heq => exact ⟨.ids groupIds, heq, by simp⟩
  · exact absurd rfl hids

theorem any_excluded_eq_false (hkept : ∀ partitionId, merged.lookup partitionId ≠ some .excluded) :
    merged.entries.any (fun entry => decide (entry.2 = .excluded)) = false := by
  rw [any_eq_false]
  rintro ⟨partitionId, groupIds⟩ hent heq
  refine hkept partitionId ?_
  rw [← show groupIds = MergedGroups.excluded from of_decide_eq_true heq]
  exact mem_lookup_iff.mpr hent

theorem lookup_userGroups (assignment : GroupAssignment) {resolved : List (UserPartition × List Group)}
    (hreso : ∀ entry ∈ resolved, entry.1 ∈ list.partitions)
    {entry : UserPartition × List Group} (hent : entry ∈ resolved) :
    (ofList (resolved.map fun entry =>
      (entry.1.id, assignment.getGroupForUser entry.1))).lookup entry.1.id =
        some (assignment.getGroupForUser entry.1) := by
  rw [lookup_ofList]
  · exact mem_map_of_mem (f := fun entry : UserPartition × List Group =>
      (entry.1.id, assignment.getGroupForUser entry.1)) hent
  · simp only [mem_map]
    rintro - ⟨first, hfst, rfl⟩ - ⟨second, hsec, rfl⟩ heq
    exact congrArg assignment.getGroupForUser (eq_of_id_eq list.ids_unique (hreso first hfst) (hreso second hsec) heq)

end Merged

section

variable (list : UserPartitionList) (assignment : GroupAssignment)
  (hnon : ∃ partition ∈ list.partitions, partition.schemeName ≠ "random")
  (hdef : block.Defined list.partitions)
include hnon hdef

/-- Once the merge has left no `False` marker, the courseware asks for what the
rules of the active partitions ask for. -/
theorem hasGroupAccess_of_merged (hmgd : block.mergedGroupAccess = .ok merged)
    (hsaid : ∀ partitionId, MergedSays block partitionId (merged.lookup partitionId))
    (hkept : ∀ partitionId, merged.lookup partitionId ≠ some .excluded) :
    hasGroupAccess list.partitions assignment block = .ok true ↔ ¬ block.DeniedByRule list.partitions assignment := by
  obtain ⟨checked, hchecked, hchec⟩ := checkedPartitions_eq_some list
    (merged.entries.map fun entry => (entry.1, entry.2)) fun _ hent =>
      partition_of_merged hdef hsaid (mem_items_iff.mp hent)
  obtain ⟨resolved, hreso, hcom, hsnd⟩ := partitionGroups_eq_some merged fun partition hpart _ hgroupId =>
      group_of_allowed hdef hsaid hkept ((hchec partition).mp hpart).1 hgroupId
  have hin : ∀ entry ∈ resolved, entry.1 ∈ list.partitions := fun entry hent => ((hchec _).mp (hsnd entry hent).1).1
  unfold hasGroupAccess
  rw [if_neg (split_length_ne list hnon), hmgd]
  dsimp only
  rw [any_excluded_eq_false hkept, hchecked]
  dsimp only
  rw [hreso]
  simp only [false_eq_true, if_false, Except.ok.injEq, all_eq_true]
  constructor
  · rintro hall ⟨partition, hpart, hact, rule, hmem, hden⟩
    obtain ⟨hids, hidsMem⟩ := mem_allowedIds hsaid (ne_nil_of_mem hmem) (hkept _)
    obtain ⟨groupIds, hlook, hne⟩ := lookup_of_allowed hids
    obtain ⟨groups, hgrps⟩ := hcom partition ((hchec partition).mpr
      ⟨hpart, hact, groupIds, mem_items_iff.mpr hlook, hne⟩) hids
    have hent := hall _ hgrps
    rw [lookup_userGroups assignment hin hgrps] at hent
    dsimp only [Option.join] at hent
    cases hgrp : assignment.getGroupForUser partition with
    | none => simp [hgrp] at hent
    | some group =>
      have hmemG : group ∈ groups := by simpa [hgrp] using hent
      exact hden group hgrp ((hidsMem group.id).mp (((hsnd _ hgrps).2.2 group).mp hmemG).2 rule hmem)
  · intro hpass entry hent
    obtain ⟨hmemC, hids, hgrps⟩ := hsnd entry hent
    obtain ⟨hpart, hact, -⟩ := (hchec _).mp hmemC
    have hrules := rules_ne_nil_of_allowed hsaid hids
    obtain ⟨group, hgrp, hnamed⟩ := group_of_not_denied hpass hpart hact hrules
    rw [lookup_userGroups assignment hin hent, hgrp]
    exact decide_eq_true ((hgrps group).mpr ⟨assignment.mem_groups _ _ hgrp,
      ((mem_allowedIds hsaid hrules (hkept _)).2 _).mpr hnamed⟩)

/-- The courseware grants access when no rule lies below an empty course entry,
no rules leave an empty set of groups, and no active rule denies the user. -/
theorem hasGroupAccess_iff : hasGroupAccess list.partitions assignment block = .ok true ↔
      (∀ partitionId, ¬ block.RuleBelowEmptyEntry partitionId ∧ ¬ block.RulesExcludeAll partitionId) ∧
      ¬ block.DeniedByRule list.partitions assignment := by
  have hnotNil := split_length_ne list hnon
  rcases mergedGroupAccess_mergedSays block with
    ⟨err, herr, partitionId, hbel⟩ | ⟨merged, hmgd, hsaid⟩
  · constructor
    · intro hgran
      unfold hasGroupAccess at hgran
      rw [if_neg hnotNil, herr] at hgran
      cases hgran
    · exact fun hall => absurd hbel (hall.1 partitionId).1
  by_cases hkept : ∀ partitionId, merged.lookup partitionId ≠ some .excluded
  · rw [hasGroupAccess_of_merged list assignment hnon hdef hmgd hsaid hkept]
    refine ⟨fun hpass => ⟨fun partitionId => ⟨?_, ?_⟩, hpass⟩, And.right⟩
    · intro hbel
      have hids := mem_allowedIds hsaid hbel.2 (hkept partitionId)
      have hpart := hsaid partitionId
      unfold allowedIds at hids
      split at hids
      · next groupIds hlook =>
          rw [hlook] at hpart
          cases groupIds with
          | nil => exact hids.1 rfl
          | cons first rest => exact hpart.2.1 hbel
      · exact hids.1 rfl
    · intro hexc
      obtain ⟨hids, hmem⟩ := mem_allowedIds hsaid hexc.1 (hkept partitionId)
      obtain ⟨groupId, hgroupId⟩ := exists_mem_of_ne_nil _ hids
      obtain ⟨rule, hrule, hout⟩ := hexc.2 groupId
      exact hout ((hmem groupId).mp hgroupId rule hrule)
  · push Not at hkept
    obtain ⟨partitionId, hexcd⟩ := hkept
    have hpart := hsaid partitionId
    rw [hexcd] at hpart
    have hmar : merged.entries.any (fun entry => decide (entry.2 = .excluded)) = true :=
      any_eq_true.mpr ⟨_, mem_lookup_iff.mp hexcd, rfl⟩
    constructor
    · intro hgran
      unfold hasGroupAccess at hgran
      rw [if_neg hnotNil, hmgd] at hgran
      dsimp only at hgran
      rw [hmar] at hgran
      cases hgran
    · intro hall
      rcases hpart.2 with hbel | hexc
      · exact absurd hbel (hall.1 partitionId).1
      · exact absurd hexc (hall.1 partitionId).2

end

/-- The two checks agree on a block exactly when an active rule denies the user,
or no rule lies below an empty course entry and the rules for each inactive
partition leave some group. -/
theorem hasGroupAccess_agrees_iff (list : UserPartitionList) (assignment : GroupAssignment) {block : CourseBlock}
    (hnonSplit : ∃ partition ∈ list.partitions, partition.schemeName ≠ "random")
    (hdefined : block.Defined list.partitions) :
    (hasGroupAccess list.partitions assignment block = .ok true ↔
        passesUserPartitions list.partitions assignment block = true) ↔
      (block.DeniedByRule list.partitions assignment ∨ (∀ partitionId, ¬ block.RuleBelowEmptyEntry partitionId) ∧
        ∀ partition ∈ list.partitions, partition.active = false → ¬ block.RulesExcludeAll partition.id) := by
  rw [hasGroupAccess_iff list assignment hnonSplit hdefined, passesUserPartitions_iff]
  by_cases hdenied : block.DeniedByRule list.partitions assignment
  · simp [hdenied]
  -- the rules of an active partition leave the user's own group
  have hactive : ∀ partition ∈ list.partitions, partition.active = true → ¬ block.RulesExcludeAll partition.id := by
    intro partition hpartition hactive hexclude
    obtain ⟨group, -, hnamed⟩ := CourseBlock.group_of_not_denied hdenied hpartition hactive hexclude.1
    obtain ⟨rule, hrule, hout⟩ := hexclude.2 group.id
    exact hout (hnamed rule hrule)
  have hpartitions : (∀ partitionId, ¬ block.RulesExcludeAll partitionId) ↔
      ∀ partition ∈ list.partitions, partition.active = false → ¬ block.RulesExcludeAll partition.id := by
    refine ⟨fun hall partition _ _ => hall partition.id, fun hinactive partitionId hexclude => ?_⟩
    obtain ⟨rule, hrule⟩ := exists_mem_of_ne_nil _ hexclude.1
    obtain ⟨partition, hpartition, rfl, -⟩ := hdefined.of_rule hrule
    cases hstate : partition.active with
    | true => exact hactive partition hpartition hstate hexclude
    | false => exact hinactive partition hpartition hstate hexclude
  rw [forall_and, hpartitions]
  simp [hdenied]

def cohortCourse : CourseBlock := .course (some (ofList [(1, some [])]))

def cohortUnit : CourseBlock := .child cohortCourse (some (ofList [(1, some [10])]))

def cohortPartition : UserPartition where
  id := 1
  groups := [⟨10, "first"⟩, ⟨11, "second"⟩]
  schemeName := "cohort"
  active := true
  groups_unique := by decide

def cohortPartitions : UserPartitionList := ⟨[cohortPartition], by decide⟩

def firstGroup : GroupAssignment where
  getGroupForUser := fun partition => partition.groups.head?
  mem_groups := fun _ _ hgroup => List.mem_of_head? hgroup

theorem definedIn_of_entry (hpart : partition ∈ partitions) (groupIds : Option (List Int))
    (hgrps : ∀ groupId ∈ groupIds.getD [], ∃ group ∈ partition.groups, group.id = groupId) :
    Defined.DefinedIn partitions (ofList [(partition.id, groupIds)]) := by
  intro partitionId found hlook
  rw [lookup_ofList (by simp)] at hlook
  obtain ⟨rfl, rfl⟩ := Prod.mk.inj (mem_singleton.mp hlook)
  exact ⟨partition, hpart, rfl, hgrps⟩

theorem cohortUnit_defined : cohortUnit.Defined cohortPartitions.partitions :=
  ⟨definedIn_of_entry (mem_singleton_self cohortPartition) (some []) (by decide),
    definedIn_of_entry (mem_singleton_self cohortPartition) (some [10]) (by decide)⟩

theorem cohortUnit_agrees_iff : (hasGroupAccess cohortPartitions.partitions firstGroup cohortUnit = .ok true ↔
        passesUserPartitions cohortPartitions.partitions firstGroup cohortUnit = true) ↔
      (cohortUnit.DeniedByRule cohortPartitions.partitions firstGroup ∨
        (∀ partitionId, ¬ cohortUnit.RuleBelowEmptyEntry partitionId) ∧
        ∀ partition ∈ cohortPartitions.partitions, partition.active = false →
          ¬ cohortUnit.RulesExcludeAll partition.id) :=
  hasGroupAccess_agrees_iff cohortPartitions firstGroup
    ⟨cohortPartition, mem_singleton_self _, by decide⟩ cohortUnit_defined

/-- A member of the group is denied by the courseware and passed by the transformer. -/
theorem cohortUnit_disagrees : cohortUnit.Defined cohortPartitions.partitions ∧
      hasGroupAccess cohortPartitions.partitions firstGroup cohortUnit = .ok false ∧
      passesUserPartitions cohortPartitions.partitions firstGroup cohortUnit = true := by
  refine ⟨cohortUnit_defined, by decide, by decide⟩

end EdxPlatform
