import EdxPlatform.Cohorts.Groups
import EdxPlatform.Lib.Runs

/-!
# Memberships of cohorts

Which calls keep the two forms of the memberships in step, and when an automatic
assignment goes to a random cohort.
-/

namespace EdxPlatform.Cohorts

namespace Tables

variable {Course User : Type} [DecidableEq Course] [DecidableEq User]
  {tables others : Tables Course User} {surroundings : Surroundings Course User}

/-- Nothing changed in what the memberships are about. -/
structure SameMembers (tables others : Tables Course User) : Prop where
  users : others.users = tables.users
  memberships : others.memberships = tables.memberships
  assigned : others.assigned = tables.assigned

open SameMembers

theorem SameMembers.refl (tables : Tables Course User) : SameMembers tables tables := ⟨rfl, rfl, rfl⟩

theorem SameMembers.trans {third : Tables Course User} (hfst : SameMembers tables others)
    (hsec : SameMembers others third) : SameMembers tables third :=
  ⟨hsec.users.trans hfst.users, hsec.memberships.trans hfst.memberships, hsec.assigned.trans hfst.assigned⟩

theorem Coherent.congr (hcoh : tables.Coherent) (hsame : SameMembers tables others) :
    others.Coherent := by
  obtain ⟨huniq, hcrs, husers, hran⟩ := hcoh
  obtain ⟨hsam, hmshp, hasgn⟩ := hsame
  refine ⟨?_, ?_, ?_, ?_⟩
  · rw [hmshp]
    exact huniq
  · rw [hmshp]
    exact hcrs
  · rw [hmshp, hsam]
    exact husers
  · rw [hasgn]
    exact hran

theorem sameMembers_createByName (courseId : Course) (cohortName : String) (assignmentType : AssignmentType) :
    SameMembers tables (tables.createByName courseId cohortName assignmentType) := by
  rw [createByName, createCourseCohort, createGroup]
  split
  · exact ⟨rfl, rfl, rfl⟩
  · exact ⟨rfl, rfl, rfl⟩

theorem sameMembers_foldl {Item : Type} {change : Tables Course User → Item → Tables Course User}
    (hchan : ∀ tables item, SameMembers tables (change tables item)) (items : List Item) :
    SameMembers tables (items.foldl change tables) := by
  induction items generalizing tables with
  | nil => exact refl tables
  | cons item items ih => exact (hchan tables item).trans ih

theorem sameMembers_migrateCohortSettings (tables : Tables Course User) (courseId : Course)
    (course : CourseDescriptor) :
    SameMembers tables (tables.migrateCohortSettings courseId course) := by
  rw [migrateCohortSettings]
  split
  · exact refl tables
  · have hset : SameMembers tables { tables with settings := tables.settings.insert courseId course.isCohorted } :=
      ⟨rfl, rfl, rfl⟩
    refine (hset.trans (sameMembers_foldl ?_ _)).trans (sameMembers_foldl ?_ _)
    · exact fun _ _ => ⟨rfl, rfl, rfl⟩
    · exact fun _ _ => sameMembers_createByName _ _ _

theorem sameMembers_addCohort (courseId : Course) (name : String) (assignmentType : AssignmentType) :
    SameMembers tables (tables.addCohort surroundings courseId name assignmentType).1 := by
  rw [addCohort]
  split
  · exact refl tables
  · cases surroundings.getCourse courseId with
    | none => exact refl tables
    | some course => exact sameMembers_createByName courseId name assignmentType

theorem sameMembers_setAssignmentType (group : CourseUserGroup Course) (assignmentType : AssignmentType) :
    SameMembers tables (tables.setAssignmentType group assignmentType).1 := by
  rw [setAssignmentType]
  split
  · exact refl tables
  · split
    · exact refl tables
    · exact ⟨rfl, rfl, rfl⟩

variable {user : User}

theorem membershipIn_eq_none {courseId : Course} : tables.membershipIn courseId user = none ↔
      ∀ row ∈ tables.memberships, ¬ (row.user = user ∧ row.courseId = courseId) := by
  rw [membershipIn, List.find?_eq_none]
  refine forall_congr' fun row => forall_congr' fun _ => ?_
  rw [decide_eq_true_eq, and_comm]

variable {group other : CourseUserGroup Course} {someone : User}

theorem mem_addUser : (other, someone) ∈ (tables.addUser group user).users ↔
      (other, someone) ∈ tables.users ∨ other = group ∧ someone = user := by
  rw [addUser]
  split
  · next hmem =>
    refine (or_iff_left_of_imp ?_).symm
    rintro ⟨rfl, rfl⟩
    exact hmem
  · rw [mem_append, mem_singleton, Prod.mk.injEq]

theorem mem_removeUser : (other, someone) ∈ (tables.removeUser group user).users ↔
      (other, someone) ∈ tables.users ∧ ¬ (other = group ∧ someone = user) := by
  rw [removeUser, mem_filter, decide_eq_true_eq, ne_eq, Prod.mk.injEq]

theorem memberships_addUser (tables : Tables Course User) (group : CourseUserGroup Course) (user : User) :
    (tables.addUser group user).memberships = tables.memberships ∧
      (tables.addUser group user).assigned = tables.assigned := by
  rw [addUser]
  split
  · exact ⟨rfl, rfl⟩
  · exact ⟨rfl, rfl⟩

section

variable (hcoh : tables.Coherent)
include hcoh

theorem Coherent.insertMembership (hnone : tables.membershipIn group.courseId user = none) :
    (tables.insertMembership group user).Coherent := by
  obtain ⟨huniq, hcrs, husers, hran⟩ := hcoh
  obtain ⟨hmshp, hasgn⟩ := tables.memberships_addUser group user
  rw [membershipIn_eq_none] at hnone
  rw [Tables.insertMembership]
  refine ⟨?_, ?_, ?_, ?_⟩
  · dsimp only
    rw [hmshp, pairwise_append]
    refine ⟨huniq, List.pairwise_singleton _ _, fun row hrow other hoth => ?_⟩
    rw [mem_singleton.mp hoth]
    exact hnone row hrow
  · intro row hrow
    dsimp only at hrow
    rw [hmshp] at hrow
    rcases mem_append.mp hrow with hold | hnew
    · exact hcrs row hold
    · rw [mem_singleton.mp hnew]
  · intro other someone
    dsimp only
    rw [hmshp, mem_addUser, husers]
    constructor
    · rintro (⟨row, hrow, hsame⟩ | ⟨rfl, rfl⟩)
      · exact ⟨row, mem_append_left _ hrow, hsame⟩
      · exact ⟨_, mem_append_right _ mem_cons_self, rfl, rfl⟩
    · rintro ⟨row, hrow, hsame⟩
      rcases mem_append.mp hrow with hold | hnew
      · exact .inl ⟨row, hold, hsame⟩
      · rw [mem_singleton.mp hnew] at hsame
        exact .inr ⟨hsame.2.symm, hsame.1.symm⟩
  · dsimp only
    rw [hasgn]
    exact hran

theorem Coherent.eq_of_same {row other : CohortMembership Course User}
    (hrow : row ∈ tables.memberships) (hoth : other ∈ tables.memberships)
    (huser : row.user = other.user)
    (hgrp : row.courseUserGroup = other.courseUserGroup) : row = other := by
  by_contra hne
  have hsymm : Std.Symm fun row other : CohortMembership Course User =>
      ¬ (row.user = other.user ∧ row.courseId = other.courseId) :=
    ⟨fun _ _ hdif hsame => hdif ⟨hsame.1.symm, hsame.2.symm⟩⟩
  refine hcoh.unique.forall hrow hoth hne ⟨huser, ?_⟩
  rw [hcoh.courseId row hrow, hcoh.courseId other hoth, hgrp]

theorem Coherent.moveMembership {saved : CohortMembership Course User} (hsaved : saved ∈ tables.memberships)
    (hcrs : saved.courseId = group.courseId) : (tables.moveMembership saved group).Coherent := by
  obtain ⟨hsame, hasgn⟩ := (tables.removeUser saved.courseUserGroup saved.user).memberships_addUser group saved.user
  have hmshp : (tables.moveMembership saved group).memberships = tables.memberships.map fun row =>
        if row = saved then { row with courseUserGroup := group } else row := by
    rw [Tables.moveMembership]
    dsimp only
    rw [hsame]
    rfl
  have hkeep : ∀ row : CohortMembership Course User,
      (if row = saved then { row with courseUserGroup := group } else row).user = row.user ∧
      (if row = saved then { row with courseUserGroup := group } else row).courseId =
        row.courseId := by
    intro row
    split
    · exact ⟨rfl, rfl⟩
    · exact ⟨rfl, rfl⟩
  refine ⟨?_, ?_, ?_, ?_⟩
  · rw [hmshp, List.pairwise_map]
    refine hcoh.unique.imp ?_
    intro row other hdif hboth
    rw [(hkeep row).1, (hkeep other).1, (hkeep row).2, (hkeep other).2] at hboth
    exact hdif hboth
  · intro row hrow
    rw [hmshp] at hrow
    obtain ⟨old, hold, rfl⟩ := mem_map.mp hrow
    split
    · next hsaved =>
      rw [hsaved]
      exact hcrs
    · exact hcoh.courseId old hold
  · intro other someone
    rw [hmshp, Tables.moveMembership]
    dsimp only
    rw [mem_addUser, mem_removeUser, hcoh.users]
    constructor
    · rintro (⟨⟨row, hrow, rfl, rfl⟩, hleft⟩ | ⟨rfl, rfl⟩)
      · refine ⟨row, mem_map.mpr ⟨row, hrow, if_neg ?_⟩, rfl, rfl⟩
        rintro rfl
        exact hleft ⟨rfl, rfl⟩
      · exact ⟨_, mem_map.mpr ⟨saved, hsaved, if_pos rfl⟩, rfl, rfl⟩
    · rintro ⟨row, hrow, rfl, rfl⟩
      obtain ⟨old, hold, rfl⟩ := mem_map.mp hrow
      by_cases hmoved : old = saved
      · rw [if_pos hmoved, hmoved]
        exact .inr ⟨rfl, rfl⟩
      · rw [if_neg hmoved]
        refine .inl ⟨⟨old, hold, rfl, rfl⟩, fun hboth => hmoved ?_⟩
        exact hcoh.eq_of_same hold hsaved hboth.2 hboth.1
  · rw [Tables.moveMembership]
    dsimp only
    rw [hasgn]
    exact hcoh.random

theorem Coherent.deleteMembership {row : CohortMembership Course User} (hrow : row ∈ tables.memberships) :
    (tables.deleteMembership row).Coherent := by
  rw [Tables.deleteMembership]
  refine ⟨hcoh.unique.filter _, ?_, ?_, hcoh.random⟩
  · intro other hoth
    exact hcoh.courseId other (mem_of_mem_filter hoth)
  · intro group user
    dsimp only
    rw [mem_removeUser, hcoh.users]
    constructor
    · rintro ⟨⟨other, hoth, rfl, rfl⟩, hleft⟩
      refine ⟨other, mem_filter.mpr ⟨hoth, decide_eq_true ?_⟩, rfl, rfl⟩
      rintro rfl
      exact hleft ⟨rfl, rfl⟩
    · rintro ⟨other, hoth, rfl, rfl⟩
      obtain ⟨hmem, hne⟩ := mem_filter.mp hoth
      refine ⟨⟨other, hmem, rfl, rfl⟩, fun hboth => of_decide_eq_true hne ?_⟩
      exact hcoh.eq_of_same hmem hrow hboth.2 hboth.1

theorem Coherent.saveMembership (group : CourseUserGroup Course)
    (user : User) : (tables.saveMembership surroundings group user).1.Coherent := by
  rw [Tables.saveMembership]
  cases hfnd : tables.membershipIn group.courseId user with
  | none => exact hcoh.insertMembership hfnd
  | some saved =>
    have hsaved : saved ∈ tables.memberships := mem_of_find?_eq_some hfnd
    have hsame := find?_some hfnd
    rw [decide_eq_true_eq] at hsame
    dsimp only
    split
    · exact hcoh
    · exact hcoh.moveMembership hsaved hsame.1

section

variable (cohort : CourseUserGroup Course) (usernameOrEmail : String)

theorem Coherent.addUserToCohort : (tables.addUserToCohort surroundings cohort usernameOrEmail).1.Coherent := by
  rw [Tables.addUserToCohort]
  cases surroundings.getUserByUsernameOrEmail usernameOrEmail with
  | none => exact hcoh
  | some user => exact hcoh.saveMembership cohort user

theorem Coherent.removeUserFromCohort :
    (tables.removeUserFromCohort surroundings cohort usernameOrEmail).1.Coherent := by
  rw [Tables.removeUserFromCohort]
  cases surroundings.getUserByUsernameOrEmail usernameOrEmail with
  | none => exact hcoh
  | some user =>
    dsimp only
    split
    · next row hfnd => exact hcoh.deleteMembership (mem_of_find?_eq_some hfnd)
    · exact hcoh

end

end

section

variable (tables : Tables Course User) (cache : Dict (User × Course) (Option (CourseUserGroup Course)))

def withCache : Tables Course User := { tables with requestCache := cache }

theorem createByName_withCache (courseId : Course) (cohortName : String) (assignmentType : AssignmentType) :
    (tables.withCache cache).createByName courseId cohortName assignmentType =
      (tables.createByName courseId cohortName assignmentType).withCache cache := by
  rw [createByName, createByName, createGroup, createGroup]
  by_cases hmem : (⟨courseId, cohortName⟩ : CourseUserGroup Course) ∈ tables.groups
  · rw [if_pos hmem, if_pos (show _ ∈ (tables.withCache cache).groups from hmem)]
    rfl
  · rw [if_neg hmem, if_neg (show _ ∉ (tables.withCache cache).groups from hmem)]
    rfl

end

section

variable {Item : Type} {change : Tables Course User → Item → Tables Course User}

theorem foldl_withCache {cache : Dict (User × Course) (Option (CourseUserGroup Course))}
    (hchan : ∀ tables item, change (tables.withCache cache) item =
      (change tables item).withCache cache) (items : List Item) :
    items.foldl change (tables.withCache cache) = (items.foldl change tables).withCache cache := by
  induction items generalizing tables with
  | nil => rfl
  | cons item items ih =>
    rw [foldl_cons, hchan, ih]
    rfl

theorem migrateCohortSettings_withCache
    (cache : Dict (User × Course) (Option (CourseUserGroup Course))) (courseId : Course)
    (course : CourseDescriptor) :
    (tables.withCache cache).migrateCohortSettings courseId course =
      (tables.migrateCohortSettings courseId course).withCache cache := by
  rw [migrateCohortSettings, migrateCohortSettings]
  by_cases hmem : courseId ∈ tables.settings
  · rw [if_pos hmem, if_pos (show courseId ∈ (tables.withCache cache).settings from hmem)]
  · rw [if_neg hmem, if_neg (show courseId ∉ (tables.withCache cache).settings from hmem)]
    dsimp only
    rw [← foldl_withCache fun tables groupName => createByName_withCache tables cache _ _ _,
      ← foldl_withCache fun _ _ => rfl]
    rfl

theorem settings_foldl (hchan : ∀ tables item, (change tables item).settings = tables.settings) (items : List Item) :
    (items.foldl change tables).settings = tables.settings := by
  induction items generalizing tables with
  | nil => rfl
  | cons item items ih => rw [foldl_cons, ih, hchan]

end

theorem settings_createByName (courseId : Course) (cohortName : String) (assignmentType : AssignmentType) :
    (tables.createByName courseId cohortName assignmentType).settings = tables.settings := by
  rw [createByName, createGroup]
  split
  · rfl
  · rfl

theorem settings_migrateCohortSettings (courseId : Course) (course : CourseDescriptor) :
    (tables.migrateCohortSettings courseId course).settings.lookup courseId =
      some ((tables.settings.lookup courseId).getD course.isCohorted) := by
  rw [migrateCohortSettings]
  split
  · next hmem =>
    obtain ⟨isCohorted, hlook⟩ := mem_iff_lookup.mp hmem
    rw [hlook]
    rfl
  · next hmem =>
    dsimp only
    have hman : ∀ (tables : Tables Course User) group,
        (tables.createCourseCohort group .manual).settings = tables.settings := fun _ _ => rfl
    rw [settings_foldl fun _ _ => settings_createByName _ _ _, settings_foldl hman, lookup_eq_none.mpr hmem]
    exact lookup_insert_self _ _ _

theorem migrateCohortSettings_twice (tables : Tables Course User) (courseId : Course) (course : CourseDescriptor) :
    (tables.migrateCohortSettings courseId course).migrateCohortSettings courseId course =
      tables.migrateCohortSettings courseId course := by
  have hmem : courseId ∈ (tables.migrateCohortSettings courseId course).settings :=
    mem_iff_lookup.mpr ⟨_, settings_migrateCohortSettings courseId course⟩
  conv_lhs => rw [migrateCohortSettings, if_pos hmem]

theorem getCourseCohortSettings_cases (surroundings : Surroundings Course User)
    (tables : Tables Course User) (courseId : Course) :
    (∃ error, tables.getCourseCohortSettings surroundings courseId = (tables, .error error) ∧
      surroundings.getCourse courseId = none) ∨
    (∃ isCohorted, tables.getCourseCohortSettings surroundings courseId = (tables, .ok isCohorted) ∧
      surroundings.getCourse courseId = none) ∨
    (∃ course isCohorted, surroundings.getCourse courseId = some course ∧
      tables.getCourseCohortSettings surroundings courseId =
        (tables.migrateCohortSettings courseId course, .ok isCohorted) ∧
      (tables.migrateCohortSettings courseId course).settings.lookup courseId = some isCohorted) := by
  rw [getCourseCohortSettings]
  cases hcrs : surroundings.getCourse courseId with
  | none =>
    cases hset : tables.settings.lookup courseId with
    | none => exact .inl ⟨_, rfl, rfl⟩
    | some isCohorted => exact .inr (.inl ⟨isCohorted, rfl, rfl⟩)
  | some course =>
    refine .inr (.inr ⟨course, (tables.settings.lookup courseId).getD course.isCohorted, rfl, ?_,
      settings_migrateCohortSettings courseId course⟩)
    cases hset : tables.settings.lookup courseId with
    | none => rfl
    | some isCohorted =>
      rw [migrateCohortSettings, if_pos (mem_of_lookup hset)]
      rfl

theorem membershipIn_congr (hsame : SameMembers tables others) (courseId : Course) (user : User) :
    others.membershipIn courseId user = tables.membershipIn courseId user := by
  rw [membershipIn, membershipIn, hsame.memberships]

theorem getRandomCohort_spec {courseId : Course} {course : CourseDescriptor}
    (hcrs : surroundings.getCourse courseId = some course)
    (hmig : tables.migrateCohortSettings courseId course = tables) (choice : Nat) :
    ∃ mid cohort, tables.getRandomCohort surroundings courseId choice = (mid, .ok cohort) ∧
      SameMembers tables mid ∧ cohort.courseId = courseId ∧
      (mid.courseCohorts.lookup cohort = some .random ↔ (tables.courseCohortsOf courseId .random = [] →
          tables.courseCohorts.lookup ⟨courseId, defaultCohortName⟩ ≠ some .manual)) := by
  rw [getRandomCohort, hcrs]
  dsimp only
  rw [hmig]
  cases hcohor : tables.courseCohortsOf courseId .random with
  | nil =>
    refine ⟨_, _, rfl, sameMembers_createByName _ _ _, rfl, ?_⟩
    have hlook : (tables.createByName courseId defaultCohortName .random).courseCohorts.lookup
        ⟨courseId, defaultCohortName⟩ =
        some ((tables.courseCohorts.lookup ⟨courseId, defaultCohortName⟩).getD .random) := by
      rw [createByName, createCourseCohort, createGroup]
      split
      · rw [Dict.lookup_setDefault, if_pos rfl]
      · rw [Dict.lookup_setDefault, if_pos rfl]
    rw [hlook]
    cases tables.courseCohorts.lookup ⟨courseId, defaultCohortName⟩ with
    | none => simp
    | some assignmentType =>
      cases assignmentType with
      | random => simp
      | manual => simp
  | cons first rest =>
    have hbound : choice % (first :: rest).length < (first :: rest).length := Nat.mod_lt _ (Nat.succ_pos _)
    have hchos : (first :: rest)[choice % (first :: rest).length] ∈ tables.courseCohortsOf courseId .random := by
      rw [hcohor]
      exact List.getElem_mem hbound
    obtain ⟨-, hkind⟩ := mem_filter.mp hchos
    rw [decide_eq_true_eq] at hkind
    rw [getElem?_eq_getElem hbound]
    refine ⟨_, _, rfl, refl tables, hkind.1, ?_⟩
    exact iff_of_true hkind.2 fun hnil => absurd hnil (cons_ne_nil _ _)

section

variable (surroundings : Surroundings Course User) (tables : Tables Course User) (user : User) (courseId : Course)

theorem findCohort_spec (assign : Bool) (choice : Nat) :
    (SameMembers tables (tables.findCohort surroundings user courseId assign choice).1 ∧
      (assign = true → tables.PicksRandom surroundings user courseId)) ∨
    ∃ mid cohort, SameMembers tables mid ∧ tables.membershipIn cohort.courseId user = none ∧
      SameMembers (mid.assignCohort user cohort) (tables.findCohort surroundings user courseId assign choice).1 ∧
      (mid.courseCohorts.lookup cohort = some .random ↔
        (assign = true → tables.PicksRandom surroundings user courseId)) := by
  rw [findCohort]
  obtain ⟨error, hset, hcrs⟩ | ⟨isCohorted, hset, hcrs⟩ | ⟨course, isCohorted, hcrs, hset, hlook⟩ :=
      getCourseCohortSettings_cases surroundings tables courseId
  · rw [hset]
    refine .inl ⟨refl tables, fun _ _ course hfnd => ?_⟩
    exact absurd (hcrs.symm.trans hfnd) (some_ne_none course).symm
  · rw [hset]
    refine .inl ⟨?_, fun _ _ course hfnd => ?_⟩
    · cases isCohorted with
      | false => exact ⟨rfl, rfl, rfl⟩
      | true =>
        dsimp only
        cases tables.membershipIn courseId user with
        | some membership => exact ⟨rfl, rfl, rfl⟩
        | none =>
          cases assign with
          | false => exact refl tables
          | true =>
            rw [getRandomCohort, hcrs]
            exact refl tables
    · exact absurd (hcrs.symm.trans hfnd) (some_ne_none course).symm
  · rw [hset]
    have hsame := tables.sameMembers_migrateCohortSettings courseId course
    cases isCohorted with
    | false =>
      refine .inl ⟨hsame.trans ⟨rfl, rfl, rfl⟩, fun _ _ other hfnd hcoho => ?_⟩
      obtain rfl := some_unique hcrs hfnd
      exact Bool.noConfusion (some_unique hlook hcoho)
    | true =>
      dsimp only
      rw [membershipIn_congr hsame]
      cases hmemb : tables.membershipIn courseId user with
      | some membership =>
        refine .inl ⟨hsame.trans ⟨rfl, rfl, rfl⟩, fun _ hnone => ?_⟩
        exact absurd (hmemb.symm.trans hnone) (some_ne_none membership)
      | none =>
        cases assign with
        | false => exact .inl ⟨hsame, fun hassign => Bool.noConfusion hassign⟩
        | true =>
          obtain ⟨mid, cohort, hran, hmid, hgrp, hkind⟩ := getRandomCohort_spec hcrs
            (tables.migrateCohortSettings_twice courseId course) choice
          refine .inr ⟨mid, cohort, hsame.trans hmid, hgrp ▸ hmemb, ?_, ?_⟩
          · rw [if_pos rfl, hran]
            exact ⟨rfl, rfl, rfl⟩
          · rw [hkind]
            constructor
            · intro hpicks _ _ other hfnd _ hnone
              obtain rfl := some_unique hcrs hfnd
              exact hpicks hnone
            · exact fun hpicks hnone => hpicks rfl hmemb course hcrs hlook hnone

theorem picksRandom_withCache (cache : Dict (User × Course) (Option (CourseUserGroup Course)))
    (user : User) (courseId : Course) :
    (tables.withCache cache).PicksRandom surroundings user courseId ↔
      tables.PicksRandom surroundings user courseId := by
  rw [PicksRandom, PicksRandom]
  simp only [migrateCohortSettings_withCache]
  exact Iff.rfl

theorem getCohort_spec (assign useCached : Bool) (choice : Nat) :
    (SameMembers tables (tables.getCohort surroundings user courseId assign useCached choice).1 ∧
      tables.AssignsRandom surroundings (.getCohort user courseId assign useCached choice)) ∨
    ∃ mid cohort, SameMembers tables mid ∧ tables.membershipIn cohort.courseId user = none ∧
      SameMembers (mid.assignCohort user cohort)
        (tables.getCohort surroundings user courseId assign useCached choice).1 ∧
      (mid.courseCohorts.lookup cohort = some .random ↔
        tables.AssignsRandom surroundings (.getCohort user courseId assign useCached choice)) := by
  rw [getCohort, AssignsRandom]
  split
  · next cached hcach =>
    refine .inl ⟨refl tables, fun hfresh => ?_⟩
    cases useCached with
    | false => exact absurd hcach (some_ne_none cached).symm
    | true =>
      have hmem : (user, courseId) ∈ tables.requestCache := mem_of_lookup hcach
      exact hfresh.elim (fun hnot => Bool.noConfusion hnot) fun hnot => absurd hmem hnot
  · next hcach =>
    have hfresh : useCached = false ∨ (user, courseId) ∉ tables.requestCache := by
      cases useCached with
      | false => exact .inl rfl
      | true => exact .inr (lookup_eq_none.mp hcach)
    have hpicks := tables.picksRandom_withCache surroundings (tables.requestCache.erase (user, courseId)) user courseId
    obtain ⟨hsame, hran⟩ | ⟨mid, cohort, hsame, hnone, hasgn, hkind⟩ :=
      findCohort_spec surroundings
        (tables.withCache (tables.requestCache.erase (user, courseId))) user courseId assign choice
    · rw [hpicks] at hran
      exact .inl ⟨⟨hsame.users, hsame.memberships, hsame.assigned⟩, fun _ => hran⟩
    · rw [hpicks] at hkind
      refine .inr ⟨mid, cohort, ⟨hsame.users, hsame.memberships, hsame.assigned⟩, hnone, hasgn,
        hkind.trans ⟨fun himp _ => himp, fun himp => himp hfresh⟩⟩

end

theorem Coherent.getCohort (hcoh : tables.Coherent) (user : User) (courseId : Course)
    (assign useCached : Bool) (choice : Nat) :
    (tables.getCohort surroundings user courseId assign useCached choice).1.Coherent ↔
      tables.AssignsRandom surroundings (.getCohort user courseId assign useCached choice) := by
  obtain ⟨hsame, hran⟩ | ⟨mid, cohort, hsame, hnone, hasgn, hkind⟩ :=
    tables.getCohort_spec surroundings user courseId assign useCached choice
  · exact iff_of_true (hcoh.congr hsame) hran
  · rw [← hkind]
    have hmid := hcoh.congr hsame
    rw [← membershipIn_congr hsame] at hnone
    have hins := hmid.insertMembership hnone
    constructor
    · intro haft
      refine haft.random (user, mid.courseCohorts.lookup cohort) ?_
      rw [hasgn.assigned]
      exact mem_append_right _ mem_cons_self
    · intro hran
      refine Coherent.congr ?_ hasgn
      refine ⟨hins.unique, hins.courseId, hins.users, fun assignment hassignment => ?_⟩
      rcases mem_append.mp hassignment with hold | hnew
      · exact hmid.random assignment hold
      · rw [mem_singleton.mp hnew]
        exact hran

theorem Coherent.step (hcoh : tables.Coherent) (call : Call Course User) :
    (tables.step surroundings call).Coherent ↔ tables.AssignsRandom surroundings call := by
  cases call with
  | addCohort courseId name assignmentType =>
    exact iff_of_true (hcoh.congr (sameMembers_addCohort courseId name assignmentType)) trivial
  | setAssignmentType group assignmentType =>
    exact iff_of_true (hcoh.congr (sameMembers_setAssignmentType group assignmentType)) trivial
  | addUserToCohort cohort usernameOrEmail => exact iff_of_true (hcoh.addUserToCohort cohort usernameOrEmail) trivial
  | removeUserFromCohort cohort usernameOrEmail =>
    exact iff_of_true (hcoh.removeUserFromCohort cohort usernameOrEmail) trivial
  | getCohort user courseId assign useCached choice => exact hcoh.getCohort user courseId assign useCached choice

/-- The memberships stay coherent exactly when every automatic assignment finds a random
cohort or no manual one of the default name. -/
theorem always_coherent_iff (surroundings : Surroundings Course User) (hstart : tables.Coherent)
    (calls : List (Call Course User)) :
    Always (step surroundings) Coherent tables calls ↔
      Each (step surroundings) (AssignsRandom surroundings) tables calls :=
  always_iff_each (fun _ call hcoherent => hcoherent.step call) hstart calls

theorem coherent_empty : ({} : Tables Course User).Coherent where
  unique := List.Pairwise.nil
  courseId _ hrow := nomatch hrow
  users _ _ := iff_of_false not_mem_nil fun ⟨_, hrow, _⟩ => not_mem_nil hrow
  random _ hassignment := nomatch hassignment

def newCourse : Surroundings Unit Nat where
  getCourse _ := some { isCohorted := true, autoCohortGroups := [] }
  courseText _ := "edX/Demo/2016"
  getUserByUsernameOrEmail name := if name = "ann" then some 1 else none
  username _ := "ann"

theorem always_coherent_newCourse : Always (step newCourse) Coherent {}
      [.addCohort () "A" .random, .addUserToCohort ⟨(), "A"⟩ "ann", .getCohort 2 () true false 7,
        .removeUserFromCohort ⟨(), "A"⟩ "ann"] := by
  refine (always_coherent_iff newCourse coherent_empty _).mpr ⟨trivial, trivial, ?_, trivial, trivial⟩
  intro _ _ _ course hcourse _ hnil
  obtain rfl := some.inj hcourse
  revert hnil
  decide

/-- A manual cohort has the default name. -/
theorem not_always_coherent : ¬ Always (step newCourse) Coherent {}
    [.addCohort () "Default Group" .manual, .getCohort 1 () true false 0] := by
  rintro ⟨-, -, hcoherent⟩
  have hrandom := hcoherent.random (1, some .manual) (List.mem_of_elem_eq_true (by decide))
  exact absurd hrandom (by decide)

end Tables

end EdxPlatform.Cohorts
