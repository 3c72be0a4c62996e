import EdxPlatform.Lib.Dict

/-!
# Cohorts of a course

The membership of a user is stored twice, as a row of `CohortMembership` and in the
users of the `CourseUserGroup`.  Users without a cohort are assigned one when they are
asked for.
-/

namespace EdxPlatform.Cohorts

inductive AssignmentType where
  | random
  | manual
  deriving DecidableEq, Repr

/-- A `CourseUserGroup` of the type `COHORT`; no two have the same name and course. -/
structure CourseUserGroup (Course : Type) where
  courseId : Course
  name : String
  deriving DecidableEq

structure CohortMembership (Course User : Type) where
  user : User
  courseId : Course
  courseUserGroup : CourseUserGroup Course
  deriving DecidableEq

/-- What the modulestore knows of the cohorts of a course. -/
structure CourseDescriptor where
  isCohorted : Bool
  autoCohortGroups : List String
  deriving Repr

inductive CohortError where
  | doesNotExist
  | valueError (message : String)
  | http404 (message : String)
  deriving DecidableEq, Repr

/-- What is outside the tables of the cohorts. -/
structure Surroundings (Course User : Type) where
  getCourse : Course → Option CourseDescriptor
  courseText : Course → String
  getUserByUsernameOrEmail : String → Option User
  username : User → String

/-- The tables, the cache of the request, and for each automatic assignment the type that
the cohort then had, which no code keeps. -/
structure Tables (Course User : Type) [DecidableEq Course] [DecidableEq User] where
  groups : List (CourseUserGroup Course) := []
  courseCohorts : Dict (CourseUserGroup Course) AssignmentType := ∅
  users : List (CourseUserGroup Course × User) := []
  memberships : List (CohortMembership Course User) := []
  settings : Dict Course Bool := ∅
  requestCache : Dict (User × Course) (Option (CourseUserGroup Course)) := ∅
  assigned : List (User × Option AssignmentType) := []

def defaultCohortName : String := "Default Group"

variable {Course User : Type} [DecidableEq Course] [DecidableEq User]

namespace Tables

section

variable (tables : Tables Course User) (group : CourseUserGroup Course)

/-- `CourseUserGroup.create`. -/
def createGroup : Tables Course User :=
  if group ∈ tables.groups then tables else { tables with groups := tables.groups ++ [group] }

/-- `CourseCohort.create` for a group that is there. -/
def createCourseCohort (assignmentType : AssignmentType) : Tables Course User :=
  { tables with courseCohorts := tables.courseCohorts.setDefault group assignmentType }

/-- `CourseCohort.create` by name. -/
def createByName (tables : Tables Course User) (courseId : Course) (cohortName : String)
    (assignmentType : AssignmentType) : Tables Course User :=
  (tables.createGroup ⟨courseId, cohortName⟩).createCourseCohort ⟨courseId, cohortName⟩ assignmentType

/-- `users.add`. -/
def addUser (user : User) : Tables Course User :=
  if (group, user) ∈ tables.users then tables
  else { tables with users := tables.users ++ [(group, user)] }

/-- `users.remove`. -/
def removeUser (user : User) : Tables Course User := { tables with users := tables.users.filter (· ≠ (group, user)) }

/-- `CohortMembership.objects.get(course_id=..., user_id=...)`. -/
def membershipIn (tables : Tables Course User) (courseId : Course) (user : User) :
    Option (CohortMembership Course User) :=
  tables.memberships.find? fun row => row.courseId = courseId ∧ row.user = user

/-- `CohortMembership.save` with `force_insert`. -/
def insertMembership (user : User) : Tables Course User :=
  let tables := tables.addUser group user
  { tables with memberships := tables.memberships ++ [⟨user, group.courseId, group⟩] }

end

/-- The update of a membership in `CohortMembership.save`. -/
def moveMembership (tables : Tables Course User) (saved : CohortMembership Course User)
    (group : CourseUserGroup Course) : Tables Course User :=
  let tables := (tables.removeUser saved.courseUserGroup saved.user).addUser group saved.user
  { tables with
    memberships := tables.memberships.map fun row =>
      if row = saved then { row with courseUserGroup := group } else row }

section

variable (surroundings : Surroundings Course User) (tables : Tables Course User)

/-- `CohortMembership.save`. -/
def saveMembership (group : CourseUserGroup Course) (user : User) : Tables Course User × Except CohortError Unit :=
  match tables.membershipIn group.courseId user with
  | none => (tables.insertMembership group user, .ok ())
  | some saved =>
    if saved.courseUserGroup = group then
      (tables, .error (.valueError ("User " ++ surroundings.username user ++
        " already present in cohort " ++ group.name)))
    else (tables.moveMembership saved group, .ok ())

section

variable (tables : Tables Course User)

/-- Deleting a membership, with the receiver of `pre_delete`. -/
def deleteMembership (row : CohortMembership Course User) : Tables Course User :=
  let tables := tables.removeUser row.courseUserGroup row.user
  { tables with memberships := tables.memberships.filter (· ≠ row) }

/-- `migrate_cohort_settings`. -/
def migrateCohortSettings (courseId : Course) (course : CourseDescriptor) : Tables Course User :=
  if courseId ∈ tables.settings then tables
  else
    let tables := { tables with settings := tables.settings.insert courseId course.isCohorted }
    let manualCohorts := tables.groups.filter fun group =>
      group.courseId = courseId ∧ group.name ∉ course.autoCohortGroups
    let tables := manualCohorts.foldl (fun tables group => tables.createCourseCohort group .manual) tables
    course.autoCohortGroups.foldl (fun tables groupName => tables.createByName courseId groupName .random) tables

/-- `get_course_cohort_settings`, of which `is_cohorted` is kept. -/
def getCourseCohortSettings (courseId : Course) : Tables Course User × Except CohortError Bool :=
  match tables.settings.lookup courseId with
  | some isCohorted => (tables, .ok isCohorted)
  | none =>
    match surroundings.getCourse courseId with
    | none => (tables, .error (.http404 "Course not found."))
    | some course => (tables.migrateCohortSettings courseId course, .ok course.isCohorted)

def courseCohortsOf (courseId : Course) (assignmentType : AssignmentType) : List (CourseUserGroup Course) :=
  tables.groups.filter fun group => group.courseId = courseId ∧ tables.courseCohorts.lookup group = some assignmentType

/-- `get_random_cohort`; `choice` is what the random generator gives. -/
def getRandomCohort (courseId : Course) (choice : Nat) :
    Tables Course User × Except CohortError (CourseUserGroup Course) :=
  match surroundings.getCourse courseId with
  | none => (tables, .error (.valueError ("Course not found: " ++ surroundings.courseText courseId)))
  | some course =>
    let tables := tables.migrateCohortSettings courseId course
    let cohorts := tables.courseCohortsOf courseId .random
    match cohorts[choice % cohorts.length]? with
    | some cohort => (tables, .ok cohort)
    | none => (tables.createByName courseId defaultCohortName .random, .ok ⟨courseId, defaultCohortName⟩)

def cacheCohort (courseId : Course) (user : User) (cohort : Option (CourseUserGroup Course)) : Tables Course User :=
  { tables with requestCache := tables.requestCache.insert (user, courseId) cohort }

/-- The membership that `get_cohort` makes. -/
def assignCohort (user : User) (cohort : CourseUserGroup Course) : Tables Course User :=
  { tables.insertMembership cohort user with
    assigned := tables.assigned ++ [(user, tables.courseCohorts.lookup cohort)] }

/-- `get_cohort` when the cache is not used. -/
def findCohort (user : User) (courseId : Course) (assign : Bool) (choice : Nat) :
    Tables Course User × Except CohortError (Option (CourseUserGroup Course)) :=
  match tables.getCourseCohortSettings surroundings courseId with
  | (tables, .error error) => (tables, .error error)
  | (tables, .ok false) => (tables.cacheCohort courseId user none, .ok none)
  | (tables, .ok true) =>
    match tables.membershipIn courseId user with
    | some membership =>
      (tables.cacheCohort courseId user (some membership.courseUserGroup), .ok (some membership.courseUserGroup))
    | none =>
      if assign then
        match tables.getRandomCohort surroundings courseId choice with
        | (tables, .error error) => (tables, .error error)
        | (tables, .ok cohort) =>
          ((tables.assignCohort user cohort).cacheCohort courseId user (some cohort), .ok (some cohort))
      else (tables, .ok none)

/-- `get_cohort`. -/
def getCohort (user : User) (courseId : Course) (assign useCached : Bool) (choice : Nat) :
    Tables Course User × Except CohortError (Option (CourseUserGroup Course)) :=
  match if useCached then tables.requestCache.lookup (user, courseId) else none with
  | some cohort => (tables, .ok cohort)
  | none =>
    { tables with requestCache := tables.requestCache.erase (user, courseId) }.findCohort surroundings
      user courseId assign choice

/-- `add_cohort`. -/
def addCohort (courseId : Course) (name : String) (assignmentType : AssignmentType) :
    Tables Course User × Except CohortError Unit :=
  if (⟨courseId, name⟩ : CourseUserGroup Course) ∈ tables.groups then
    (tables, .error (.valueError "You cannot create two cohorts with the same name"))
  else
    match surroundings.getCourse courseId with
    | none => (tables, .error (.valueError "Invalid course_key"))
    | some _ => (tables.createByName courseId name assignmentType, .ok ())

/-- `is_last_random_cohort`. -/
def isLastRandomCohort (group : CourseUserGroup Course) : Bool :=
  match tables.courseCohortsOf group.courseId .random with
  | [cohort] => cohort.name = group.name
  | _ => false

/-- `set_assignment_type`. -/
def setAssignmentType (group : CourseUserGroup Course)
    (assignmentType : AssignmentType) : Tables Course User × Except CohortError Unit :=
  match tables.courseCohorts.lookup group with
  | none => (tables, .error .doesNotExist)
  | some current =>
    if tables.isLastRandomCohort group && current ≠ assignmentType then
      (tables, .error (.valueError "There must be one cohort to which students can automatically be assigned."))
    else
      ({ tables with courseCohorts := tables.courseCohorts.insert group assignmentType }, .ok ())

end

section

variable (cohort : CourseUserGroup Course) (usernameOrEmail : String)

/-- `add_user_to_cohort`. -/
def addUserToCohort : Tables Course User × Except CohortError Unit :=
  match surroundings.getUserByUsernameOrEmail usernameOrEmail with
  | none => (tables, .error .doesNotExist)
  | some user => tables.saveMembership surroundings cohort user

/-- `remove_user_from_cohort`. -/
def removeUserFromCohort : Tables Course User × Except CohortError Unit :=
  match surroundings.getUserByUsernameOrEmail usernameOrEmail with
  | none => (tables, .error .doesNotExist)
  | some user =>
    match tables.memberships.find? fun row => row.courseUserGroup = cohort ∧ row.user = user with
    | some membership => (tables.deleteMembership membership, .ok ())
    | none => (tables, .error (.valueError ("User " ++ usernameOrEmail ++
        " was not present in cohort CourseUserGroup object")))

end

end

end Tables

/-- The calls of a run. -/
inductive Call (Course User : Type) where
  | addCohort (courseId : Course) (name : String) (assignmentType : AssignmentType)
  | setAssignmentType (group : CourseUserGroup Course) (assignmentType : AssignmentType)
  | addUserToCohort (cohort : CourseUserGroup Course) (usernameOrEmail : String)
  | removeUserFromCohort (cohort : CourseUserGroup Course) (usernameOrEmail : String)
  | getCohort (user : User) (courseId : Course) (assign useCached : Bool) (choice : Nat)

namespace Tables

section

variable (surroundings : Surroundings Course User) (tables : Tables Course User)

def step : Call Course User → Tables Course User
  | .addCohort courseId name assignmentType => (tables.addCohort surroundings courseId name assignmentType).1
  | .setAssignmentType group assignmentType => (tables.setAssignmentType group assignmentType).1
  | .addUserToCohort cohort usernameOrEmail => (tables.addUserToCohort surroundings cohort usernameOrEmail).1
  | .removeUserFromCohort cohort usernameOrEmail => (tables.removeUserFromCohort surroundings cohort usernameOrEmail).1
  | .getCohort user courseId assign useCached choice =>
    (tables.getCohort surroundings user courseId assign useCached choice).1

/-- Both forms of the memberships agree, and automatic assignments went to cohorts of the
type `RANDOM`. -/
structure Coherent (tables : Tables Course User) : Prop where
  unique : tables.memberships.Pairwise fun row other => ¬ (row.user = other.user ∧ row.courseId = other.courseId)
  courseId : ∀ row ∈ tables.memberships, row.courseId = row.courseUserGroup.courseId
  users : ∀ group user, (group, user) ∈ tables.users ↔
    ∃ row ∈ tables.memberships, row.user = user ∧ row.courseUserGroup = group
  random : ∀ assignment ∈ tables.assigned, assignment.2 = some .random

/-- An automatic assignment in the course finds a random cohort, or no manual one with the
default name. -/
def PicksRandom (user : User) (courseId : Course) : Prop :=
  tables.membershipIn courseId user = none → ∀ course, surroundings.getCourse courseId = some course →
      (tables.migrateCohortSettings courseId course).settings.lookup courseId = some true →
      (tables.migrateCohortSettings courseId course).courseCohortsOf courseId .random = [] →
      (tables.migrateCohortSettings courseId course).courseCohorts.lookup ⟨courseId, defaultCohortName⟩ ≠ some .manual

def AssignsRandom : Call Course User → Prop
  | .getCohort user courseId assign useCached _ =>
    (useCached = false ∨ (user, courseId) ∉ tables.requestCache) → assign = true →
      tables.PicksRandom surroundings user courseId
  | _ => True

end

end Tables

end EdxPlatform.Cohorts
