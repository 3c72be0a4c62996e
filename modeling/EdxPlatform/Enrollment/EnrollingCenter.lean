import Mathlib.Data.Finset.Card
import EdxPlatform.Enrollment.Records

/-!
# The enrolling center of a custom course

A list of usernames and emails is enrolled one after the other, as long as the course
has room.  Staff, instructors and the coach are enrolled in a full course too.
-/

namespace EdxPlatform.Enrollment

/-- White space, as `strip` of a text understands it. -/
def isSpace (char : Char) : Bool :=
  char.toNat ∈ [0x9, 0xa, 0xb, 0xc, 0xd, 0x1c, 0x1d, 0x1e, 0x1f, 0x20, 0x85, 0xa0, 0x1680, 0x180e,
    0x2028, 0x2029, 0x202f, 0x205f, 0x3000] || decide (0x2000 ≤ char.toNat ∧ char.toNat ≤ 0x200a)

def strip (text : String) : String := String.ofList ((text.toList.dropWhile isSpace).reverse.dropWhile isSpace).reverse

/-- `get_student_from_identifier`. -/
def getStudentFromIdentifier (users : UserTable) (identifier : String) : Option users.Row :=
  let identifier := strip identifier
  if '@' ∈ identifier.toList then users.withEmail identifier else users.withUsername identifier

variable {Course : Type}

namespace Records

variable [DecidableEq Course] {users : UserTable}

section

variable (records : Records Course users) (courseId : CourseKey Course)

/-- The users whom `num_enrolled_in_exclude_admins` does not count. -/
def isAdmin (user : users.Row) : Bool :=
  let courseLocator := if courseId.ccx.isSome then courseId.toCourseLocator else courseId
  decide (user ∈ records.usersWithRole .staff courseLocator) ||
    decide (user ∈ records.usersWithRole .instructor courseLocator) ||
    decide (user ∈ records.usersWithRole .ccxCoach courseLocator)

def isCounted (entry : (_ : users.Row × CourseKey Course) × CourseEnrollment) : Bool :=
  decide (entry.1.2 = courseId) && entry.2.isActive && !records.isAdmin courseId entry.1.1

/-- `num_enrolled_in_exclude_admins`. -/
def numEnrolledInExcludeAdmins : Nat := (records.enrollments.entries.filter (records.isCounted courseId)).length

/-- `is_course_full`. -/
def isCourseFull (maxStudentEnrollmentsAllowed : Option Int) : Bool :=
  match maxStudentEnrollmentsAllowed with
  | some limit => decide (limit ≤ records.numEnrolledInExcludeAdmins courseId)
  | none => false

end

end Records

/-- What the enrolling center is given, and what it reads: the modes of the courses, the
limit of the custom course, and the check of the form of an email. -/
structure EnrollingCenter (Course : Type) (users : UserTable) where
  courseModes : CourseKey Course → List CourseMode
  validateEmail : String → Bool
  maxStudentEnrollmentsAllowed : Option Int
  courseKey : CourseKey Course
  coach : users.Row

/-- The variables of the loop.  The identifiers that were enrolled are not kept in the
code. -/
structure Enrolling (Course : Type) [DecidableEq Course] (users : UserTable) where
  records : Records Course users
  errors : List String := []
  processed : List String := []
  broke : Bool := false

namespace EnrollingCenter

variable {users : UserTable} (center : EnrollingCenter Course users)

/-- `get_valid_student_with_email`. -/
def getValidStudentWithEmail (identifier : String) : Except String (String × Option users.Row) :=
  let user := getStudentFromIdentifier users identifier
  let email := match user with
    | some user => user.1.email
    | none => identifier
  if center.validateEmail email then .ok (email, user)
  else .error ("Could not find a user with name or email \"" ++ identifier ++ "\" ")

def fullError : String :=
  "The course is full: the limit is " ++ match center.maxStudentEnrollmentsAllowed with
    | some limit => toString limit
    | none => "None"

variable [DecidableEq Course]

def mustEnroll (records : Records Course users) (student : Option users.Row) : Bool :=
  match student with
  | some student =>
    decide (student ∈ records.usersWithRole .staff center.courseKey.toCourseLocator) ||
      decide (student ∈ records.usersWithRole .instructor center.courseKey.toCourseLocator) ||
      decide (student = center.coach)
  | none => false

def enrollNext (enrolling : Enrolling Course users) (identifier : String) : Enrolling Course users :=
  if enrolling.broke then enrolling
  else
    match center.getValidStudentWithEmail identifier with
    | .error error => { enrolling with errors := enrolling.errors ++ [error] }
    | .ok (email, student) =>
      if enrolling.records.isCourseFull center.courseKey center.maxStudentEnrollmentsAllowed &&
          !center.mustEnroll enrolling.records student then
        { enrolling with errors := enrolling.errors ++ [center.fullError], broke := true }
      else
        { enrolling with
          records := enrolling.records.enrollEmail center.courseModes center.courseKey email true
          processed := enrolling.processed ++ [identifier] }

def enrollAll (records : Records Course users) (identifiers : List String) : Enrolling Course users :=
  identifiers.foldl center.enrollNext { records }

def unenrollNext (unenrolling : Records Course users × List String) (identifier : String) :
    Records Course users × List String :=
  match center.getValidStudentWithEmail identifier with
  | .error error => (unenrolling.1, unenrolling.2 ++ [error])
  | .ok (email, _) => (unenrolling.1.unenrollEmail center.courseKey email, unenrolling.2)

/-- `ccx_students_enrolling_center`, with the rows after it and the errors. -/
def ccxStudentsEnrollingCenter (action : String) (identifiers : List String)
    (records : Records Course users) : Records Course users × List String :=
  if action = "Enroll" ∨ action = "add" then
    let enrolling := center.enrollAll records identifiers
    (enrolling.records, enrolling.errors)
  else if action = "Unenroll" ∨ action = "revoke" then
    identifiers.foldl center.unenrollNext (records, [])
  else (records, [])

end EnrollingCenter

namespace Records

variable [DecidableEq Course] {users : UserTable} {others records : Records Course users}

section

variable (hroles : others.accessRoles = records.accessRoles) (courseId : CourseKey Course)
include hroles

theorem isAdmin_eq_of_accessRoles (user : users.Row) :
    others.isAdmin courseId user = records.isAdmin courseId user := by
  rw [isAdmin, isAdmin, usersWithRole, usersWithRole, usersWithRole, hroles]
  rfl

theorem isCounted_eq_of_accessRoles : others.isCounted courseId = records.isCounted courseId := by
  funext entry
  rw [isCounted, isCounted, isAdmin_eq_of_accessRoles hroles]

end

theorem numEnrolled_updateEnrollment (records : Records Course users) (user : users.Row)
    (courseId : CourseKey Course) {record : CourseEnrollment} (hact : record.isActive = true) :
    (records.updateEnrollment user courseId record).numEnrolledInExcludeAdmins courseId =
      records.numEnrolledInExcludeAdmins courseId +
        if records.isEnrolled user courseId ∨ records.isAdmin courseId user then 0 else 1 := by
  have hcntd : ∀ row : CourseEnrollment, records.isCounted courseId ⟨(user, courseId), row⟩ =
      (row.isActive && !records.isAdmin courseId user) := by
    intro row
    rw [isCounted, decide_eq_true rfl, Bool.true_and]
  have hroles : (records.updateEnrollment user courseId record).isCounted courseId =
      records.isCounted courseId := isCounted_eq_of_accessRoles rfl courseId
  rw [numEnrolledInExcludeAdmins, hroles, numEnrolledInExcludeAdmins, updateEnrollment, isEnrolled]
  dsimp only
  cases hlook : records.enrollments.lookup (user, courseId) with
  | none =>
    rw [AList.insert_of_notMem (lookup_eq_none.mp hlook), filter_cons, hcntd, hact]
    cases records.isAdmin courseId user with
    | true => simp
    | false => simp
  | some old =>
    obtain ⟨before, after, hspl, hins⟩ := Dict.exists_entries_split hlook record
    rw [hspl, hins, filter_cons, hcntd, hact]
    simp only [filter_append, filter_cons, hcntd, length_append]
    by_cases hold : old.isActive = true <;> by_cases hadmin : records.isAdmin courseId user = true <;>
      simp [hold, hadmin]
    omega

end Records

end EdxPlatform.Enrollment
