import EdxPlatform.Lib.Dict

/-!
# Enrollments and those who are allowed to enroll

The rows of `CourseEnrollment` and `CourseEnrollmentAllowed`, and enrolling and
unenrolling by email, with their events.  Mails and signals are left out.
-/

namespace EdxPlatform.Enrollment

/-- A course, or with an id a custom course (CCX) of it. -/
structure CourseKey (Course : Type) where
  course : Course
  ccx : Option Nat := none
  deriving DecidableEq

variable {Course : Type}

/-- `to_course_locator`. -/
def CourseKey.toCourseLocator (key : CourseKey Course) : CourseKey Course := ⟨key.course, none⟩

/-- `CCXLocator.from_course_locator`. -/
def CourseKey.fromCourseLocator (course : Course) (ccx : Nat) : CourseKey Course := ⟨course, some ccx⟩

structure User where
  username : String
  email : String
  deriving DecidableEq, Repr

/-- The rows of the users. -/
structure UserTable where
  rows : List User
  usernames : (rows.map User.username).Nodup
  emails : (rows.map User.email).Nodup

abbrev UserTable.Row (users : UserTable) : Type := { user : User // user ∈ users.rows }

instance (users : UserTable) : LawfulBEq users.Row := Subtype.instLawfulBEq

namespace UserTable

variable (users : UserTable)

/-- `User.objects.get(username=...)`. -/
def withUsername (username : String) : Option users.Row := users.rows.attach.find? fun row => row.1.username = username

/-- `User.objects.get(email=...)`. -/
def withEmail (email : String) : Option users.Row := users.rows.attach.find? fun row => row.1.email = email

theorem withEmail_email (row : users.Row) : users.withEmail row.1.email = some row := by
  cases hfnd : users.withEmail row.1.email with
  | none =>
    have hnone := List.find?_eq_none.mp hfnd row (List.mem_attach _ _)
    exact absurd (decide_eq_true rfl) hnone
  | some other =>
    have hemail : other.1.email = row.1.email := by
      simpa using find?_some hfnd
    have hrow : other.1 = row.1 := inj_on_of_nodup_map users.emails other.2 row.2 hemail
    rw [Subtype.ext hrow]

end UserTable

/-- A row of `CourseEnrollment`, without its user and its course. -/
structure CourseEnrollment where
  mode : String
  isActive : Bool
  deriving DecidableEq, Repr

/-- A mode of a course. -/
structure CourseMode where
  slug : String
  minPrice : Nat
  suggestedPrices : String
  deriving DecidableEq, Repr

/-- `is_white_label`, of the modes of the course. -/
def isWhiteLabel : List CourseMode → Bool
  | [mode] => mode.slug = "honor" && (decide (0 < mode.minPrice) || mode.suggestedPrices ≠ "")
  | _ => false

def defaultModeSlug : String := "audit"

def defaultShoppingcartModeSlug : String := "honor"

/-- `_default_course_mode`. -/
def defaultCourseMode (modes : List CourseMode) : String :=
  let availableModes := modes.map CourseMode.slug
  if defaultModeSlug ∈ availableModes then defaultModeSlug
  else if "audit" ∈ availableModes then "audit"
  else if "honor" ∈ availableModes then "honor"
  else defaultModeSlug

inductive Role where
  | staff
  | instructor
  | ccxCoach
  deriving DecidableEq, Repr

/-- A row of `CourseAccessRole`. -/
structure CourseAccessRole (Course : Type) (users : UserTable) where
  user : users.Row
  role : Role
  courseId : CourseKey Course
  deriving DecidableEq

/-- Of a `CourseEnrollmentAllowed` the table keeps `auto_enroll`. -/
structure Records (Course : Type) [DecidableEq Course] (users : UserTable) where
  enrollments : Dict (users.Row × CourseKey Course) CourseEnrollment := ∅
  enrollmentAllowed : Dict (CourseKey Course × String) Bool := ∅
  accessRoles : List (CourseAccessRole Course users) := []

namespace Records

variable [DecidableEq Course] {users : UserTable}

section

variable (records : Records Course users)

/-- `users_with_role`. -/
def usersWithRole (role : Role) (courseId : CourseKey Course) : List users.Row :=
  (records.accessRoles.filter fun row => row.role = role ∧ row.courseId = courseId).map CourseAccessRole.user

section

variable (user : users.Row) (courseId : CourseKey Course)

/-- `is_enrolled`. -/
def isEnrolled :
    Bool :=
  match records.enrollments.lookup (user, courseId) with
  | some record => record.isActive
  | none => false

/-- `get_or_create_enrollment`; the row is stored when it is updated. -/
def getOrCreateEnrollment : CourseEnrollment :=
  (records.enrollments.lookup (user, courseId)).getD { mode := defaultModeSlug, isActive := false }

/-- `update_enrollment`. -/
def updateEnrollment (record : CourseEnrollment) : Records Course users :=
  { records with enrollments := records.enrollments.insert (user, courseId) record }

/-- `CourseEnrollment.enroll`, without a check of the access. -/
def enroll (courseModes : CourseKey Course → List CourseMode) (records : Records Course users)
    (user : users.Row) (courseId : CourseKey Course) (mode : Option String) :
    Records Course users :=
  let record := records.getOrCreateEnrollment user courseId
  records.updateEnrollment user courseId
    { record with mode := mode.getD (defaultCourseMode (courseModes courseId)), isActive := true }

/-- `CourseEnrollment.unenroll`. -/
def unenroll : Records Course users :=
  match records.enrollments.lookup (user, courseId) with
  | some record => records.updateEnrollment user courseId { record with isActive := false }
  | none => records

end

/-- `EmailEnrollmentState`. -/
structure EmailEnrollmentState (users : UserTable) where
  user : Option users.Row
  mode : Option String
  enrollment : Bool
  allowed : Bool

section

variable (courseId : CourseKey Course)

def emailEnrollmentState (email : String) : EmailEnrollmentState users :=
  let user := users.withEmail email
  { user
    mode := user.bind fun user => (records.enrollments.lookup (user, courseId)).map CourseEnrollment.mode
    enrollment := user.any (records.isEnrolled · courseId)
    allowed := decide ((courseId, email) ∈ records.enrollmentAllowed) }

/-- `enroll_email`. -/
def enrollEmail (courseModes : CourseKey Course → List CourseMode) (records : Records Course users)
    (courseId : CourseKey Course) (studentEmail : String) (autoEnroll : Bool) :
    Records Course users :=
  let previousState := records.emailEnrollmentState courseId studentEmail
  match previousState.user with
  | some user =>
    let courseMode :=
      if previousState.enrollment then previousState.mode
      else if isWhiteLabel (courseModes courseId) then some defaultShoppingcartModeSlug
      else none
    records.enroll courseModes user courseId courseMode
  | none =>
    { records with
      enrollmentAllowed := records.enrollmentAllowed.insert (courseId, studentEmail) autoEnroll }

/-- `unenroll_email`. -/
def unenrollEmail (studentEmail : String) : Records Course users :=
  let previousState := records.emailEnrollmentState courseId studentEmail
  let records :=
    match previousState.user with
    | some user => if previousState.enrollment then records.unenroll user courseId else records
    | none => records
  if previousState.allowed then
    { records with enrollmentAllowed := records.enrollmentAllowed.erase (courseId, studentEmail) }
  else records

end

theorem isEnrolled_updateEnrollment (user other : users.Row)
    (courseId otherId : CourseKey Course) (record : CourseEnrollment) :
    (records.updateEnrollment user courseId record).isEnrolled other otherId =
      if other = user ∧ otherId = courseId then record.isActive
      else records.isEnrolled other otherId := by
  rw [isEnrolled, updateEnrollment, lookup_insert]
  by_cases hsame : other = user ∧ otherId = courseId
  · rw [if_pos (Prod.ext hsame.1 hsame.2), if_pos hsame]
  · rw [if_neg fun heq => hsame (Prod.mk.inj heq), if_neg hsame, isEnrolled]

theorem enrollEmail_spec (courseModes : CourseKey Course → List CourseMode)
    (records : Records Course users) (courseId : CourseKey Course) (email : String)
    (autoEnroll : Bool) :
    (∃ user record, users.withEmail email = some user ∧ records.enrollEmail courseModes courseId email autoEnroll =
        records.updateEnrollment user courseId record ∧ record.isActive = true) ∨
    users.withEmail email = none ∧ (records.enrollEmail courseModes courseId email autoEnroll).enrollments =
        records.enrollments ∧
      (records.enrollEmail courseModes courseId email autoEnroll).accessRoles =
        records.accessRoles := by
  cases huser : users.withEmail email with
  | some user =>
    have henr : ∃ mode, records.enrollEmail courseModes courseId email autoEnroll =
        records.enroll courseModes user courseId mode := by
      rw [enrollEmail]
      simp only [emailEnrollmentState, huser]
      exact ⟨_, rfl⟩
    obtain ⟨mode, hmode⟩ := henr
    exact .inl ⟨user, _, rfl, hmode, rfl⟩
  | none =>
    refine .inr ⟨rfl, ?_⟩
    rw [enrollEmail]
    simp only [emailEnrollmentState, huser, and_self]

theorem lookup_unenrollEmail (courseId : CourseKey Course) (row user : users.Row) (otherId : CourseKey Course) :
    (records.unenrollEmail courseId row.1.email).enrollments.lookup (user, otherId) =
      if user = row ∧ otherId = courseId then
        (records.enrollments.lookup (user, otherId)).map fun record => { record with isActive := false }
      else records.enrollments.lookup (user, otherId) := by
  have hune : (records.unenrollEmail courseId row.1.email).enrollments =
      (if records.isEnrolled row courseId then records.unenroll row courseId else records).enrollments := by
    rw [unenrollEmail]
    simp only [emailEnrollmentState, users.withEmail_email, any_some]
    split <;> rfl
  rw [hune, isEnrolled, unenroll]
  cases hlook : records.enrollments.lookup (row, courseId) with
  | none =>
    dsimp only
    rw [if_neg false_ne_true]
    split
    · next hsame => rw [hsame.1, hsame.2, hlook, map_none]
    · rfl
  | some record =>
    dsimp only
    by_cases hact : record.isActive = true
    · rw [if_pos hact, updateEnrollment, lookup_insert]
      by_cases hsame : user = row ∧ otherId = courseId
      · rw [if_pos (Prod.ext hsame.1 hsame.2), if_pos hsame, hsame.1, hsame.2, hlook]
        rfl
      · rw [if_neg fun heq => hsame (Prod.mk.inj heq), if_neg hsame]
    · rw [if_neg hact]
      split
      · next hsame => rw [hsame.1, hsame.2, hlook, map_some, ← eq_false_iff.mpr hact]
      · rfl

end

end Records

/-! ## Events -/

inductive EnrollmentEvent where
  | activated (mode : String)
  | deactivated (mode : String)
  | modeChanged (mode : String)

namespace CourseEnrollment

variable (row : CourseEnrollment)

/-- What `update_enrollment` emits when the row becomes `next`. -/
def emitted (next : CourseEnrollment) : List EnrollmentEvent :=
  (if next.isActive = row.isActive then []
    else if next.isActive then [.activated next.mode] else [.deactivated next.mode]) ++
  if next.mode = row.mode then [] else [.modeChanged next.mode]

def replay : EnrollmentEvent → CourseEnrollment
  | .activated _ => { row with isActive := true }
  | .deactivated _ => { row with isActive := false }
  | .modeChanged mode => { row with mode }

end CourseEnrollment

inductive Change where
  | enroll (mode : Option String)
  | unenroll

namespace Records

variable [DecidableEq Course] {users : UserTable} (courseModes : CourseKey Course → List CourseMode)
  (records : Records Course users)

def row (key : users.Row × CourseKey Course) : CourseEnrollment := records.getOrCreateEnrollment key.1 key.2

def change (item : (users.Row × CourseKey Course) × Change) : Records Course users :=
  match item.2 with
  | .enroll mode => records.enroll courseModes item.1.1 item.1.2 mode
  | .unenroll => records.unenroll item.1.1 item.1.2

def replay (event : (users.Row × CourseKey Course) × EnrollmentEvent) : Records Course users :=
  records.updateEnrollment event.1.1 event.1.2 ((records.row event.1).replay event.2)

/-- The events of a sequence of changes. -/
def history (records : Records Course users) :
    List ((users.Row × CourseKey Course) × Change) → List ((users.Row × CourseKey Course) × EnrollmentEvent)
  | [] => []
  | item :: rest =>
    let next := records.change courseModes item
    ((records.row item.1).emitted (next.row item.1)).map (item.1, ·) ++ next.history rest

variable {courseModes} (key : users.Row × CourseKey Course)

theorem lookup_change (item : (users.Row × CourseKey Course) × Change) :
    (records.change courseModes item).enrollments.lookup key =
      if key = item.1 ∧ records.row item.1 ≠ (records.change courseModes item).row item.1 then
        some ((records.change courseModes item).row item.1)
      else records.enrollments.lookup key := by
  obtain ⟨changed, change⟩ := item
  cases hlook : records.enrollments.lookup changed <;> cases change <;>
    simp_all [Records.change, row, getOrCreateEnrollment, enroll, unenroll, updateEnrollment, lookup_insert] <;> grind

/-- The events of a row do to the table what its change does. -/
theorem lookup_replay (changed : users.Row × CourseKey Course) (next : CourseEnrollment) :
    ((((records.row changed).emitted next).map (changed, ·)).foldl replay records).enrollments.lookup key =
      if key = changed ∧ records.row changed ≠ next then some next else records.enrollments.lookup key := by
  cases hrow : records.row changed with
  | mk mode isActive =>
    obtain ⟨nextMode, nextActive⟩ := next
    by_cases hmode : nextMode = mode <;> cases isActive <;> cases nextActive <;>
      simp_all [CourseEnrollment.emitted, CourseEnrollment.replay, replay, row, getOrCreateEnrollment,
        updateEnrollment, lookup_insert, @eq_comm _ mode]

theorem replay_history (items : List ((users.Row × CourseKey Course) × Change)) :
    ((records.history courseModes items).foldl replay records).enrollments.lookup key =
      (items.foldl (change courseModes) records).enrollments.lookup key := by
  -- the replay may start with any table that has the same rows
  suffices hrun : ∀ replayed : Records Course users,
      (∀ key, replayed.enrollments.lookup key = records.enrollments.lookup key) →
      ((records.history courseModes items).foldl replay replayed).enrollments.lookup key =
        (items.foldl (change courseModes) records).enrollments.lookup key from hrun records fun _ => rfl
  induction items generalizing records with
  | nil => exact fun replayed hsame => hsame key
  | cons item rest ih =>
    intro replayed hsame
    have hrow : records.row item.1 = replayed.row item.1 := by
      rw [row, row, getOrCreateEnrollment, getOrCreateEnrollment, hsame]
    rw [history, List.foldl_append, List.foldl_cons]
    refine ih _ _ fun key => ?_
    rw [hrow, lookup_replay, lookup_change, hrow, hsame]

end Records

end EdxPlatform.Enrollment
