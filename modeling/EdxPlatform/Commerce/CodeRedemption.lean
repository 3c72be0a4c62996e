import EdxPlatform.Lib.Runs
import EdxPlatform.Commerce.Orders

/-!
# Redeeming registration codes

The page that redeems a code takes the course out of the user's cart and writes the redemption before it enrolls the
user.
-/

namespace EdxPlatform.Shoppingcart

structure CourseRegistrationCode where
  courseId : String
  modeSlug : Option String := none
  isValid : Bool := true

structure CourseEnrollment where
  mode : String
  isActive : Bool
  deriving DecidableEq

/-- A row of `RegistrationCodeRedemption`; an enrollment is named by its user and course. -/
structure RegistrationCodeRedemption where
  registrationCode : String
  redeemedBy : String
  courseEnrollment : Option (String × String) := none

/-- The course that an item has as `course_id`. -/
def ItemClass.courseId : ItemClass → Option String
  | .paidCourseRegistration courseId _ => some courseId
  | .courseRegCodeItem courseId _ => some courseId
  | .certificateItem courseId _ _ => some courseId
  | .donation courseId => courseId

def ItemClass.isCourseItem : ItemClass → Bool
  | .paidCourseRegistration _ _ => true
  | .courseRegCodeItem _ _ => true
  | _ => false

/-- The tables; a user's cart is the items of the order that `get_cart_for_user` finds or makes. -/
structure RedemptionTables where
  codes : Dict String CourseRegistrationCode := ∅
  redemptions : List RegistrationCodeRedemption := []
  enrollments : Dict (String × String) CourseEnrollment := ∅
  carts : String → List OrderItem := fun _ => []

/-- What the rest of the platform says during a request. -/
structure Platform where
  isRateLimitExceeded : Bool := false
  hasCourse : String → Bool
  hasOverview : String → Bool
  /-- `redirect_if_blocked` of a user and a course. -/
  isBlocked : String → String → Bool
  /-- The selectable modes of a course that have not expired. -/
  foundCourseModes : String → List String
  isEnrollmentClosed : String → String → Bool
  maxStudentEnrollmentsAllowed : String → Option Nat
  /-- The staff, instructors and coaches of a course. -/
  admins : String → List String

inductive EnrollmentError where
  | redemptionCode
  | nonExistentCourse
  | enrollmentClosed
  | courseFull
  | alreadyEnrolled
  deriving DecidableEq

variable (platform : Platform)

namespace Platform

/-- `DEFAULT_MODE_SLUG` -/
def defaultModeSlug : String := "audit"

/-- The slugs of `modes_for_course`. -/
def modesForCourse (courseId : String) : List String :=
  match platform.foundCourseModes courseId with
  | [] => [defaultModeSlug]
  | modes => modes

/-- `_default_course_mode` -/
def defaultCourseMode (courseId : String) : String :=
  let availableModes := platform.modesForCourse courseId
  if defaultModeSlug ∈ availableModes then defaultModeSlug
  else if "audit" ∈ availableModes then "audit"
  else if "honor" ∈ availableModes then "honor"
  else defaultModeSlug

end Platform

namespace RedemptionTables

variable (tables : RedemptionTables)

/-- `is_enrolled` -/
def isEnrolled (user courseId : String) : Bool := (tables.enrollments.lookup (user, courseId)).any (·.isActive)

/-- `num_enrolled_in_exclude_admins` -/
def numEnrolledInExcludeAdmins (courseId : String) : Nat :=
  tables.enrollments.entries.countP fun entry =>
    entry.1.2 = courseId && entry.2.isActive && entry.1.1 ∉ platform.admins courseId

/-- `is_course_full` -/
def isCourseFull (courseId : String) : Bool :=
  (platform.maxStudentEnrollmentsAllowed courseId).any fun allowed =>
    allowed ≤ tables.numEnrolledInExcludeAdmins platform courseId

/-- `get_or_create_enrollment` and `update_enrollment` of what it gives. -/
def updateEnrollment (user courseId mode : String) : RedemptionTables :=
  let enrollment := (tables.enrollments.lookup (user, courseId)).getD ⟨Platform.defaultModeSlug, false⟩
  { tables with
    enrollments := tables.enrollments.insert (user, courseId) { enrollment with mode, isActive := true } }

/-- `CourseEnrollment.enroll` -/
def enroll (user courseId : String) (mode : Option String) (checkAccess : Bool) :
    Except EnrollmentError RedemptionTables :=
  let mode := mode.getD (platform.defaultCourseMode courseId)
  if checkAccess && !platform.hasOverview courseId then .error .nonExistentCourse
  else if checkAccess && platform.isEnrollmentClosed user courseId then .error .enrollmentClosed
  else if checkAccess && tables.isCourseFull platform courseId then .error .courseFull
  else if tables.isEnrolled user courseId && checkAccess then .error .alreadyEnrolled
  else .ok (tables.updateEnrollment user courseId mode)

/-- `is_registration_code_redeemed` -/
def isRegistrationCodeRedeemed (code : String) : Bool := tables.redemptions.any (·.registrationCode = code)

/-- The items of a course that are registrations or codes leave the cart of a user. -/
def removeFromCart (user courseId : String) : RedemptionTables :=
  { tables with
    carts := Function.update tables.carts user
      ((tables.carts user).filter fun item => !(item.cls.courseId = some courseId && item.cls.isCourseItem)) }

/-- `create_invoice_generated_registration_redemption` -/
def createRedemption (code user : String) : RedemptionTables :=
  { tables with redemptions := tables.redemptions ++ [⟨code, user, none⟩] }

def saveCourseEnrollment (code user courseId : String) : RedemptionTables :=
  { tables with redemptions := tables.redemptions.dropLast ++ [⟨code, user, some (user, courseId)⟩] }

/-- The `try` block after the redemption is created. -/
def tryEnroll (code user : String) (registration : CourseRegistrationCode) :
    Except EnrollmentError RedemptionTables := do
  let enrolled ← match registration.modeSlug with
    | none => tables.enroll platform user registration.courseId none false
    | some modeSlug =>
      if modeSlug ∈ platform.modesForCourse registration.courseId then
        tables.enroll platform user registration.courseId (some modeSlug) false
      else .error .redemptionCode
  return enrolled.saveCourseEnrollment code user registration.courseId

end RedemptionTables

inductive RequestMethod where
  | get
  | post
  deriving DecidableEq

/-- A request for the page of a code, by a user who has logged in. -/
structure RedemptionRequest where
  method : RequestMethod
  user : String
  registrationCode : String
  platform : Platform

/-- What the template gets; the entries that a branch leaves out are none. -/
structure RedemptionContext where
  regCodeIsValid : Bool
  regCodeAlreadyRedeemed : Bool
  redemptionSuccess : Option Bool := none
  redeemCodeError : Option Bool := none
  enrollmentClosed : Option Bool := none
  courseFull : Option Bool := none
  registeredForCourse : Option Bool := none
  deriving DecidableEq

inductive RedemptionResponse where
  | forbidden
  | notFound
  | redirect
  | serverError
  | page (context : RedemptionContext)
  deriving DecidableEq

namespace RedemptionTables

variable (tables : RedemptionTables)

/-- `_is_enrollment_code_an_update` -/
def isEnrollmentCodeAnUpdate (user : String) (registration : CourseRegistrationCode) : Bool :=
  match tables.enrollments.lookup (user, registration.courseId) with
  | none => true
  | some enrollment => !enrollment.isActive || some enrollment.mode ≠ registration.modeSlug

/-- The four exceptions that the view catches, and the one that it does not. -/
def refused (context : RedemptionContext) : EnrollmentError → RedemptionResponse
  | .redemptionCode => .page { context with redeemCodeError := some true, redemptionSuccess := some false }
  | .enrollmentClosed => .page { context with enrollmentClosed := some true, redemptionSuccess := some false }
  | .courseFull => .page { context with courseFull := some true, redemptionSuccess := some false }
  | .alreadyEnrolled => .page { context with registeredForCourse := some true, redemptionSuccess := some false }
  | .nonExistentCourse => .serverError

/-- The part of a `POST` for a code that is valid and not redeemed. -/
def redeem (platform : Platform) (code user : String) (registration : CourseRegistrationCode)
    (context : RedemptionContext) : RedemptionTables × RedemptionResponse :=
  let tables := (tables.removeFromCart user registration.courseId).createRedemption code user
  match tables.tryEnroll platform code user registration with
  | .ok enrolled => (enrolled, .page { context with redemptionSuccess := some true })
  | .error error => (tables, refused context error)

section

variable (request : RedemptionRequest)

/-- `register_code_redemption` -/
def registerCodeRedemption : RedemptionTables × RedemptionResponse :=
  if request.platform.isRateLimitExceeded then (tables, .forbidden)
  else
    match tables.codes.lookup request.registrationCode with
    | none => (tables, .notFound)
    | some registration =>
      let alreadyRedeemed := tables.isRegistrationCodeRedeemed request.registrationCode
      if !registration.isValid then (tables, .notFound)
      else if !request.platform.hasCourse registration.courseId then (tables, .notFound)
      else if request.platform.isBlocked request.user registration.courseId then (tables, .redirect)
      else
        let context : RedemptionContext := ⟨registration.isValid, alreadyRedeemed, none, none, none, none, none⟩
        match request.method with
        | .get =>
          (tables, .page { context with
            registeredForCourse := some (!tables.isEnrollmentCodeAnUpdate request.user registration) })
        | .post =>
          if registration.isValid && !alreadyRedeemed then
            tables.redeem request.platform request.registrationCode request.user registration context
          else (tables, .page { context with redemptionSuccess := some false })

def step : RedemptionTables := (tables.registerCodeRedemption request).1

/-- The user's enrollment in the course of the code is made, activated or changed. -/
def LeadsToEnrollment : Prop :=
  ∃ registration ∈ tables.codes.lookup request.registrationCode,
    (tables.step request).enrollments.lookup (request.user, registration.courseId) ≠
      tables.enrollments.lookup (request.user, registration.courseId)

instance (request : RedemptionRequest) : Decidable (tables.LeadsToEnrollment request) :=
  match hfound : tables.codes.lookup request.registrationCode with
  | none => .isFalse (by simp [LeadsToEnrollment, hfound])
  | some registration =>
    decidable_of_iff ((tables.step request).enrollments.lookup (request.user, registration.courseId) ≠
        tables.enrollments.lookup (request.user, registration.courseId))
      (by simp [LeadsToEnrollment, hfound])

def LeavesCodeAndCart : Prop :=
  (tables.step request).isRegistrationCodeRedeemed request.registrationCode =
      tables.isRegistrationCodeRedeemed request.registrationCode ∧
    (tables.step request).carts request.user = tables.carts request.user

def enrollmentsByCode (code : String) : RedemptionTables → List RedemptionRequest → Nat
  | _, [] => 0
  | tables, request :: requests =>
    (if request.registrationCode = code ∧ tables.LeadsToEnrollment request then 1 else 0) +
      enrollmentsByCode code (tables.step request) requests

/-- A code enrolls once at most, and a request that enrolls nobody changes neither its code nor the cart. -/
def RedeemsForEnrollment (requests : List RedemptionRequest) : Prop :=
  (∀ code, enrollmentsByCode code tables requests ≤ 1) ∧
    Each step (fun tables request => tables.LeadsToEnrollment request ∨ tables.LeavesCodeAndCart request) tables
      requests

def Redeems (registration : CourseRegistrationCode) : Prop :=
  request.method = .post ∧ request.platform.isRateLimitExceeded = false ∧
    tables.codes.lookup request.registrationCode = some registration ∧ registration.isValid = true ∧
    request.platform.hasCourse registration.courseId = true ∧
    request.platform.isBlocked request.user registration.courseId = false ∧
    tables.isRegistrationCodeRedeemed request.registrationCode = false

def enrollmentMode (platform : Platform) (registration : CourseRegistrationCode) : String :=
  registration.modeSlug.getD (platform.defaultCourseMode registration.courseId)

/-- The mode of a code that is redeemed is one of its course, and it is not the user's already. -/
def CodeGivesEnrollment : Prop :=
  ∀ registration, tables.Redeems request registration →
    (∀ modeSlug ∈ registration.modeSlug, modeSlug ∈ request.platform.modesForCourse registration.courseId) ∧
      tables.enrollments.lookup (request.user, registration.courseId) ≠
        some ⟨enrollmentMode request.platform registration, true⟩

end

/-! ## Every run -/

variable {tables : RedemptionTables} {request : RedemptionRequest} {registration : CourseRegistrationCode}
  (platform : Platform)

theorem enroll_unchecked (tables : RedemptionTables) (user courseId : String) (mode : Option String) :
    tables.enroll platform user courseId mode false =
      .ok (tables.updateEnrollment user courseId (mode.getD (platform.defaultCourseMode courseId))) := by
  simp [enroll]

theorem tryEnroll_eq (tables : RedemptionTables) (code user : String) (registration : CourseRegistrationCode) :
    tables.tryEnroll platform code user registration =
      if ∀ modeSlug ∈ registration.modeSlug, modeSlug ∈ platform.modesForCourse registration.courseId then
        .ok ((tables.updateEnrollment user registration.courseId
          (enrollmentMode platform registration)).saveCourseEnrollment code user registration.courseId)
      else .error .redemptionCode := by
  rw [tryEnroll, enrollmentMode]
  cases registration.modeSlug with
  | none =>
    rw [if_pos (by simp), enroll_unchecked]
    rfl
  | some modeSlug =>
    by_cases hmode : modeSlug ∈ platform.modesForCourse registration.courseId
    · rw [if_pos (by simpa using hmode)]
      dsimp only
      rw [if_pos hmode, enroll_unchecked]
      rfl
    · rw [if_neg (by simpa using hmode)]
      dsimp only
      rw [if_neg hmode]
      rfl

theorem step_of_redeems (hrede : tables.Redeems request registration) :
    tables.step request = (tables.redeem request.platform request.registrationCode request.user registration
      ⟨true, false, none, none, none, none, none⟩).1 := by
  obtain ⟨hmet, hlimit, hfnd, hval, hcrs, hbloc, hfresh⟩ := hrede
  simp [step, registerCodeRedemption, hmet, hlimit, hfnd, hval, hcrs, hbloc, hfresh]

theorem step_of_not_redeems (hnot : ∀ registration, ¬ tables.Redeems request registration) :
    tables.step request = tables := by
  rw [step, registerCodeRedemption]
  cases hlimit : request.platform.isRateLimitExceeded with
  | true => rfl
  | false =>
    cases hfnd : tables.codes.lookup request.registrationCode with
    | none => rfl
    | some registration =>
      have hrede := hnot registration
      cases hmet : request.method with
      | get => simp only [false_eq_true, if_false]; split_ifs <;> rfl
      | post =>
        simp only [Redeems, hmet, hlimit, hfnd, true_and, not_and] at hrede
        simp only [false_eq_true, if_false]
        split_ifs with hval hcrs hbloc hfresh <;> try rfl
        simp at hval hcrs hbloc hfresh
        exact absurd hfresh.2 (hrede hval hcrs hbloc)

section

variable (tables : RedemptionTables) (platform : Platform) (code user : String) (registration : CourseRegistrationCode)
  (context : RedemptionContext)

/-- The tables after a code is redeemed: the enrollment is left out where the course does not have the mode. -/
theorem redeem_eq : let created := (tables.removeFromCart user registration.courseId).createRedemption code user
    (tables.redeem platform code user registration context).1 =
      if ∀ modeSlug ∈ registration.modeSlug, modeSlug ∈ platform.modesForCourse registration.courseId then
        (created.updateEnrollment user registration.courseId
          (enrollmentMode platform registration)).saveCourseEnrollment code user registration.courseId
      else created := by
  intro created
  rw [redeem, tryEnroll_eq]
  split_ifs <;> rfl

theorem isRegistrationCodeRedeemed_redeem (other : String) :
    (tables.redeem platform code user registration context).1.isRegistrationCodeRedeemed other =
      (tables.isRegistrationCodeRedeemed other || code = other) := by
  rw [redeem_eq]
  split_ifs <;>
    simp [isRegistrationCodeRedeemed, saveCourseEnrollment, updateEnrollment, createRedemption, removeFromCart]

end

theorem isRegistrationCodeRedeemed_step {code : String} (hred : tables.isRegistrationCodeRedeemed code = true)
    (request : RedemptionRequest) : (tables.step request).isRegistrationCodeRedeemed code = true := by
  by_cases hrede : ∃ registration, tables.Redeems request registration
  · obtain ⟨registration, hrede⟩ := hrede
    rw [step_of_redeems hrede, isRegistrationCodeRedeemed_redeem, hred, Bool.true_or]
  · rw [step_of_not_redeems (not_exists.mp hrede), hred]

theorem LeadsToEnrollment.redeems (hleads : tables.LeadsToEnrollment request) :
    ∃ registration, tables.Redeems request registration := by
  by_contra hnot
  obtain ⟨registration, hfnd, hchan⟩ := hleads
  rw [step_of_not_redeems (not_exists.mp hnot)] at hchan
  exact hchan rfl

theorem enrollmentsByCode_of_redeemed {code : String} (requests : List RedemptionRequest)
    (hred : tables.isRegistrationCodeRedeemed code = true) : enrollmentsByCode code tables requests = 0 := by
  induction requests generalizing tables with
  | nil => rfl
  | cons request requests ih =>
    rw [enrollmentsByCode, ih (isRegistrationCodeRedeemed_step hred request), if_neg]
    rintro ⟨rfl, hleads⟩
    obtain ⟨registration, hrede⟩ := hleads.redeems
    exact absurd (hrede.2.2.2.2.2.2.symm.trans hred) false_ne_true

theorem enrollmentsByCode_le_one (code : String) (tables : RedemptionTables) (requests : List RedemptionRequest) :
    enrollmentsByCode code tables requests ≤ 1 := by
  induction requests generalizing tables with
  | nil => exact Nat.zero_le 1
  | cons request requests ih =>
    rw [enrollmentsByCode]
    split_ifs with hleads
    · obtain ⟨rfl, hleads⟩ := hleads
      obtain ⟨registration, hrede⟩ := hleads.redeems
      have hred : (tables.step request).isRegistrationCodeRedeemed request.registrationCode = true := by
        rw [step_of_redeems hrede, isRegistrationCodeRedeemed_redeem]
        simp
      rw [enrollmentsByCode_of_redeemed requests hred]
    · rw [Nat.zero_add]
      exact ih _

theorem lookup_enrollments_redeem (tables : RedemptionTables) (platform : Platform) (code user : String)
    (registration : CourseRegistrationCode) (context : RedemptionContext) :
    (tables.redeem platform code user registration context).1.enrollments.lookup (user, registration.courseId) =
      if ∀ modeSlug ∈ registration.modeSlug, modeSlug ∈ platform.modesForCourse registration.courseId then
        some ⟨enrollmentMode platform registration, true⟩
      else tables.enrollments.lookup (user, registration.courseId) := by
  rw [redeem_eq]
  split_ifs
  · rw [saveCourseEnrollment, updateEnrollment]
    exact lookup_insert_self _ _ _
  · rfl

theorem Redeems.unique {other : CourseRegistrationCode} (hrede : tables.Redeems request registration)
    (hoth : tables.Redeems request other) : other = registration :=
  some.inj (hoth.2.2.1.symm.trans hrede.2.2.1)

/-- A request enrolls or leaves everything as it was exactly if its code, where it redeems one, gives the user a new
enrollment. -/
theorem enrolls_or_leaves_iff (tables : RedemptionTables) (request : RedemptionRequest) :
    tables.LeadsToEnrollment request ∨ tables.LeavesCodeAndCart request ↔ tables.CodeGivesEnrollment request := by
  by_cases hrede : ∃ registration, tables.Redeems request registration
  · obtain ⟨registration, hrede⟩ := hrede
    have hnotL : ¬ tables.LeavesCodeAndCart request := by
      rintro ⟨hcode, -⟩
      rw [step_of_redeems hrede, isRegistrationCodeRedeemed_redeem, hrede.2.2.2.2.2.2] at hcode
      simp at hcode
    have hleads : tables.LeadsToEnrollment request ↔
        (∀ modeSlug ∈ registration.modeSlug, modeSlug ∈ request.platform.modesForCourse registration.courseId) ∧
          tables.enrollments.lookup (request.user, registration.courseId) ≠
            some ⟨enrollmentMode request.platform registration, true⟩ := by
      rw [LeadsToEnrollment, hrede.2.2.1, step_of_redeems hrede]
      simp only [Option.mem_some_iff, exists_eq_left', lookup_enrollments_redeem]
      split_ifs with hmode
      · rw [and_iff_right hmode, ne_comm]
      · exact iff_of_false (fun hne => hne rfl) (fun hgives => hmode hgives.1)
    rw [or_iff_left hnotL, hleads]
    constructor
    · intro hgives other hoth
      rwa [hrede.unique hoth]
    · intro hgives
      exact hgives registration hrede
  · have hnot := not_exists.mp hrede
    refine iff_of_true (.inr ?_) (fun registration hrede => absurd hrede (hnot registration))
    rw [LeavesCodeAndCart, step_of_not_redeems hnot]
    exact ⟨rfl, rfl⟩

/-- A code enrolls once at most in every run.  Requests that enroll nobody change nothing exactly if each code that is
redeemed has a mode of its course and gives its user an enrollment that the user did not have. -/
theorem redeemsForEnrollment_iff (tables : RedemptionTables) (requests : List RedemptionRequest) :
    tables.RedeemsForEnrollment requests ↔ Each step CodeGivesEnrollment tables requests := by
  rw [RedeemsForEnrollment, and_iff_right fun code => enrollmentsByCode_le_one code tables requests]
  constructor
  · exact Each.imp_of_invariant (I := fun _ => True) (fun _ _ _ => trivial)
      (fun tables request _ => (enrolls_or_leaves_iff tables request).mp) trivial
  · exact Each.imp_of_invariant (I := fun _ => True) (fun _ _ _ => trivial)
      (fun tables request _ => (enrolls_or_leaves_iff tables request).mpr) trivial

/-- A code for a mode that its course does not have, and a cart with the course. -/
def professionalCode : RedemptionTables where
  codes := Dict.ofList [("code", ⟨"course", some "professional", true⟩)]
  carts := fun _ => [⟨1, 1, "student", .cart, .paidCourseRegistration "course" "honor", 1, 40, "usd", []⟩]

def openPlatform : Platform where
  hasCourse := fun _ => true
  hasOverview := fun _ => true
  isBlocked := fun _ _ => false
  foundCourseModes := fun _ => ["honor"]
  isEnrollmentClosed := fun _ _ => false
  maxStudentEnrollmentsAllowed := fun _ => none
  admins := fun _ => []

/-- The request is refused for the mode, with the code redeemed and the cart empty. -/
theorem professionalCode_not_redeemsForEnrollment :
    let request : RedemptionRequest := ⟨.post, "student", "code", openPlatform⟩
    ¬ professionalCode.RedeemsForEnrollment [request] ∧ (professionalCode.registerCodeRedemption request).2 =
        .page ⟨true, false, some false, some true, none, none, none⟩ ∧
      (professionalCode.step request).carts "student" = [] := by
  refine ⟨?_, by decide, by rfl⟩
  rintro ⟨-, heach⟩
  rcases heach.1 with hleads | ⟨hcode, -⟩
  · exact absurd hleads (by decide)
  · exact absurd hcode (by decide)

end RedemptionTables

end EdxPlatform.Shoppingcart
