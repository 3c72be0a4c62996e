import EdxPlatform.Enrollment.Records

/-!
# Cleaning up after a deleted course

The task removes the custom courses of a course with what belongs to them, and is
meant to end the enrollments in them.  The search indexes are left out.
-/

namespace EdxPlatform.Enrollment

open CourseKey

variable {Course : Type} [DecidableEq Course] {users : UserTable}

/-- A row of `CustomCourseForEdX`. -/
structure CustomCourse (Course : Type) where
  id : Nat
  courseId : CourseKey Course
  deriving DecidableEq

/-- The rows that the task works on.  Of an override its custom course is kept, of a
license its course. -/
structure Site (Course : Type) [DecidableEq Course] (users : UserTable) where
  records : Records Course users
  customCourses : List (CustomCourse Course) := []
  ccxFieldOverrides : List Nat := []
  courseLicenses : List (CourseKey Course) := []

namespace Records

section

variable (records : Records Course users)

/-- `remove_users` of all who have the role. -/
def removeUsersWithRole (role : Role) (courseId : CourseKey Course) : Records Course users :=
  { records with accessRoles := records.accessRoles.filter fun row =>
      ¬ (row.user ∈ records.usersWithRole role courseId ∧ row.role = role ∧ row.courseId = courseId) }

def enrolledUsers (courseId : CourseKey Course) : List users.Row :=
  (records.enrollments.entries.filter fun entry => entry.1.2 = courseId).map fun entry => entry.1.1

def unenrollAll (courseId : CourseKey Course) (rows : List users.Row) : Records Course users :=
  rows.foldl (fun records row => records.unenrollEmail courseId row.1.email) records

end

end Records

namespace Site

def cleanUp (course : Course) (site : Site Course users) (customCourse : CustomCourse Course) : Site Course users :=
  let ccxLocator := fromCourseLocator course customCourse.id
  { site with
    ccxFieldOverrides := site.ccxFieldOverrides.filter (· ≠ customCourse.id)
    -- the enrollments are those of the custom course, the key is that of the course
    records := site.records.unenrollAll ⟨course, none⟩ (site.records.enrolledUsers ccxLocator)
    courseLicenses := site.courseLicenses.filter (· ≠ ccxLocator) }

/-- `course_delete`. -/
def courseDelete (customCoursesEdx : Bool) (course : Course) (site : Site Course users) : Site Course users :=
  if customCoursesEdx then
    let records := site.records.removeUsersWithRole .ccxCoach ⟨course, none⟩
    let ccxs := site.customCourses.filter fun row => row.courseId = ⟨course, none⟩
    let cleaned := ccxs.foldl (cleanUp course) { site with records }
    { cleaned with
      customCourses := site.customCourses.filter fun row => row.courseId ≠ ⟨course, none⟩ }
  else site

/-- What the clean-up is for: the enrollments in the custom courses that are deleted end,
and those in the course stay as they are. -/
structure CleansUp (customCoursesEdx : Bool) (course : Course) (site : Site Course users) : Prop where
  ended : ∀ customCourse ∈ site.customCourses,
    customCourse ∉ (site.courseDelete customCoursesEdx course).customCourses →
    ∀ user, (site.courseDelete customCoursesEdx course).records.isEnrolled user
      (fromCourseLocator customCourse.courseId.course customCourse.id) = false
  kept : ∀ user, (site.courseDelete customCoursesEdx course).records.enrollments.lookup
    (user, ⟨course, none⟩) = site.records.enrollments.lookup (user, ⟨course, none⟩)

end Site

namespace Records

/-- The active enrollments of the chosen users in one course end, and nothing else changes
in the enrollments. -/
structure Ended (courseId : CourseKey Course) (chosen : users.Row → Prop)
    (before after : Records Course users) : Prop where
  ended : ∀ user, chosen user → after.enrollments.lookup (user, courseId) =
    (before.enrollments.lookup (user, courseId)).map fun record => { record with isActive := false }
  kept : ∀ user, ¬ chosen user → after.enrollments.lookup (user, courseId) = before.enrollments.lookup (user, courseId)
  elsewhere : ∀ user otherId, otherId ≠ courseId →
    after.enrollments.lookup (user, otherId) = before.enrollments.lookup (user, otherId)

variable {courseId : CourseKey Course} {before middle after : Records Course users}

theorem ended_of_enrollments (hsame : after.enrollments = before.enrollments) :
    Ended courseId (fun _ => False) before after where
  ended _ hchos := hchos.elim
  kept _ _ := by rw [hsame]
  elsewhere _ _ _ := by rw [hsame]

theorem ended_unenrollEmail (courseId : CourseKey Course) (before : Records Course users) (row : users.Row) :
    Ended courseId (fun user => user = row) before (before.unenrollEmail courseId row.1.email) where
  ended user hchos := by
    rw [lookup_unenrollEmail, if_pos ⟨hchos, rfl⟩]
  kept user hoth := by
    rw [lookup_unenrollEmail, if_neg fun hsame => hoth hsame.1]
  elsewhere user otherId hne := by
    rw [lookup_unenrollEmail, if_neg fun hsame => hne hsame.2]

variable {chosen others : users.Row → Prop}

theorem Ended.trans (hfst : Ended courseId chosen before middle) (hsec : Ended courseId others middle after) :
    Ended courseId (fun user => chosen user ∨ others user) before after where
  ended user hchos := by
    by_cases hoth : others user
    · rw [hsec.ended user hoth]
      by_cases hfir : chosen user
      · rw [hfst.ended user hfir, Option.map_map]
        rfl
      · rw [hfst.kept user hfir]
    · rw [hsec.kept user hoth]
      exact hfst.ended user (hchos.resolve_right hoth)
  kept user hneit := by
    obtain ⟨hfir, hseco⟩ := not_or.mp hneit
    rw [hsec.kept user hseco, hfst.kept user hfir]
  elsewhere user otherId hne := by
    rw [hsec.elsewhere user otherId hne, hfst.elsewhere user otherId hne]

theorem Ended.congr (hended : Ended courseId chosen before after)
    (hsame : ∀ user, chosen user ↔ others user) : Ended courseId others before after where
  ended user hchos := hended.ended user ((hsame user).mpr hchos)
  kept user hoth := hended.kept user fun hchos => hoth ((hsame user).mp hchos)
  elsewhere := hended.elsewhere

theorem ended_unenrollAll (rows : List users.Row) :
    Ended courseId (fun user => user ∈ rows) before (before.unenrollAll courseId rows) := by
  induction rows generalizing before with
  | nil => exact (ended_of_enrollments rfl).congr fun user => (iff_false_intro not_mem_nil).symm
  | cons row rows ih =>
    have hall := (ended_unenrollEmail courseId before row).trans ih
    exact hall.congr fun user => mem_cons.symm

theorem mem_enrolledUsers {records : Records Course users} {user : users.Row} :
    user ∈ records.enrolledUsers courseId ↔ ∃ record, records.enrollments.lookup (user, courseId) = some record := by
  rw [enrolledUsers, mem_map]
  constructor
  · rintro ⟨⟨⟨row, otherId⟩, record⟩, hent, rfl⟩
    obtain ⟨hmem, hcrs⟩ := mem_filter.mp hent
    obtain rfl := of_decide_eq_true hcrs
    exact ⟨record, mem_lookup_iff.mpr hmem⟩
  · rintro ⟨record, hlook⟩
    exact ⟨⟨(user, courseId), record⟩, mem_filter.mpr ⟨mem_lookup_iff.mp hlook, decide_eq_true rfl⟩, rfl⟩

end Records

namespace Site

variable {course : Course}

omit [DecidableEq Course] in
theorem fromCourseLocator_ne (id : Nat) : fromCourseLocator course id ≠ ⟨course, none⟩ :=
  fun heq => some_ne_none id (CourseKey.mk.inj heq).2

/-- The loop ends the enrollments in the course of those who have a row in one of the
custom courses. -/
theorem ended_cleanUp (customCourses : List (CustomCourse Course)) (site : Site Course users) :
    Records.Ended ⟨course, none⟩ (fun user => ∃ customCourse ∈ customCourses, user ∈
          site.records.enrolledUsers (fromCourseLocator course customCourse.id))
        site.records (customCourses.foldl (cleanUp course) site).records := by
  induction customCourses generalizing site with
  | nil =>
    refine (Records.ended_of_enrollments rfl).congr fun user => ?_
    exact (iff_false_intro fun ⟨_, hmem, _⟩ => not_mem_nil hmem).symm
  | cons customCourse customCourses ih =>
    have hhead : Records.Ended ⟨course, none⟩ _ site.records (site.cleanUp course customCourse).records :=
      Records.ended_unenrollAll (site.records.enrolledUsers (fromCourseLocator course customCourse.id))
    refine (hhead.trans (ih (site.cleanUp course customCourse))).congr fun user => ?_
    have hrows : ∀ other : CustomCourse Course, user ∈ (site.cleanUp course customCourse).records.enrolledUsers
          (fromCourseLocator course other.id) ↔
        user ∈ site.records.enrolledUsers (fromCourseLocator course other.id) := by
      intro other
      rw [Records.mem_enrolledUsers, Records.mem_enrolledUsers, hhead.elsewhere user _ (fromCourseLocator_ne other.id)]
    simp only [hrows, mem_cons, exists_eq_or_imp]

theorem ended_courseDelete (course : Course) (site : Site Course users) :
    Records.Ended ⟨course, none⟩ (fun user => ∃ customCourse ∈ site.customCourses.filter fun row =>
        row.courseId = ⟨course, none⟩, user ∈ site.records.enrolledUsers (fromCourseLocator course customCourse.id))
      site.records (site.courseDelete true course).records := by
  obtain ⟨hended, hkept, hels⟩ := (ended_cleanUp (site.customCourses.filter fun row => row.courseId = ⟨course, none⟩)
    { site with records := site.records.removeUsersWithRole .ccxCoach ⟨course, none⟩ })
  exact ⟨hended, hkept, hels⟩

/-- The task cleans up exactly when nobody is active in a custom course of the course, and
those who have a row there are not active in the course. -/
theorem cleansUp_iff (customCoursesEdx : Bool) (site : Site Course users) :
    site.CleansUp customCoursesEdx course ↔ (customCoursesEdx = true → ∀ customCourse ∈ site.customCourses,
        customCourse.courseId = ⟨course, none⟩ → ∀ user record, site.records.enrollments.lookup
            (user, fromCourseLocator course customCourse.id) = some record →
          record.isActive = false ∧ site.records.isEnrolled user ⟨course, none⟩ = false) := by
  cases customCoursesEdx with
  | false =>
    refine iff_of_true ⟨fun customCourse hmem hdeleted => absurd hmem hdeleted, fun _ => rfl⟩ ?_
    exact fun henabled => absurd henabled false_ne_true
  | true =>
    obtain ⟨hended, hkept, helsewhere⟩ := ended_courseDelete course site
    constructor
    · intro hcleans _ customCourse hmem hcourse user record hlookup
      have hinactive := hcleans.ended customCourse hmem (fun hleft => absurd hcourse
        (of_decide_eq_true (mem_filter.mp hleft).2)) user
      have hrecord := helsewhere user _ (fromCourseLocator_ne customCourse.id)
      rw [hlookup] at hrecord
      rw [hcourse, Records.isEnrolled, hrecord] at hinactive
      refine ⟨hinactive, ?_⟩
      rw [Records.isEnrolled]
      cases hown : site.records.enrollments.lookup (user, ⟨course, none⟩) with
      | none => rfl
      | some own =>
        have hrow : user ∈ site.records.enrolledUsers (fromCourseLocator course customCourse.id) :=
          Records.mem_enrolledUsers.mpr ⟨record, hlookup⟩
        have hchanged := hended user ⟨customCourse, mem_filter.mpr ⟨hmem, decide_eq_true hcourse⟩, hrow⟩
        rw [hcleans.kept user, hown, map_some] at hchanged
        exact congrArg CourseEnrollment.isActive (some.inj hchanged)
    · intro hquiet
      refine ⟨fun customCourse hmem hdeleted user => ?_, fun user => ?_⟩
      · have hcourse : customCourse.courseId = ⟨course, none⟩ := by
          by_contra hother
          exact hdeleted (mem_filter.mpr ⟨hmem, decide_eq_true hother⟩)
        rw [hcourse, Records.isEnrolled, helsewhere user _ (fromCourseLocator_ne customCourse.id)]
        cases hlookup : site.records.enrollments.lookup (user, fromCourseLocator course customCourse.id) with
        | none => rfl
        | some record => exact (hquiet rfl customCourse hmem hcourse user record hlookup).1
      · by_cases hchosen : ∃ customCourse ∈ site.customCourses.filter fun row =>
            row.courseId = ⟨course, none⟩, user ∈ site.records.enrolledUsers (fromCourseLocator course customCourse.id)
        · rw [hended user hchosen]
          obtain ⟨customCourse, hmem, hrow⟩ := hchosen
          obtain ⟨hmem, hcourse⟩ := mem_filter.mp hmem
          obtain ⟨record, hlookup⟩ := Records.mem_enrolledUsers.mp hrow
          have hinactive := (hquiet rfl customCourse hmem (of_decide_eq_true hcourse) user record hlookup).2
          rw [Records.isEnrolled] at hinactive
          cases hown : site.records.enrollments.lookup (user, ⟨course, none⟩) with
          | none => rfl
          | some own =>
            rw [hown] at hinactive
            rw [map_some, ← hinactive]
        · exact hkept user hchosen

def annOnly : UserTable where
  rows := [⟨"ann", "ann@x.org"⟩]
  usernames := by decide
  emails := by decide

def ann : annOnly.Row := ⟨⟨"ann", "ann@x.org"⟩, by decide⟩

def annSite : Site Unit annOnly where
  records := { enrollments := Dict.ofList [((ann, ⟨(), none⟩), ⟨"audit", true⟩),
    ((ann, ⟨(), some 1⟩), ⟨"audit", true⟩)] }
  customCourses := [⟨1, ⟨(), none⟩⟩]

/-- She is unenrolled from the course and stays in the custom course. -/
theorem not_cleansUp_annSite : ¬ annSite.CleansUp true () := by
  intro hcleans
  have hended := hcleans.ended ⟨1, ⟨(), none⟩⟩ mem_cons_self (by decide) ann
  revert hended
  decide

end Site

end EdxPlatform.Enrollment
