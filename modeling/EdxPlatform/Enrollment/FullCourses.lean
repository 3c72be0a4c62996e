import EdxPlatform.Enrollment.EnrollingCenter

/-!
# Enrolling into a full course

The loop stops at the first identifier for which there is no room, and the coach may
count among those who fill the course.
-/

namespace EdxPlatform.Enrollment

open Records Records

namespace EnrollingCenter

section

variable {Course : Type} {users : UserTable} (center : EnrollingCenter Course users)

def target (identifier : String) : Option users.Row :=
  match center.getValidStudentWithEmail identifier with
  | .ok (email, _) => users.withEmail email
  | .error _ => none

def named (identifiers : List String) : List users.Row := identifiers.filterMap center.target

variable {center}

theorem named_append (handled : List String) (identifier : String) :
    center.named (handled ++ [identifier]) = center.named handled ++ (center.target identifier).toList := by
  rw [named, filterMap_append, named]
  cases htgt : center.target identifier with
  | none => rw [filterMap_cons_none htgt]; rfl
  | some user => rw [filterMap_cons_some htgt]; rfl

theorem target_of_valid {identifier email : String} {student : Option users.Row}
    (hval : center.getValidStudentWithEmail identifier = .ok (email, student)) :
    center.target identifier = users.withEmail email := by
  rw [target, hval]

theorem target_of_student {identifier email : String} {user : users.Row}
    (hval : center.getValidStudentWithEmail identifier = .ok (email, some user)) :
    center.target identifier = some user := by
  rw [target_of_valid hval]
  cases hstud : getStudentFromIdentifier users identifier with
  | none =>
    simp only [getValidStudentWithEmail, hstud] at hval
    split at hval
    · exact absurd (Prod.mk.inj (ok.inj hval)).2 (some_ne_none user).symm
    · cases hval
  | some student =>
    simp only [getValidStudentWithEmail, hstud] at hval
    split at hval
    · obtain ⟨hemail, huser⟩ := Prod.mk.inj (ok.inj hval)
      rw [← hemail, some.inj huser]
      exact users.withEmail_email user
    · cases hval

end

variable {Course : Type} [DecidableEq Course] {users : UserTable}
  (center : EnrollingCenter Course users) (records : Records Course users)

section

variable (identifiers : List String)

def newcomers : Finset users.Row :=
  (center.named identifiers).toFinset.filter fun user =>
    ¬ (records.isEnrolled user center.courseKey ∨ records.isAdmin center.courseKey user)

def expected : Nat := records.numEnrolledInExcludeAdmins center.courseKey + (center.newcomers records identifiers).card

/-- What enrolling a list of identifiers promises, also of its first part. -/
structure Enrolls (identifiers : List String) : Prop where
  exempt : ∀ identifier ∈ identifiers, ∀ email user,
    center.getValidStudentWithEmail identifier = .ok (email, some user) →
    center.mustEnroll records (some user) = true →
    (center.enrollAll records identifiers).records.isEnrolled user center.courseKey = true
  others : ∀ before identifier after, identifiers = before ++ identifier :: after →
    ∀ email student, center.getValidStudentWithEmail identifier = .ok (email, student) →
    center.mustEnroll records student = false →
    (center.enrollAll records (before ++ [identifier])).processed ≠ (center.enrollAll records before).processed →
    ∀ limit, center.maxStudentEnrollmentsAllowed = some limit →
      (center.enrollAll records before).records.numEnrolledInExcludeAdmins center.courseKey < limit
  bounded : ∀ before after, identifiers = before ++ after → ∀ limit, center.maxStudentEnrollmentsAllowed = some limit →
      ((center.enrollAll records before).records.numEnrolledInExcludeAdmins center.courseKey : Int) ≤
        max limit (records.numEnrolledInExcludeAdmins center.courseKey)
  reported : ∀ before identifier after, identifiers = before ++ identifier :: after →
    (center.enrollAll records (before ++ [identifier])).processed =
        (center.enrollAll records before).processed ++ [identifier] ∨
      ∃ error, (center.enrollAll records (before ++ [identifier])).errors =
        (center.enrollAll records before).errors ++ [error]

/-- Where the users named before fill the course, there follows nobody who has to wait
except at the very end, nor the coach if that takes a place. -/
def HasRoom : Prop :=
  ∀ before identifier after, identifiers = before ++ identifier :: after →
    ∀ email student, center.getValidStudentWithEmail identifier = .ok (email, student) →
    ∀ limit, center.maxStudentEnrollmentsAllowed = some limit → limit ≤ center.expected records before →
      if center.mustEnroll records student = true then
        ∀ user, student = some user → user ∈ center.named before ∨ records.isEnrolled user center.courseKey = true ∨
          records.isAdmin center.courseKey user = true
      else after = []

end

variable {center records}

theorem enrollAll_append (before : List String) (identifier : String) :
    center.enrollAll records (before ++ [identifier]) =
      center.enrollNext (center.enrollAll records before) identifier :=
  foldl_append

theorem enrollNext_cases (enrolling : Enrolling Course users) (identifier : String) :
    (enrolling.broke = true ∧ center.enrollNext enrolling identifier = enrolling) ∨
    (enrolling.broke = false ∧ ∃ error, center.getValidStudentWithEmail identifier = .error error ∧
      center.enrollNext enrolling identifier = { enrolling with errors := enrolling.errors ++ [error] }) ∨
    (enrolling.broke = false ∧ ∃ email student, center.getValidStudentWithEmail identifier = .ok (email, student) ∧
      enrolling.records.isCourseFull center.courseKey center.maxStudentEnrollmentsAllowed = true ∧
      center.mustEnroll enrolling.records student = false ∧
      center.enrollNext enrolling identifier =
        { enrolling with errors := enrolling.errors ++ [center.fullError], broke := true }) ∨
    (enrolling.broke = false ∧ ∃ email student, center.getValidStudentWithEmail identifier = .ok (email, student) ∧
      (enrolling.records.isCourseFull center.courseKey center.maxStudentEnrollmentsAllowed = true →
        center.mustEnroll enrolling.records student = true) ∧
      center.enrollNext enrolling identifier = { enrolling with
          records := enrolling.records.enrollEmail center.courseModes center.courseKey email true
          processed := enrolling.processed ++ [identifier] }) := by
  rw [enrollNext]
  cases hbroke : enrolling.broke with
  | true => exact .inl ⟨rfl, if_pos rfl⟩
  | false =>
    rw [if_neg false_ne_true]
    cases hval : center.getValidStudentWithEmail identifier with
    | error error => exact .inr (.inl ⟨rfl, error, rfl, rfl⟩)
    | ok result =>
      obtain ⟨email, student⟩ := result
      dsimp only
      split
      · next hfull =>
        rw [and_eq_true, not_eq_true'] at hfull
        exact .inr (.inr (.inl ⟨rfl, email, student, rfl, hfull.1, hfull.2, rfl⟩))
      · next hroom =>
        rw [and_eq_true, not_eq_true', not_and, not_eq_false] at hroom
        exact .inr (.inr (.inr ⟨rfl, email, student, rfl, hroom, rfl⟩))

variable (center records) in
/-- The rows after a list of identifiers that were all handled. -/
structure Followed (handled : List String) (current : Records Course users) : Prop where
  accessRoles : current.accessRoles = records.accessRoles
  enrolled : ∀ user, current.isEnrolled user center.courseKey = true ↔
    records.isEnrolled user center.courseKey = true ∨ user ∈ center.named handled
  count : current.numEnrolledInExcludeAdmins center.courseKey = center.expected records handled

theorem followed_nil : Followed center records [] records where
  accessRoles := rfl
  enrolled _ := (or_iff_left not_mem_nil).symm
  count := rfl

variable {current : Records Course users} {handled : List String} {identifier : String}

theorem Followed.skip {next : Records Course users} (hfol : Followed center records handled current)
    (htgt : center.target identifier = none)
    (henro : next.enrollments = current.enrollments)
    (hroles : next.accessRoles = current.accessRoles) :
    Followed center records (handled ++ [identifier]) next := by
  have hnamed : center.named (handled ++ [identifier]) = center.named handled := by
    rw [named_append, htgt]
    exact append_nil _
  obtain ⟨hacc, henr, hcnt⟩ := hfol
  refine ⟨hroles.trans hacc, fun user => ?_, ?_⟩
  · rw [hnamed, ← henr, isEnrolled, henro, isEnrolled]
  · rw [numEnrolledInExcludeAdmins, henro, isCounted_eq_of_accessRoles hroles]
    refine hcnt.trans ?_
    rw [expected, expected, newcomers, newcomers, hnamed]

variable {user : users.Row}

theorem expected_append (handled : List String) (htgt : center.target identifier = some user) :
    center.expected records (handled ++ [identifier]) = center.expected records handled +
      if (records.isEnrolled user center.courseKey = true ∨ user ∈ center.named handled) ∨
        records.isAdmin center.courseKey user = true then 0 else 1 := by
  have hins : (center.named (handled ++ [identifier])).toFinset = insert user (center.named handled).toFinset := by
    rw [named_append, htgt]
    ext other
    simp
  rw [expected, expected, newcomers, newcomers, hins, Finset.filter_insert, Nat.add_assoc]
  congr 1
  by_cases hold : records.isEnrolled user center.courseKey = true ∨ records.isAdmin center.courseKey user = true
  · rw [if_neg (not_not.mpr hold), if_pos]
    · rfl
    · rcases hold with henr | hadmin
      · exact .inl (.inl henr)
      · exact .inr hadmin
  · rw [if_pos hold]
    by_cases hnamed : user ∈ center.named handled
    · rw [if_pos (.inl (.inr hnamed)), Finset.insert_eq_of_mem]
      · rfl
      · exact Finset.mem_filter.mpr ⟨mem_toFinset.mpr hnamed, hold⟩
    · rw [Finset.card_insert_of_notMem, if_neg]
      · rintro ((henr | hmem) | hadmin)
        · exact hold (.inl henr)
        · exact hnamed hmem
        · exact hold (.inr hadmin)
      · exact fun hmem => hnamed (mem_toFinset.mp (Finset.mem_filter.mp hmem).1)

section

variable (hfol : Followed center records handled current)
include hfol

theorem Followed.enroll (htgt : center.target identifier = some user) {record : CourseEnrollment}
    (hact : record.isActive = true) :
    Followed center records (handled ++ [identifier]) (current.updateEnrollment user center.courseKey record) := by
  obtain ⟨hacc, henr, hcnt⟩ := hfol
  refine ⟨hacc, fun other => ?_, ?_⟩
  · rw [isEnrolled_updateEnrollment, named_append, htgt, Option.toList_some, mem_append, mem_singleton]
    by_cases hsame : other = user
    · rw [if_pos ⟨hsame, rfl⟩]
      exact iff_of_true hact (.inr (.inr hsame))
    · rw [if_neg fun hboth => hsame hboth.1, henr, or_iff_left hsame]
  · rw [numEnrolled_updateEnrollment _ _ _ hact, expected_append handled htgt, hcnt, isAdmin_eq_of_accessRoles hacc]
    exact congrArg _ (if_congr (or_congr (henr user) Iff.rfl) rfl rfl)

theorem Followed.processed {email : String} {student : Option users.Row}
    (hval : center.getValidStudentWithEmail identifier = .ok (email, student)) :
    Followed center records (handled ++ [identifier])
      (current.enrollEmail center.courseModes center.courseKey email true) := by
  have htgt := target_of_valid hval
  obtain ⟨user, record, huser, henroll, hact⟩ | ⟨hnone, henro, hroles⟩ :=
    current.enrollEmail_spec center.courseModes center.courseKey email true
  · rw [henroll]
    exact hfol.enroll (htgt.trans huser) hact
  · exact hfol.skip (htgt.trans hnone) henro hroles

end

variable {before : List String}

theorem enrollAll_followed (hopen : (center.enrollAll records before).broke = false) :
    Followed center records before (center.enrollAll records before).records := by
  induction before using reverseRecOn with
  | nil => exact followed_nil
  | append_singleton before identifier ih =>
    rw [enrollAll_append] at hopen ⊢
    obtain ⟨hbroke, hnxt⟩ | ⟨hbroke, error, herror, hnxt⟩ |
      ⟨-, email, student, -, -, -, hnxt⟩ | ⟨hbroke, email, student, hval, -, hnxt⟩ :=
      enrollNext_cases (center.enrollAll records before) identifier
    · rw [hnxt, hbroke] at hopen
      exact Bool.noConfusion hopen
    · rw [hnxt]
      refine (ih hbroke).skip ?_ rfl rfl
      rw [target, herror]
    · rw [hnxt] at hopen
      exact Bool.noConfusion hopen
    · rw [hnxt]
      exact (ih hbroke).processed hval

theorem mustEnroll_eq_of_accessRoles
    (hroles : current.accessRoles = records.accessRoles) (student : Option users.Row) :
    center.mustEnroll current student = center.mustEnroll records student := by
  cases student with
  | none => rfl
  | some student =>
    rw [mustEnroll, mustEnroll, usersWithRole, usersWithRole, hroles]
    rfl

theorem isCourseFull_iff {courseId : CourseKey Course}
    {maxAllowed : Option Int} : current.isCourseFull courseId maxAllowed = true ↔
      ∃ limit, maxAllowed = some limit ∧ limit ≤ current.numEnrolledInExcludeAdmins courseId := by
  cases maxAllowed with
  | none => simp [isCourseFull]
  | some limit => simp [isCourseFull]

theorem isEnrolled_enrollNext {enrolling : Enrolling Course users}
    (henr : enrolling.records.isEnrolled user center.courseKey = true) (identifier : String) :
    (center.enrollNext enrolling identifier).records.isEnrolled user center.courseKey = true := by
  obtain ⟨-, hnxt⟩ | ⟨-, error, -, hnxt⟩ | ⟨-, email, student, -, -, -, hnxt⟩ |
    ⟨-, email, student, -, -, hnxt⟩ := enrollNext_cases enrolling identifier
  · rwa [hnxt]
  · rwa [hnxt]
  · rwa [hnxt]
  · rw [hnxt]
    obtain ⟨other, record, -, henroll, hact⟩ | ⟨-, henro, -⟩ :=
      enrolling.records.enrollEmail_spec center.courseModes center.courseKey email true
    · rw [henroll, isEnrolled_updateEnrollment]
      split
      · exact hact
      · exact henr
    · rwa [isEnrolled, henro, ← isEnrolled]

theorem isEnrolled_enrollAll (after : List String)
    (henr : (center.enrollAll records before).records.isEnrolled user center.courseKey = true) :
    (center.enrollAll records (before ++ after)).records.isEnrolled user center.courseKey = true := by
  induction after using reverseRecOn with
  | nil => rwa [append_nil]
  | append_singleton after identifier ih =>
    rw [← append_assoc, enrollAll_append]
    exact isEnrolled_enrollNext ih identifier

variable {after identifiers : List String}

theorem Enrolls.goes_on (henrolls : center.Enrolls records identifiers)
    (hspl : identifiers = before ++ identifier :: after) :
    (center.enrollAll records before).broke = false := by
  by_contra hbroke
  have hstays : center.enrollAll records (before ++ [identifier]) = center.enrollAll records before := by
    rw [enrollAll_append, enrollNext, if_pos (not_eq_false _ ▸ hbroke)]
  have hrep := henrolls.reported before identifier after hspl
  rw [hstays] at hrep
  rcases hrep with hproc | ⟨error, herror⟩
  · exact cons_ne_nil _ _ (List.self_eq_append_right.mp hproc)
  · exact cons_ne_nil _ _ (List.self_eq_append_right.mp herror)

theorem HasRoom.goes_on (hroom : center.HasRoom records identifiers)
    (hspl : identifiers = before ++ identifier :: after) :
    (center.enrollAll records before).broke = false := by
  induction before using reverseRecOn generalizing identifier after with
  | nil => rfl
  | append_singleton before last ih =>
    rw [append_assoc, singleton_append] at hspl
    have hopen := ih hspl
    have hfol := enrollAll_followed hopen
    rw [enrollAll_append]
    obtain ⟨hbroke, hnxt⟩ | ⟨-, error, -, hnxt⟩ | ⟨-, email, student, hval, hfull, hmust, hnxt⟩ |
      ⟨-, email, student, -, -, hnxt⟩ :=
      enrollNext_cases (center.enrollAll records before) last
    · rw [hnxt]
      exact hopen
    · rw [hnxt]
      exact hopen
    · obtain ⟨limit, hlimit, hle⟩ := isCourseFull_iff.mp hfull
      rw [hfol.count] at hle
      rw [mustEnroll_eq_of_accessRoles hfol.accessRoles] at hmust
      have hlast := hroom before last (identifier :: after) hspl email student hval limit hlimit hle
      rw [hmust, if_neg false_ne_true] at hlast
      exact absurd hlast (cons_ne_nil _ _)
    · rw [hnxt]
      exact hopen

theorem le_expected (handled : List String) :
    records.numEnrolledInExcludeAdmins center.courseKey ≤ center.expected records handled :=
  Nat.le_add_right _ _

theorem Enrolls.hasRoom (henrolls : center.Enrolls records identifiers) : center.HasRoom records identifiers := by
  intro before identifier after hspl email student hval limit hlimit hle
  have hopen := henrolls.goes_on hspl
  have hfol := enrollAll_followed hopen
  have hfull : (center.enrollAll records before).records.isCourseFull center.courseKey
      center.maxStudentEnrollmentsAllowed = true := by
    refine isCourseFull_iff.mpr ⟨limit, hlimit, ?_⟩
    rw [hfol.count]
    exact hle
  have hmustEq : center.mustEnroll (center.enrollAll records before).records student =
      center.mustEnroll records student :=
    mustEnroll_eq_of_accessRoles hfol.accessRoles student
  split
  · next hmust =>
    intro user huser
    by_contra hnew
    rw [not_or, not_or] at hnew
    obtain ⟨hnamed, hina, hcoun⟩ := hnew
    have htgt := target_of_student (huser ▸ hval)
    have hnxt : (center.enrollAll records (before ++ [identifier])).broke = false := by
      rw [enrollAll_append, enrollNext, if_neg (eq_false_iff.mp hopen), hval]
      simp only [hmustEq, hmust, Bool.not_true, Bool.and_false, false_eq_true, if_false, hopen]
    have hbound := henrolls.bounded (before ++ [identifier]) after
      (by rw [hspl, append_assoc, singleton_append]) limit hlimit
    rw [(enrollAll_followed hnxt).count, expected_append before htgt, if_neg] at hbound
    · have hinit : records.numEnrolledInExcludeAdmins center.courseKey ≤
          center.expected records before := le_expected before
      rcases le_max_iff.mp hbound with hlim | hlim <;> omega
    · rintro ((henr | hmem) | hadmin)
      · exact hina henr
      · exact hnamed hmem
      · exact hcoun hadmin
  · next hmust =>
    cases after with
    | nil => rfl
    | cons next after =>
      have hgoes : (center.enrollAll records (before ++ [identifier])).broke = false :=
        henrolls.goes_on (by rw [hspl, append_assoc, singleton_append])
      rw [enrollAll_append, enrollNext, if_neg (eq_false_iff.mp hopen), hval] at hgoes
      simp only [hmustEq, eq_false_iff.mpr hmust, hfull, Bool.not_false, Bool.and_true,
        if_true, Bool.true_eq_false] at hgoes

theorem HasRoom.bounded (hroom : center.HasRoom records identifiers)
    (hspl : identifiers = before ++ after) {limit : Int}
    (hlimit : center.maxStudentEnrollmentsAllowed = some limit) :
    ((center.enrollAll records before).records.numEnrolledInExcludeAdmins center.courseKey : Int) ≤
      max limit (records.numEnrolledInExcludeAdmins center.courseKey) := by
  induction before using reverseRecOn generalizing after with
  | nil => exact le_max_right _ _
  | append_singleton before identifier ih =>
    rw [append_assoc, singleton_append] at hspl
    have hbef := ih hspl
    rw [enrollAll_append]
    obtain ⟨-, hnxt⟩ | ⟨-, error, -, hnxt⟩ | ⟨-, email, student, -, -, -, hnxt⟩ |
      ⟨hopen, email, student, hval, hmust, hnxt⟩ :=
      enrollNext_cases (center.enrollAll records before) identifier
    · rw [hnxt]
      exact hbef
    · rw [hnxt]
      exact hbef
    · rw [hnxt]
      exact hbef
    · have hfol := enrollAll_followed hopen
      have hproc := hfol.processed hval
      rw [hnxt, hproc.count]
      rw [hfol.count] at hbef
      cases htgt : center.target identifier with
      | none =>
        have hsame := (hfol.skip htgt rfl rfl).count.symm.trans hfol.count
        rw [hsame]
        exact hbef
      | some user =>
        rw [expected_append before htgt]
        by_cases hless : (center.expected records before : Int) < limit
        · refine le_trans ?_ (le_max_left _ _)
          split <;> push_cast <;> omega
        · have hle : limit ≤ center.expected records before := not_lt.mp hless
          have hfull : (center.enrollAll records before).records.isCourseFull center.courseKey
              center.maxStudentEnrollmentsAllowed = true := by
            refine isCourseFull_iff.mpr ⟨limit, hlimit, ?_⟩
            rw [hfol.count]
            exact hle
          have hexe := hmust hfull
          rw [mustEnroll_eq_of_accessRoles hfol.accessRoles] at hexe
          have hcoach := hroom before identifier after hspl email student hval limit hlimit hle
          rw [if_pos hexe] at hcoach
          cases student with
          | none => exact Bool.noConfusion hexe
          | some student =>
            obtain rfl := some.inj ((target_of_student hval).symm.trans htgt)
            rw [if_pos, Nat.add_zero]
            · exact hbef
            · rcases hcoach _ rfl with hnamed | henr | hadmin
              · exact .inl (.inr hnamed)
              · exact .inl (.inl henr)
              · exact .inr hadmin

/-- The enrolling center keeps its promises exactly when there is room for all who need it. -/
theorem enrolls_iff_hasRoom (identifiers : List String) :
    center.Enrolls records identifiers ↔ center.HasRoom records identifiers := by
  refine ⟨Enrolls.hasRoom, fun hroom => ⟨?_, ?_, ?_, ?_⟩⟩
  · intro identifier hidentifier email user hvalid hmust
    obtain ⟨before, after, hsplit⟩ := append_of_mem hidentifier
    have hopen := hroom.goes_on hsplit
    have hfollowed := enrollAll_followed hopen
    have hprocessed := hfollowed.processed hvalid
    have hnext : (center.enrollAll records (before ++ [identifier])).records =
        (center.enrollAll records before).records.enrollEmail center.courseModes center.courseKey email true := by
      rw [enrollAll_append, enrollNext, if_neg (eq_false_iff.mp hopen), hvalid]
      simp only [mustEnroll_eq_of_accessRoles hfollowed.accessRoles, hmust, Bool.not_true,
        Bool.and_false, false_eq_true, if_false]
    have hnamed : user ∈ center.named (before ++ [identifier]) := by
      rw [named_append, target_of_student hvalid]
      exact mem_append_right _ mem_cons_self
    rw [hsplit, ← singleton_append, ← append_assoc]
    refine isEnrolled_enrollAll after ?_
    rw [hnext]
    exact (hprocessed.enrolled user).mpr (.inr hnamed)
  · intro before identifier after hsplit email student hvalid hmust hchanged limit hlimit
    have hopen := hroom.goes_on hsplit
    have hfollowed := enrollAll_followed hopen
    by_contra hnot
    have hfull : (center.enrollAll records before).records.isCourseFull center.courseKey
        center.maxStudentEnrollmentsAllowed = true :=
      isCourseFull_iff.mpr ⟨limit, hlimit, not_lt.mp hnot⟩
    refine hchanged ?_
    rw [enrollAll_append, enrollNext, if_neg (eq_false_iff.mp hopen), hvalid]
    simp only [mustEnroll_eq_of_accessRoles hfollowed.accessRoles, hmust, hfull, Bool.not_false,
      Bool.and_true, if_true]
  · exact fun before after hsplit limit hlimit => hroom.bounded hsplit hlimit
  · intro before identifier after hsplit
    have hopen := hroom.goes_on hsplit
    rw [enrollAll_append]
    obtain ⟨hbroke, -⟩ | ⟨-, error, -, hnext⟩ | ⟨-, email, student, -, -, -, hnext⟩ |
      ⟨-, email, student, -, -, hnext⟩ :=
      enrollNext_cases (center.enrollAll records before) identifier
    · exact absurd (hopen.symm.trans hbroke) false_ne_true
    · rw [hnext]
      exact .inr ⟨_, rfl⟩
    · rw [hnext]
      exact .inr ⟨_, rfl⟩
    · rw [hnext]
      exact .inl rfl

def classroom : UserTable where
  rows := [⟨"ann", "ann@x.org"⟩, ⟨"bob", "bob@x.org"⟩, ⟨"cid", "cid@x.org"⟩]
  usernames := by decide
  emails := by decide

def classRecords : Records Unit classroom where
  accessRoles := [⟨⟨⟨"cid", "cid@x.org"⟩, by decide⟩, .staff, ⟨(), none⟩⟩]

def smallCourse : EnrollingCenter Unit classroom where
  courseModes _ := []
  validateEmail email := decide ('@' ∈ email.toList)
  maxStudentEnrollmentsAllowed := some 1
  courseKey := ⟨(), some 1⟩
  coach := ⟨⟨"cid", "cid@x.org"⟩, by decide⟩

/-- The member of the staff comes after the student for whom there is no place. -/
theorem not_enrolls_smallCourse : ¬ smallCourse.Enrolls classRecords ["ann", "bob", "cid"] := by
  intro henrolls
  have hstaff := henrolls.exempt "cid" (List.mem_of_elem_eq_true (by decide +kernel)) "cid@x.org"
    ⟨⟨"cid", "cid@x.org"⟩, by decide⟩ (by decide +kernel) (by decide +kernel)
  revert hstaff
  decide +kernel

end EnrollingCenter

end EdxPlatform.Enrollment
