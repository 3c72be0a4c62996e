import EdxPlatform.Lib.Dict
import EdxPlatform.Lib.Runs

/-!
# Eligibility for credit

`set_credit_requirements` and `set_credit_requirement_status` on the tables of one credit course
that is enabled.  No user has requested credit, and no deadline has passed.
-/

namespace EdxPlatform.Credit

/-- A requirement as it is given; without criteria, it has no such key. -/
structure Requirement where
  reqNamespace : String
  name : String
  displayName : String
  criteria : Option String

def Requirement.key (requirement : Requirement) : String × String := (requirement.reqNamespace, requirement.name)

/-- `_validate_requirements` lists it. -/
def Requirement.isInvalid (requirement : Requirement) : Bool :=
  requirement.reqNamespace == "" || requirement.name == "" || requirement.displayName == "" ||
    requirement.criteria.isNone

structure CreditRequirement where
  displayName : String
  criteria : Option String
  order : Nat
  active : Bool

inductive RequirementStatus where
  | satisfied
  | failed
  | declined
  deriving DecidableEq

/-- The rows of the course, with the users to whom notifications were sent. -/
structure CreditTables where
  requirements : Dict (String × String) CreditRequirement := ∅
  statuses : Dict (String × String × String) RequirementStatus := ∅
  eligibilities : List String := []
  notifications : List String := []

namespace CreditTables

def getCourseRequirements (tables : CreditTables) : List (String × String) :=
  (tables.requirements.entries.filter fun entry => entry.2.active).map fun entry => entry.1

def requirementsToDisable (tables : CreditTables) (requirements : List Requirement) : List (String × String) :=
  tables.getCourseRequirements.filter fun old => !requirements.any fun requirement => requirement.key == old

def disable (rows : Dict (String × String) CreditRequirement) (key : String × String) :
    Dict (String × String) CreditRequirement :=
  rows.modify key fun row => { row with active := false }

def addOrUpdate (rows : Dict (String × String) CreditRequirement) (item : Requirement × Nat) :
    Dict (String × String) CreditRequirement :=
  rows.insert item.1.key ⟨item.1.displayName, item.1.criteria, item.2, true⟩

def setCreditRequirements (tables : CreditTables) (requirements : List Requirement) : CreditTables :=
  -- raises InvalidCreditRequirements
  if requirements.any Requirement.isInvalid then tables
  else
    let kept := (tables.requirementsToDisable requirements).foldl disable tables.requirements
    { tables with requirements := requirements.zipIdx.foldl addOrUpdate kept }

/-- All active requirements are satisfied. -/
def IsEligible (tables : CreditTables) (username : String) : Prop :=
  ∀ req ∈ tables.getCourseRequirements, tables.statuses.lookup (username, req) = some .satisfied

instance (tables : CreditTables) (username : String) : Decidable (tables.IsEligible username) := by
  unfold IsEligible
  infer_instance

/-- `update_eligibility`; a second record would be an `IntegrityError`. -/
def updateEligibility (tables : CreditTables) (username : String) : CreditTables :=
  if tables.IsEligible username ∧ username ∉ tables.eligibilities then
    { tables with
      eligibilities := tables.eligibilities ++ [username]
      notifications := tables.notifications ++ [username] }
  else tables

local instance : LawfulBEq (String × String) := Prod.instLawfulBEq

def setCreditRequirementStatus (tables : CreditTables) (username : String) (req : String × String)
    (status : RequirementStatus) : CreditTables :=
  -- Do not allow a student who has earned eligibility to un-earn eligibility
  if username ∈ tables.eligibilities ∧ status = .failed then tables
  else if req ∉ tables.getCourseRequirements then tables
  else
    let updated := { tables with statuses := tables.statuses.insert (username, req) status }
    if status = .satisfied ∧ username ∉ tables.eligibilities then updated.updateEligibility username
    else updated

end CreditTables

inductive CreditCall where
  | setRequirements (requirements : List Requirement)
  | setStatus (username : String) (req : String × String) (status : RequirementStatus)

namespace CreditTables

def step (tables : CreditTables) : CreditCall → CreditTables
  | .setRequirements requirements => tables.setCreditRequirements requirements
  | .setStatus username req status => tables.setCreditRequirementStatus username req status

def run (calls : List CreditCall) : CreditTables := calls.foldl step {}

/-- An update of an active requirement to satisfied, after which all active ones are. -/
def Completes (tables : CreditTables) (call : CreditCall) (username : String) : Prop :=
  ∃ req ∈ tables.getCourseRequirements, call = .setStatus username req .satisfied ∧
    (tables.step call).IsEligible username

/-- What is satisfied stays so for the users with a record. -/
def KeepsSatisfied (tables : CreditTables) (call : CreditCall) : Prop :=
  ∀ username ∈ tables.eligibilities, ∀ req, tables.statuses.lookup (username, req) = some .satisfied →
    (tables.step call).statuses.lookup (username, req) = some .satisfied

/-- A satisfied requirement of a user with a record becomes declined. -/
def Unearns (tables : CreditTables) (call : CreditCall) : Prop :=
  ∃ username ∈ tables.eligibilities, ∃ req ∈ tables.getCourseRequirements,
    call = .setStatus username req .declined ∧ tables.statuses.lookup (username, req) = some .satisfied

/-- The records of a run are made at the first completing updates, one for a user, with one
notification, and nothing that a user with a record has satisfied is lost. -/
structure Lawful (calls : List CreditCall) : Prop where
  first : ∀ before call after, calls = before ++ call :: after → ∀ username,
    username ∉ (run before).eligibilities ∧ username ∈ (run (before ++ [call])).eligibilities ↔
      (run before).Completes call username ∧ ∀ earlier other later, before = earlier ++ other :: later →
        ¬ (run earlier).Completes other username
  once : (run calls).eligibilities.Nodup
  notified : (run calls).notifications = (run calls).eligibilities
  kept : Each step KeepsSatisfied {} calls

variable (tables : CreditTables)

theorem isEligible_updateEligibility (username other : String) :
    (tables.updateEligibility username).IsEligible other ↔ tables.IsEligible other := by
  unfold updateEligibility
  split <;> rfl

theorem setCreditRequirements_eq (requirements : List Requirement) :
    ∃ rows, tables.setCreditRequirements requirements = { tables with requirements := rows } := by
  unfold setCreditRequirements
  split
  · exact ⟨tables.requirements, rfl⟩
  · exact ⟨_, rfl⟩

/-- A step leaves the records as they are, or makes one for a user who completes the requirements. -/
theorem step_cases (call : CreditCall) : ((tables.step call).eligibilities = tables.eligibilities ∧
      (tables.step call).notifications = tables.notifications ∧
      ∀ username, tables.Completes call username → username ∈ tables.eligibilities) ∨
    ∃ username ∉ tables.eligibilities, tables.Completes call username ∧
      (tables.step call).eligibilities = tables.eligibilities ++ [username] ∧
      (tables.step call).notifications = tables.notifications ++ [username] := by
  cases call with
  | setRequirements requirements =>
    obtain ⟨rows, hrows⟩ := tables.setCreditRequirements_eq requirements
    refine .inl ⟨by rw [step, hrows], by rw [step, hrows], ?_⟩
    rintro username ⟨_, -, heq, -⟩
    cases heq
  | setStatus username req status =>
    by_cases href : username ∈ tables.eligibilities ∧ status = .failed
    · left
      have hstep : tables.step (.setStatus username req status) = tables := if_pos href
      refine ⟨by rw [hstep], by rw [hstep], ?_⟩
      rintro other ⟨_, -, heq, -⟩
      cases heq
      cases href.2
    by_cases hreq : req ∉ tables.getCourseRequirements
    · left
      have hstep : tables.step (.setStatus username req status) = tables := (if_neg href).trans (if_pos hreq)
      refine ⟨by rw [hstep], by rw [hstep], ?_⟩
      rintro other ⟨_, hmem, heq, -⟩
      cases heq
      exact absurd hmem hreq
    let updated := { tables with statuses := tables.statuses.insert (username, req) status }
    by_cases hsat : status = .satisfied ∧ username ∉ tables.eligibilities
    · have hstep : tables.step (.setStatus username req status) = updated.updateEligibility username :=
        (if_neg href).trans ((if_neg hreq).trans (if_pos hsat))
      have hiff := updated.isEligible_updateEligibility username
      obtain ⟨rfl, hout⟩ := hsat
      by_cases helig : updated.IsEligible username
      · have hupd : updated.updateEligibility username = { updated with
            eligibilities := tables.eligibilities ++ [username]
            notifications := tables.notifications ++ [username] } := if_pos ⟨helig, hout⟩
        refine .inr ⟨username, hout, ⟨req, not_not.mp hreq, rfl, ?_⟩, ?_, ?_⟩
        · rw [hstep]
          exact (hiff username).mpr helig
        · rw [hstep, hupd]
        · rw [hstep, hupd]
      · have hupd : updated.updateEligibility username = updated := if_neg fun h => helig h.1
        refine .inl ⟨by rw [hstep, hupd], by rw [hstep, hupd], ?_⟩
        rintro other ⟨_, -, heq, hall⟩
        cases heq
        rw [hstep] at hall
        exact absurd ((hiff _).mp hall) helig
    · left
      have hstep : tables.step (.setStatus username req status) = updated :=
        (if_neg href).trans ((if_neg hreq).trans (if_neg hsat))
      refine ⟨by rw [hstep], by rw [hstep], ?_⟩
      rintro other ⟨_, -, heq, -⟩
      cases heq
      exact not_not.mp fun hout => hsat ⟨rfl, hout⟩

theorem mem_step_iff (call : CreditCall) (username : String) : username ∈ (tables.step call).eligibilities ↔
      username ∈ tables.eligibilities ∨ tables.Completes call username := by
  rcases tables.step_cases call with ⟨hsame, -, hall⟩ | ⟨other, -, hother, hadded, -⟩
  · rw [hsame]
    exact (or_iff_left_of_imp (hall username)).symm
  · rw [hadded, mem_append, mem_singleton]
    refine or_congr_right ⟨fun h => h ▸ hother, ?_⟩
    rintro ⟨_, -, heq, -⟩
    obtain ⟨_, -, hcall, -⟩ := hother
    rw [heq] at hcall
    exact (CreditCall.setStatus.inj hcall).1

theorem statuses_setStatus {username : String} {req : String × String} {status : RequirementStatus}
    (href : ¬ (username ∈ tables.eligibilities ∧ status = .failed)) (hreq : req ∈ tables.getCourseRequirements) :
    (tables.step (.setStatus username req status)).statuses = tables.statuses.insert (username, req) status := by
  change (if _ then tables else if _ then tables else _ : CreditTables).statuses = _
  rw [if_neg href, if_neg (not_not.mpr hreq)]
  dsimp only
  split
  · unfold updateEligibility
    split <;> rfl
  · rfl

theorem keepsSatisfied_iff (call : CreditCall) : tables.KeepsSatisfied call ↔ ¬ tables.Unearns call := by
  constructor
  · rintro hkept ⟨username, hin, req, hreq, rfl, hsat⟩
    have hlost := hkept username hin req hsat
    rw [statuses_setStatus tables (by simp) hreq, lookup_insert_self] at hlost
    cases hlost
  intro hkept username hin req hsat
  cases call with
  | setRequirements requirements =>
    obtain ⟨rows, hrows⟩ := tables.setCreditRequirements_eq requirements
    exact (congrArg (fun next => next.statuses.lookup (username, req)) hrows).trans hsat
  | setStatus other item status =>
    by_cases href : other ∈ tables.eligibilities ∧ status = .failed
    · rwa [show tables.step (.setStatus other item status) = tables from if_pos href]
    by_cases hreq : item ∈ tables.getCourseRequirements
    · rw [statuses_setStatus tables href hreq, lookup_insert]
      split
      · next heq =>
        obtain ⟨rfl, rfl⟩ := Prod.mk.inj heq
        cases status with
        | satisfied => rfl
        | failed => exact absurd ⟨hin, rfl⟩ href
        | declined => exact absurd ⟨username, hin, req, hreq, rfl, hsat⟩ hkept
      · exact hsat
    · rwa [show tables.step (.setStatus other item status) = tables from (if_neg href).trans (if_pos hreq)]

variable (calls : List CreditCall)

theorem run_append_singleton (call : CreditCall) : run (calls ++ [call]) = (run calls).step call := by
  unfold run
  rw [foldl_append, foldl_cons, foldl_nil]

theorem mem_run_iff (username : String) : username ∈ (run calls).eligibilities ↔
      ∃ before call after, calls = before ++ call :: after ∧ (run before).Completes call username := by
  induction calls using reverseRecOn with
  | nil => simp [run]
  | append_singleton calls call ih =>
    rw [run_append_singleton, mem_step_iff, ih]
    constructor
    · rintro (⟨before, other, after, rfl, hcompl⟩ | hcompl)
      · exact ⟨before, other, after ++ [call], by simp, hcompl⟩
      · exact ⟨calls, call, [], rfl, hcompl⟩
    · rintro ⟨before, other, after, heq, hcompl⟩
      rcases List.eq_nil_or_concat' after with rfl | ⟨front, last, rfl⟩
      · obtain ⟨rfl, hlast⟩ := append_inj' heq rfl
        obtain rfl := List.singleton_injective hlast
        exact .inr hcompl
      · rw [← cons_append, ← append_assoc] at heq
        exact .inl ⟨before, other, front, (append_inj' heq rfl).1, hcompl⟩

theorem run_records : (run calls).eligibilities.Nodup ∧ (run calls).notifications = (run calls).eligibilities := by
  induction calls using reverseRecOn with
  | nil => exact ⟨nodup_nil, rfl⟩
  | append_singleton calls call ih =>
    rw [run_append_singleton]
    rcases (run calls).step_cases call with ⟨hsame, hnotd, -⟩ | ⟨username, hout, -, hadded, hnotd⟩
    · rw [hsame, hnotd]
      exact ih
    · rw [hadded, hnotd, ih.2]
      exact ⟨(List.nodup_append_comm.mpr (nodup_cons.mpr ⟨hout, ih.1⟩)), rfl⟩

/-- The records of a run are lawful exactly if no satisfied requirement of a user with a record is
declined. -/
theorem lawful_iff (calls : List CreditCall) :
    Lawful calls ↔ Each step (fun tables call => ¬ tables.Unearns call) {} calls := by
  have hkeeps : KeepsSatisfied = fun tables call => ¬ tables.Unearns call :=
    funext₂ fun tables call => propext (tables.keepsSatisfied_iff call)
  rw [← hkeeps]
  refine ⟨Lawful.kept, fun hkept => ⟨?_, (run_records calls).1, (run_records calls).2, hkept⟩⟩
  rintro before call after - username
  rw [run_append_singleton, mem_step_iff, mem_run_iff]
  push Not
  constructor
  · rintro ⟨hnone, hcompl⟩
    exact ⟨hcompl.resolve_left fun ⟨earlier, other, later, heq, h⟩ => hnone earlier other later heq h, hnone⟩
  · rintro ⟨hcompl, hnone⟩
    exact ⟨hnone, .inr hcompl⟩

/-- A course whose only requirement a user satisfies, after which it is declined. -/
def declinedGrade : List CreditCall :=
  [.setRequirements [⟨"grade", "grade", "Minimum Grade", some "0.8"⟩],
    .setStatus "ann" ("grade", "grade") .satisfied, .setStatus "ann" ("grade", "grade") .declined]

theorem declinedGrade_not_lawful : ¬ Lawful declinedGrade := by
  intro hlawful
  have hkept := hlawful.kept.2.2.1 "ann" (by decide +kernel) ("grade", "grade") (by decide +kernel)
  revert hkept
  decide +kernel

end CreditTables

end EdxPlatform.Credit
