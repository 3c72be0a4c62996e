import EdxPlatform.Lib.Dict
import EdxPlatform.Lib.Runs

/-!
# Cached verification statuses

What `_get_user_statuses` reads for one user and one course: three values, each from the cache or
from its table, and the writers whose signals delete them from the cache.  Every operation on the
cache or the database is a step of its own.
-/

namespace EdxPlatform.Credit

/-- The entries of the cache for the user and the course. -/
inductive StatusKey where
  | enrollment
  | hasSkipped
  | verificationStatus
  deriving DecidableEq

structure EnrollmentRow where
  isActive : Bool
  isVerifiedEnrollment : Bool
  deriving DecidableEq

/-- The rows of the user in the course; a row of `VerificationStatus` has a checkpoint and a status. -/
structure StatusTables where
  enrollment : Option EnrollmentRow := none
  skippedReverification : Option String := none
  verificationStatuses : List (String × String) := []

/-- A flag, or the dictionary of the statuses of all checkpoints. -/
inductive CachedStatus where
  | flag (value : Bool)
  | checkpoints (statuses : Dict String String)
  deriving DecidableEq

namespace StatusTables

/-- `is_enrolled_as_verified` -/
def isEnrolledAsVerified (tables : StatusTables) : Bool :=
  tables.enrollment.any fun enrollment => enrollment.isActive && enrollment.isVerifiedEnrollment

def read (tables : StatusTables) : StatusKey → CachedStatus
  | .enrollment => .flag tables.isEnrolledAsVerified
  | .hasSkipped => .flag tables.skippedReverification.isSome
  | .verificationStatus => .checkpoints (Dict.ofList tables.verificationStatuses)

end StatusTables

/-- `get_group_for_user`: the user is in the ALLOW group. -/
def isAllowed (statuses : StatusKey → CachedStatus) (checkpoint : String) : Bool :=
  statuses .enrollment != .flag true || statuses .hasSkipped == .flag true || match statuses .verificationStatus with
    | .checkpoints found => (found.lookup checkpoint).any fun status => status != ""
    | .flag _ => false

/-- A call of `_get_user_statuses` after its multi-get: the entries still to be computed, and what
was read from the database for the first of them and is not yet in the cache. -/
structure StatusReader where
  values : Dict StatusKey CachedStatus
  missing : List StatusKey
  fetched : Option CachedStatus := none

/-- A save of a row, whose signal deletes an entry afterwards. -/
inductive RowWrite where
  | enrollment (row : Option EnrollmentRow)
  | skippedReverification (checkpoint : String)
  | verificationStatus (checkpoint status : String)

namespace RowWrite

def key : RowWrite → StatusKey
  | enrollment _ => .enrollment
  | skippedReverification _ => .hasSkipped
  | verificationStatus _ _ => .verificationStatus

def save (tables : StatusTables) : RowWrite → StatusTables
  | enrollment row => { tables with enrollment := row }
  | skippedReverification checkpoint => { tables with skippedReverification := some checkpoint }
  | verificationStatus checkpoint status =>
    { tables with verificationStatuses := tables.verificationStatuses ++ [(checkpoint, status)] }

theorem read_save (write : RowWrite) (tables : StatusTables) {key : StatusKey} (hkey : key ≠ write.key) :
    (write.save tables).read key = tables.read key := by
  cases write <;> cases key <;> first | rfl | exact absurd rfl hkey

end RowWrite

/-- The database, the cache, the calls under way and the deletions that signals have still to make. -/
structure StatusSystem where
  tables : StatusTables := {}
  cache : Dict StatusKey CachedStatus := ∅
  readers : List StatusReader := []
  deletions : List StatusKey := []

inductive StatusAction where
  | getMany
  | advance (reader : Nat)
  | write (write : RowWrite)
  | delete (deletion : Nat)

namespace StatusSystem

section

variable (system : StatusSystem)

/-- `cache.get_many` -/
def getMany : StatusReader where
  values := system.cache
  missing := [.enrollment, .hasSkipped, .verificationStatus].filter fun key => key ∉ system.cache

/-- A reader reads a value from the database, or puts the value it has read into the cache. -/
def advance (index : Nat) (reader : StatusReader) : StatusSystem :=
  match reader.missing, reader.fetched with
  | [], _ => system
  | key :: _, none =>
    { system with readers := system.readers.set index { reader with fetched := some (system.tables.read key) } }
  | key :: missing, some value =>
    { system with
      cache := system.cache.insert key value
      readers := system.readers.set index { values := reader.values.insert key value, missing := missing } }

def step : StatusAction → StatusSystem
  | .getMany => { system with readers := system.readers ++ [system.getMany] }
  | .advance index => (system.readers[index]?).elim system (system.advance index)
  | .write write => { system with tables := write.save system.tables, deletions := system.deletions ++ [write.key] }
  | .delete index =>
    (system.deletions[index]?).elim system fun key =>
      { system with cache := system.cache.erase key, deletions := system.deletions.eraseIdx index }

def Finished : Prop := system.deletions = [] ∧ ∀ reader ∈ system.readers, reader.missing = []

/-- When all is done, the cache says what the database says, and so does the group of the user. -/
def Fresh : Prop :=
  system.Finished → (∀ key value, system.cache.lookup key = some value → value = system.tables.read key) ∧
    ∀ checkpoint, isAllowed (fun key => (system.cache.lookup key).getD (system.tables.read key)) checkpoint =
      isAllowed system.tables.read checkpoint

def Timely (deletions : List StatusKey) (key : StatusKey) (value : CachedStatus) : Prop :=
  value = system.tables.read key ∨ key ∈ deletions

def ReadersTimely (deletions : List StatusKey) : Prop :=
  ∀ reader ∈ system.readers, ∀ key ∈ reader.missing.head?, ∀ value ∈ reader.fetched, system.Timely deletions key value

/-- A deletion does not come between a reader's two steps with an outdated value, unless another
deletion of that entry follows. -/
def DeletesInTime : StatusAction → Prop
  | .delete index => system.ReadersTimely (system.deletions.eraseIdx index)
  | _ => True

end

structure Timed (system : StatusSystem) : Prop where
  readers : system.ReadersTimely system.deletions
  cached : ∀ key value, system.cache.lookup key = some value → system.Timely system.deletions key value

theorem Timed.step {system : StatusSystem} {action : StatusAction} (htimed : system.Timed)
    (hdele : system.DeletesInTime action) : (system.step action).Timed := by
  cases action with
  | getMany =>
    refine ⟨fun reader hreader key hkey value hvalue => ?_, htimed.cached⟩
    rcases mem_append.mp hreader with hreader | hreader
    · exact htimed.readers reader hreader key hkey value hvalue
    · rw [mem_singleton.mp hreader] at hvalue
      cases hvalue
  | advance index =>
    change ((system.readers[index]?).elim system (system.advance index)).Timed
    cases hfound : system.readers[index]? with
    | none => exact htimed
    | some reader =>
      have hmem := mem_of_getElem? hfound
      have hoth : ∀ new : StatusReader, (∀ key ∈ new.missing.head?, ∀ value ∈ new.fetched,
          system.Timely system.deletions key value) → ∀ other ∈ system.readers.set index new,
            ∀ key ∈ other.missing.head?, ∀ value ∈ other.fetched, system.Timely system.deletions key value := by
        intro new hnew other hother
        rcases List.mem_or_eq_of_mem_set hother with hother | rfl
        · exact htimed.readers other hother
        · exact hnew
      rw [elim_some]
      unfold advance
      split
      · exact htimed
      · next key _ hmis _ =>
        refine ⟨hoth _ fun other hother value hvalue => .inl ?_, htimed.cached⟩
        rw [hmis] at hother
        rw [← some.inj hvalue, ← some.inj hother]
      · next key _ value hmis hfet =>
        refine ⟨hoth _ (fun _ _ _ hvalue => nomatch hvalue), fun other cached hcac => ?_⟩
        by_cases heq : other = key
        · subst heq
          obtain rfl := some.inj ((lookup_insert_self ..).symm.trans hcac)
          exact htimed.readers reader hmem other (hmis ▸ rfl) value hfet
        · exact htimed.cached other cached ((lookup_insert_of_ne heq ..).symm.trans hcac)
  | write write =>
    have hsaved : ∀ key value, system.Timely system.deletions key value →
        (system.step (.write write)).Timely (system.deletions ++ [write.key]) key value := by
      intro key value htim
      by_cases hkey : key = write.key
      · exact .inr (mem_append_right _ (mem_singleton.mpr hkey))
      · exact htim.imp (fun heq => heq.trans (write.read_save _ hkey).symm) (mem_append_left _)
    exact ⟨fun reader hreader key hkey value hvalue =>
      hsaved key value (htimed.readers reader hreader key hkey value hvalue),
      fun key value hcac => hsaved key value (htimed.cached key value hcac)⟩
  | delete index =>
    change ((system.deletions[index]?).elim system fun key => { system with
      cache := system.cache.erase key, deletions := system.deletions.eraseIdx index }).Timed
    cases hfound : system.deletions[index]? with
    | none => exact htimed
    | some deleted =>
      rw [elim_some]
      refine ⟨hdele, fun key value hcac => ?_⟩
      change (system.cache.erase deleted).lookup key = some value at hcac
      rw [lookup_erase] at hcac
      split at hcac
      · cases hcac
      · next hne =>
        refine (htimed.cached key value hcac).imp_right fun hmem => ?_
        obtain ⟨position, hpos⟩ := List.getElem?_of_mem hmem
        refine List.mem_eraseIdx_iff_getElem?.mpr ⟨position, ?_, hpos⟩
        rintro rfl
        exact hne (some_unique hpos hfound)

theorem Timed.fresh {system : StatusSystem} (htimed : system.Timed) : system.Fresh := by
  rintro ⟨hdel, -⟩
  have hcac : ∀ key value, system.cache.lookup key = some value → value = system.tables.read key :=
    fun key value hvalue => (htimed.cached key value hvalue).resolve_right (hdel ▸ not_mem_nil)
  have hread : (fun key => (system.cache.lookup key).getD (system.tables.read key)) = system.tables.read := by
    funext key
    cases hvalue : system.cache.lookup key with
    | none => rfl
    | some value => exact hcac key value hvalue
  exact ⟨hcac, fun checkpoint => congrArg (isAllowed · checkpoint) hread⟩

theorem always_fresh (tables : StatusTables) {actions : List StatusAction}
    (hdeletes : Each step DeletesInTime { tables := tables } actions) :
    Always step Fresh { tables := tables } actions :=
  (always_of_each (fun _ _ htimed => htimed.step) ⟨fun _ hreader => (not_mem_nil hreader).elim,
    fun _ _ hcached => nomatch hcached⟩ hdeletes).imp fun _ => Timed.fresh

def verified : StatusTables := { enrollment := some ⟨true, true⟩ }

/-- A call is reading the three values when the learner skips the checkpoint. -/
def skipping (first second : StatusAction) : List StatusAction :=
  [.getMany, .advance 0, .advance 0, .advance 0, .write (.skippedReverification "exam"), first, second, .advance 0,
    .advance 0]

theorem skipping_fresh : Always step Fresh { tables := verified } (skipping (.advance 0) (.delete 0)) := by
  refine always_fresh verified ⟨trivial, trivial, trivial, trivial, trivial, trivial, ?_, trivial, trivial, trivial⟩
  intro reader hreader key _ value hvalue
  rw [mem_singleton.mp hreader] at hvalue
  cases hvalue

theorem not_always_fresh : ¬ ∀ tables actions, Always step Fresh { tables := tables } actions := by
  intro hfresh
  have hlast := (hfresh verified (skipping (.delete 0) (.advance 0))).2.2.2.2.2.2.2.2.2
  have hvalue := (hlast ⟨rfl, by decide⟩).1 .hasSkipped (.flag false) rfl
  cases hvalue

end StatusSystem

end EdxPlatform.Credit
