import EdxPlatform.Lib.ShortNames
import Mathlib.Data.List.Chain

/-!
# Failed logins

The logins to one account, whose failures are counted.
-/

namespace EdxPlatform.Student

structure LoginFailures where
  failureCount : Nat := 0
  lockoutUntil : Option Int := none

/-- A login, and whether it is authenticated, where it comes to that. -/
structure Login where
  checkedAt : Int
  failedAt : Int
  authenticated : Option Bool

/-- The row of an account, and its failed logins since the last one that succeeded. -/
structure Account where
  record : Option LoginFailures := none
  failed : List Login := []

variable (maxFailures : Nat) (lockoutPeriod : Int)

namespace Account

variable (account : Account)

def isUserLockedOut (now : Int) : Bool := (account.record.bind LoginFailures.lockoutUntil).any (now < ·)

def incrementLockoutCounter (now : Int) : LoginFailures :=
  let ⟨failureCount, lockoutUntil⟩ := account.record.getD {}
  ⟨failureCount + 1, if maxFailures ≤ failureCount + 1 then some (now + lockoutPeriod) else lockoutUntil⟩

/-- What `login_user` does to the row. -/
def loginUser (login : Login) : Account :=
  if account.isUserLockedOut login.checkedAt then account
  else match login.authenticated with
    | none => account
    | some true => {}
    | some false =>
      ⟨some (account.incrementLockoutCounter maxFailures lockoutPeriod login.failedAt), account.failed ++ [login]⟩

/-- The row tells the failures, and those from the last allowed one on are a lockout apart. -/
structure Throttled : Prop where
  record : account.record = account.failed.getLast?.map fun last => ⟨account.failed.length,
    if maxFailures ≤ account.failed.length then some (last.failedAt + lockoutPeriod) else none⟩
  apart : (account.failed.drop (maxFailures - 1)).IsChain fun login next => login.failedAt + lockoutPeriod ≤ next.checkedAt

variable {maxFailures lockoutPeriod} {account}

theorem Throttled.loginUser (hthr : account.Throttled maxFailures lockoutPeriod) (login : Login) :
    (account.loginUser maxFailures lockoutPeriod login).Throttled maxFailures lockoutPeriod := by
  unfold Account.loginUser
  split_ifs with hlock
  · exact hthr
  cases login.authenticated with
  | none => exact hthr
  | some authenticated =>
    cases authenticated with
    | true => exact ⟨rfl, by simp⟩
    | false =>
      obtain ⟨hrec, hapart⟩ := hthr
      constructor
      · cases hlast : account.failed.getLast? with
        | none => simp_all [incrementLockoutCounter]
        | some last =>
          simp [incrementLockoutCounter, hrec, hlast]
          grind
      · rw [List.drop_append]
        refine hapart.append ((List.isChain_singleton _).drop _) fun last hlast next hnext => ?_
        obtain rfl : next = login := by simpa using List.mem_of_mem_drop (mem_of_mem_head? hnext)
        -- the last failure was the start of a lockout, which is over
        rw [List.getLast?_drop] at hlast
        split_ifs at hlast with hlen
        · cases hlast
        have hmax : maxFailures ≤ account.failed.length := by omega
        simpa [isUserLockedOut, hrec, Option.mem_def.mp hlast, hmax] using hlock

theorem throttled_foldl (logins : List Login) :
    (logins.foldl (loginUser maxFailures lockoutPeriod) {}).Throttled maxFailures lockoutPeriod := by
  induction logins using reverseRecOn with
  | nil => exact ⟨rfl, by simp⟩
  | append_singleton logins login ih =>
    rw [List.foldl_concat]
    exact ih.loginUser login

end Account

end EdxPlatform.Student
