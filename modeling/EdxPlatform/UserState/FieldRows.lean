import EdxPlatform.UserState.StoredAnswers
import EdxPlatform.XBlock.FieldKeys

/-!
# Fields in rows of their own

`DjangoOrmFieldCache` keeps each field of the scopes of preferences, user info and user state
summaries in a row of its own.  `FieldDataCache` has a cache for each scope, and saves the
fields scope by scope.
-/

namespace EdxPlatform

/-- The exceptions of `FieldDataCache.set_many`. -/
inductive SetManyError where
  | assertionError
  | keyValueMultiSaveError (savedFieldNames : List String)
  deriving DecidableEq, Repr

variable {β ν κ : Type} [DecidableEq β] [DecidableEq κ]

/-- What a call that saves fields leaves: the caches, how many saves will return before one
raises `DatabaseError`, and the keys of the fields that were stored.  If the call raised, so do
the names that the exception has. -/
structure SaveOutcome (σ β : Type) where
  caches : σ
  failure : Option Nat
  stored : List (FieldKey β)
  raised : Option (List String) := none

/-- The rows of a table, and the values of the objects that are cached. -/
structure DjangoOrmFieldCache (κ ν : Type) where
  rows : Dict κ ν
  cache : Dict κ ν := ∅

namespace DjangoOrmFieldCache

/-- A save that returns: a row of its own is written, and the object is cached. -/
def saveField (cacheKey : FieldKey β → κ) (key : FieldKey β) (value : ν)
    (outcome : SaveOutcome (DjangoOrmFieldCache κ ν) β) :
    SaveOutcome (DjangoOrmFieldCache κ ν) β :=
  { outcome with
    caches :=
      { rows := outcome.caches.rows.insert (cacheKey key) value
        cache := outcome.caches.cache.insert (cacheKey key) value }
    failure := outcome.failure.map Nat.pred
    stored := outcome.stored ++ [key] }

/-- The loop of `set_many` over the fields in their order. -/
def saveFields (cacheKey : FieldKey β → κ) :
    List (FieldKey β × ν) → SaveOutcome (DjangoOrmFieldCache κ ν) β → List String →
      SaveOutcome (DjangoOrmFieldCache κ ν) β
  | [], outcome, _ => outcome
  | (key, value) :: items, outcome, savedFields =>
    if outcome.failure = some 0 then
      { outcome with
        -- an object that was there has the new value already
        caches := { outcome.caches with
          cache := Dict.modify (cacheKey key) (fun _ => value) outcome.caches.cache }
        -- the `finally` clause appends to the list that the exception has
        raised := some (savedFields ++ [key.fieldName]) }
    else
      saveFields cacheKey items (saveField cacheKey key value outcome) (savedFields ++ [key.fieldName])

/-- `set_many` -/
def setMany (caches : DjangoOrmFieldCache κ ν) (cacheKey : FieldKey β → κ)
    (items : List (FieldKey β × ν)) (failure : Option Nat) :
    SaveOutcome (DjangoOrmFieldCache κ ν) β :=
  saveFields cacheKey items { caches := caches, failure := failure, stored := [] } []

end DjangoOrmFieldCache

/-! ## All scopes -/

/-- The caches of the fields of one learner. -/
structure FieldDataCache (β ν : Type) where
  userId : Nat
  userState : UserStateCache β String ν
  userInfo : DjangoOrmFieldCache String ν
  preferences : DjangoOrmFieldCache (BlockFamily × β × String) ν
  userStateSummary : DjangoOrmFieldCache (β × String) ν

/-- The orders in which the scopes are iterated over, and in which fields are sorted. -/
structure SaveOrders (β ν : Type) where
  scopes : List Scope → List Scope
  items : List (FieldKey β × ν) → List (FieldKey β × ν)
  scopes_perm : ∀ values, (scopes values).Perm values
  items_perm : ∀ values, (items values).Perm values

namespace FieldDataCache

def cachedScopes : List Scope := [.userState, .userInfo, .preferences, .userStateSummary]

def stateValues (data : List (FieldKey β × ν)) : Dict (β × String) ν :=
  Dict.ofList (data.map fun item => ((item.1.blockScopeId, item.1.fieldName), item.2))

/-- `set_many` of the cache for the user state. -/
def setUserState (caches : FieldDataCache β ν) (data : List (FieldKey β × ν))
    (failure : Option Nat) : SaveOutcome (FieldDataCache β ν) β :=
  let kvDict := stateValues data
  let (userState, result) := caches.userState.setMany kvDict failure
  let saved := UserStateCache.savedBlocks userState.anonymous kvDict failure
  { caches := { caches with userState := userState }
    failure :=
      if userState.anonymous then failure
      else failure.map (· - (UserStateCache.pendingUpdates kvDict).keys.length)
    stored :=
      if userState.anonymous then []
      else (data.map Prod.fst).filter fun key => decide (key.blockScopeId ∈ saved)
    raised :=
      match result with
      | .ok () => none
      -- no field counts as saved
      | .error _ => some [] }

section

variable (orders : SaveOrders β ν) (caches : FieldDataCache β ν)

/-- `set_many` of the cache for a scope. -/
def setScope (scope : Scope)
    (data : List (FieldKey β × ν)) (failure : Option Nat) : SaveOutcome (FieldDataCache β ν) β :=
  match scope with
  | .userState => caches.setUserState data failure
  | .userInfo =>
    let outcome := caches.userInfo.setMany (fun key => key.fieldName) (orders.items data) failure
    { outcome with caches := { caches with userInfo := outcome.caches } }
  | .preferences =>
    let outcome := caches.preferences.setMany
      (fun key => (key.blockFamily, key.blockScopeId, key.fieldName)) (orders.items data) failure
    { outcome with caches := { caches with preferences := outcome.caches } }
  | .userStateSummary =>
    let outcome := caches.userStateSummary.setMany
      (fun key => (key.blockScopeId, key.fieldName)) (orders.items data) failure
    { outcome with caches := { caches with userStateSummary := outcome.caches } }
  | _ => { caches := caches, failure := failure, stored := [] }

/-- The loop of `set_many` over the scopes, with the fields of each. -/
def saveScopes (orders : SaveOrders β ν) :
    List (Scope × List (FieldKey β × ν)) → SaveOutcome (FieldDataCache β ν) β → List String →
      SaveOutcome (FieldDataCache β ν) β
  | [], outcome, _ => outcome
  | (scope, data) :: byScope, outcome, savedFields =>
    let saved := setScope orders outcome.caches scope data outcome.failure
    let stored := outcome.stored ++ saved.stored
    match saved.raised with
    | some names => { saved with stored := stored, raised := some (savedFields ++ names) }
    | none =>
      saveScopes orders byScope { saved with stored := stored } (savedFields ++ data.map fun item => item.1.fieldName)

def scopeData (kvDict : Dict (FieldKey β) ν) (scope : Scope) : List (FieldKey β × ν) :=
  (kvDict.entries.map fun entry => (entry.1, entry.2)).filter fun item => decide (item.1.scope = scope)

def byScope (orders : SaveOrders β ν) (kvDict : Dict (FieldKey β) ν) : List (Scope × List (FieldKey β × ν)) :=
  (orders.scopes (cachedScopes.filter fun scope => !(scopeData kvDict scope).isEmpty)).map
    fun scope => (scope, scopeData kvDict scope)

def KeysMatch (caches : FieldDataCache β ν) (kvDict : Dict (FieldKey β) ν) : Prop :=
  caches.userState.anonymous = true ∨ ∀ key ∈ kvDict.keys, key.scope.user = .one → key.userId = some caches.userId

instance (caches : FieldDataCache β ν) (kvDict : Dict (FieldKey β) ν) : Decidable (caches.KeysMatch kvDict) := by
  unfold KeysMatch
  infer_instance

/-- `set_many`, with the exception that it raised if it did. -/
def setMany (kvDict : Dict (FieldKey β) ν)
    (failure : Option Nat) : SaveOutcome (FieldDataCache β ν) β × Except SetManyError Unit :=
  let start := { caches := caches, failure := failure, stored := [] }
  if caches.KeysMatch kvDict then
    let outcome := saveScopes orders (byScope orders kvDict) start []
    (outcome, match outcome.raised with
      | none => .ok ()
      | some names => .error (.keyValueMultiSaveError names))
  else (start, .error .assertionError)

end

end FieldDataCache

end EdxPlatform
