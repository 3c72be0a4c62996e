import EdxPlatform.Lib.Dict

/-!
# The user state cache

`UserStateCache` keeps the state of one learner's blocks in memory and writes
through to the rows of the learner with `DjangoXBlockUserStateClient`.  Values
are JSON values, which survive being stored.
-/

namespace EdxPlatform

/-- The exceptions that reach the caller of the cache. -/
inductive UserStateError where
  | keyError
  | typeError
  | databaseError
  | keyValueMultiSaveError
  deriving DecidableEq, Repr

abbrev FieldState (φ ν : Type) := Dict φ ν

/-- The `StudentModule` rows of one learner; a row without state holds `none`. -/
abbrev StudentModules (κ φ ν : Type) := Dict κ (Option (FieldState φ ν))

variable {κ φ ν : Type} [DecidableEq κ] [DecidableEq φ]

namespace UserStateClient

/-- The states of the rows of some blocks; an empty state counts as deleted. -/
def getMany (rows : StudentModules κ φ ν) (blockKeys : List κ) : List (κ × FieldState φ ν) :=
  blockKeys.filterMap fun block =>
    match rows.lookup block with
    | none | some none => none
    | some (some state) => if state.entries.isEmpty then none else some (block, state)

/-- Overlays a block's state over the stored one, in a new row if there is none. -/
def saveBlock (rows : StudentModules κ φ ν) (block : κ) (state : FieldState φ ν) : StudentModules κ φ ν :=
  match rows.lookup block with
  | none => rows.insert block (some state)
  | some current => rows.insert block (some (Dict.update (current.getD ∅) state))

/-- The loop of `set_many` over the blocks.  `failure` counts the blocks that are
saved before a save raises `DatabaseError`; the flag tells that one did. -/
def saveBlocks : List (Sigma fun _ : κ => FieldState φ ν) → Option Nat →
    StudentModules κ φ ν → StudentModules κ φ ν × Bool
  | [], _, rows => (rows, false)
  | _ :: _, some 0, rows => (rows, true)
  | entry :: rest, failure, rows => saveBlocks rest (failure.map Nat.pred) (saveBlock rows entry.1 entry.2)

section

variable (anonymous : Bool) (rows : StudentModules κ φ ν)

/-- `set_many`; anonymous users are not persisted. -/
def setMany (blockKeysToState : Dict κ (FieldState φ ν)) (failure : Option Nat) : StudentModules κ φ ν × Bool :=
  if anonymous then (rows, false) else saveBlocks blockKeysToState.entries failure rows

/-- `delete` of one field of one block; `fails` makes the save raise. -/
def delete (block : κ) (field : φ) (fails : Bool) : Except UserStateError (StudentModules κ φ ν) :=
  if anonymous then .ok rows
  else
    match rows.lookup block with
    | none => .ok rows
    -- `json.loads(None)`
    | some none => .error .typeError
    | some (some current) =>
      if fails then .error .databaseError
      else .ok (rows.insert block (some (current.erase field)))

end

end UserStateClient

/-! ## The cache -/

/-- A `FieldDataCache` in the user state scope, with the rows it is backed by. -/
structure UserStateCache (κ φ ν : Type) where
  anonymous : Bool
  rows : StudentModules κ φ ν
  cache : Dict κ (FieldState φ ν) := ∅

namespace UserStateCache

section

variable (state : UserStateCache κ φ ν)

/-- `add_descriptors_to_cache`, for the user state of some blocks. -/
def cacheFields (blockKeys : List κ) : UserStateCache κ φ ν :=
  if state.anonymous then state
  else
    { state with
      cache := (UserStateClient.getMany state.rows blockKeys).foldl
        (fun cache found => cache.insert found.1 found.2) state.cache }

def pendingUpdates (kvDict : Dict (κ × φ) ν) : Dict κ (FieldState φ ν) :=
  kvDict.entries.foldl (fun pending entry =>
    pending.insert entry.1.1 (((pending.lookup entry.1.1).getD ∅).insert entry.1.2 entry.2)) ∅

/-- `set_many`: the cache is updated whether or not the client raised. -/
def setMany (state : UserStateCache κ φ ν) (kvDict : Dict (κ × φ) ν) (failure : Option Nat) :
    UserStateCache κ φ ν × Except UserStateError Unit :=
  let pending := pendingUpdates kvDict
  let saved := UserStateClient.setMany state.anonymous state.rows pending failure
  ({ state with rows := saved.1, cache := Dict.update state.cache pending },
    if saved.2 then .error .keyValueMultiSaveError else .ok ())

section

variable (block : κ) (field : φ)

def get : Except UserStateError ν :=
  match state.cache.lookup block with
  | none => .error .keyError
  | some fieldState =>
    match fieldState.lookup field with
    | none => .error .keyError
    | some value => .ok value

def has : Bool :=
  match state.cache.lookup block with
  | none => false
  | some fieldState => decide (field ∈ fieldState)

def delete (state : UserStateCache κ φ ν) (block : κ) (field : φ) (fails : Bool) :
    UserStateCache κ φ ν × Except UserStateError Unit :=
  match state.cache.lookup block with
  | none => (state, .error .keyError)
  | some fieldState =>
    if field ∈ fieldState then
      match UserStateClient.delete state.anonymous state.rows block field fails with
      | .error err => (state, .error err)
      | .ok rows => ({ state with rows := rows, cache := state.cache.insert block (fieldState.erase field) }, .ok ())
    else (state, .error .keyError)

/-- A call on the cache, with the save that fails if one does. -/
inductive Call (κ φ ν : Type) where
  | get (block : κ) (field : φ)
  | has (block : κ) (field : φ)
  | setMany (kvDict : Dict (κ × φ) ν) (failure : Option Nat)
  | delete (block : κ) (field : φ) (fails : Bool)

/-- `set` is `set_many` of one value. -/
def Call.set (value : ν) (failure : Option Nat) : Call κ φ ν :=
  .setMany (Dict.ofList [((block, field), value)]) failure

end

def step : Call κ φ ν → UserStateCache κ φ ν
  | .get _ _ | .has _ _ => state
  | .setMany kvDict failure => (state.setMany kvDict failure).1
  | .delete block field fails => (state.delete block field fails).1

end

end UserStateCache

end EdxPlatform
