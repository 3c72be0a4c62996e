import EdxPlatform.Split.FieldStores

/-!
# Definitions that are loaded lazily

A block's definition is merged into its fields when the block is made, or when a content
field is used for the first time.  The two stores answer calls in the same way, unless that
first use is a `get` of a field that the definition does not have.
-/

namespace EdxPlatform.Split

open SplitMongoKvs SplitMongoKvs

/-- A call on a field, which is given by its name. -/
inductive FieldCall where
  | get (name : String)
  | set (name : String) (value : Value)
  | delete (name : String)
  | has (name : String)
  deriving DecidableEq

inductive FieldReply where
  | value (value : Value)
  | done
  | answer (isSet : Bool)
  deriving DecidableEq

def FieldCall.name : FieldCall → String
  | .get name | .set name _ | .delete name | .has name => name

def fieldKey (scopes : String → Scope) (usage : BlockKey) (name : String) : FieldKey BlockKey where
  scope := scopes name
  blockScopeId := usage
  fieldName := name

def SplitMongoKvs.perform (kvs : SplitMongoKvs) (scopes : String → Scope) (usage : BlockKey) :
    FieldCall → Except FieldError FieldReply × SplitMongoKvs
  | .get name =>
    let (reply, kvs) := kvs.get (fieldKey scopes usage name)
    (reply.map .value, kvs)
  | .set name value =>
    let (reply, kvs) := kvs.set (fieldKey scopes usage name) value
    (reply.map fun _ => .done, kvs)
  | .delete name =>
    let (reply, kvs) := kvs.delete (fieldKey scopes usage name)
    (reply.map fun _ => .done, kvs)
  | .has name =>
    let (isSet, kvs) := kvs.has (fieldKey scopes usage name)
    (.ok (.answer isSet), kvs)

def SplitMongoKvs.replies (scopes : String → Scope) (usage : BlockKey) :
    SplitMongoKvs → List FieldCall → List (Except FieldError FieldReply)
  | _, [] => []
  | kvs, call :: calls =>
    let (reply, kvs) := kvs.perform scopes usage call
    reply :: replies scopes usage kvs calls

/-- A block as it is saved.  Its own fields are settings and children, and those of its
definition are content. -/
structure SavedBlock (scopes : String → Scope) where
  fields : Fields
  definition : Definition
  fields_scope : ∀ name ∈ fields, scopes name ≠ .content
  definition_scope : ∀ name ∈ definition.fields, scopes name = .content

variable {scopes : String → Scope}

namespace SavedBlock

section

variable (block : SavedBlock scopes) (converter : String → Value → Value)

def lazyStore (asideFields : Dict String Fields) (rest : SplitMongoKvs) : SplitMongoKvs :=
  { rest with
    fields := convertFields converter block.fields
    definition := some
      { persisted := some block.definition
        asideFields := asideFields
        fieldConverter := converter } }

/-- The store of a block into whose fields `cache_items` has put those of the definition. -/
def mergedStore (rest : SplitMongoKvs) : SplitMongoKvs :=
  { rest with
    fields := convertFields converter (block.fields.update block.definition.fields)
    definition := none }

end

/-- The first call on a content field is not a `get` of a field that the definition lacks. -/
def FirstUseFinds (block : SavedBlock scopes) : List FieldCall → Prop
  | [] => True
  | call :: calls =>
    if scopes call.name = .content then ∀ name, call = .get name → name ∈ block.definition.fields
    else block.FirstUseFinds calls

end SavedBlock

/-- Two stores without a loader that have the same values. -/
structure SameValues (kvs other : SplitMongoKvs) : Prop where
  loaded : kvs.definition = none
  otherLoaded : other.definition = none
  lookup : ∀ name, kvs.fields.lookup name = other.fields.lookup name
  parent : kvs.parent = other.parent
  fieldDecorator : kvs.fieldDecorator = other.fieldDecorator

/-- The definition is still to be merged into the first store, and is in the second. -/
structure Unmerged {scopes : String → Scope} (block : SavedBlock scopes)
    (converter : String → Value → Value) (asideFields : Dict String Fields)
    (kvs other : SplitMongoKvs) : Prop where
  loader : kvs.definition = some ⟨some block.definition, asideFields, converter⟩
  otherLoaded : other.definition = none
  lookup : ∀ name, other.fields.lookup name =
    if scopes name = .content then (block.definition.fields.lookup name).map (converter name)
    else kvs.fields.lookup name
  noContent : ∀ name, scopes name = .content → kvs.fields.lookup name = none
  parent : kvs.parent = other.parent
  fieldDecorator : kvs.fieldDecorator = other.fieldDecorator

section

variable {block : SavedBlock scopes} {converter : String → Value → Value}
  {asideFields : Dict String Fields} {kvs other : SplitMongoKvs}

theorem unmerged_stores (block : SavedBlock scopes) (converter : String → Value → Value)
    (asideFields : Dict String Fields) (rest : SplitMongoKvs) : Unmerged block converter asideFields
      (block.lazyStore converter asideFields rest) (block.mergedStore converter rest) where
  loader := rfl
  otherLoaded := rfl
  lookup := by
    intro name
    change (convertFields converter _).lookup name =
      if _ then _ else (convertFields converter block.fields).lookup name
    rw [lookup_convertFields, lookup_convertFields, lookup_update]
    split
    · next hscope =>
        have hflds : block.fields.lookup name = none :=
          lookup_eq_none.mpr fun hmem => block.fields_scope name hmem hscope
        rw [hflds, or_none]
    · next hscope =>
        have hdefn : block.definition.fields.lookup name = none :=
          lookup_eq_none.mpr fun hmem => hscope (block.definition_scope name hmem)
        rw [hdefn, none_or]
  noContent := by
    intro name hscope
    change (convertFields converter block.fields).lookup name = none
    rw [lookup_convertFields, lookup_eq_none.mpr fun hmem => block.fields_scope name hmem hscope]
    rfl
  parent := rfl
  fieldDecorator := rfl

theorem Unmerged.loadDefinition (hunm : Unmerged block converter asideFields kvs other) :
    SameValues kvs.loadDefinition other := by
  unfold SplitMongoKvs.loadDefinition
  rw [hunm.loader]
  refine ⟨rfl, hunm.otherLoaded, fun name => ?_, hunm.parent, hunm.fieldDecorator⟩
  change (kvs.fields.update (convertFields converter block.definition.fields)).lookup name = _
  rw [lookup_update, lookup_convertFields, hunm.lookup name]
  split
  · next hscope => rw [hunm.noContent name hscope, or_none]
  · next hscope =>
      rw [lookup_eq_none.mpr fun hmem => hscope (block.definition_scope name hmem)]
      rfl

/-! ## One call -/

theorem loadFor_of_loaded (hloaded : kvs.definition = none) (scope : Scope) : kvs.loadFor scope = kvs := by
  unfold loadFor SplitMongoKvs.loadDefinition
  rw [hloaded]
  exact ite_self _

/-- What a `get` returns that does not load the definition. -/
def SplitMongoKvs.found (kvs : SplitMongoKvs) (scope : Scope) (name : String) : Except FieldError Value :=
  match kvs.decorated kvs.fields name with
  | some value => .ok value
  | none =>
    match scope with
    | .parent => .ok kvs.parent
    | .children | .settings | .content => .error .keyError
    | _ => .error .invalidScopeError

variable {name : String}

theorem get_eq_found (hstays : scopes name = .content → kvs.definition = none) (usage : BlockKey) :
    kvs.get (fieldKey scopes usage name) = (kvs.found (scopes name) name, kvs) := by
  change kvs.getField (fieldKey scopes usage name) = _
  unfold getField found fieldKey
  simp only
  cases kvs.decorated kvs.fields name with
  | some value => rfl
  | none =>
    cases hscope : scopes name with
    | content => simp [hstays hscope]
    | _ => rfl

def SplitMongoKvs.replyTo (kvs : SplitMongoKvs) (scopes : String → Scope) : FieldCall → Except FieldError FieldReply
  | .get name => (kvs.found (scopes name) name).map .value
  | .set name _ | .delete name =>
    if scopes name ∈ validScopes then .ok .done else .error .invalidScopeError
  | .has name => .ok (.answer (decide (scopes name ∈ validScopes) &&
      (decide (scopes name = .parent) || decide (name ∈ kvs.fields))))

def FieldCall.written (scopes : String → Scope) : FieldCall → Fields → Fields
  | .set name value, fields =>
    if scopes name ∈ validScopes then fields.insert name value else fields
  | .delete name, fields =>
    if scopes name ∈ validScopes then fields.erase name else fields
  | .get _, fields | .has _, fields => fields

theorem loadFor_of_stays {scope : Scope} (hstays : scope = .content → kvs.definition = none) :
    kvs.loadFor scope = kvs := by
  by_cases hscope : scope = .content
  · exact loadFor_of_loaded (hstays hscope) scope
  · exact if_neg hscope

section

variable (hstays : scopes name = .content → kvs.definition = none) (usage : BlockKey)
include hstays

theorem set_of_stays (value : Value) : kvs.set (fieldKey scopes usage name) value = if scopes name ∈ validScopes then
        (.ok (), { kvs with fields := kvs.fields.insert name value })
      else (.error .invalidScopeError, kvs) := by
  unfold SplitMongoKvs.set fieldKey
  simp only [loadFor_of_stays hstays, ite_not]

theorem delete_of_stays : kvs.delete (fieldKey scopes usage name) = if scopes name ∈ validScopes then
        (.ok (), { kvs with fields := kvs.fields.erase name })
      else (.error .invalidScopeError, kvs) := by
  unfold delete fieldKey
  simp only [loadFor_of_stays hstays, ite_not]

theorem has_of_stays : kvs.has (fieldKey scopes usage name) = (decide (scopes name ∈ validScopes) &&
        (decide (scopes name = .parent) || decide (name ∈ kvs.fields)), kvs) := by
  unfold has fieldKey
  simp only [loadFor_of_stays hstays]
  by_cases hval : scopes name ∈ validScopes
  · by_cases hpar : scopes name = .parent
    · simp [hpar, validScopes]
    · simp [hval, hpar]
  · simp [hval]

end

variable {call : FieldCall}

theorem perform_of_stays (usage : BlockKey) (hstays : scopes call.name = .content → kvs.definition = none) :
    kvs.perform scopes usage call =
      (kvs.replyTo scopes call, { kvs with fields := call.written scopes kvs.fields }) := by
  cases call with
  | get name =>
    change scopes name = .content → _ at hstays
    simp only [SplitMongoKvs.perform, get_eq_found hstays]
    rfl
  | set name value =>
    change scopes name = .content → _ at hstays
    simp only [SplitMongoKvs.perform, set_of_stays hstays, replyTo, FieldCall.written]
    split <;> rfl
  | delete name =>
    change scopes name = .content → _ at hstays
    simp only [SplitMongoKvs.perform, delete_of_stays hstays, replyTo, FieldCall.written]
    split <;> rfl
  | has name =>
    change scopes name = .content → _ at hstays
    simp only [SplitMongoKvs.perform, has_of_stays hstays]
    rfl

theorem replyTo_congr (hlook : kvs.fields.lookup call.name = other.fields.lookup call.name)
    (hpar : kvs.parent = other.parent) (hdeco : kvs.fieldDecorator = other.fieldDecorator) :
    kvs.replyTo scopes call = other.replyTo scopes call := by
  cases call with
  | get name =>
    have hdec : kvs.decorated kvs.fields name = other.decorated other.fields name := by
      unfold decorated
      rw [hdeco]
      exact congrArg _ hlook
    unfold replyTo found
    simp only [hdec, hpar]
  | set name value => rfl
  | delete name => rfl
  | has name =>
    have hmem : name ∈ kvs.fields ↔ name ∈ other.fields := by
      rw [← lookup_isSome, ← lookup_isSome]
      exact iff_of_eq (congrArg (·.isSome = true) hlook)
    unfold replyTo
    simp only [hmem]

theorem lookup_written (call : FieldCall) (fields : Fields) (name : String) :
    (call.written scopes fields).lookup name = if name = call.name then (call.written scopes fields).lookup call.name
      else fields.lookup name := by
  by_cases heq : name = call.name
  · rw [if_pos heq, heq]
  · rw [if_neg heq]
    cases call with
    | get other => rfl
    | has other => rfl
    | set other value =>
      change (if _ then _ else _ : Fields).lookup name = _
      split
      · exact lookup_insert_of_ne heq value fields
      · rfl
    | delete other =>
      change (if _ then _ else _ : Fields).lookup name = _
      split
      · exact lookup_erase_ne heq
      · rfl

theorem lookup_written_self {fields others : Fields} (hlook : fields.lookup call.name = others.lookup call.name) :
    (call.written scopes fields).lookup call.name = (call.written scopes others).lookup call.name := by
  cases call with
  | get name => exact hlook
  | has name => exact hlook
  | set name value =>
    change (if _ then _ else _ : Fields).lookup name = (if _ then _ else _ : Fields).lookup name
    split
    · rw [lookup_insert_self, lookup_insert_self]
    · exact hlook
  | delete name =>
    change (if _ then _ else _ : Fields).lookup name = (if _ then _ else _ : Fields).lookup name
    split
    · rw [lookup_erase, lookup_erase, if_pos rfl, if_pos rfl]
    · exact hlook

theorem SameValues.perform (hsame : SameValues kvs other) (scopes : String → Scope) (usage : BlockKey)
    (call : FieldCall) :
    (kvs.perform scopes usage call).1 = (other.perform scopes usage call).1 ∧
      SameValues (kvs.perform scopes usage call).2 (other.perform scopes usage call).2 := by
  rw [perform_of_stays usage fun _ => hsame.loaded, perform_of_stays usage fun _ => hsame.otherLoaded]
  refine ⟨replyTo_congr (hsame.lookup _) hsame.parent hsame.fieldDecorator,
    hsame.loaded, hsame.otherLoaded, fun name => ?_, hsame.parent, hsame.fieldDecorator⟩
  change (call.written scopes kvs.fields).lookup name = (call.written scopes other.fields).lookup name
  rw [lookup_written call kvs.fields, lookup_written call other.fields, hsame.lookup name,
    lookup_written_self (hsame.lookup _)]

theorem SameValues.replies (hsame : SameValues kvs other) (usage : BlockKey)
    (calls : List FieldCall) : kvs.replies scopes usage calls = other.replies scopes usage calls := by
  induction calls generalizing kvs other with
  | nil => rfl
  | cons call calls ih =>
    obtain ⟨hreply, hsame⟩ := hsame.perform scopes usage call
    unfold replies
    exact congrArg₂ List.cons hreply (ih hsame)

theorem Unmerged.perform (hunm : Unmerged block converter asideFields kvs other)
    (usage : BlockKey) (hscope : scopes call.name ≠ .content) :
    (kvs.perform scopes usage call).1 = (other.perform scopes usage call).1 ∧
      Unmerged block converter asideFields (kvs.perform scopes usage call).2 (other.perform scopes usage call).2 := by
  have hlook : kvs.fields.lookup call.name = other.fields.lookup call.name := by
    rw [hunm.lookup, if_neg hscope]
  rw [perform_of_stays usage fun h => absurd h hscope, perform_of_stays usage fun _ => hunm.otherLoaded]
  refine ⟨replyTo_congr hlook hunm.parent hunm.fieldDecorator,
    hunm.loader, hunm.otherLoaded, fun name => ?_, fun name hcont => ?_,
    hunm.parent, hunm.fieldDecorator⟩
  · change (call.written scopes other.fields).lookup name =
      if _ then _ else (call.written scopes kvs.fields).lookup name
    rw [lookup_written call kvs.fields, lookup_written call other.fields, hunm.lookup name, lookup_written_self hlook]
    by_cases heq : name = call.name
    · rw [if_pos heq, if_pos heq, heq, if_neg hscope]
    · rw [if_neg heq, if_neg heq]
  · change (call.written scopes kvs.fields).lookup name = none
    rw [lookup_written, if_neg, hunm.noContent name hcont]
    rintro rfl
    exact hscope hcont

theorem definition_loadDefinition (kvs : SplitMongoKvs) : kvs.loadDefinition.definition = none := by
  unfold SplitMongoKvs.loadDefinition
  cases hdefn : kvs.definition with
  | none => exact hdefn
  | some loader =>
    simp only
    cases loader.persisted <;> rfl

theorem perform_loadDefinition (hscope : scopes call.name = .content)
    (hget : ∀ name, call ≠ .get name) (usage : BlockKey) :
    kvs.perform scopes usage call = kvs.loadDefinition.perform scopes usage call := by
  have hload : kvs.loadFor .content = kvs.loadDefinition.loadFor .content := by
    rw [loadFor_of_loaded (definition_loadDefinition kvs)]
    rfl
  cases call with
  | get name => exact absurd rfl (hget name)
  | set name value =>
    change scopes name = .content at hscope
    simp only [SplitMongoKvs.perform, SplitMongoKvs.set, fieldKey, hscope, hload]
    rfl
  | delete name =>
    change scopes name = .content at hscope
    simp only [SplitMongoKvs.perform, delete, fieldKey, hscope, hload]
    rfl
  | has name =>
    change scopes name = .content at hscope
    simp only [SplitMongoKvs.perform, has, fieldKey, hscope, hload]
    rfl

section

variable (hunm : Unmerged block converter asideFields kvs other) (usage : BlockKey)
include hunm

theorem Unmerged.get (hscope : scopes name = .content) : kvs.perform scopes usage (.get name) =
      (.ok (.value ((other.decorated other.fields name).getD noneValue)), kvs.loadDefinition) := by
  have hsame := hunm.loadDefinition
  have hfnd : kvs.decorated kvs.fields name = none := by
    unfold decorated
    rw [hunm.noContent name hscope]
    rfl
  have hdec : kvs.loadDefinition.decorated kvs.loadDefinition.fields name = other.decorated other.fields name := by
    unfold decorated
    rw [hsame.lookup, hsame.fieldDecorator]
  have hget : kvs.get (fieldKey scopes usage name) =
      (.ok ((kvs.loadDefinition.decorated kvs.loadDefinition.fields name).getD noneValue), kvs.loadDefinition) := by
    change kvs.getField (fieldKey scopes usage name) = _
    unfold getField fieldKey
    simp only [hfnd, hscope, hunm.loader]
    rfl
  simp only [SplitMongoKvs.perform, hget, hdec]
  rfl

/-- The first call on a content field merges the definition into the store.  It gets the same
reply unless it is the `get` of a field that the definition lacks. -/
theorem Unmerged.perform_content (hscope : scopes call.name = .content) :
    ((kvs.perform scopes usage call).1 = (other.perform scopes usage call).1 ↔
      ∀ name, call = .get name → name ∈ block.definition.fields) ∧
      SameValues (kvs.perform scopes usage call).2 (other.perform scopes usage call).2 := by
  have hsame := hunm.loadDefinition
  by_cases hget : ∃ name, call = .get name
  · obtain ⟨name, rfl⟩ := hget
    change scopes name = .content at hscope
    rw [hunm.get usage hscope, perform_of_stays usage fun _ => hunm.otherLoaded]
    refine ⟨?_, hsame⟩
    have hlook := hunm.lookup name
    rw [if_pos hscope] at hlook
    have hmem : (∀ other, FieldCall.get name = .get other → other ∈ block.definition.fields) ↔
        name ∈ block.definition.fields :=
      ⟨fun h => h name rfl, fun h other heq => FieldCall.get.inj heq ▸ h⟩
    rw [hmem, mem_iff_lookup]
    simp only [replyTo, found, decorated, hlook, hscope]
    cases block.definition.fields.lookup name with
    | none => exact iff_of_false (fun h => nomatch h) (fun ⟨_, h⟩ => nomatch h)
    | some value => exact iff_of_true rfl ⟨value, rfl⟩
  · push Not at hget
    rw [perform_loadDefinition hscope hget]
    obtain ⟨hreply, haft⟩ := hsame.perform scopes usage call
    exact ⟨iff_of_true hreply fun name heq => absurd heq (hget name), haft⟩

theorem Unmerged.replies_eq_iff (calls : List FieldCall) :
    kvs.replies scopes usage calls = other.replies scopes usage calls ↔ block.FirstUseFinds calls := by
  induction calls generalizing kvs other with
  | nil => exact iff_of_true rfl trivial
  | cons call calls ih =>
    unfold replies SavedBlock.FirstUseFinds
    simp only [cons.injEq]
    by_cases hscope : scopes call.name = .content
    · obtain ⟨hreply, hsame⟩ := hunm.perform_content usage hscope
      rw [if_pos hscope, hreply, hsame.replies usage calls]
      exact and_iff_left rfl
    · obtain ⟨hreply, haft⟩ := hunm.perform usage hscope
      rw [if_neg hscope, hreply, ih haft]
      exact and_iff_right rfl

end

end

/-- The lazy store of a block replies to all calls as the merged one does if and only if the
first call on a content field is not a `get` of a field that the definition lacks. -/
theorem lazy_replies_iff {scopes : String → Scope} (block : SavedBlock scopes)
    (converter : String → Value → Value) (asideFields : Dict String Fields) (rest : SplitMongoKvs)
    (usage : BlockKey) (calls : List FieldCall) :
    (block.lazyStore converter asideFields rest).replies scopes usage calls =
        (block.mergedStore converter rest).replies scopes usage calls ↔
      block.FirstUseFinds calls :=
  (unmerged_stores block converter asideFields rest).replies_eq_iff usage calls

def contentScopes (name : String) : Scope :=
  if name = "children" then .children else .content

def bareBlock : SavedBlock contentScopes where
  fields := ∅
  definition := { blockType := "html", fields := ∅ }
  fields_scope := by rintro name hname; cases hname
  definition_scope := by rintro name hname; cases hname

/-- The lazy store returns `None` where the merged one raises `KeyError`. -/
theorem bareBlock_replies_ne :
    (bareBlock.lazyStore (fun _ => id) ∅ { fields := ∅ }).replies contentScopes ⟨"html", "intro"⟩ [.get "data"] ≠
      (bareBlock.mergedStore (fun _ => id) { fields := ∅ }).replies contentScopes ⟨"html", "intro"⟩ [.get "data"] := by
  decide +kernel

end EdxPlatform.Split
