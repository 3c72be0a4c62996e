import EdxPlatform.Lib.Runs
import EdxPlatform.UserState.FieldDataCache

/-!
# Cached answers and stored state

The stored state of a learner maps each block and field to the value last set
successfully and not deleted.  A call of `set_many` replaces the cached state of
the blocks it names, although the rows keep the fields it does not name, and
does so even when the save failed.
-/

namespace EdxPlatform.UserStateCache

open UserStateClient

variable {κ φ ν : Type} [DecidableEq κ] [DecidableEq φ]

def answer (states : Dict κ (FieldState φ ν)) (block : κ) (field : φ) : Option ν :=
  (states.lookup block).bind (fun fieldState => fieldState.lookup field)

def rowAnswer (rows : StudentModules κ φ ν) (block : κ) (field : φ) : Option ν :=
  (rows.lookup block).join.bind (fun fieldState => fieldState.lookup field)

/-- The blocks that a `set_many` call saves. -/
def savedBlocks (anonymous : Bool) (kvDict : Dict (κ × φ) ν) (failure : Option Nat) : List κ :=
  let blocks := (pendingUpdates kvDict).keys
  match failure with
  | none => blocks
  | some count => if anonymous then blocks else blocks.take count

def record (state : UserStateCache κ φ ν) (stored : κ → φ → Option ν) : Call κ φ ν → κ → φ → Option ν
  | .get _ _ | .has _ _ => stored
  | .setMany kvDict failure => fun block field =>
    if block ∈ savedBlocks state.anonymous kvDict failure then
      (kvDict.lookup (block, field)).or (stored block field)
    else stored block field
  | .delete block field fails => fun other otherField =>
    match (state.delete block field fails).2 with
    | .ok () => if other = block ∧ otherField = field then none else stored other otherField
    | .error _ => stored other otherField

section

variable (blockKeys : List κ) (state : UserStateCache κ φ ν) (stored : κ → φ → Option ν)

/-- Every `get` and `has` on the loaded blocks answers what is stored. -/
def AnswersStored : Prop :=
  ∀ block ∈ blockKeys, ∀ field, (state.get block field = match stored block field with
      | some value => .ok value
      | none => .error .keyError) ∧
    state.has block field = (stored block field).isSome

/-- The call names every stored field of each loaded block that it saves, and
only stored values of each loaded block that it fails to save. -/
def NamesStored : Call κ φ ν → Prop
  | .setMany kvDict failure => ∀ block ∈ blockKeys, (∃ field, (block, field) ∈ kvDict) →
    if block ∈ savedBlocks state.anonymous kvDict failure then
      ∀ field, stored block field ≠ none → (block, field) ∈ kvDict
    else ∀ field, kvDict.lookup (block, field) = stored block field
  | _ => True

end

def stepStored (current : UserStateCache κ φ ν × (κ → φ → Option ν)) (call : Call κ φ ν) :
    UserStateCache κ φ ν × (κ → φ → Option ν) :=
  (current.1.step call, current.1.record current.2 call)

section

variable (anonymous : Bool) (rows : StudentModules κ φ ν)

def start (blockKeys : List κ) : UserStateCache κ φ ν := cacheFields { anonymous := anonymous, rows := rows } blockKeys

/-- What is stored for a learner at the start; nothing is for an anonymous one. -/
def startStored (block : κ) (field : φ) : Option ν :=
  if anonymous then none else rowAnswer rows block field

theorem answer_insert (states : Dict κ (FieldState φ ν)) (block other : κ) (fieldState : FieldState φ ν) (field : φ) :
    answer (states.insert block fieldState) other field =
      if other = block then fieldState.lookup field else answer states other field := by
  unfold answer
  rw [lookup_insert]
  split <;> rfl

theorem answer_foldl_pending {entries : List (Sigma fun _ : κ × φ => ν)}
    (hkeys : entries.NodupKeys) (pending : Dict κ (FieldState φ ν)) (block : κ) (field : φ) :
    answer (entries.foldl (fun pending entry => pending.insert entry.1.1
      (((pending.lookup entry.1.1).getD ∅).insert entry.1.2 entry.2)) pending) block field =
        (entries.dlookup (block, field)).or (answer pending block field) := by
  induction entries generalizing pending with
  | nil => rfl
  | cons entry rest ih =>
    obtain ⟨⟨entryBlock, entryField⟩, value⟩ := entry
    obtain ⟨hout, hrest⟩ := nodupKeys_cons.mp hkeys
    rw [foldl_cons, ih hrest, answer_insert]
    by_cases heq : (block, field) = (entryBlock, entryField)
    · rw [heq, dlookup_cons_eq, List.dlookup_eq_none.mpr hout]
      obtain ⟨rfl, rfl⟩ := Prod.mk.inj heq
      rw [if_pos rfl, lookup_insert_self]
      rfl
    · rw [dlookup_cons_ne _ _ heq]
      congr 1
      split
      · next hblk =>
          have hfld : field ≠ entryField := fun h => heq (by rw [hblk, h])
          rw [lookup_insert_of_ne hfld, ← hblk]
          unfold answer
          cases pending.lookup block <;> rfl
      · rfl

section

variable (kvDict : Dict (κ × φ) ν) (block : κ)

theorem answer_pendingUpdates (field : φ) :
    answer (pendingUpdates kvDict) block field = kvDict.lookup (block, field) := by
  unfold pendingUpdates
  rw [answer_foldl_pending kvDict.nodupKeys]
  exact or_none

theorem mem_pendingUpdates : block ∈ pendingUpdates kvDict ↔ ∃ field, (block, field) ∈ kvDict := by
  have hfold : ∀ (entries : List (Sigma fun _ : κ × φ => ν)) (pending : Dict κ (FieldState φ ν)),
      block ∈ entries.foldl (fun pending entry => pending.insert entry.1.1
        (((pending.lookup entry.1.1).getD ∅).insert entry.1.2 entry.2)) pending ↔
          (∃ field, (block, field) ∈ entries.keys) ∨ block ∈ pending := by
    intro entries
    induction entries with
    | nil => intro pending; simp
    | cons entry rest ih =>
      intro pending
      rw [foldl_cons, ih, mem_insert]
      simp only [keys_cons, mem_cons]
      constructor
      · rintro (⟨field, hfld⟩ | rfl | hblk)
        · exact .inl ⟨field, .inr hfld⟩
        · exact .inl ⟨entry.1.2, .inl rfl⟩
        · exact .inr hblk
      · rintro (⟨field, heq | hfld⟩ | hblk)
        · exact .inr (.inl (congrArg Prod.fst heq))
        · exact .inl ⟨field, hfld⟩
        · exact .inr (.inr hblk)
  unfold pendingUpdates
  rw [hfold]
  exact or_iff_left (notMem_empty block)

end

variable (blockKeys : List κ) (state : UserStateCache κ φ ν) (stored : κ → φ → Option ν)

theorem answersStored_iff : AnswersStored blockKeys state stored ↔
      ∀ block ∈ blockKeys, ∀ field, answer state.cache block field = stored block field := by
  have hget : ∀ block field, state.get block field = match answer state.cache block field with
      | some value => .ok value
      | none => .error .keyError := by
    intro block field
    unfold get answer
    cases state.cache.lookup block with
    | none => rfl
    | some fieldState => cases h : fieldState.lookup field <;> simp [h]
  have hhas : ∀ block field, state.has block field = (answer state.cache block field).isSome := by
    intro block field
    unfold has answer
    cases state.cache.lookup block with
    | none => rfl
    | some fieldState =>
      rw [eq_iff_iff, bind_some, lookup_isSome]
      exact decide_eq_true_iff
  unfold AnswersStored
  refine forall_congr' fun block => forall_congr' fun _ => forall_congr' fun field => ?_
  rw [hget, hhas]
  cases answer state.cache block field <;> cases stored block field <;> simp

theorem answer_update (states pending : Dict κ (FieldState φ ν)) (block : κ) (field : φ) :
    answer (Dict.update states pending) block field =
      if block ∈ pending then answer pending block field else answer states block field := by
  unfold answer
  rw [lookup_update]
  split
  · next hmem =>
      obtain ⟨fieldState, hfiel⟩ := mem_iff_lookup.mp hmem
      rw [hfiel]
      rfl
  · next hout =>
      rw [lookup_eq_none.mpr hout]
      rfl

theorem mem_of_mem_savedBlocks {anonymous : Bool} {kvDict : Dict (κ × φ) ν} {failure : Option Nat} {block : κ}
    (hsaved : block ∈ savedBlocks anonymous kvDict failure) : block ∈ pendingUpdates kvDict := by
  unfold savedBlocks at hsaved
  cases failure with
  | none => exact hsaved
  | some count =>
    cases anonymous with
    | true => exact hsaved
    | false => exact List.mem_of_mem_take hsaved

theorem delete_cases (block : κ) (field : φ) (fails : Bool) :
    (∃ err, state.delete block field fails = (state, .error err)) ∨
    (∃ rows fieldState, state.cache.lookup block = some fieldState ∧
      UserStateClient.delete state.anonymous state.rows block field fails = .ok rows ∧
      state.delete block field fails =
        ({ state with rows := rows, cache := state.cache.insert block (fieldState.erase field) }, .ok ())) := by
  unfold delete
  cases hcache : state.cache.lookup block with
  | none => exact .inl ⟨_, rfl⟩
  | some fieldState =>
    dsimp only
    split
    · cases UserStateClient.delete state.anonymous state.rows block field fails with
      | error err => exact .inl ⟨err, rfl⟩
      | ok rows => exact .inr ⟨rows, fieldState, rfl, rfl, rfl⟩
    · exact .inl ⟨_, rfl⟩

/-- From a state that answers what is stored, a call leads to one that does
exactly when it names the stored fields. -/
theorem answersStored_step (hbef : AnswersStored blockKeys state stored) (call : Call κ φ ν) :
    AnswersStored blockKeys (state.step call) (state.record stored call) ↔
      NamesStored blockKeys state stored call := by
  cases call with
  | get block field => exact iff_of_true hbef trivial
  | has block field => exact iff_of_true hbef trivial
  | delete block field fails =>
    refine iff_of_true ?_ trivial
    rw [answersStored_iff] at hbef ⊢
    intro other hoth otherField
    unfold step record
    rcases delete_cases state block field fails with
      ⟨err, hdel⟩ | ⟨rows, fieldState, hcache, -, hdel⟩
    · simp only [hdel]
      exact hbef other hoth otherField
    · simp only [hdel]
      rw [answer_insert]
      by_cases hblk : other = block
      · subst hblk
        have hold := hbef other hoth otherField
        unfold answer at hold
        rw [hcache, bind_some] at hold
        rw [if_pos rfl, lookup_erase, hold]
        simp
      · rw [if_neg hblk, if_neg fun hboth => hblk hboth.1]
        exact hbef other hoth otherField
  | setMany kvDict failure =>
    rw [answersStored_iff] at hbef ⊢
    unfold step record setMany NamesStored
    dsimp only
    refine forall_congr' fun block => forall_congr' fun hblk => ?_
    simp only [answer_update, answer_pendingUpdates]
    by_cases hpend : block ∈ pendingUpdates kvDict
    · have hnamed := (mem_pendingUpdates kvDict block).mp hpend
      simp only [hpend, if_true, hnamed, forall_const]
      by_cases hsaved : block ∈ savedBlocks state.anonymous kvDict failure
      · simp only [hsaved, if_true]
        refine forall_congr' fun field => ?_
        rw [mem_iff_lookup]
        cases kvDict.lookup (block, field) <;> cases stored block field <;> simp
      · simp only [hsaved, if_false]
    · have hunsv : block ∉ savedBlocks state.anonymous kvDict failure :=
        fun hsaved => hpend (mem_of_mem_savedBlocks hsaved)
      simp only [hpend, if_false, hunsv]
      refine iff_of_true (hbef block hblk) fun hnamed => ?_
      exact absurd ((mem_pendingUpdates kvDict block).mpr hnamed) hpend

theorem answer_cacheFields (blockKeys : List κ) {block : κ} (hblk : block ∈ blockKeys) (field : φ) :
    answer (start anonymous rows blockKeys).cache block field = startStored anonymous rows block field := by
  have hfold : ∀ (keys : List κ) (cache : Dict κ (FieldState φ ν)),
      (answer cache block field = rowAnswer rows block field ∨ (answer cache block field = none ∧ block ∈ keys)) →
      answer ((UserStateClient.getMany rows keys).foldl
        (fun cache found => cache.insert found.1 found.2) cache) block field = rowAnswer rows block field := by
    intro keys
    induction keys with
    | nil => exact fun cache hcache => hcache.resolve_right fun h => not_mem_nil h.2
    | cons key keys ih =>
      intro cache hcache
      have hemp : key = block → rowAnswer rows block field = none →
          answer cache block field = rowAnswer rows block field := by
        rintro - hrow
        exact hcache.elim id fun hnone => hnone.1.trans hrow.symm
      have hoth : key ≠ block → (answer cache block field = rowAnswer rows block field ∨
          (answer cache block field = none ∧ block ∈ keys)) := fun hne =>
        hcache.imp_right fun hnone => ⟨hnone.1, (mem_cons.mp hnone.2).resolve_left (Ne.symm hne)⟩
      unfold UserStateClient.getMany at ih ⊢
      rw [List.filterMap_cons]
      by_cases hkey : key = block
      · subst hkey
        rcases hrow : rows.lookup key with _ | _ | state
        · exact ih cache (.inl (hemp rfl (by simp [rowAnswer, hrow])))
        · exact ih cache (.inl (hemp rfl (by simp [rowAnswer, hrow])))
        · by_cases hstt : state.entries.isEmpty = true
          · simp only [hstt, if_true]
            have hnone : state.lookup field = none := by
              unfold AList.lookup
              rw [isEmpty_iff.mp hstt]
              rfl
            exact ih cache (.inl (hemp rfl (by simp [rowAnswer, hrow, hnone])))
          · simp only [hstt, false_eq_true, if_false, foldl_cons]
            refine ih _ (.inl ?_)
            rw [answer_insert, if_pos rfl]
            simp [rowAnswer, hrow]
      · split
        · exact ih cache (hoth hkey)
        · next found hfnd =>
            have hfoun : found.1 = key := by
              split at hfnd
              · cases hfnd
              · cases hfnd
              · split at hfnd
                · cases hfnd
                · rw [← some.inj hfnd]
            rw [foldl_cons]
            refine ih _ ?_
            rw [answer_insert, hfoun, if_neg (Ne.symm hkey)]
            exact hoth hkey
  unfold start cacheFields startStored
  cases anonymous with
  | true => rfl
  | false => exact hfold blockKeys ∅ (.inr ⟨rfl, hblk⟩)

end

/-- Whatever the calls and the failing saves: every state that a run on a filled
cache passes through answers what is stored, exactly when each call of the run
names the stored fields of the blocks it sets. -/
theorem always_answersStored_iff (anonymous : Bool) (rows : StudentModules κ φ ν)
    (blockKeys : List κ) (calls : List (Call κ φ ν)) :
    Always stepStored (fun current => AnswersStored blockKeys current.1 current.2)
        (start anonymous rows blockKeys, startStored anonymous rows) calls ↔
      Each stepStored (fun current => NamesStored blockKeys current.1 current.2)
        (start anonymous rows blockKeys, startStored anonymous rows) calls := by
  refine always_iff_each (fun current call hbefore =>
    answersStored_step blockKeys current.1 current.2 hbefore call) ?_ calls
  rw [answersStored_iff]
  exact fun block hblock field => answer_cacheFields anonymous rows blockKeys hblock field

section

variable (rows : StudentModules κ φ ν) (block other : κ) (fieldState : FieldState φ ν) (field : φ)

theorem rowAnswer_insert : rowAnswer (rows.insert block (some fieldState)) other field =
      if other = block then fieldState.lookup field else rowAnswer rows other field := by
  unfold rowAnswer
  rw [lookup_insert]
  split <;> rfl

theorem rowAnswer_saveBlock : rowAnswer (saveBlock rows block fieldState) other field =
      if other = block then (fieldState.lookup field).or (rowAnswer rows other field)
      else rowAnswer rows other field := by
  unfold saveBlock
  cases hrow : rows.lookup block with
  | none =>
    rw [rowAnswer_insert]
    split
    · next heq =>
        subst heq
        simp [rowAnswer, hrow]
    · rfl
  | some current =>
    rw [rowAnswer_insert, lookup_update]
    split
    · next heq =>
        subst heq
        cases current <;> simp [rowAnswer, hrow]
    · rfl

end

theorem rowAnswer_saveBlocks {entries : List (Sigma fun _ : κ => FieldState φ ν)}
    (hkeys : entries.NodupKeys) (failure : Option Nat) (rows : StudentModules κ φ ν)
    (block : κ) (field : φ) :
    rowAnswer (saveBlocks entries failure rows).1 block field = if block ∈ (match failure with
        | none => entries.keys
        | some count => entries.keys.take count) then
        ((entries.dlookup block).bind (fun fieldState => fieldState.lookup field)).or (rowAnswer rows block field)
      else rowAnswer rows block field := by
  induction entries generalizing failure rows with
  | nil => cases failure <;> simp [saveBlocks]
  | cons entry rest ih =>
    obtain ⟨key, fieldState⟩ := entry
    obtain ⟨hout, hrest⟩ := nodupKeys_cons.mp hkeys
    have hnone : rest.dlookup key = none := List.dlookup_eq_none.mpr hout
    have htake : ∀ count, key ∉ rest.keys.take count :=
      fun count hmem => hout (List.mem_of_mem_take hmem)
    rcases failure with _ | _ | count
    · change rowAnswer (saveBlocks rest none _).1 block field = _
      rw [ih hrest, rowAnswer_saveBlock]
      by_cases hkey : block = key
      · subst hkey
        simp [hout]
      · simp [hkey]
    · simp [saveBlocks]
    · change rowAnswer (saveBlocks rest (some count) _).1 block field = _
      rw [ih hrest, rowAnswer_saveBlock]
      by_cases hkey : block = key
      · subst hkey
        simp [htake]
      · simp [hkey]

theorem record_eq_rows {state : UserStateCache κ φ ν} {stored : κ → φ → Option ν} (hregd : state.anonymous = false)
    (hrows : ∀ block field, stored block field = rowAnswer state.rows block field)
    (call : Call κ φ ν) :
    (state.step call).anonymous = false ∧ ∀ block field,
      state.record stored call block field = rowAnswer (state.step call).rows block field := by
  cases call with
  | get block field => exact ⟨hregd, hrows⟩
  | has block field => exact ⟨hregd, hrows⟩
  | setMany kvDict failure =>
    refine ⟨hregd, fun block field => ?_⟩
    unfold record step setMany UserStateClient.setMany savedBlocks
    rw [hregd]
    simp only [false_eq_true, if_false]
    rw [rowAnswer_saveBlocks (pendingUpdates kvDict).nodupKeys, ← hrows, ← answer_pendingUpdates]
    rfl
  | delete block field fails =>
    unfold step record
    rcases delete_cases state block field fails with
      ⟨err, hdel⟩ | ⟨rows, fieldState, -, hclient, hdel⟩
    · simp only [hdel]
      exact ⟨hregd, hrows⟩
    · simp only [hdel]
      refine ⟨hregd, fun other otherField => ?_⟩
      rw [hrows]
      unfold UserStateClient.delete at hclient
      rw [hregd] at hclient
      rcases hrow : state.rows.lookup block with _ | _ | current
      · rw [hrow] at hclient
        cases hclient
        split
        · next hboth =>
            obtain ⟨rfl, rfl⟩ := hboth
            simp [rowAnswer, hrow]
        · rfl
      · rw [hrow] at hclient
        cases hclient
      · rw [hrow] at hclient
        cases fails with
        | true => cases hclient
        | false =>
          cases hclient
          rw [rowAnswer_insert, lookup_erase]
          by_cases hblk : other = block
          · subst hblk
            by_cases hfld : otherField = field
            · simp [hfld]
            · simp [hfld, rowAnswer, hrow]
          · simp [hblk]

def run (state : UserStateCache κ φ ν) (stored : κ → φ → Option ν) (calls : List (Call κ φ ν)) :
    UserStateCache κ φ ν × (κ → φ → Option ν) :=
  calls.foldl stepStored (state, stored)

theorem run_stored_eq_rows (rows : StudentModules κ φ ν) (blockKeys : List κ)
    (calls : List (Call κ φ ν)) (block : κ) (field : φ) :
    (run (start false rows blockKeys) (startStored false rows) calls).2 block field =
      rowAnswer (run (start false rows blockKeys) (startStored false rows) calls).1.rows block field := by
  unfold run
  have hst : (start false rows blockKeys).anonymous = false ∧ ∀ block field, startStored false rows block field =
        rowAnswer (start false rows blockKeys).rows block field := ⟨rfl, fun _ _ => rfl⟩
  generalize start false rows blockKeys = state at hst ⊢
  generalize startStored false rows = stored at hst ⊢
  induction calls generalizing state stored with
  | nil => exact hst.2 block field
  | cons call calls ih => exact ih _ _ (record_eq_rows hst.1 hst.2 call)

def problemRows : StudentModules String String Nat :=
  Dict.ofList [("problem", some (Dict.ofList [("seed", 5), ("attempts", 1)]))]

/-- Setting one field makes the cache forget the other, which stays in the row. -/
theorem set_attempts_forgets_seed : ¬ Always stepStored (fun current => AnswersStored ["problem"] current.1 current.2)
        (start false problemRows ["problem"], startStored false problemRows)
        [.set "problem" "attempts" 2 none] ∧
      rowAnswer ((start false problemRows ["problem"]).step
        (.set "problem" "attempts" 2 none)).rows "problem" "seed" = some 5 ∧
      ((start false problemRows ["problem"]).step
        (.set "problem" "attempts" 2 none)).get "problem" "seed" = .error .keyError := by
  refine ⟨?_, by decide, by decide⟩
  rintro ⟨-, hafter⟩
  have hseed := (hafter "problem" mem_cons_self "seed").2
  revert hseed
  decide

end EdxPlatform.UserStateCache
