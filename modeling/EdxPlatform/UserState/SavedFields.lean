import EdxPlatform.UserState.FieldRows

/-!
# The fields that an exception names

When a save raises, the names that the exception has are to be those of the fields that were
stored.  The field whose save raised is named too, and the fields of a user state that were
stored before the save that raised are not.
-/

namespace EdxPlatform

open UserStateCache UserStateClient

variable {β ν κ : Type} [DecidableEq κ]

def fieldNames (keys : List (FieldKey β)) : List String := keys.map FieldKey.fieldName

@[simp] theorem fieldNames_append (keys others : List (FieldKey β)) :
    fieldNames (keys ++ others) = fieldNames keys ++ fieldNames others :=
  map_append

namespace DjangoOrmFieldCache

variable (cacheKey : FieldKey β → κ)

theorem saveFields_returns (items : List (FieldKey β × ν)) (outcome : SaveOutcome (DjangoOrmFieldCache κ ν) β)
    (hret : ∀ count, outcome.failure = some count → items.length ≤ count)
    (names : List String) :
    let saved := saveFields cacheKey items outcome names
    saved.raised = outcome.raised ∧ saved.stored = outcome.stored ++ items.map Prod.fst ∧
      saved.failure = outcome.failure.map (· - items.length) := by
  induction items generalizing outcome names with
  | nil =>
    refine ⟨rfl, (append_nil _).symm, ?_⟩
    cases hfail : outcome.failure <;> simp [saveFields, hfail]
  | cons item items ih =>
    obtain ⟨key, value⟩ := item
    have hleft : outcome.failure ≠ some 0 := fun hzero => absurd (hret 0 hzero) (Nat.not_succ_le_zero _)
    have hrest : ∀ count, (saveField cacheKey key value outcome).failure = some count → items.length ≤ count := by
      intro count hcnt
      obtain ⟨before, hbef, rfl⟩ := map_eq_some_iff.mp hcnt
      exact Nat.le_pred_of_lt (hret before hbef)
    obtain ⟨hrais, hsto, hfail⟩ := ih _ hrest (names ++ [key.fieldName])
    unfold saveFields
    rw [if_neg hleft]
    refine ⟨hrais, hsto.trans (append_assoc ..), hfail.trans ?_⟩
    unfold saveField
    rw [Option.map_map]
    congr 1
    funext count
    simp only [comp_apply, length_cons, Nat.pred_eq_sub_one]
    omega

theorem saveFields_raises {items : List (FieldKey β × ν)}
    (outcome : SaveOutcome (DjangoOrmFieldCache κ ν) β) {count : Nat}
    (hfail : outcome.failure = some count) (hcnt : count < items.length)
    (names : List String) :
    let saved := saveFields cacheKey items outcome names
    saved.raised = some (names ++ fieldNames ((items.map Prod.fst).take (count + 1))) ∧
      saved.stored = outcome.stored ++ (items.map Prod.fst).take count := by
  induction items generalizing outcome count names with
  | nil => cases hcnt
  | cons item items ih =>
    obtain ⟨key, value⟩ := item
    unfold saveFields
    cases count with
    | zero =>
      rw [if_pos hfail]
      exact ⟨by simp [fieldNames], (append_nil _).symm⟩
    | succ count =>
      have hleft : outcome.failure ≠ some 0 := by simp [hfail]
      have hrest : (saveField cacheKey key value outcome).failure = some count := by
        simp [saveField, hfail]
      obtain ⟨hrais, hsto⟩ := ih _ hrest (Nat.lt_of_succ_lt_succ hcnt) (names ++ [key.fieldName])
      rw [if_neg hleft]
      refine ⟨hrais.trans ?_, hsto.trans (append_assoc ..)⟩
      simp [fieldNames]

end DjangoOrmFieldCache

variable [DecidableEq β]

/-! ## The fields named -/

namespace FieldDataCache

/-- If the call raises `KeyValueMultiSaveError`, its names are those of the fields stored. -/
def NamesSaved (orders : SaveOrders β ν) (caches : FieldDataCache β ν)
    (kvDict : Dict (FieldKey β) ν) (failure : Option Nat) : Prop :=
  ∀ names, (caches.setMany orders kvDict failure).2 = .error (.keyValueMultiSaveError names) →
    ∀ name, name ∈ names ↔ name ∈ fieldNames (caches.setMany orders kvDict failure).1.stored

end FieldDataCache

/-- A save that raises: the scopes saved before its scope, and how many saves of its scope
return before it. -/
structure FailingSave (β ν : Type) where
  before : List (Scope × List (FieldKey β × ν))
  scope : Scope
  data : List (FieldKey β × ν)
  count : Nat

namespace FailingSave

def saveCount (anonymous : Bool) (scope : Scope) (data : List (FieldKey β × ν)) : Nat :=
  if scope = .userState then
    if anonymous then 0
    else (UserStateCache.pendingUpdates (FieldDataCache.stateValues data)).keys.length
  else data.length

def find (anonymous : Bool) : List (Scope × List (FieldKey β × ν)) → Nat → Option (FailingSave β ν)
  | [], _ => none
  | (scope, data) :: byScope, count =>
    if count < saveCount anonymous scope data then
      some { before := [], scope := scope, data := data, count := count }
    else
      (find anonymous byScope (count - saveCount anonymous scope data)).map
        fun save => { save with before := (scope, data) :: save.before }

/-- The fields of a scope that are stored if no save raises; those of an anonymous user state
are not. -/
def storedKeys (anonymous : Bool) (byScope : Scope × List (FieldKey β × ν)) : List (FieldKey β) :=
  if byScope.1 = .userState ∧ anonymous then [] else byScope.2.map Prod.fst

section

variable (orders : SaveOrders β ν) (save : FailingSave β ν)

/-- The fields of the scope that are stored before the save that raises: for a user state, those
of the blocks saved before it. -/
def keysBefore : List (FieldKey β) :=
  if save.scope = .userState then
    let blocks := (UserStateCache.pendingUpdates (FieldDataCache.stateValues save.data)).keys
    (save.data.map Prod.fst).filter fun key => decide (key.blockScopeId ∈ blocks.take save.count)
  else ((orders.items save.data).map Prod.fst).take save.count

def namesIn : List String :=
  if save.scope = .userState then []
  else fieldNames (((orders.items save.data).map Prod.fst).take (save.count + 1))

end

section

variable (anonymous : Bool) (orders : SaveOrders β ν) (save : FailingSave β ν)

def stored : List (FieldKey β) := save.before.flatMap (storedKeys anonymous) ++ save.keysBefore orders

/-- Some fields share their names with other ones that were stored before the save that raises.
If it saves a block of the user state, these are the fields of the blocks before, and the other
ones those of the scopes before; else these are the field that it saves, and any field of an
anonymous user state. -/
def SharesNames : Prop :=
  if save.scope = .userState then
    ∀ name ∈ fieldNames (save.keysBefore orders), name ∈ fieldNames (save.before.flatMap (storedKeys anonymous))
  else
    (∀ item ∈ (orders.items save.data)[save.count]?, item.1.fieldName ∈ fieldNames (save.stored anonymous orders)) ∧
    (anonymous = true → ∀ data, (Scope.userState, data) ∈ save.before →
      ∀ item ∈ data, item.1.fieldName ∈ fieldNames (save.stored anonymous orders))

end

end FailingSave

namespace UserStateClient

variable {φ : Type} [DecidableEq φ]

theorem saveBlocks_raises_iff (entries : List (Sigma fun _ : κ => FieldState φ ν))
    (failure : Option Nat) (rows : StudentModules κ φ ν) :
    (saveBlocks entries failure rows).2 = true ↔ ∃ count, failure = some count ∧ count < entries.length := by
  induction entries generalizing failure rows with
  | nil => simp [saveBlocks]
  | cons entry rest ih =>
    rcases failure with _ | _ | count
    · exact (ih none _).trans (by simp)
    · simp [saveBlocks]
    · exact (ih (some count) _).trans (by simp)

end UserStateClient

namespace FieldDataCache

open FailingSave

theorem blockScopeId_mem_pending {data : List (FieldKey β × ν)} {key : FieldKey β} (hkey : key ∈ data.map Prod.fst) :
    key.blockScopeId ∈ (pendingUpdates (stateValues data)).keys := by
  refine (mem_pendingUpdates _ _).mpr ⟨key.fieldName, Dict.mem_ofList.mpr ?_⟩
  rw [map_map]
  obtain ⟨item, hitem, rfl⟩ := mem_map.mp hkey
  exact mem_map.mpr ⟨item, hitem, rfl⟩

theorem setUserState_returns (caches : FieldDataCache β ν) (data : List (FieldKey β × ν))
    {failure : Option Nat} (hret : ∀ count, failure = some count →
      saveCount caches.userState.anonymous .userState data ≤ count) :
    let saved := caches.setUserState data failure
    saved.raised = none ∧ saved.stored = storedKeys caches.userState.anonymous (.userState, data) ∧
      saved.failure = failure.map (· - saveCount caches.userState.anonymous .userState data) ∧
      saved.caches.userState.anonymous = caches.userState.anonymous := by
  unfold setUserState UserStateCache.setMany UserStateClient.setMany
  cases hanon : caches.userState.anonymous with
  | true => simp [storedKeys, saveCount]
  | false =>
    have hcnt : ∀ count, failure = some count → (pendingUpdates (stateValues data)).keys.length ≤ count := by
      simpa [saveCount, hanon] using hret
    have hsaved : (saveBlocks (pendingUpdates (stateValues data)).entries failure
        caches.userState.rows).2 = false := by
      rw [← not_eq_true, saveBlocks_raises_iff]
      rintro ⟨count, hfail, hlt⟩
      refine absurd (hcnt count hfail) (Nat.not_le_of_lt ?_)
      rwa [AList.keys, List.keys, length_map]
    have hblks : savedBlocks false (stateValues data) failure = (pendingUpdates (stateValues data)).keys := by
      unfold savedBlocks
      cases failure with
      | none => rfl
      | some count => exact List.take_of_length_le (hcnt count rfl)
    simp only [false_eq_true, if_false, hsaved, hblks, saveCount, if_true, storedKeys, and_false, true_and, and_true]
    exact filter_eq_self.mpr fun key hkey => decide_eq_true (blockScopeId_mem_pending hkey)

theorem setUserState_raises (orders : SaveOrders β ν) (caches : FieldDataCache β ν)
    (data : List (FieldKey β × ν)) {count : Nat}
    (hcnt : count < saveCount caches.userState.anonymous .userState data) :
    let saved := caches.setUserState data (some count)
    saved.raised = some [] ∧ saved.stored =
      keysBefore orders { before := [], scope := .userState, data := data, count := count } := by
  unfold setUserState UserStateCache.setMany UserStateClient.setMany
  cases hanon : caches.userState.anonymous with
  | true => simp [saveCount, hanon] at hcnt
  | false =>
    have hlt : count < (pendingUpdates (stateValues data)).keys.length := by
      simpa [saveCount, hanon] using hcnt
    have hsaved : (saveBlocks (pendingUpdates (stateValues data)).entries (some count)
        caches.userState.rows).2 = true := by
      rw [saveBlocks_raises_iff]
      refine ⟨count, rfl, ?_⟩
      rwa [AList.keys, List.keys, length_map] at hlt
    simp only [false_eq_true, if_false, hsaved, keysBefore, if_true, true_and]
    rfl

section

variable (orders : SaveOrders β ν) (caches : FieldDataCache β ν) {scope : Scope} (hscope : scope ∈ cachedScopes)
include orders caches hscope

theorem setScope_rows (hne : scope ≠ .userState) (data : List (FieldKey β × ν)) (failure : Option Nat) :
    ∃ (κ : Type) (_ : DecidableEq κ) (rows : DjangoOrmFieldCache κ ν) (cacheKey : FieldKey β → κ),
      let saved := rows.setMany cacheKey (orders.items data) failure
      let outcome := caches.setScope orders scope data failure
      outcome.raised = saved.raised ∧ outcome.stored = saved.stored ∧
        outcome.failure = saved.failure ∧ outcome.caches.userState = caches.userState := by
  simp only [cachedScopes, mem_cons, not_mem_nil, or_false] at hscope
  rcases hscope with rfl | rfl | rfl | rfl
  · exact absurd rfl hne
  · exact ⟨_, inferInstance, caches.userInfo, _, rfl, rfl, rfl, rfl⟩
  · exact ⟨_, inferInstance, caches.preferences, _, rfl, rfl, rfl, rfl⟩
  · exact ⟨_, inferInstance, caches.userStateSummary, _, rfl, rfl, rfl, rfl⟩

variable (data : List (FieldKey β × ν))

theorem setScope_returns {failure : Option Nat}
    (hret : ∀ count, failure = some count → saveCount caches.userState.anonymous scope data ≤ count) :
    let saved := caches.setScope orders scope data failure
    saved.raised = none ∧ saved.stored.Perm (storedKeys caches.userState.anonymous (scope, data)) ∧
      saved.failure = failure.map (· - saveCount caches.userState.anonymous scope data) ∧
      saved.caches.userState.anonymous = caches.userState.anonymous := by
  by_cases hne : scope = .userState
  · subst hne
    obtain ⟨hrais, hsto, hleft⟩ := setUserState_returns caches data hret
    exact ⟨hrais, .of_eq hsto, hleft⟩
  · have hlen : (orders.items data).length = data.length := (orders.items_perm data).length_eq
    obtain ⟨κ, _, rows, cacheKey, hrais, hsto, hleft, hstt⟩ := setScope_rows orders caches hscope hne data failure
    simp only [saveCount, hne, if_false, storedKeys, false_and] at hret ⊢
    obtain ⟨hrow, hrowsS, hrowsL⟩ := DjangoOrmFieldCache.saveFields_returns cacheKey
      (orders.items data) { caches := rows, failure := failure, stored := [] }
      (by simpa only [hlen] using hret) []
    refine ⟨hrais.trans hrow, ?_, hleft.trans ?_, congrArg _ hstt⟩
    · rw [hsto.trans hrowsS]
      exact (orders.items_perm data).map Prod.fst
    · rw [← hlen]
      exact hrowsL

/-- If a save of a scope raises, the names are those of the fields saved so far and of the one
that it saves; a user state has no names. -/
theorem setScope_raises {count : Nat} (hcnt : count < saveCount caches.userState.anonymous scope data)
    (before : List (Scope × List (FieldKey β × ν))) :
    let saved := caches.setScope orders scope data (some count)
    let save : FailingSave β ν := { before := before, scope := scope, data := data, count := count }
    saved.raised = some (save.namesIn orders) ∧ saved.stored = save.keysBefore orders := by
  unfold namesIn keysBefore
  by_cases hne : scope = .userState
  · subst hne
    exact setUserState_raises orders caches data hcnt
  · obtain ⟨κ, _, rows, cacheKey, hrais, hsto, -, -⟩ := setScope_rows orders caches hscope hne data (some count)
    simp only [hne, if_false]
    have hlt : count < (orders.items data).length := by
      rw [(orders.items_perm data).length_eq]
      simpa only [saveCount, hne, if_false] using hcnt
    obtain ⟨hrow, hrowsS⟩ := DjangoOrmFieldCache.saveFields_raises cacheKey
      { caches := rows, failure := some count, stored := [] } rfl hlt []
    exact ⟨hrais.trans hrow, hsto.trans hrowsS⟩

end

/-- If enough saves return, no exception is raised; else the save that raises tells what is
stored and what is named. -/
theorem saveScopes_spec (orders : SaveOrders β ν) {byScope : List (Scope × List (FieldKey β × ν))}
    (hscopes : ∀ scope ∈ byScope, scope.1 ∈ cachedScopes)
    (outcome : SaveOutcome (FieldDataCache β ν) β) (hrais : outcome.raised = none)
    (names : List String) :
    let saved := saveScopes orders byScope outcome names
    match outcome.failure.bind (find outcome.caches.userState.anonymous byScope) with
    | none => saved.raised = none
    | some save =>
      saved.raised = some (names ++ (fieldNames (save.before.flatMap fun scope => scope.2.map Prod.fst) ++
          save.namesIn orders)) ∧
      saved.stored.Perm (outcome.stored ++ save.stored outcome.caches.userState.anonymous orders) := by
  induction byScope generalizing outcome names with
  | nil => cases hfail : outcome.failure <;> simp [find, saveScopes, hrais]
  | cons first byScope ih =>
    obtain ⟨scope, data⟩ := first
    obtain ⟨hscope, hrest⟩ := forall_mem_cons.mp hscopes
    by_cases hraises : ∃ count, outcome.failure = some count ∧
        count < saveCount outcome.caches.userState.anonymous scope data
    · obtain ⟨count, hfail, hcnt⟩ := hraises
      obtain ⟨hnamed, hsto⟩ := setScope_raises orders outcome.caches hscope data hcnt []
      unfold saveScopes
      simp only [hfail, bind_some, find, hcnt, if_true, hnamed, hsto]
      exact ⟨rfl, .refl _⟩
    · have hret : ∀ count, outcome.failure = some count →
          saveCount outcome.caches.userState.anonymous scope data ≤ count := fun count hcnt =>
        Nat.le_of_not_lt fun hlt => hraises ⟨count, hcnt, hlt⟩
      obtain ⟨hnone, hsto, hleft, hanon⟩ := setScope_returns orders outcome.caches hscope data hret
      have hfind : outcome.failure.bind (find outcome.caches.userState.anonymous ((scope, data) :: byScope)) =
            ((outcome.failure.map (· - saveCount outcome.caches.userState.anonymous
              scope data)).bind (find outcome.caches.userState.anonymous byScope)).map
                fun save => { save with before := (scope, data) :: save.before } := by
        cases hfail : outcome.failure with
        | none => rfl
        | some count =>
          simp only [bind_some, map_some, find]
          rw [if_neg (Nat.not_lt_of_le (hret count hfail))]
      have haft := ih hrest { outcome.caches.setScope orders scope data outcome.failure with
          stored := outcome.stored ++ (outcome.caches.setScope orders scope data outcome.failure).stored }
        hnone (names ++ data.map fun item => item.1.fieldName)
      simp only [hleft, hanon, hnone] at haft
      unfold saveScopes
      simp only [hnone, hleft, hfind]
      cases hsave : (outcome.failure.map (· - saveCount outcome.caches.userState.anonymous
          scope data)).bind (find outcome.caches.userState.anonymous byScope) with
      | none =>
        rw [hsave] at haft
        exact haft
      | some save =>
        rw [hsave] at haft
        refine ⟨haft.1.trans ?_, haft.2.trans ?_⟩
        · simp [fieldNames, namesIn]
        · simp only [FailingSave.stored, flatMap_cons, append_assoc]
          exact (hsto.append_right _).append_left _

end FieldDataCache

namespace FailingSave

theorem registered_of_find {anonymous : Bool} {byScope : List (Scope × List (FieldKey β × ν))}
    {count : Nat} {save : FailingSave β ν} (hfind : find anonymous byScope count = some save)
    (hscope : save.scope = .userState) : anonymous = false := by
  induction byScope generalizing count save with
  | nil => cases hfind
  | cons first byScope ih =>
    unfold find at hfind
    split at hfind
    · next hlt =>
        obtain rfl := some.inj hfind
        cases anonymous with
        | false => rfl
        | true => simp [saveCount, show first.1 = .userState from hscope] at hlt
    · obtain ⟨rest, hrest, rfl⟩ := map_eq_some_iff.mp hfind
      exact ih hrest hscope

theorem sharesNames_iff {anonymous : Bool} (orders : SaveOrders β ν) {save : FailingSave β ν}
    (hregd : save.scope = .userState → anonymous = false) :
    (∀ name, name ∈ fieldNames (save.before.flatMap fun scope => scope.2.map Prod.fst) ++
        save.namesIn orders ↔ name ∈ fieldNames (save.stored anonymous orders)) ↔
      save.SharesNames anonymous orders := by
  unfold SharesNames
  split
  · next hscope =>
      have hall : save.before.flatMap (storedKeys anonymous) =
          save.before.flatMap fun scope => scope.2.map Prod.fst := by
        refine List.flatMap_congr fun scope _ => ?_
        simp [storedKeys, hregd hscope]
      simp only [stored, namesIn, hscope, if_true, append_nil, hall, fieldNames_append, mem_append]
      exact forall_congr' fun name => ⟨fun hiff hname => hiff.mpr (.inr hname),
        fun hshr => ⟨.inl, fun hname => hname.elim id hshr⟩⟩
  · next hscope =>
      simp only [namesIn, hscope, if_false]
      constructor
      · refine fun hiff => ⟨fun item hitem => (hiff _).mp (mem_append_right _ ?_),
          fun _ data hdata item hitem => (hiff _).mp (mem_append_left _ ?_)⟩
        · rw [List.take_add_one, getElem?_map, mem_def.mp hitem]
          exact mem_map.mpr ⟨item.1, mem_append_right _ (mem_singleton.mpr rfl), rfl⟩
        · refine mem_map.mpr ⟨item.1, mem_flatMap.mpr ⟨_, hdata, ?_⟩, rfl⟩
          exact mem_map.mpr ⟨item, hitem, rfl⟩
      · rintro ⟨hfaili, hstt⟩ name
        constructor
        · intro hname
          rcases mem_append.mp hname with hbef | hhere
          · obtain ⟨key, hkey, rfl⟩ := mem_map.mp hbef
            obtain ⟨⟨scope, data⟩, hdata, hkeys⟩ := mem_flatMap.mp hkey
            by_cases hlost : scope = .userState ∧ anonymous = true
            · obtain ⟨rfl, hanon⟩ := hlost
              obtain ⟨item, hitem, rfl⟩ := mem_map.mp hkeys
              exact hstt hanon data hdata item hitem
            · refine mem_map.mpr ⟨key, mem_append_left _ ?_, rfl⟩
              refine mem_flatMap.mpr ⟨_, hdata, ?_⟩
              rwa [storedKeys, if_neg hlost]
          · obtain ⟨key, hkey, rfl⟩ := mem_map.mp hhere
            rw [List.take_add_one, getElem?_map] at hkey
            rcases mem_append.mp hkey with hkey | hkey
            · refine mem_map.mpr ⟨key, mem_append_right _ ?_, rfl⟩
              rwa [keysBefore, if_neg hscope]
            · obtain ⟨item, hitem, rfl⟩ := map_eq_some_iff.mp (Option.mem_toList.mp hkey)
              exact hfaili item hitem
        · intro hname
          obtain ⟨key, hkey, rfl⟩ := mem_map.mp hname
          rcases mem_append.mp hkey with hbef | hhere
          · obtain ⟨scope, hscop, hkeys⟩ := mem_flatMap.mp hbef
            refine mem_append_left _ (mem_map.mpr ⟨key, ?_, rfl⟩)
            refine mem_flatMap.mpr ⟨scope, hscop, ?_⟩
            unfold storedKeys at hkeys
            split at hkeys
            · exact absurd hkeys (not_mem_nil)
            · exact hkeys
          · rw [keysBefore, if_neg hscope] at hhere
            refine mem_append_right _ (mem_map.mpr ⟨key, ?_, rfl⟩)
            exact (List.take_subset_take_left _ (le_succ _)) hhere

end FailingSave

namespace FieldDataCache

open FailingSave

omit [DecidableEq β] in
theorem mem_cachedScopes_of_mem_byScope {orders : SaveOrders β ν} {kvDict : Dict (FieldKey β) ν}
    {scope : Scope × List (FieldKey β × ν)} (hscope : scope ∈ byScope orders kvDict) :
    scope.1 ∈ cachedScopes := by
  obtain ⟨name, hname, rfl⟩ := mem_map.mp hscope
  exact mem_of_mem_filter ((orders.scopes_perm _).mem_iff.mp hname)

/-- Whatever the fields, the orders and the save that raises: an exception names the fields that
were stored exactly if the fields in question share their names with these. -/
theorem namesSaved_iff (orders : SaveOrders β ν) (caches : FieldDataCache β ν)
    (kvDict : Dict (FieldKey β) ν) (failure : Option Nat) :
    NamesSaved orders caches kvDict failure ↔ (caches.KeysMatch kvDict → ∀ count, failure = some count →
        ∀ save, find caches.userState.anonymous (byScope orders kvDict) count = some save →
          save.SharesNames caches.userState.anonymous orders) := by
  unfold NamesSaved setMany
  by_cases hkeys : caches.KeysMatch kvDict
  · have hspec := saveScopes_spec orders
      (fun scope (hscope : scope ∈ byScope orders kvDict) => mem_cachedScopes_of_mem_byScope hscope)
      { caches := caches, failure := failure, stored := [] } rfl []
    simp only [hkeys, if_true, forall_const]
    cases hsave : failure.bind (find caches.userState.anonymous (byScope orders kvDict)) with
    | none =>
      simp only [hsave] at hspec
      refine iff_of_true (fun names hraised => ?_) fun count hfailure save hfind => ?_
      · simp [hspec] at hraised
      · simp [hfailure, hfind] at hsave
    | some save =>
      simp only [hsave, nil_append] at hspec
      obtain ⟨hraised, hstored⟩ := hspec
      obtain ⟨count, rfl, hfind⟩ := bind_eq_some_iff.mp hsave
      have hmem : ∀ name, name ∈ fieldNames (saveScopes orders (byScope orders kvDict)
          { caches := caches, failure := some count, stored := [] } []).stored ↔
            name ∈ fieldNames (save.stored caches.userState.anonymous orders) := fun name =>
        (hstored.map FieldKey.fieldName).mem_iff
      simp only [hraised, hmem, Except.error.injEq, SetManyError.keyValueMultiSaveError.injEq,
        forall_eq', Option.some.injEq, hfind]
      exact sharesNames_iff orders (registered_of_find hfind)
  · simp [hkeys]

def givenOrders : SaveOrders String Nat where
  scopes := id
  items := id
  scopes_perm := List.Perm.refl
  items_perm := List.Perm.refl

def emptyCaches : FieldDataCache String Nat where
  userId := 7
  userState := { anonymous := false, rows := ∅ }
  userInfo := { rows := ∅ }
  preferences := { rows := ∅ }
  userStateSummary := { rows := ∅ }

def dirtyTimezone : Dict (FieldKey String) Nat :=
  Dict.ofList [({ scope := .userInfo, userId := some 7, blockScopeId := "", fieldName := "timezone" }, 1)]

/-- The only save raises, and its field is named. -/
theorem dirtyTimezone_not_namesSaved : ¬ NamesSaved givenOrders emptyCaches dirtyTimezone (some 0) := by
  intro hnamed
  have hraised : (emptyCaches.setMany givenOrders dirtyTimezone (some 0)).2 =
      .error (.keyValueMultiSaveError ["timezone"]) := by
    decide
  have hstored : (emptyCaches.setMany givenOrders dirtyTimezone (some 0)).1.stored = [] := by
    decide
  have hmem := (hnamed ["timezone"] hraised "timezone").mp (by decide)
  rw [hstored] at hmem
  cases hmem

end FieldDataCache

end EdxPlatform
