import EdxPlatform.Lib.Ancestors
import EdxPlatform.Lib.Python
import EdxPlatform.Lib.ShortNames

/-!
# Field overrides

Providers override the fields of blocks.  A field is read by asking whether there is a value, and then for the value
or for the default; an override on an ancestor counts as a default of the fields that are inherited.
-/

namespace EdxPlatform.FieldOverrides

variable {κ V : Type}

/-- The methods of `FieldData` that reading uses. -/
structure FieldData (κ V : Type) where
  has : κ → String → Bool
  get : κ → String → Except PyError V
  default : κ → String → Except PyError V

def FieldData.read (data : FieldData κ V) (block : κ) (name : String) : Except PyError V :=
  if data.has block name then data.get block name else data.default block name

/-- The `get` of a provider; no value stands for the default it is called with. -/
abbrev FieldOverrideProvider (κ V : Type) := κ → String → Option V

/-- `overrides_disabled`, of the thread's tuple. -/
def overridesDisabled (disabled : List Bool) : Bool := !disabled.isEmpty

structure OverrideFieldData (κ V : Type) where
  fallback : FieldData κ V
  providers : List (FieldOverrideProvider κ V)
  /-- The block tree, and the names of the fields of `InheritanceMixin`. -/
  tree : Ancestry κ
  inheritable : List String

namespace OverrideFieldData

variable (data : OverrideFieldData κ V) (disabled : List Bool)

section

variable (block : κ) (name : String)

def getOverride : Option V :=
  if !overridesDisabled disabled then data.providers.findSome? fun provider => provider block name
  else none

def get (block : κ) (name : String) : Except PyError V :=
  match data.getOverride disabled block name with
  | some value => .ok value
  | none => data.fallback.get block name

def has (block : κ) (name : String) : Bool :=
  if data.providers.isEmpty then data.fallback.has block name
  else
    let found := (data.getOverride disabled block name).isSome
    if !found && decide (name ∈ data.inheritable) &&
        (data.tree.lineage block).any fun ancestor => (data.getOverride disabled ancestor name).isSome then
      false
    else found || data.fallback.has block name

def default (block : κ) (name : String) : Except PyError V :=
  if !data.providers.isEmpty && !overridesDisabled disabled && decide (name ∈ data.inheritable) then
    match (data.tree.lineage block).findSome? fun ancestor => data.getOverride disabled ancestor name with
    | some value => .ok value
    | none => data.fallback.default block name
  else data.fallback.default block name

def fieldData : FieldData κ V := ⟨data.has disabled, data.get disabled, data.default disabled⟩

def Overridden (value : V) : Prop :=
  ∃ before provider after, data.providers = before ++ provider :: after ∧ provider block name = some value ∧
    ∀ earlier ∈ before, earlier block name = none

def OverriddenAbove (value : V) : Prop :=
  ∃ near ancestor far, data.tree.lineage block = near ++ ancestor :: far ∧ data.Overridden ancestor name value ∧
    ∀ nearer ∈ near, ∀ other, ¬ data.Overridden nearer name other

end

variable {data} {disabled} {block : κ} {name : String}

theorem getOverride_disabled (hdis : overridesDisabled disabled = true) :
    data.getOverride disabled block name = none := by
  unfold getOverride
  rw [hdis]
  rfl

theorem getOverride_eq_some (hena : overridesDisabled disabled = false) {value : V} :
    data.getOverride disabled block name = some value ↔ data.Overridden block name value := by
  unfold getOverride
  rw [hena]
  exact List.findSome?_eq_some_iff

theorem getOverride_eq_none (hena : overridesDisabled disabled = false) :
    data.getOverride disabled block name = none ↔ ∀ value, ¬ data.Overridden block name value := by
  rw [eq_none_iff_forall_ne_some]
  exact forall_congr' fun value => not_congr (getOverride_eq_some hena)

variable (data disabled block name) in
def nearestOverride : Option V :=
  (data.tree.lineage block).findSome? fun ancestor => data.getOverride disabled ancestor name

theorem nearestOverride_eq_some (hena : overridesDisabled disabled = false) {value : V} :
    data.nearestOverride disabled block name = some value ↔ data.OverriddenAbove block name value := by
  unfold nearestOverride OverriddenAbove
  rw [List.findSome?_eq_some_iff]
  simp only [getOverride_eq_some hena, getOverride_eq_none hena]

theorem nearestOverride_eq_none (hena : overridesDisabled disabled = false) :
    data.nearestOverride disabled block name = none ↔ ∀ value, ¬ data.OverriddenAbove block name value := by
  rw [eq_none_iff_forall_ne_some]
  exact forall_congr' fun value => not_congr (nearestOverride_eq_some hena)

theorem nearestOverride_of_none (hnone : ∀ ancestor, data.getOverride disabled ancestor name = none) :
    data.nearestOverride disabled block name = none :=
  List.findSome?_eq_none_iff.mpr fun ancestor _ => hnone ancestor

theorem getOverride_of_isEmpty (hemp : data.providers.isEmpty = true) (block : κ) :
    data.getOverride disabled block name = none := by
  unfold getOverride
  rw [isEmpty_iff.mp hemp]
  split
  · rfl
  · rfl

theorem has_of_override {value : V} (hfnd : data.getOverride disabled block name = some value) :
    data.has disabled block name = true := by
  unfold has
  split
  · next hemp =>
      rw [getOverride_of_isEmpty hemp] at hfnd
      cases hfnd
  · rw [hfnd]
    rfl

theorem has_of_no_override (hnone : data.getOverride disabled block name = none) : data.has disabled block name =
      if name ∈ data.inheritable ∧ (data.nearestOverride disabled block name).isSome then false
      else data.fallback.has block name := by
  unfold has
  split
  · next hemp => rw [nearestOverride_of_none (getOverride_of_isEmpty hemp), if_neg fun hand => false_ne_true hand.2]
  · unfold nearestOverride
    rw [hnone, List.isSome_findSome?]
    simp

theorem default_eq : data.default disabled block name = if name ∈ data.inheritable then
      match data.nearestOverride disabled block name with
      | some value => .ok value
      | none => data.fallback.default block name
    else data.fallback.default block name := by
  unfold default
  by_cases hask : (!data.providers.isEmpty && !overridesDisabled disabled && decide (name ∈ data.inheritable)) = true
  · have hname : name ∈ data.inheritable := of_decide_eq_true (Bool.and_eq_true_iff.mp hask).2
    rw [if_pos hask, if_pos hname]
    rfl
  · rw [if_neg hask]
    by_cases hname : name ∈ data.inheritable
    · have hnone : ∀ ancestor, data.getOverride disabled ancestor name = none := by
        intro ancestor
        by_cases hemp : data.providers.isEmpty = true
        · exact getOverride_of_isEmpty hemp ancestor
        · refine getOverride_disabled ?_
          by_contra hena
          exact hask (by simp [hemp, hena, hname])
      rw [if_pos hname, nearestOverride_of_none hnone]
    · rw [if_neg hname]

theorem read_eq : (data.fieldData disabled).read block name = match data.getOverride disabled block name with
    | some value => .ok value
    | none =>
      if name ∈ data.inheritable then
        match data.nearestOverride disabled block name with
        | some value => .ok value
        | none => data.fallback.read block name
      else data.fallback.read block name := by
  cases hown : data.getOverride disabled block name with
  | some value =>
    have hget : data.get disabled block name = .ok value := by
      unfold get
      rw [hown]
    exact (if_pos (has_of_override hown)).trans hget
  | none =>
    have hget : data.get disabled block name = data.fallback.get block name := by
      unfold get
      rw [hown]
    have hread : (data.fieldData disabled).read block name =
        if data.has disabled block name then data.fallback.get block name else data.default disabled block name :=
      congrArg (fun value => if data.has disabled block name then value else data.default disabled block name) hget
    have hhas := has_of_no_override hown
    by_cases hname : name ∈ data.inheritable
    · cases hnear : data.nearestOverride disabled block name with
      | some value =>
        rw [hnear, if_pos ⟨hname, rfl⟩] at hhas
        rw [hread, hhas, default_eq, hnear, if_pos hname, if_pos hname]
        rfl
      | none =>
        rw [hnear, if_neg fun hand => false_ne_true hand.2] at hhas
        rw [hread, hhas, default_eq, hnear, if_pos hname, if_pos hname]
        rfl
    · rw [if_neg fun hand => hname hand.1] at hhas
      rw [hread, hhas, default_eq, if_neg hname, if_neg hname]
      rfl

/-- A field that is read has the override of the block itself, or else of the nearest ancestor that has one if it
is inherited, or else what it has in the wrapped data; with overrides disabled it always has that. -/
theorem read_spec (data : OverrideFieldData κ V) (disabled : List Bool) (block : κ) (name : String) :
    (overridesDisabled disabled = true → (data.fieldData disabled).read block name = data.fallback.read block name) ∧
      (overridesDisabled disabled = false →
        (∀ value, data.Overridden block name value → (data.fieldData disabled).read block name = .ok value) ∧
          ((∀ value, ¬ data.Overridden block name value) →
            (name ∈ data.inheritable → ∀ value, data.OverriddenAbove block name value →
              (data.fieldData disabled).read block name = .ok value) ∧
            ((name ∈ data.inheritable → ∀ value, ¬ data.OverriddenAbove block name value) →
              (data.fieldData disabled).read block name = data.fallback.read block name))) := by
  refine ⟨fun hdisabled => ?_, fun henabled => ⟨fun value hvalue => ?_, fun hnone =>
    ⟨fun hname value hvalue => ?_, fun habove => ?_⟩⟩⟩
  · rw [read_eq, getOverride_disabled hdisabled, nearestOverride_of_none fun ancestor => getOverride_disabled hdisabled]
    exact ite_self _
  · rw [read_eq, (getOverride_eq_some henabled).mpr hvalue]
  · rw [read_eq, (getOverride_eq_none henabled).mpr hnone, (nearestOverride_eq_some henabled).mpr hvalue]
    exact if_pos hname
  · rw [read_eq, (getOverride_eq_none henabled).mpr hnone]
    by_cases hname : name ∈ data.inheritable
    · rw [(nearestOverride_eq_none henabled).mpr (habove hname)]
      exact ite_self _
    · exact if_neg hname

end OverrideFieldData

/-! ## Disabling -/

/-- What a thread does, as far as overrides go. -/
inductive Activity where
  /-- Ask whether overrides are disabled. -/
  | check
  /-- Raise an exception. -/
  | fail
  /-- `with disable_overrides():` -/
  | disabling (body : List Activity)
  /-- `try:` with an `except` for everything. -/
  | guarded (body : List Activity)

/-- What can be seen of the state: how many contexts an activity is in that asks for it, and what it is before a
context is entered and after it is left. -/
inductive Observation where
  | check (depth : Nat) (disabled : Bool)
  | left (before after : Bool)
  deriving DecidableEq, Repr

/-- The tuple of the thread after some activities, whether an exception left them, and what was seen. -/
structure Outcome where
  disabled : List Bool
  raised : Bool
  seen : List Observation
  deriving DecidableEq, Repr

mutual

def Activity.run (depth : Nat) (disabled : List Bool) : Activity → Outcome
  | .check => ⟨disabled, false, [.check depth (overridesDisabled disabled)]⟩
  | .fail => ⟨disabled, true, []⟩
  | .disabling body =>
    let prev := disabled
    let outcome := runAll (depth + 1) (disabled ++ [true]) body
    -- An exception is raised where the context manager yields, and what comes after is not done.
    let disabled := if outcome.raised then outcome.disabled else prev
    ⟨disabled, outcome.raised, outcome.seen ++ [.left (overridesDisabled prev) (overridesDisabled disabled)]⟩
  | .guarded body => { runAll depth disabled body with raised := false }

def runAll (depth : Nat) (disabled : List Bool) : List Activity → Outcome
  | [] => ⟨disabled, false, []⟩
  | activity :: activities =>
    let first := activity.run depth disabled
    if first.raised then first
    else
      let rest := runAll depth first.disabled activities
      { rest with seen := first.seen ++ rest.seen }

end

/-- Overrides are disabled inside of contexts only, and a context leaves the state as it was. -/
def Observation.Kept : Observation → Prop
  | .check depth disabled => disabled = decide (0 < depth)
  | .left before after => after = before

mutual

def Activity.raises : Activity → Bool
  | .check => false
  | .fail => true
  | .disabling body => anyRaises body
  | .guarded _ => false

def anyRaises : List Activity → Bool
  | [] => false
  | activity :: activities => activity.raises || anyRaises activities

end

mutual

def Activity.Clean : Activity → Prop
  | .check => True
  | .fail => True
  | .disabling body => anyRaises body = false
  | .guarded body => AllClean body

def AllClean : List Activity → Prop
  | [] => True
  -- After an exception nothing is done.
  | activity :: activities => activity.Clean ∧ (activity.raises = true ∨ AllClean activities)

end

mutual

theorem Activity.run_raised (depth : Nat) (disabled : List Bool) :
    ∀ activity : Activity, (activity.run depth disabled).raised = activity.raises
  | .check => rfl
  | .fail => rfl
  | .disabling body => runAll_raised (depth + 1) (disabled ++ [true]) body
  | .guarded _ => rfl

theorem runAll_raised (depth : Nat) (disabled : List Bool) :
    ∀ activities : List Activity, (runAll depth disabled activities).raised = anyRaises activities
  | [] => rfl
  | activity :: activities => by
    have hfst := Activity.run_raised depth disabled activity
    rw [runAll, anyRaises]
    cases hraises : activity.raises with
    | true =>
      rw [hraises] at hfst
      dsimp only
      rw [if_pos hfst]
      exact hfst
    | false =>
      rw [hraises] at hfst
      dsimp only
      rw [if_neg (by rw [hfst]; decide)]
      exact runAll_raised depth (activity.run depth disabled).disabled activities

end

theorem overridesDisabled_eq_true {disabled : List Bool} : overridesDisabled disabled = true ↔ disabled ≠ [] := by
  unfold overridesDisabled
  rw [not_eq_true', List.isEmpty_eq_false_iff]

mutual

theorem Activity.run_inside (depth : Nat) {disabled : List Bool} (hdis : disabled ≠ []) :
    ∀ activity : Activity, (∀ observation ∈ (activity.run (depth + 1) disabled).seen, observation.Kept) ∧
      (activity.run (depth + 1) disabled).disabled ≠ []
  | .check => by
    refine ⟨fun observation hobs => ?_, hdis⟩
    rw [mem_singleton.mp hobs]
    exact (overridesDisabled_eq_true.mpr hdis).trans (decide_eq_true (Nat.succ_pos depth)).symm
  | .fail => ⟨fun observation hobs => absurd hobs not_mem_nil, hdis⟩
  | .disabling body => by
    obtain ⟨hseen, hstays⟩ := runAll_inside (depth + 1) (append_ne_nil_of_left_ne_nil hdis [true]) body
    have hleft : (if (runAll (depth + 1 + 1) (disabled ++ [true]) body).raised then
        (runAll (depth + 1 + 1) (disabled ++ [true]) body).disabled else disabled) ≠ [] := by
      split
      · exact hstays
      · exact hdis
    refine ⟨fun observation hobs => ?_, hleft⟩
    rcases mem_append.mp hobs with hinner | hlast
    · exact hseen observation hinner
    · rw [mem_singleton.mp hlast]
      exact (overridesDisabled_eq_true.mpr hleft).trans (overridesDisabled_eq_true.mpr hdis).symm
  | .guarded body => runAll_inside depth hdis body

theorem runAll_inside (depth : Nat) {disabled : List Bool} (hdis : disabled ≠ []) :
    ∀ activities : List Activity, (∀ observation ∈ (runAll (depth + 1) disabled activities).seen, observation.Kept) ∧
      (runAll (depth + 1) disabled activities).disabled ≠ []
  | [] => ⟨fun observation hobs => absurd hobs not_mem_nil, hdis⟩
  | activity :: activities => by
    obtain ⟨hfst, hstays⟩ := Activity.run_inside depth hdis activity
    obtain ⟨hrest, hends⟩ := runAll_inside depth hstays activities
    rw [runAll]
    dsimp only
    split
    · exact ⟨hfst, hstays⟩
    · exact ⟨forall_mem_append.mpr ⟨hfst, hrest⟩, hends⟩

end

mutual

/-- Outside of all contexts a context that is left by an exception is seen, and others leave no trace. -/
theorem Activity.run_outside : ∀ activity : Activity,
    ((∀ observation ∈ (activity.run 0 []).seen, observation.Kept) ↔ activity.Clean) ∧
      (activity.Clean → (activity.run 0 []).disabled = [])
  | .check => by
    refine ⟨iff_of_true (fun observation hobs => ?_) trivial, fun _ => rfl⟩
    rw [mem_singleton.mp hobs]
    rfl
  | .fail => ⟨iff_of_true (fun observation hobs => nomatch hobs) trivial, fun _ => rfl⟩
  | .disabling body => by
    obtain ⟨hseen, hstays⟩ := runAll_inside 0 (cons_ne_nil true []) body
    have hrais := runAll_raised 1 [true] body
    rw [Activity.run, Activity.Clean]
    dsimp only
    rw [Nat.zero_add, nil_append, forall_mem_append, hrais]
    cases anyRaises body with
    | false =>
      refine ⟨iff_of_true ⟨hseen, fun observation hobs => ?_⟩ rfl, fun _ => rfl⟩
      rw [mem_singleton.mp hobs]
      rfl
    | true =>
      refine ⟨iff_of_false (fun hkept => ?_) (by decide), fun hclean => nomatch hclean⟩
      have hleft := hkept.2 _ mem_cons_self
      exact absurd ((overridesDisabled_eq_true.mpr hstays).symm.trans hleft) (by decide)
  | .guarded body => runAll_outside body

theorem runAll_outside : ∀ activities : List Activity,
    ((∀ observation ∈ (runAll 0 [] activities).seen, observation.Kept) ↔ AllClean activities) ∧
      (AllClean activities → (runAll 0 [] activities).disabled = [])
  | [] => ⟨iff_of_true (fun observation hobs => nomatch hobs) trivial, fun _ => rfl⟩
  | activity :: activities => by
    obtain ⟨hfst, hends⟩ := Activity.run_outside activity
    obtain ⟨hrest, hlast⟩ := runAll_outside activities
    have hrais := Activity.run_raised 0 [] activity
    rw [runAll, AllClean]
    dsimp only
    rw [hrais]
    cases activity.raises with
    | true =>
      rw [if_pos rfl]
      exact ⟨hfst.trans (and_iff_left (.inl rfl)).symm, fun hclean => hends hclean.1⟩
    | false =>
      rw [if_neg false_ne_true]
      dsimp only
      rw [forall_mem_append, hfst]
      refine ⟨and_congr_right fun hclean => ?_, fun hclean => ?_⟩
      · rw [hends hclean, hrest]
        exact (or_iff_right false_ne_true).symm
      · rw [hends hclean.1]
        exact hlast (hclean.2.resolve_left false_ne_true)

end

/-- On a fresh thread overrides are disabled inside of contexts only, and each context leaves the state as it found
it, exactly if no exception leaves a context that is not in another one. -/
theorem observations_kept_iff (activities : List Activity) :
    (∀ observation ∈ (runAll 0 [] activities).seen, observation.Kept) ↔ AllClean activities :=
  (runAll_outside activities).1

/-- After a request that failed within a context, overrides are disabled for the next one. -/
theorem failed_request_disables :
    ¬ ∀ observation ∈ (runAll 0 [] [.guarded [.disabling [.fail]], .check]).seen, observation.Kept := by
  intro hkept
  have hlater : Observation.check 0 true ∈ (runAll 0 [] [.guarded [.disabling [.fail]], .check]).seen := by decide
  exact absurd (hkept _ hlater) (by unfold Observation.Kept; decide)

end EdxPlatform.FieldOverrides
