import EdxPlatform.Lib.Runs
import EdxPlatform.Split.CourseAssets

/-!
# Runs of calls on assets

Along a run of calls, each branch has the assets that were saved on it and not deleted since.  The
exception is an update that raises half way, after it changed the stored document.
-/

namespace EdxPlatform.Split

open AssetCall

namespace AssetCall

def locator (branch : Option Branch) : AssetCall → Option CourseLocator
  | .save assets .. => assets.head?.map fun asset => (asset.assetId.onBranch branch).courseKey
  | .setAttrs assetKey _ => some (assetKey.onBranch branch).courseKey
  | .delete assetKey => some (assetKey.onBranch branch).courseKey

def OnCourse (course : CourseKey) (call : AssetCall) : Prop :=
  ∀ locator, call.locator none = some locator → locator.course = course

/-- What becomes of the assets of the branch; nothing if the call is to raise. -/
def effect (branch : Option Branch) (locator : CourseLocator) (table : AssetTable) : AssetCall → Option AssetTable
  | .save assets userId importOnly clock => some (table.save locator userId importOnly (savedOn branch assets clock))
  | .setAttrs assetKey attrDict => table.setAttrs assetKey attrDict.entries
  | .delete assetKey => table.delete assetKey

section

variable (branch : Option Branch) (call : AssetCall) (store : Store) (expected : Branch → AssetTable)

/-- What becomes of the assets of all branches.  A call also raises if its branch is not there. -/
def expect : Option (Branch → AssetTable) :=
  (call.locator branch).bind fun locator =>
    if store.accepts locator then
      (call.effect branch locator (expected locator.branch)).map (Function.update expected locator.branch)
    else none

def TornOn (table : AssetTable) : AssetCall → Prop
  | .setAttrs assetKey attrDict => table.TornBy assetKey attrDict.entries
  | .save .. => False
  | .delete _ => False

def Torn :
    Prop :=
  ∃ locator, call.locator branch = some locator ∧ store.accepts locator = true ∧ call.TornOn (expected locator.branch)

end

theorem OnCourse.locator {course : CourseKey} {call : AssetCall} (hcall : call.OnCourse course)
    {branch : Option Branch} {locator : CourseLocator} (hlctr : call.locator branch = some locator) :
    locator.course = course := by
  cases branch with
  | none => exact hcall locator hlctr
  | some branch =>
    cases call with
    | save assets userId importOnly clock =>
      obtain ⟨asset, hasset, rfl⟩ := map_eq_some_iff.mp hlctr
      exact hcall asset.assetId.courseKey (by rw [AssetCall.locator, hasset]; rfl)
    | setAttrs assetKey attrDict =>
      obtain rfl := some.inj hlctr
      exact hcall assetKey.courseKey rfl
    | delete assetKey =>
      obtain rfl := some.inj hlctr
      exact hcall assetKey.courseKey rfl

end AssetCall

/-! ## The assets of the branches -/

/-- The store has the assets that the branches are to have. -/
structure Tracks (course : CourseKey) (store : Store) (expected : Branch → AssetTable) : Prop where
  ready : store.Ready course
  holds : ∀ branch envelope, store.envelope { course := course, branch := branch } = some envelope →
    CourseAssets.Holds envelope.2.assets (expected branch)

def SameBranches (course : CourseKey) (store next : Store) : Prop :=
  ∀ branch, (next.envelope { course := course, branch := branch }).isSome =
    (store.envelope { course := course, branch := branch }).isSome

def Spoilt (course : CourseKey) (store : Store) (expected wrong : Branch → AssetTable) : Prop :=
  ∃ branch assetType path asset fields, (store.envelope { course := course, branch := branch }).isSome ∧
    expected branch assetType path = some asset ∧ fields ≠ asset.fields ∧
    wrong branch assetType path = some { asset with fields := fields }

variable {lists : SortedLists AssetDocument String} {course : CourseKey} {store next : Store}
  {expected : Branch → AssetTable}

section

variable (htrk : Tracks course store expected)
include htrk

theorem Tracks.nextBulk (now : Timestamp) : Tracks course (store.nextBulk course now) expected where
  ready := htrk.ready.nextBulk now
  holds := by
    intro branch envelope henv
    rw [htrk.ready.envelope_nextBulk now] at henv
    exact htrk.holds branch envelope henv

theorem Tracks.pauseBulk (pause : Option Timestamp) : Tracks course (pauseBulk course pause store) expected ∧
      SameBranches course store (pauseBulk course pause store) := by
  cases pause with
  | none => exact ⟨htrk, fun _ => rfl⟩
  | some now =>
    refine ⟨htrk.nextBulk now, fun branch => ?_⟩
    change ((store.nextBulk course now).envelope _).isSome = _
    rw [htrk.ready.envelope_nextBulk now]

theorem Tracks.edited (hrdy : next.Ready course) {branch : Branch} {id : ObjectId} {edited : Structure}
    (hnxt : ∀ other, next.envelope { course := course, branch := other } =
      if other = branch then some (id, edited) else store.envelope { course := course, branch := other })
    {table : AssetTable} (hhold : CourseAssets.Holds edited.assets table) :
    Tracks course next (Function.update expected branch table) where
  ready := hrdy
  holds := by
    intro other envelope henv
    rw [hnxt] at henv
    split at henv
    · next heq =>
        obtain rfl := some.inj henv
        rw [heq, update_self]
        exact hhold
    · next hne =>
        rw [update_of_ne hne]
        exact htrk.holds other envelope henv

end

theorem sameBranches_edited {branch : Branch} {id : ObjectId} {edited : Structure}
    (hbr : (store.envelope { course := course, branch := branch }).isSome)
    (hnxt : ∀ other, next.envelope { course := course, branch := other } =
      if other = branch then some (id, edited) else store.envelope { course := course, branch := other }) :
    SameBranches course store next := by
  intro other
  rw [hnxt]
  split
  · next heq => rw [heq, hbr, isSome_some]
  · rfl

theorem Tracks.edit (htrk : Tracks course store expected) {locator : CourseLocator}
    (hcrs : locator.course = course) (hacc : store.accepts locator = true)
    (edit : EStateM StoreError Structure Unit) :
    ∃ copy : Structure, CourseAssets.Holds copy.assets (expected locator.branch) ∧ match edit copy with
      | .ok _ edited => ∃ next, editAssets locator edit store = .ok () next ∧
          SameBranches course store next ∧ ∀ table, CourseAssets.Holds edited.assets table →
            Tracks course next (Function.update expected locator.branch table)
      | .error _ edited => ∃ error next, editAssets locator edit store = .error error next ∧
          SameBranches course store next ∧ ∀ table, CourseAssets.Holds edited.assets table →
            Tracks course next (Function.update expected locator.branch table) := by
  obtain ⟨envelope, henv, hver⟩ := Store.accepts_iff.mp hacc
  subst hcrs
  have hbr : store.envelope { course := locator.course, branch := locator.branch } = some envelope := henv
  have hsome : (store.envelope { course := locator.course, branch := locator.branch }).isSome := by
    rw [hbr]
    rfl
  obtain ⟨copy, hcopy, hedit⟩ := editAssets_accepted htrk.ready ⟨htrk.ready.course.symm, henv, hver⟩ edit
  refine ⟨copy, hcopy ▸ htrk.holds locator.branch envelope hbr, ?_⟩
  cases hres : edit copy with
  | ok result edited =>
    rw [hres] at hedit
    obtain ⟨next, id, hrun, hrdy, hnxt⟩ := hedit
    exact ⟨next, hrun, sameBranches_edited hsome hnxt, fun table hhold => htrk.edited hrdy hnxt hhold⟩
  | error error edited =>
    rw [hres] at hedit
    obtain ⟨raised, next, id, hrun, hrdy, hnxt⟩ := hedit
    exact ⟨raised, next, hrun, sameBranches_edited hsome hnxt, fun table hhold => htrk.edited hrdy hnxt hhold⟩

section

variable (lists : SortedLists AssetDocument String) (course : CourseKey) (branch : Option Branch)
  (call : AssetCall) (store : Store)

def Returned (later : Branch → AssetTable) : Prop :=
  ∃ next, call.runOn lists branch store = .ok () next ∧ SameBranches course store next ∧ Tracks course next later

def Raised (expected : Branch → AssetTable) : Prop :=
  ∃ error next, call.runOn lists branch store = .error error next ∧
    (¬ call.Torn branch store expected → Tracks course next expected) ∧
    (call.Torn branch store expected → ∃ wrong, Tracks course next wrong ∧ Spoilt course next expected wrong)

end

theorem updateAssets_onBranch (branch : Option Branch) (assetKey : AssetKey) (updateFunction : UpdateFunction) :
    updateAssets lists (assetKey.onBranch branch) updateFunction = updateAssets lists assetKey updateFunction := by
  cases branch <;> rfl

def EditsAssets (branch : Option Branch) (locator : CourseLocator) (call : AssetCall)
    (edit : EStateM StoreError Structure Unit) : Prop :=
  ∀ (copy : Structure) (table : AssetTable), CourseAssets.Holds copy.assets table →
    match call.effect branch locator table with
    | some later => ∃ edited, edit copy = .ok () edited ∧ CourseAssets.Holds edited.assets later
    | none => ∃ error edited, edit copy = .error error edited ∧
        (¬ call.TornOn table → CourseAssets.Holds edited.assets table) ∧
        (call.TornOn table → ∃ assetType path asset fields, table assetType path = some asset ∧ fields ≠ asset.fields ∧
          CourseAssets.Holds edited.assets (table.set assetType path (some { asset with fields := fields })))

variable {branch : Option Branch} (hlists : lists.Documented)

theorem Tracks.call (htrk : Tracks course store expected) {call : AssetCall}
    {locator : CourseLocator} (hlctr : call.locator branch = some locator)
    (hcall : call.OnCourse course) {edit : EStateM StoreError Structure Unit}
    (hrun : call.runOn lists branch = editAssets locator edit) (hedits : EditsAssets branch locator call edit) :
    match call.expect branch store expected with
    | some later => Returned lists course branch call store later
    | none => Raised lists course branch call store expected := by
  have hcrs := hcall.locator hlctr
  unfold expect Returned Raised
  rw [hlctr, bind_some, hrun]
  cases hacc : store.accepts locator with
  | false =>
    obtain ⟨error, hrais⟩ := editAssets_refused (hcrs.trans htrk.ready.course.symm) hacc edit
    refine ⟨error, store, hrais, fun _ => htrk, ?_⟩
    rintro ⟨other, hoth, hfnd, -⟩
    obtain rfl := some_unique hlctr hoth
    rw [hacc] at hfnd
    cases hfnd
  | true =>
    obtain ⟨copy, hcopy, hedit⟩ := htrk.edit hcrs hacc edit
    have heff := hedits copy _ hcopy
    rw [if_pos rfl]
    cases htable : call.effect branch locator (expected locator.branch) with
    | some later =>
      rw [htable] at heff
      obtain ⟨edited, hres, hhold⟩ := heff
      rw [hres] at hedit
      obtain ⟨next, hret, hsame, hnxt⟩ := hedit
      exact ⟨next, hret, hsame, hnxt later hhold⟩
    | none =>
      rw [htable] at heff
      obtain ⟨error, edited, hres, hwhole, htorn⟩ := heff
      rw [hres] at hedit
      obtain ⟨raised, next, hrais, hsame, hnxt⟩ := hedit
      have hiff : call.Torn branch store expected ↔ call.TornOn (expected locator.branch) := by
        constructor
        · rintro ⟨other, hoth, -, htorn⟩
          obtain rfl := some_unique hlctr hoth
          exact htorn
        · exact fun htorn => ⟨locator, hlctr, hacc, htorn⟩
      refine ⟨raised, next, hrais, fun hnot => ?_, fun hcall => ?_⟩
      · have hkept := hnxt _ (hwhole fun htorn => hnot (hiff.mpr htorn))
        rw [Function.update_eq_self] at hkept
        exact hkept
      · obtain ⟨assetType, path, asset, fields, hasset, hne, hhold⟩ := htorn (hiff.mp hcall)
        refine ⟨_, hnxt _ hhold, locator.branch, assetType, path, asset, fields, ?_, hasset, hne, ?_⟩
        · rw [hsame]
          obtain ⟨envelope, henv, -⟩ := Store.accepts_iff.mp hacc
          subst hcrs
          change (store.envelope locator).isSome
          rw [henv]
          rfl
        · rw [update_self]
          exact if_pos ⟨rfl, rfl⟩

section Parts

include hlists

section

variable (branch : Option Branch) (locator : CourseLocator)

theorem edits_save (assets : List AssetMetadata)
    (userId : AssetValue) (importOnly : Bool) (clock : Option Branch → Nat → AssetValue) :
    EditsAssets branch locator (.save assets userId importOnly clock)
      (saveAssets lists locator userId importOnly (savedOn branch assets clock)) :=
  fun _ _ hhold => saveAssets_spec hlists hhold locator userId importOnly (savedOn branch assets clock)

variable (assetKey : AssetKey)

theorem edits_delete :
    EditsAssets branch locator (.delete assetKey) (updateAssets lists assetKey (popAsset lists)) := by
  intro copy table hhold
  have hpop := popAsset_spec hlists hhold assetKey
  change match table.delete assetKey with | some later => _ | none => _
  cases hdel : table.delete assetKey with
  | some later =>
    rw [hdel] at hpop
    exact hpop
  | none =>
    rw [hdel] at hpop
    obtain ⟨edited, hrais, hkept⟩ := hpop
    exact ⟨_, edited, hrais, fun _ => hkept, fun htorn => htorn.elim⟩

theorem edits_setAttrs (attrDict : Dict String AssetValue) : EditsAssets branch locator (.setAttrs assetKey attrDict)
      (updateAssets lists assetKey (setAttributes lists assetKey attrDict)) := by
  intro copy table hhold
  have hset := setAttributes_spec hlists hhold assetKey attrDict
  change match table.setAttrs assetKey attrDict.entries with | some later => _ | none => _
  cases heff : table.setAttrs assetKey attrDict.entries with
  | some later =>
    rw [heff] at hset
    exact hset.1
  | none =>
    rw [heff] at hset
    obtain ⟨error, edited, hrais, hwhole, htorn⟩ := hset
    refine ⟨error, edited, hrais, hwhole, fun hcall => ?_⟩
    obtain ⟨asset, fields, hasset, hne, hspoilt⟩ := htorn hcall
    exact ⟨_, _, asset, fields, hasset, hne, hspoilt⟩

end

theorem Tracks.runOn (htrk : Tracks course store expected) (branch : Option Branch) {call : AssetCall}
    (hcall : call.OnCourse course) :
    match call.expect branch store expected with
    | some later => Returned lists course branch call store later
    | none => Raised lists course branch call store expected := by
  cases call with
  | save assets userId importOnly clock =>
    cases assets with
    | nil =>
      refine ⟨.indexError, store, rfl, fun _ => htrk, ?_⟩
      rintro ⟨locator, hlctr, -⟩
      cases hlctr
    | cons asset assets => exact htrk.call rfl hcall rfl (edits_save hlists branch _ _ userId importOnly clock)
  | setAttrs assetKey attrDict =>
    refine htrk.call rfl hcall ?_ (edits_setAttrs hlists branch _ assetKey attrDict)
    rw [← updateAssets_onBranch branch]
    rfl
  | delete assetKey =>
    refine htrk.call rfl hcall ?_ (edits_delete hlists branch _ assetKey)
    rw [← updateAssets_onBranch branch]
    rfl

theorem Tracks.findAssetMetadata (htrk : Tracks course store expected) {branch : Branch}
    {envelope : ObjectId × Structure}
    (henv : store.envelope { course := course, branch := branch } = some envelope)
    {assetKey : AssetKey} (hkey : assetKey.courseKey = { course := course, branch := branch }) :
    ∃ next, findAssetMetadata lists assetKey store =
      .ok ((expected branch assetKey.assetType assetKey.path).map fun asset =>
        { asset with assetId := assetKey }) next := by
  have hhold := htrk.holds branch envelope henv
  obtain ⟨next, hlook, -, -⟩ := lookupCourse_run ⟨htrk.ready.course.symm, henv, fun _ hver => nomatch hver⟩
  refine ⟨next, ?_⟩
  unfold Split.findAssetMetadata
  rw [run_bind, hkey]
  simp only [findCourseAssets, hlook, SortedAssetList.ofStored_eq hlists hhold]
  rcases find_cases hlists hhold assetKey with ⟨hfind, hnone⟩ | ⟨before, asset, after, hspl, -, hasset, hfind⟩
  · simp only [hfind, hnone]
    rfl
  · have hget : (before ++ asset.toStorable :: after)[before.length]? = some asset.toStorable := by
      simp
    simp only [hfind, hasset]
    simp only [hspl, hget]
    rfl

end Parts

/-! ## Runs -/

/-- The store, and the assets that the branches are to have. -/
structure AssetRun where
  store : Store
  expected : Branch → AssetTable

inductive AssetEvent where
  /-- A call of `SplitMongoModuleStore`. -/
  | split (call : AssetCall)
  /-- A call of `DraftVersioningModuleStore`. -/
  | draft (call : AssetCall) (pause : Option Timestamp)
  /-- The end of the bulk operation on the course, and the begin of the next one. -/
  | nextBulk (now : Timestamp)

namespace AssetEvent

def OnCourse (course : CourseKey) : AssetEvent → Prop
  | .split call => call.OnCourse course
  | .draft call _ => call.OnCourse course
  | .nextBulk _ => True

def Torn (state : AssetRun) : AssetEvent → Prop
  | .split call => call.Torn none state.store state.expected
  | .draft call _ => call.Torn (some "published-branch") state.store state.expected
  | .nextBulk _ => False

/-- What becomes of the assets that the branches are to have.  If a call is to raise on the
published branch then it does nothing to the draft branch. -/
def expect (state : AssetRun) : AssetEvent → Branch → AssetTable
  | .split call => (call.expect none state.store state.expected).getD state.expected
  | .draft call _ =>
    match call.expect (some "published-branch") state.store state.expected with
    | none => state.expected
    | some later => (call.expect (some "draft-branch") state.store later).getD later
  | .nextBulk _ => state.expected

def run (lists : SortedLists AssetDocument String) (course : CourseKey) (store : Store) : AssetEvent → Store
  | .split call => after (call.reply (call.runOn lists none)) store
  | .draft call pause => after (call.reply (call.runDraft lists course pause)) store
  | .nextBulk now => store.nextBulk course now

end AssetEvent

abbrev CourseAssetEvent (course : CourseKey) := { event : AssetEvent // event.OnCourse course }

section

variable (lists : SortedLists AssetDocument String) (course : CourseKey) (state : AssetRun)

def AssetRun.step (event : CourseAssetEvent course) : AssetRun where
  store := event.1.run lists course state.store
  expected := event.1.expect state

/-- On each branch the lists of the assets are sorted without repetition, and exactly the assets
that the branch is to have are found, with their values. -/
def Answers : Prop :=
  ∀ branch envelope, state.store.envelope { course := course, branch := branch } = some envelope →
    (∀ assetType allAssets, envelope.2.assets.lookup assetType = some allAssets →
      StrictlySortedBy AssetDocument.filename allAssets) ∧
    ∀ assetType path, let assetKey : AssetKey :=
        { courseKey := { course := course, branch := branch }, assetType := assetType, path := path }
      ∃ next, findAssetMetadata lists assetKey state.store =
        .ok ((state.expected branch assetType path).map fun asset => { asset with assetId := assetKey }) next

end

theorem after_reply (call : AssetCall) (program : StoreM Unit) (store : Store) :
    after (call.reply program) store = after program store := by
  unfold after reply
  cases program store with
  | ok result next => cases call <;> rfl
  | error error next => cases call <;> cases error <;> rfl

theorem accepts_head (course : CourseKey) (branch : Branch) (store : Store) :
    store.accepts { course := course, branch := branch } =
      (store.envelope { course := course, branch := branch }).isSome := by
  unfold Store.accepts
  cases store.envelope { course := course, branch := branch } <;> rfl

theorem AssetCall.whole_of_effect {locator : CourseLocator} {call : AssetCall}
    {table later : AssetTable} (heff : call.effect branch locator table = some later)
    (other : AssetTable) : ¬ call.TornOn other := by
  cases call with
  | save assets userId importOnly clock => exact id
  | delete assetKey => exact id
  | setAttrs assetKey attrDict =>
    rintro ⟨found, -, htorn⟩
    obtain ⟨asset, -, hupd⟩ := bind_eq_some_iff.mp heff
    obtain ⟨updated, hupd, -⟩ := map_eq_some_iff.mp hupd
    unfold AssetMetadata.updated at hupd
    split at hupd
    · next hret => exact LoadedAsset.not_torn_of_returned attrDict.nodupKeys hret found.fields htorn
    · cases hupd

theorem AssetCall.whole_of_expect {call : AssetCall}
    {later : Branch → AssetTable} (hexp : call.expect branch store expected = some later)
    (other : Option Branch) (store' : Store) (expected' : Branch → AssetTable) :
    ¬ call.Torn other store' expected' := by
  rintro ⟨found, -, -, htorn⟩
  obtain ⟨locator, -, heff⟩ := bind_eq_some_iff.mp hexp
  split at heff
  · obtain ⟨table, htable, -⟩ := map_eq_some_iff.mp heff
    exact whole_of_effect htable _ htorn
  · cases heff

theorem AssetCall.expect_congr {call : AssetCall} (hcall : call.OnCourse course)
    (hsame : SameBranches course store next) (branch : Branch) :
    call.expect (some branch) next expected = call.expect (some branch) store expected := by
  unfold expect
  cases hlctr : call.locator (some branch) with
  | none => rfl
  | some locator =>
    have hcrs := hcall.locator hlctr
    have hhead : locator = { course := locator.course, branch := branch } := by
      cases call with
      | save assets userId importOnly clock =>
        obtain ⟨asset, -, rfl⟩ := map_eq_some_iff.mp hlctr
        rfl
      | setAttrs assetKey attrDict => exact (some.inj hlctr).symm ▸ rfl
      | delete assetKey => exact (some.inj hlctr).symm ▸ rfl
    rw [bind_some, bind_some, hhead, hcrs, accepts_head, accepts_head, hsame]

/-! ## One event -/

/-- The store has what the branches are to have, unless an update was torn. -/
def Follows (course : CourseKey) (torn : Prop) (store : Store) (expected : Branch → AssetTable) : Prop :=
  (¬ torn → Tracks course store expected) ∧
  (torn → ∃ wrong, Tracks course store wrong ∧ Spoilt course store expected wrong)

section Steps

include hlists

section

variable (htrk : Tracks course store expected) {call : AssetCall} (hcall : call.OnCourse course)
include htrk hcall

theorem Tracks.split : Follows course (call.Torn none store expected) (after (call.runOn lists none) store)
      ((call.expect none store expected).getD expected) := by
  have hrun := htrk.runOn hlists none hcall
  cases hexp : call.expect none store expected with
  | none =>
    rw [hexp] at hrun
    obtain ⟨error, next, hrais, hwhole, htorn⟩ := hrun
    rw [after, hrais]
    exact ⟨hwhole, htorn⟩
  | some later =>
    rw [hexp] at hrun
    obtain ⟨next, hret, -, hnxt⟩ := hrun
    rw [after_of_ok hret]
    exact ⟨fun _ => hnxt, fun htorn => absurd htorn (call.whole_of_expect hexp _ _ _)⟩

theorem Tracks.draft (pause : Option Timestamp) : Follows course (call.Torn (some "published-branch") store expected)
      (after (call.runDraft lists course pause) store)
      (AssetEvent.expect { store := store, expected := expected } (.draft call pause)) := by
  have hrun := htrk.runOn hlists (some "published-branch") hcall
  unfold AssetEvent.expect runDraft
  cases hexp : call.expect (some "published-branch") store expected with
  | none =>
    rw [hexp] at hrun
    obtain ⟨error, next, hrais, hwhole, htorn⟩ := hrun
    rw [after_bind_of_error hrais]
    simp only [hexp]
    exact ⟨hwhole, htorn⟩
  | some later =>
    rw [hexp] at hrun
    obtain ⟨published, hret, hsame, hpub⟩ := hrun
    rw [after_bind_of_ok hret, after_modify_bind]
    have hwhole := call.whole_of_expect hexp
    obtain ⟨hpaus, hkept⟩ := hpub.pauseBulk pause
    have hdrf := hpaus.runOn hlists (some "draft-branch") hcall
    simp only [hexp]
    rw [call.expect_congr hcall fun branch => (hkept branch).trans (hsame branch)] at hdrf
    refine ⟨fun _ => ?_, fun htorn => absurd htorn (hwhole _ _ _)⟩
    cases hexp' : call.expect (some "draft-branch") store later with
    | none =>
      rw [hexp'] at hdrf
      obtain ⟨error, next, hrais, hkept, -⟩ := hdrf
      rw [after, hrais]
      exact hkept (hwhole _ _ _)
    | some final =>
      rw [hexp'] at hdrf
      obtain ⟨next, hret', -, hnxt⟩ := hdrf
      rw [after_of_ok hret']
      exact hnxt

end

variable {state : AssetRun}

section

variable (htrk : Tracks course state.store state.expected)
include htrk

theorem Tracks.step (event : CourseAssetEvent course) :
    Follows course (event.1.Torn state) (state.step lists course event).store
      (state.step lists course event).expected := by
  obtain ⟨event, hevent⟩ := event
  cases event with
  | split call =>
    change Follows course _ (after (call.reply (call.runOn lists none)) state.store) _
    rw [after_reply]
    exact htrk.split hlists hevent
  | draft call pause =>
    change Follows course _ (after (call.reply (call.runDraft lists course pause)) state.store) _
    rw [after_reply]
    exact htrk.draft hlists hevent pause
  | nextBulk now => exact ⟨fun _ => htrk.nextBulk now, fun htorn => htorn.elim⟩

theorem Tracks.answers : Answers lists course state := fun branch envelope henv =>
  ⟨(htrk.holds branch envelope henv).sorted, fun _ _ => htrk.findAssetMetadata hlists henv rfl⟩

end

theorem Spoilt.not_answers {wrong : Branch → AssetTable} (htrk : Tracks course state.store wrong)
    (hspoilt : Spoilt course state.store state.expected wrong) : ¬ Answers lists course state := by
  intro hans
  obtain ⟨branch, assetType, path, asset, fields, hbr, hasset, hne, hwrong⟩ := hspoilt
  obtain ⟨envelope, henv⟩ := isSome_iff_exists.mp hbr
  obtain ⟨next, hfnd⟩ := (hans branch envelope henv).2 assetType path
  let assetKey : AssetKey :=
    { courseKey := { course := course, branch := branch }, assetType := assetType, path := path }
  have hkey : assetKey.courseKey = { course := course, branch := branch } := rfl
  obtain ⟨other, hoth⟩ := htrk.findAssetMetadata hlists henv hkey
  rw [hfnd, hasset, hwrong] at hoth
  injection hoth with hres
  exact hne (congrArg AssetMetadata.fields (some.inj hres)).symm

theorem Tracks.always_iff (htrk : Tracks course state.store state.expected) (events : List (CourseAssetEvent course)) :
    Always (AssetRun.step lists course) (Answers lists course) state events ↔
      Each (AssetRun.step lists course) (fun state event => ¬ event.1.Torn state) state events := by
  refine always_iff_each_of_strong (Q := fun state => Tracks course state.store state.expected)
    (fun state htrk => htrk.answers hlists)
    (fun state event htrk hwhole => (htrk.step hlists event).1 hwhole) ?_ htrk events
  intro state event htrk htorn
  obtain ⟨wrong, hwrong, hspoilt⟩ := (htrk.step hlists event).2 (not_not.mp htorn)
  exact hspoilt.not_answers hlists hwrong

omit hlists in
theorem tracks_empty (hrdy : store.Ready course)
    (hemp : ∀ branch envelope, store.envelope { course := course, branch := branch } = some envelope →
      ∀ assetType allAssets, envelope.2.assets.lookup assetType = some allAssets → allAssets = []) :
    Tracks course store fun _ _ _ => none := by
  refine ⟨hrdy, fun branch envelope henv => ⟨fun assetType allAssets hlook => ?_, ?_⟩⟩
  · rw [hemp branch envelope henv assetType allAssets hlook]
    exact List.Pairwise.nil
  · intro assetType path
    unfold CourseAssets.find
    cases hlook : envelope.2.assets.lookup assetType with
    | none => rfl
    | some allAssets => rw [hemp branch envelope henv assetType allAssets hlook]; rfl

/-- On a course that starts without assets, each branch has the assets that were saved on it and
not deleted since, with the values last saved or set, throughout every run in which no update is
torn, and in no other. -/
theorem always_answers_iff (hready : store.Ready course)
    (hempty : ∀ branch envelope, store.envelope { course := course, branch := branch } = some envelope →
      ∀ assetType allAssets, envelope.2.assets.lookup assetType = some allAssets → allAssets = [])
    (events : List (CourseAssetEvent course)) :
    Always (AssetRun.step lists course) (Answers lists course)
        { store := store, expected := fun _ _ _ => none } events ↔
      Each (AssetRun.step lists course) (fun state event => ¬ event.1.Torn state)
        { store := store, expected := fun _ _ _ => none } events :=
  Tracks.always_iff hlists (tracks_empty hready hempty) events

end Steps

/-! ## A course with a logo -/

def logoKey : AssetKey where
  courseKey := draftCourse "course"
  assetType := "asset"
  path := "logo.png"

def absent : AssetValue := .atom .none

def logo : AssetMetadata where
  assetId := logoKey
  pathname := absent
  internalName := absent
  locked := absent
  contenttype := absent
  thumbnail := absent
  fields := .dict []
  currVersion := absent
  prevVersion := absent
  createdBy := absent
  createdByEmail := absent
  createdOn := .atom (.dateTime 0)
  editedBy := absent
  editedByEmail := absent
  editedOn := .atom (.dateTime 0)

def logoStart : AssetRun where
  store := courseWithBranches ∅ ∅
  expected := fun _ _ _ => none

theorem logoStart_ready : (courseWithBranches ∅ ∅).Ready "course" :=
  .of_started ((branchesDatabase_allocated ∅ ∅).valid "course")

theorem logoStart_empty (branch : Branch) (envelope : ObjectId × Structure)
    (henv : (courseWithBranches ∅ ∅).envelope { course := "course", branch := branch } =
      some envelope) (assetType : String) (allAssets : List AssetDocument)
    (hlook : envelope.2.assets.lookup assetType = some allAssets) : allAssets = [] := by
  have hstr := (Store.head_of_envelope henv rfl).2
  change (((∅ : Dict ObjectId Structure).insert 0 _).insert 1 _).lookup envelope.1 = _ at hstr
  rw [lookup_insert, lookup_insert] at hstr
  have hnone : envelope.2.assets = ∅ := by
    split at hstr
    · exact (some.inj hstr) ▸ rfl
    · split at hstr
      · exact (some.inj hstr) ▸ rfl
      · cases hstr
  rw [hnone] at hlook
  cases hlook

def saveLogo : CourseAssetEvent "course" :=
  ⟨.draft (saveAssetMetadata logo absent false fun _ _ => .atom (.dateTime 1)) (some 1), by
    intro locator hlocator
    obtain rfl := Option.some.inj hlocator
    rfl⟩

def setLogo (attrDict : Dict String AssetValue) : CourseAssetEvent "course" :=
  ⟨.draft (.setAttrs logoKey attrDict) (some 2), by
    intro locator hlocator
    obtain rfl := Option.some.inj hlocator
    rfl⟩

/-- The attributes `note`, `fields` and `alt`, in the order of the dictionary. -/
def tornAttrs : Dict String AssetValue where
  entries := [⟨"note", .atom (.json "1")⟩, ⟨"fields", absent⟩, ⟨"alt", .atom (.json "2")⟩]
  nodupKeys := by simp [List.NodupKeys, List.keys]

def lockedAttrs : Dict String AssetValue where
  entries := [⟨"locked", .atom (.json "true")⟩]
  nodupKeys := by simp [List.NodupKeys, List.keys]

theorem torn_tornAttrs : Torn tornAttrs.entries (.dict []) := by
  refine ⟨[⟨"note", .atom (.json "1")⟩], absent, [⟨"alt", .atom (.json "2")⟩], rfl, rfl, ?_, [], rfl, ?_⟩
  · exact ⟨_, mem_cons_self, by decide⟩
  · exact ⟨_, mem_cons_self, by decide, fun h => nomatch h⟩

theorem logo_answers : Always (AssetRun.step insertedLists "course") (Answers insertedLists "course") logoStart
      [saveLogo, setLogo lockedAttrs] := by
  refine (always_answers_iff insertedLists_documented logoStart_ready logoStart_empty _).mpr ⟨?_, ?_, trivial⟩
  · rintro ⟨locator, -, -, htorn⟩
    exact htorn
  · rintro ⟨locator, -, -, asset, -, before, value, after, hitems, -⟩
    have hmem : (⟨"fields", value⟩ : Sigma fun _ : String => AssetValue) ∈ lockedAttrs.entries := by
      rw [hitems]
      exact mem_append_right _ mem_cons_self
    exact absurd (congrArg Sigma.fst (mem_singleton.mp hmem)) (show ¬ "fields" = "locked" by decide)

/-- The attribute `note` is set, though the update raises. -/
theorem logo_not_answers : ¬ Always (AssetRun.step insertedLists "course") (Answers insertedLists "course") logoStart
      [saveLogo, setLogo tornAttrs] := by
  intro halways
  have heach := (Tracks.always_iff insertedLists_documented
    (tracks_empty logoStart_ready logoStart_empty) _).mp halways
  exact heach.2.1 ⟨publishedCourse "course", rfl, rfl, _, rfl, torn_tornAttrs⟩

end EdxPlatform.Split
