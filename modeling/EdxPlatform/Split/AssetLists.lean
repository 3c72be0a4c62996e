import EdxPlatform.Lib.SortedLists
import EdxPlatform.Split.AssetMetadata

/-!
# Lists of assets

The stored assets of a type are a list that is sorted by file name, in which no name occurs twice.
-/

namespace EdxPlatform.Split

open AssetDocument AssetMetadata LoadedAsset

abbrev CourseAssets := Dict String (List AssetDocument)

section Operations

variable (lists : SortedLists AssetDocument String)

namespace SortedAssetList

def find (assetId : AssetKey) (allAssets : List AssetDocument) : Option Nat :=
  let idxLeft := lists.bisectLeft AssetDocument.filename allAssets assetId.path
  let idxRight := lists.bisectRight AssetDocument.filename allAssets assetId.path
  if idxLeft ≠ idxRight then some idxLeft else none

def setItem (assetIdx : Nat) (document : AssetDocument) (allAssets : List AssetDocument) :
    Except StoreError (List AssetDocument) :=
  match lists.setItem AssetDocument.filename allAssets assetIdx document with
  | some updated => .ok updated
  | none => .error .valueError

def insertOrUpdate (asset : AssetMetadata) (allAssets : List AssetDocument) : Except StoreError (List AssetDocument) :=
  match find lists asset.assetId allAssets with
  | none => .ok (lists.add AssetDocument.filename allAssets asset.toStorable)
  | some assetIdx => setItem lists assetIdx asset.toStorable allAssets

def ofStored (assetType : String) (courseAssets : CourseAssets) : Except StoreError (List AssetDocument) :=
  match lists.extend AssetDocument.filename [] ((courseAssets.lookup assetType).getD []) with
  | some allAssets => .ok allAssets
  | none => .error .valueError

end SortedAssetList

open SortedAssetList

def savedAsset (userId : AssetValue) (importOnly : Bool) (asset : AssetMetadata × AssetValue) :
    AssetMetadata :=
  if importOnly then asset.1
  else (asset.1.setattr "edited_by" userId).setattr "edited_on" asset.2

section

variable (courseKey : CourseLocator) (courseAssets : CourseAssets) (userId : AssetValue) (importOnly : Bool)

/-- One round of `_save_assets_by_type`. -/
def saveOne (assetsByType : CourseAssets) (asset : AssetMetadata × AssetValue) : Except StoreError CourseAssets :=
  if asset.1.assetId.courseKey ≠ courseKey then pure assetsByType
  else do
    let assetType := asset.1.assetId.assetType
    let allAssets := (assetsByType.lookup assetType).getD
      (lists.update AssetDocument.filename [] ((courseAssets.lookup assetType).getD []))
    let allAssets ← insertOrUpdate lists (savedAsset userId importOnly asset) allAssets
    pure (assetsByType.insert assetType allAssets)

/-- `_save_assets_by_type`.  Each asset comes with the time at which its turn comes. -/
def saveAssetsByType (assets : List (AssetMetadata × AssetValue)) : Except StoreError CourseAssets :=
  assets.foldlM (saveOne lists courseKey courseAssets userId importOnly) ∅

end

/-- The part of `save_asset_metadata_list` that edits the structure. -/
def saveAssets (courseKey : CourseLocator) (userId : AssetValue) (importOnly : Bool)
    (assets : List (AssetMetadata × AssetValue)) : EStateM StoreError Structure Unit := fun struct =>
  match saveAssetsByType lists courseKey struct.assets userId importOnly assets with
  | .ok assetsByType => .ok () { struct with assets := struct.assets.update assetsByType }
  | .error error => .error error struct

/-- A function that updates the list of the assets of a type, in which the index is that of an
asset if it was found. -/
abbrev UpdateFunction := Option Nat → EStateM StoreError (List AssetDocument) Unit

/-- The function with which attributes are set.  What the update changes in the document itself
stays when it raises. -/
def setAttributes (assetKey : AssetKey) (attrDict : Dict String AssetValue) : UpdateFunction :=
  fun assetIdx allAssets =>
    match assetIdx with
    | none => .error .itemNotFoundError allAssets
    | some assetIdx =>
      match allAssets[assetIdx]? with
      | none => .error .indexError allAssets
      | some document =>
        match LoadedAsset.update attrDict.entries (.load assetKey document) with
        | .error error asset => .error error (allAssets.set assetIdx { document with fields := asset.stored })
        | .ok _ asset =>
          let touched := allAssets.set assetIdx { document with fields := asset.stored }
          match setItem lists assetIdx asset.metadata.toStorable touched with
          | .ok updated => .ok () updated
          | .error error => .error error touched

def popAsset : UpdateFunction := fun assetIdx allAssets =>
  match assetIdx with
  | none => .error .itemNotFoundError allAssets
  | some assetIdx => .ok () (lists.pop allAssets assetIdx)

/-- The part of `_update_course_assets` that edits the structure.  The stored list shares its
documents with the one that is updated, and nothing but documents is changed before an exception. -/
def updateAssets (assetKey : AssetKey) (updateFunction : UpdateFunction) :
    EStateM StoreError Structure Unit := fun struct =>
  let courseAssets := Dict.setDefault assetKey.assetType [] struct.assets
  match ofStored lists assetKey.assetType courseAssets with
  | .error error => .error error { struct with assets := courseAssets }
  | .ok allAssets =>
    match updateFunction (find lists assetKey allAssets) allAssets with
    | .ok _ updated => .ok () { struct with assets := courseAssets.insert assetKey.assetType updated }
    | .error error touched => .error error { struct with assets := courseAssets.insert assetKey.assetType touched }

end Operations

/-! ## Assets by type and path -/

abbrev AssetTable := String → String → Option AssetMetadata

def AssetTable.set (assetType path : String) (asset : Option AssetMetadata) (table : AssetTable) :
    AssetTable := fun otherType otherPath =>
  if otherType = assetType ∧ otherPath = path then asset else table otherType otherPath

def AssetTable.save (courseKey : CourseLocator) (userId : AssetValue) (importOnly : Bool)
    (assets : List (AssetMetadata × AssetValue)) (table : AssetTable) : AssetTable :=
  assets.foldl (fun table asset =>
    if asset.1.assetId.courseKey ≠ courseKey then table
    else table.set asset.1.assetId.assetType asset.1.assetId.path (some (savedAsset userId importOnly asset))) table

section

variable (assetKey : AssetKey) (items : AttrItems) (table : AssetTable)

def AssetTable.setAttrs : Option AssetTable :=
  (table assetKey.assetType assetKey.path).bind fun asset =>
    (AssetMetadata.updated { asset with assetId := assetKey } items).map fun updated =>
      table.set assetKey.assetType assetKey.path (some updated)

def AssetTable.delete (assetKey : AssetKey) (table : AssetTable) : Option AssetTable :=
  (table assetKey.assetType assetKey.path).map fun _ => table.set assetKey.assetType assetKey.path none

def AssetTable.TornBy : Prop := ∃ asset, table assetKey.assetType assetKey.path = some asset ∧ Torn items asset.fields

end

def CourseAssets.find (assetType path : String) (courseAssets : CourseAssets) : Option AssetDocument :=
  (courseAssets.lookup assetType).bind (lookupBy AssetDocument.filename path)

/-- The lists of the stored assets are sorted without repetition, and what they have is what the
table has. -/
structure CourseAssets.Holds (courseAssets : CourseAssets) (table : AssetTable) : Prop where
  sorted : ∀ assetType allAssets, courseAssets.lookup assetType = some allAssets →
    StrictlySortedBy AssetDocument.filename allAssets
  found : ∀ assetType path, courseAssets.find assetType path = (table assetType path).map (·.toStorable)

theorem assetId_savedAsset (userId : AssetValue) (importOnly : Bool) (asset : AssetMetadata × AssetValue) :
    (savedAsset userId importOnly asset).assetId = asset.1.assetId := by
  unfold savedAsset
  split
  · rfl
  · rw [assetId_setattr, assetId_setattr]

namespace CourseAssets.Holds

variable {courseAssets other : CourseAssets} {table : AssetTable} (hhold : courseAssets.Holds table)

section

include hhold

theorem congr (hsame : ∀ assetType, other.lookup assetType = courseAssets.lookup assetType) : other.Holds table where
  sorted := fun assetType allAssets hlook => hhold.sorted assetType allAssets (hsame assetType ▸ hlook)
  found := by
    intro assetType path
    rw [CourseAssets.find, hsame]
    exact hhold.found assetType path

theorem sorted_getD (assetType : String) : StrictlySortedBy filename ((courseAssets.lookup assetType).getD []) := by
  cases hlook : courseAssets.lookup assetType with
  | none => exact List.Pairwise.nil
  | some allAssets => exact hhold.sorted assetType allAssets hlook

theorem lookupBy_getD (assetType path : String) : lookupBy filename path ((courseAssets.lookup assetType).getD []) =
      (table assetType path).map (·.toStorable) := by
  rw [← hhold.found, CourseAssets.find]
  cases courseAssets.lookup assetType <;> rfl

theorem setDefault (assetType : String) : CourseAssets.Holds (Dict.setDefault assetType [] courseAssets) table where
  sorted := by
    intro other allAssets hlook
    rw [Dict.lookup_setDefault] at hlook
    split at hlook
    · rw [← some.inj hlook]
      exact hhold.sorted_getD assetType
    · exact hhold.sorted other allAssets hlook
  found := by
    intro other path
    rw [CourseAssets.find, Dict.lookup_setDefault]
    split
    · next heq => rw [heq, bind_some, hhold.lookupBy_getD]
    · exact hhold.found other path

end

section

variable {assetType path : String} {updated : List AssetDocument}
  {asset : Option AssetMetadata} (hsort : StrictlySortedBy AssetDocument.filename updated)
  (hupda : ∀ point, lookupBy AssetDocument.filename point updated = if point =
    path then asset.map (·.toStorable) else lookupBy AssetDocument.filename point
      ((courseAssets.lookup assetType).getD []))
include hhold hsort hupda

theorem insert : CourseAssets.Holds (courseAssets.insert assetType updated) (table.set assetType path asset) where
  sorted := by
    intro other allAssets hlook
    rw [lookup_insert] at hlook
    split at hlook
    · rw [← some.inj hlook]
      exact hsort
    · exact hhold.sorted other allAssets hlook
  found := by
    intro other point
    rw [CourseAssets.find, lookup_insert]
    unfold AssetTable.set
    by_cases htype : other = assetType
    · rw [if_pos htype, bind_some, hupda, hhold.lookupBy_getD, htype]
      by_cases hpath : point = path
      · rw [if_pos hpath, if_pos ⟨rfl, hpath⟩]
      · rw [if_neg hpath, if_neg fun h => hpath h.2]
    · rw [if_neg htype, if_neg fun h => htype h.1]
      exact hhold.found other point

theorem written : CourseAssets.Holds ((Dict.setDefault assetType [] courseAssets).insert assetType updated)
      (table.set assetType path asset) := by
  refine (hhold.insert hsort hupda).congr fun other => ?_
  rw [lookup_insert, lookup_insert, Dict.lookup_setDefault]
  split <;> rfl

end

theorem kept (hhold : courseAssets.Holds table) (assetType : String) :
    CourseAssets.Holds ((Dict.setDefault assetType [] courseAssets).insert assetType
      ((courseAssets.lookup assetType).getD [])) table := by
  refine (hhold.setDefault assetType).congr fun other => ?_
  rw [lookup_insert, Dict.lookup_setDefault]
  split <;> rfl

end CourseAssets.Holds

section Rules

variable {lists : SortedLists AssetDocument String} (hls : lists.Documented)

include hls

namespace SortedAssetList

theorem find_cases {allAssets : List AssetDocument}
    (hsort : StrictlySortedBy filename allAssets) (assetKey : AssetKey) :
    (find lists assetKey allAssets = none ∧ lookupBy filename assetKey.path allAssets = none) ∨
    ∃ before document after, allAssets = before ++ document :: after ∧
      document.filename = assetKey.path ∧ find lists assetKey allAssets = some before.length := by
  unfold find
  rcases hls.bisect_cases hsort assetKey.path with ⟨hsame, hnone⟩ | ⟨before, document, after, hspl, hpath, hleft, hrgt⟩
  · exact .inl ⟨if_neg (not_not.mpr hsame), hnone⟩
  · have hne : before.length ≠ before.length + 1 := by omega
    exact .inr ⟨before, document, after, hspl, hpath, by rw [hleft, hrgt, if_pos hne]⟩

theorem setItem_cut {before after : List AssetDocument} {old new : AssetDocument}
    (hsort : StrictlySortedBy filename (before ++ old :: after))
    (hpath : new.filename = old.filename) :
    setItem lists before.length new (before ++ old :: after) = .ok (before ++ new :: after) := by
  unfold setItem
  rw [hls.setItem_cut hsort hpath]

theorem insertOrUpdate_spec {allAssets : List AssetDocument}
    (hsort : StrictlySortedBy filename allAssets) (asset : AssetMetadata) :
    ∃ updated, insertOrUpdate lists asset allAssets = .ok updated ∧ StrictlySortedBy filename updated ∧
      ∀ point, lookupBy filename point updated = if point = asset.assetId.path then some asset.toStorable
        else lookupBy filename point allAssets := by
  unfold insertOrUpdate
  rcases find_cases hls hsort asset.assetId with ⟨hfind, hnone⟩ | ⟨before, document, after, rfl, hpath, hfind⟩
  · rw [hfind]
    obtain ⟨hadded, hlook⟩ := hls.add_new hsort asset.toStorable hnone
    exact ⟨_, rfl, hadded, hlook⟩
  · have hkey : asset.toStorable.filename = document.filename := hpath.symm
    refine ⟨before ++ asset.toStorable :: after, ?_, hsort.replace hkey, ?_⟩
    · rw [hfind]
      exact setItem_cut hls hsort hkey
    · intro point
      rw [lookupBy_replace hsort hkey, hpath]

theorem ofStored_eq {courseAssets : CourseAssets} {table : AssetTable} (hhold : courseAssets.Holds table)
    (assetType : String) :
    ofStored lists assetType courseAssets = .ok ((courseAssets.lookup assetType).getD []) := by
  unfold ofStored
  rw [hls.extend_empty (hhold.sorted_getD assetType).sortedBy]

end SortedAssetList

variable {table : AssetTable}

theorem saveAssetsByType_spec {courseAssets : CourseAssets}
    (hhold : courseAssets.Holds table) (courseKey : CourseLocator) (userId : AssetValue)
    (importOnly : Bool) (assets : List (AssetMetadata × AssetValue)) :
    ∃ assetsByType, saveAssetsByType lists courseKey courseAssets userId importOnly assets = .ok assetsByType ∧
      CourseAssets.Holds (Dict.update courseAssets assetsByType) (table.save courseKey userId importOnly assets) := by
  have hloop : ∀ (assets : List (AssetMetadata × AssetValue)) (assetsByType : CourseAssets)
      (table : AssetTable), CourseAssets.Holds (Dict.update courseAssets assetsByType) table →
      ∃ final, assets.foldlM (saveOne lists courseKey courseAssets userId importOnly) assetsByType = .ok final ∧
        CourseAssets.Holds (Dict.update courseAssets final) (table.save courseKey userId importOnly assets) := by
    intro assets
    induction assets with
    | nil => exact fun assetsByType table hmgd => ⟨assetsByType, rfl, hmgd⟩
    | cons asset assets ih =>
      intro assetsByType table hmgd
      rw [foldlM_cons]
      unfold AssetTable.save
      rw [foldl_cons]
      by_cases hcrs : asset.1.assetId.courseKey ≠ courseKey
      · rw [saveOne, if_pos hcrs, if_pos hcrs]
        exact ih assetsByType table hmgd
      · have hlist : (assetsByType.lookup asset.1.assetId.assetType).getD (lists.update filename []
              ((courseAssets.lookup asset.1.assetId.assetType).getD [])) =
            ((Dict.update courseAssets assetsByType).lookup asset.1.assetId.assetType).getD [] := by
          rw [hls.update_empty (hhold.sorted_getD _), lookup_update]
          cases assetsByType.lookup asset.1.assetId.assetType <;> rfl
        obtain ⟨updated, hupda, hsort, hlook⟩ := SortedAssetList.insertOrUpdate_spec hls
          (hmgd.sorted_getD asset.1.assetId.assetType) (savedAsset userId importOnly asset)
        rw [assetId_savedAsset] at hlook
        have hone : saveOne lists courseKey courseAssets userId importOnly assetsByType asset =
            .ok (assetsByType.insert asset.1.assetId.assetType updated) := by
          unfold saveOne
          rw [if_neg hcrs]
          simp only [hlist, hupda]
          rfl
        rw [hone, if_neg hcrs]
        apply ih
        refine (hmgd.insert hsort hlook).congr fun assetType => ?_
        rw [lookup_update, lookup_insert, lookup_insert, lookup_update]
        split <;> rfl
  apply hloop
  exact hhold.congr fun assetType => by rw [lookup_update, lookup_empty, none_or]

variable {struct : Structure}

theorem saveAssets_spec
    (hhold : CourseAssets.Holds struct.assets table) (courseKey : CourseLocator) (userId : AssetValue)
    (importOnly : Bool) (assets : List (AssetMetadata × AssetValue)) :
    ∃ edited, saveAssets lists courseKey userId importOnly assets struct = .ok () edited ∧
      CourseAssets.Holds edited.assets (table.save courseKey userId importOnly assets) := by
  obtain ⟨assetsByType, hsaved, hmgd⟩ := saveAssetsByType_spec hls hhold courseKey userId importOnly assets
  unfold saveAssets
  rw [hsaved]
  exact ⟨_, rfl, hmgd⟩

theorem find_cases {courseAssets : CourseAssets} (hhold : courseAssets.Holds table) (assetKey : AssetKey) :
    (SortedAssetList.find lists assetKey ((courseAssets.lookup assetKey.assetType).getD []) = none ∧
      table assetKey.assetType assetKey.path = none) ∨
    ∃ before asset after, (courseAssets.lookup assetKey.assetType).getD [] = before ++ asset.toStorable :: after ∧
      asset.assetId.path = assetKey.path ∧ table assetKey.assetType assetKey.path = some asset ∧
      SortedAssetList.find lists assetKey ((courseAssets.lookup assetKey.assetType).getD []) = some before.length := by
  have hsort := hhold.sorted_getD assetKey.assetType
  have htable := hhold.lookupBy_getD assetKey.assetType assetKey.path
  rcases SortedAssetList.find_cases hls hsort assetKey with ⟨hfind, hnone⟩ |
    ⟨before, document, after, hspl, hpath, hfind⟩
  · rw [hnone] at htable
    exact .inl ⟨hfind, map_eq_none_iff.mp htable.symm⟩
  · have hmem : document ∈ (courseAssets.lookup assetKey.assetType).getD [] := by
      rw [hspl]
      exact mem_append_right _ mem_cons_self
    rw [(lookupBy_eq_some hsort.nodup).mpr ⟨hmem, hpath⟩] at htable
    obtain ⟨asset, hasset, rfl⟩ := map_eq_some_iff.mp htable.symm
    exact .inr ⟨before, asset, after, hspl, hpath, hasset, hfind⟩

section

variable (hhold : CourseAssets.Holds struct.assets table) (assetKey : AssetKey)
include hhold

theorem updateAssets_eq (updateFunction : UpdateFunction) :
    updateAssets lists assetKey updateFunction struct = match updateFunction
          (SortedAssetList.find lists assetKey ((struct.assets.lookup assetKey.assetType).getD []))
          ((struct.assets.lookup assetKey.assetType).getD []) with
      | .ok _ updated => .ok () { struct with
          assets := (Dict.setDefault assetKey.assetType [] struct.assets).insert assetKey.assetType updated }
      | .error error touched => .error error { struct with
          assets := (Dict.setDefault assetKey.assetType [] struct.assets).insert assetKey.assetType touched } := by
  have hlist : ((Dict.setDefault assetKey.assetType [] struct.assets).lookup assetKey.assetType).getD [] =
      (struct.assets.lookup assetKey.assetType).getD [] := by
    rw [Dict.lookup_setDefault, if_pos rfl, getD_some]
  unfold updateAssets
  simp only [SortedAssetList.ofStored_eq hls (hhold.setDefault assetKey.assetType), hlist]

theorem popAsset_spec : match table.delete assetKey with
    | some next => ∃ edited, updateAssets lists assetKey (popAsset lists) struct = .ok () edited ∧
        CourseAssets.Holds edited.assets next
    | none => ∃ edited, updateAssets lists assetKey (popAsset lists) struct = .error .itemNotFoundError edited ∧
        CourseAssets.Holds edited.assets table := by
  rw [updateAssets_eq hls hhold]
  unfold AssetTable.delete
  rcases find_cases hls hhold assetKey with ⟨hfind, hnone⟩ | ⟨before, asset, after, hspl, hpath, hasset, hfind⟩
  · rw [hfind, hnone]
    exact ⟨_, rfl, hhold.kept assetKey.assetType⟩
  · have hsort := hhold.sorted_getD assetKey.assetType
    rw [hfind, hasset]
    rw [hspl] at hsort ⊢
    refine ⟨_, rfl, hhold.written ?_ ?_⟩
    · rw [hls.pop_cut]
      exact hsort.remove
    · intro point
      rw [hls.pop_cut, lookupBy_remove hsort, hspl, filename_toStorable, hpath]
      rfl

theorem setAttributes_spec (attrDict : Dict String AssetValue) : match table.setAttrs assetKey attrDict.entries with
    | some next => (∃ edited,
        updateAssets lists assetKey (setAttributes lists assetKey attrDict) struct = .ok () edited ∧
        CourseAssets.Holds edited.assets next) ∧ ∀ fields, ¬ Torn attrDict.entries fields
    | none => ∃ error edited,
        updateAssets lists assetKey (setAttributes lists assetKey attrDict) struct = .error error edited ∧
        (¬ table.TornBy assetKey attrDict.entries → CourseAssets.Holds edited.assets table) ∧
        (table.TornBy assetKey attrDict.entries → ∃ asset stored,
          table assetKey.assetType assetKey.path = some asset ∧ stored ≠ asset.fields ∧
          CourseAssets.Holds edited.assets (table.set assetKey.assetType assetKey.path
            (some { asset with fields := stored }))) := by
  rw [updateAssets_eq hls hhold]
  unfold AssetTable.setAttrs
  rcases find_cases hls hhold assetKey with ⟨hfind, hnone⟩ | ⟨before, asset, after, hspl, hpath, hasset, hfind⟩
  · rw [hfind, hnone]
    refine ⟨_, _, rfl, fun _ => hhold.kept assetKey.assetType, ?_⟩
    rintro ⟨asset, hasset, -⟩
    rw [hnone] at hasset
    cases hasset
  · have hsort := hhold.sorted_getD assetKey.assetType
    rw [hfind, hasset, hspl]
    rw [hspl] at hsort
    have hget : (before ++ asset.toStorable :: after)[before.length]? = some asset.toStorable := by
      simp
    have hset : ∀ document, (before ++ asset.toStorable :: after).set before.length document =
        before ++ document :: after := fun document => by simp
    have hload : load assetKey asset.toStorable = .attached { asset with assetId := assetKey } := rfl
    unfold setAttributes updated
    simp only [hget, hload, hset, bind_some]
    cases hupd : update attrDict.entries (.attached { asset with assetId := assetKey }) with
    | ok result final =>
      have hid : final.metadata.assetId = assetKey := by
        have := assetId_update attrDict.entries (.attached { asset with assetId := assetKey })
        rw [after_of_ok hupd] at this
        exact this
      have htch : StrictlySortedBy filename
          (before ++ { asset.toStorable with fields := final.stored } :: after) := hsort.replace rfl
      have hkey : final.metadata.toStorable.filename = asset.toStorable.filename := by
        rw [filename_toStorable, hid, filename_toStorable, hpath]
      have hwrt := SortedAssetList.setItem_cut hls htch hkey
      refine ⟨⟨_, by simp only [hwrt]; rfl, hhold.written (hsort.replace hkey) ?_⟩,
        not_torn_of_returned attrDict.nodupKeys hupd⟩
      intro point
      rw [lookupBy_replace hsort hkey, hspl, filename_toStorable, hpath]
      rfl
    | error error final =>
      have hsto := stored_eq_iff attrDict.nodupKeys hupd
      refine ⟨error, _, rfl, fun hwhole => ?_, ?_⟩
      · have hsame : ({ asset.toStorable with fields := final.stored } : AssetDocument) =
            asset.toStorable := by
          rw [hsto.mpr fun htorn => hwhole ⟨asset, hasset, htorn⟩]
          rfl
        have hkept := hhold.kept assetKey.assetType
        rw [hspl] at hkept
        simp only [hsame]
        exact hkept
      · rintro ⟨found, hfnd, htorn⟩
        rw [hasset] at hfnd
        obtain rfl := some.inj hfnd
        have hkey : ({ asset with fields := final.stored } : AssetMetadata).toStorable.filename =
            asset.toStorable.filename := rfl
        refine ⟨asset, final.stored, rfl, fun heq => hsto.mp heq htorn,
          hhold.written (hsort.replace hkey) fun point => ?_⟩
        refine (lookupBy_replace hsort hkey point).trans ?_
        rw [hspl, filename_toStorable, hpath]
        rfl

end

end Rules

end EdxPlatform.Split
