import EdxPlatform.Lib.Programs
import EdxPlatform.Split.Store

/-!
# Asset metadata

The metadata of an asset are an object while they are worked on, and a document when they are
stored.  What is not an attribute of the object goes into its `fields`.
-/

namespace EdxPlatform.Split

structure AssetKey where
  courseKey : CourseLocator
  assetType : String
  path : String
  deriving DecidableEq

structure AssetMetadata where
  assetId : AssetKey
  pathname : AssetValue
  internalName : AssetValue
  locked : AssetValue
  contenttype : AssetValue
  thumbnail : AssetValue
  fields : AssetValue
  currVersion : AssetValue
  prevVersion : AssetValue
  createdBy : AssetValue
  createdByEmail : AssetValue
  createdOn : AssetValue
  editedBy : AssetValue
  editedByEmail : AssetValue
  editedOn : AssetValue

namespace AssetMetadata

def topLevelAttrs : List String := ["pathname", "internal_name", "locked", "contenttype", "thumbnail", "fields"]

def editInfoAttrs : List String := ["curr_version", "prev_version", "edited_by", "edited_by_email", "edited_on"]

def attrsAllowedToUpdate : List String := topLevelAttrs ++ editInfoAttrs

section

variable (attr : String) (value : AssetValue) (asset : AssetMetadata)

/-- `setattr`, of an attribute that may be updated. -/
def setattr : AssetMetadata :=
  match attr with
  | "pathname" => { asset with pathname := value }
  | "internal_name" => { asset with internalName := value }
  | "locked" => { asset with locked := value }
  | "contenttype" => { asset with contenttype := value }
  | "thumbnail" => { asset with thumbnail := value }
  | "fields" => { asset with fields := value }
  | "curr_version" => { asset with currVersion := value }
  | "prev_version" => { asset with prevVersion := value }
  | "edited_by" => { asset with editedBy := value }
  | "edited_by_email" => { asset with editedByEmail := value }
  | "edited_on" => { asset with editedOn := value }
  | _ => asset

def toStorable (asset : AssetMetadata) : AssetDocument where
  filename := asset.assetId.path
  assetType := asset.assetId.assetType
  pathname := asset.pathname
  internalName := asset.internalName
  locked := asset.locked
  contenttype := asset.contenttype
  thumbnail := asset.thumbnail
  fields := asset.fields
  editInfo :=
    { currVersion := asset.currVersion
      prevVersion := asset.prevVersion
      createdBy := asset.createdBy
      createdByEmail := asset.createdByEmail
      createdOn := asset.createdOn
      editedBy := asset.editedBy
      editedByEmail := asset.editedByEmail
      editedOn := asset.editedOn }

/-- A new object that is filled in by `from_storable`. -/
def fromStorable (assetId : AssetKey) (document : AssetDocument) : AssetMetadata where
  assetId := assetId
  pathname := document.pathname
  internalName := document.internalName
  locked := document.locked
  contenttype := document.contenttype
  thumbnail := document.thumbnail
  fields := document.fields
  currVersion := document.editInfo.currVersion
  prevVersion := document.editInfo.prevVersion
  createdBy := document.editInfo.createdBy
  createdByEmail := document.editInfo.createdByEmail
  createdOn := document.editInfo.createdOn
  editedBy := document.editInfo.editedBy
  editedByEmail := document.editInfo.editedByEmail
  editedOn := document.editInfo.editedOn

@[simp]
theorem filename_toStorable (asset : AssetMetadata) : asset.toStorable.filename = asset.assetId.path := rfl

theorem fields_setattr {attr : String} (hattr : attr ≠ "fields") (value : AssetValue)
    (asset : AssetMetadata) : (asset.setattr attr value).fields = asset.fields := by
  unfold setattr
  split
  all_goals first | rfl | exact absurd rfl hattr

theorem assetId_setattr : (asset.setattr attr value).assetId = asset.assetId := by
  unfold setattr
  split
  all_goals rfl

end

end AssetMetadata

/-! ## Updates -/

abbrev AttrItems := List (Sigma fun _ : String => AssetValue)

/-- An object that was filled in from a document.  Its fields are the dictionary that the document
has, and not only equal to it, until they are set. -/
structure LoadedAsset where
  metadata : AssetMetadata
  /-- The `fields` of the document. -/
  stored : AssetValue
  shared : Bool

namespace LoadedAsset

def attached (asset : AssetMetadata) : LoadedAsset where
  metadata := asset
  stored := asset.fields
  shared := true

def detached (asset : AssetMetadata) (stored : AssetValue) : LoadedAsset where
  metadata := asset
  stored := stored
  shared := false

def load (assetId : AssetKey) (document : AssetDocument) : LoadedAsset :=
  attached (AssetMetadata.fromStorable assetId document)

/-- One round of `update`.  An entry is set in place; only dictionaries take entries under names. -/
def setOne (attr : String) (value : AssetValue) : EStateM StoreError LoadedAsset Unit := fun asset =>
  if attr ∈ AssetMetadata.attrsAllowedToUpdate then
    .ok () { asset with
      metadata := asset.metadata.setattr attr value
      shared := asset.shared && decide (attr ≠ "fields") }
  else
    match asset.metadata.fields with
    | .dict entries =>
      let fields : AssetValue := .dict (Entries.set attr value entries)
      .ok () { asset with
        metadata := { asset.metadata with fields := fields }
        stored := if asset.shared then fields else asset.stored }
    | _ => .error .typeError asset

def update : AttrItems → EStateM StoreError LoadedAsset Unit
  | [] => pure ()
  | item :: items => do
    setOne item.1 item.2
    update items

end LoadedAsset

def AssetMetadata.updated (asset : AssetMetadata) (items : AttrItems) : Option AssetMetadata :=
  match LoadedAsset.update items (.attached asset) with
  | .ok _ updated => some updated.metadata
  | .error _ _ => none

/-- The update sets an entry of the fields anew, then the fields to what is no dictionary, and
then another entry. -/
def Torn (items : AttrItems) (fields : AssetValue) : Prop :=
  ∃ before value after, items = before ++ ⟨"fields", value⟩ :: after ∧ value.isDict = false ∧
    (∃ item ∈ after, item.1 ∉ AssetMetadata.attrsAllowedToUpdate) ∧
    ∃ entries, fields = .dict entries ∧ ∃ item ∈ before, item.1 ∉ AssetMetadata.attrsAllowedToUpdate ∧
        Entries.get item.1 entries ≠ some item.2

namespace LoadedAsset

open AssetMetadata Entries Document

theorem setOne_attribute {attr : String} (hattr : attr ∈ attrsAllowedToUpdate) (hflds : attr ≠ "fields")
    (value : AssetValue) (asset : AssetMetadata) :
    setOne attr value (attached asset) = .ok () (attached (asset.setattr attr value)) := by
  unfold setOne attached
  rw [if_pos hattr, fields_setattr hflds, decide_eq_true hflds]
  rfl

theorem setOne_fields (value : AssetValue) (asset : AssetMetadata) : setOne "fields" value (attached asset) =
      .ok () (detached (asset.setattr "fields" value) asset.fields) := rfl

theorem setOne_entry {attr : String} (hattr : attr ∉ attrsAllowedToUpdate) (value : AssetValue)
    {asset : AssetMetadata} {entries : Entries AssetAtom} (hflds : asset.fields = .dict entries) :
    setOne attr value (attached asset) =
      .ok () (attached (asset.setattr "fields" (.dict (Entries.set attr value entries)))) := by
  unfold setOne attached
  rw [if_neg hattr]
  simp only [hflds]
  rfl

theorem setOne_detached_attribute {attr : String} (hattr : attr ∈ attrsAllowedToUpdate)
    (value : AssetValue) (asset : AssetMetadata) (stored : AssetValue) :
    setOne attr value (detached asset stored) = .ok () (detached (asset.setattr attr value) stored) := by
  unfold setOne detached
  rw [if_pos hattr]
  rfl

section

variable {attr : String} (hattr : attr ∉ attrsAllowedToUpdate) (value : AssetValue)
include hattr

theorem setOne_detached_entry {asset : AssetMetadata} {entries : Entries AssetAtom}
    (hflds : asset.fields = .dict entries) (stored : AssetValue) :
    setOne attr value (detached asset stored) =
      .ok () (detached (asset.setattr "fields" (.dict (Entries.set attr value entries))) stored) := by
  unfold setOne detached
  rw [if_neg hattr]
  simp only [hflds]
  rfl

theorem setOne_raises (asset : LoadedAsset) (hflds : asset.metadata.fields.isDict = false) :
    setOne attr value asset = .error .typeError asset := by
  unfold setOne
  rw [if_neg hattr]
  cases hval : asset.metadata.fields with
  | dict entries =>
    rw [hval] at hflds
    cases hflds
  | atom atom => rfl
  | list elements => rfl

end

section

variable {item : Sigma fun _ : String => AssetValue} {asset middle : LoadedAsset}

theorem update_cons_of_ok (hitem : setOne item.1 item.2 asset = .ok () middle) (items : AttrItems) :
    update (item :: items) asset = update items middle := by
  change (setOne item.1 item.2 >>= fun _ => update items) asset = _
  rw [run_bind, hitem]

theorem update_cons_of_error {error : StoreError}
    (hitem : setOne item.1 item.2 asset = .error error middle) (items : AttrItems) :
    update (item :: items) asset = .error error middle := by
  change (setOne item.1 item.2 >>= fun _ => update items) asset = _
  rw [run_bind, hitem]

end

variable {items : AttrItems}

section

variable (hitems : "fields" ∉ items.keys) (asset : AssetMetadata)
include hitems

theorem update_detached_dict (hflds : asset.fields.isDict = true) (stored : AssetValue) :
    ∃ updated, update items (detached asset stored) = .ok () updated := by
  induction items generalizing asset with
  | nil => exact ⟨_, rfl⟩
  | cons item items ih =>
    rw [keys_cons, mem_cons, not_or] at hitems
    by_cases hattr : item.1 ∈ attrsAllowedToUpdate
    · rw [update_cons_of_ok (setOne_detached_attribute hattr item.2 asset stored)]
      apply ih hitems.2
      rw [fields_setattr (Ne.symm hitems.1), hflds]
    · obtain ⟨entries, hents⟩ := exists_of_isDict hflds
      rw [update_cons_of_ok (setOne_detached_entry hattr item.2 hents stored)]
      exact ih hitems.2 _ rfl

/-- After the fields were set to what is no dictionary, an update that does not set them again
returns just if it sets attributes only.  The document keeps what it has. -/
theorem update_detached (hflds : asset.fields.isDict = false) (stored : AssetValue) :
    ((∀ item ∈ items, item.1 ∈ attrsAllowedToUpdate) ∧
      ∃ updated, update items (detached asset stored) = .ok () updated) ∨
    (∃ item ∈ items, item.1 ∉ attrsAllowedToUpdate) ∧
      ∃ final, update items (detached asset stored) = .error .typeError (detached final stored) := by
  induction items generalizing asset with
  | nil => exact .inl ⟨forall_mem_nil _, _, rfl⟩
  | cons item items ih =>
    rw [keys_cons, mem_cons, not_or] at hitems
    by_cases hattr : item.1 ∈ attrsAllowedToUpdate
    · rw [update_cons_of_ok (setOne_detached_attribute hattr item.2 asset stored)]
      have hkept : (asset.setattr item.1 item.2).fields.isDict = false := by
        rw [fields_setattr (Ne.symm hitems.1), hflds]
      rcases ih hitems.2 _ hkept with ⟨hall, hret⟩ | ⟨⟨other, hmem, hoth⟩, hraises⟩
      · exact .inl ⟨forall_mem_cons.mpr ⟨hattr, hall⟩, hret⟩
      · exact .inr ⟨⟨other, mem_cons_of_mem _ hmem, hoth⟩, hraises⟩
    · have hrais := setOne_raises hattr item.2 (detached asset stored) hflds
      exact .inr ⟨⟨item, mem_cons_self, hattr⟩, asset, update_cons_of_error hrais items⟩

end

/-- The entries that are set in a dictionary by the items that are no attributes. -/
def writes : AttrItems → Entries AssetAtom → Entries AssetAtom
  | [], entries => entries
  | item :: items, entries =>
    writes items (if item.1 ∈ attrsAllowedToUpdate then entries else Entries.set item.1 item.2 entries)

theorem stored_of_raised {items : AttrItems} (hnod : items.NodupKeys) {asset : AssetMetadata}
    {error : StoreError} {final : LoadedAsset}
    (hrais : update items (attached asset) = .error error final) :
    (asset.fields.isDict = false ∧ final.stored = asset.fields) ∨
    ∃ entries before value after, asset.fields = .dict entries ∧
      items = before ++ ⟨"fields", value⟩ :: after ∧ value.isDict = false ∧
      (∃ item ∈ after, item.1 ∉ attrsAllowedToUpdate) ∧ final.stored = .dict (writes before entries) := by
  induction items generalizing asset with
  | nil => cases hrais
  | cons item items ih =>
    obtain ⟨attr, value⟩ := item
    obtain ⟨hnew, hrest⟩ := nodupKeys_cons.mp hnod
    by_cases hflds : attr = "fields"
    · subst hflds
      rw [update_cons_of_ok (setOne_fields value asset)] at hrais
      have hval : value.isDict = false := by
        by_contra hdict
        obtain ⟨updated, hretu⟩ := update_detached_dict hnew
          (asset.setattr "fields" value) (not_eq_false _ ▸ hdict) asset.fields
        rw [hretu] at hrais
        cases hrais
      rcases update_detached hnew (asset.setattr "fields" value) hval asset.fields with
        ⟨-, updated, hretu⟩ | ⟨hent, last, hlast⟩
      · rw [hretu] at hrais
        cases hrais
      · rw [hlast] at hrais
        injection hrais with _ hfinal
        subst hfinal
        cases hdict : asset.fields.isDict with
        | false => exact .inl ⟨rfl, rfl⟩
        | true =>
          obtain ⟨entries, hents⟩ := exists_of_isDict hdict
          exact .inr ⟨entries, [], value, items, hents, rfl, hval, hent, hents⟩
    · by_cases hattr : attr ∈ attrsAllowedToUpdate
      · rw [update_cons_of_ok (setOne_attribute hattr hflds value asset)] at hrais
        have hkept := fields_setattr hflds value asset
        rcases ih hrest hrais with ⟨hdict, hsto⟩ | ⟨entries, before, replaced, after, hents, rfl, hval, hent, hsto⟩
        · rw [hkept] at hdict hsto
          exact .inl ⟨hdict, hsto⟩
        · refine .inr ⟨entries, ⟨attr, value⟩ :: before, replaced, after, hkept ▸ hents, rfl, hval, hent, ?_⟩
          rw [hsto, writes, if_pos hattr]
      · cases hdict : asset.fields.isDict with
        | false =>
          rw [update_cons_of_error (setOne_raises hattr value (attached asset) hdict)] at hrais
          injection hrais with _ hfinal
          subst hfinal
          exact .inl ⟨rfl, rfl⟩
        | true =>
          obtain ⟨entries, hents⟩ := exists_of_isDict hdict
          rw [update_cons_of_ok (setOne_entry hattr value hents)] at hrais
          rcases ih hrest hrais with ⟨hdict, -⟩ | ⟨written, before, replaced, after, hwrt, rfl, hval, hent, hsto⟩
          · cases hdict
          · refine .inr ⟨entries, ⟨attr, value⟩ :: before, replaced, after, hents, rfl, hval, hent, ?_⟩
            injection hwrt with hwrt
            rw [hsto, writes, if_neg hattr, ← hwrt]

theorem update_raises_of_split {before after : AttrItems} {value : AssetValue}
    (hnod : (before ++ ⟨"fields", value⟩ :: after).NodupKeys) (hval : value.isDict = false)
    (hent : ∃ item ∈ after, item.1 ∉ attrsAllowedToUpdate) (asset : AssetMetadata) :
    ∃ error final, update (before ++ ⟨"fields", value⟩ :: after) (attached asset) = .error error final := by
  induction before generalizing asset with
  | nil =>
    have hnew := (nodupKeys_cons.mp hnod).1
    rw [nil_append, update_cons_of_ok (setOne_fields value asset)]
    rcases update_detached hnew (asset.setattr "fields" value) hval asset.fields with
      ⟨hall, -⟩ | ⟨-, last, hlast⟩
    · obtain ⟨item, hitem, hnot⟩ := hent
      exact absurd (hall item hitem) hnot
    · exact ⟨_, _, hlast⟩
  | cons item before ih =>
    obtain ⟨hnew, hrest⟩ := nodupKeys_cons.mp hnod
    have hflds : item.1 ≠ "fields" := fun heq => hnew (by simp [heq, List.keys])
    rw [cons_append]
    by_cases hattr : item.1 ∈ attrsAllowedToUpdate
    · rw [update_cons_of_ok (setOne_attribute hattr hflds item.2 asset)]
      exact ih hrest _
    · cases hdict : asset.fields.isDict with
      | false => exact ⟨_, _, update_cons_of_error (setOne_raises hattr item.2 (attached asset) hdict) _⟩
      | true =>
        obtain ⟨entries, hents⟩ := exists_of_isDict hdict
        rw [update_cons_of_ok (setOne_entry hattr item.2 hents)]
        exact ih hrest _

theorem writes_eq_self {entries : Entries AssetAtom}
    (hitems : ∀ item ∈ items, item.1 ∉ attrsAllowedToUpdate → Entries.get item.1 entries = some item.2) :
    writes items entries = entries := by
  induction items with
  | nil => rfl
  | cons item items ih =>
    obtain ⟨hitem, hitems⟩ := forall_mem_cons.mp hitems
    unfold writes
    split
    · exact ih hitems
    · next hattr => rw [set_get (hitem hattr), ih hitems]

theorem get_writes_of_notMem {key : String} (hkey : key ∉ items.keys)
    (entries : Entries AssetAtom) : Entries.get key (writes items entries) = Entries.get key entries := by
  induction items generalizing entries with
  | nil => rfl
  | cons item items ih =>
    rw [keys_cons, mem_cons, not_or] at hkey
    unfold writes
    rw [ih hkey.2]
    split
    · rfl
    · exact get_set_of_ne hkey.1 item.2 entries

theorem get_writes (hnod : items.NodupKeys) {item : Sigma fun _ : String => AssetValue}
    (hitem : item ∈ items) (hattr : item.1 ∉ attrsAllowedToUpdate) (entries : Entries AssetAtom) :
    Entries.get item.1 (writes items entries) = some item.2 := by
  induction items generalizing entries with
  | nil => cases hitem
  | cons first items ih =>
    obtain ⟨hnew, hrest⟩ := nodupKeys_cons.mp hnod
    unfold writes
    rcases mem_cons.mp hitem with rfl | hitem
    · rw [if_neg hattr, get_writes_of_notMem hnew, get_set_self]
    · exact ih hrest hitem _

theorem split_unique {before before' after after' : AttrItems} {name : String} {value value' : AssetValue}
    (hnod : (before ++ ⟨name, value⟩ :: after).NodupKeys)
    (hspl : before ++ ⟨name, value⟩ :: after = before' ++ ⟨name, value'⟩ :: after') :
    before = before' := by
  induction before generalizing before' with
  | nil =>
    cases before' with
    | nil => rfl
    | cons item before' =>
      obtain ⟨rfl, rfl⟩ := cons.inj hspl
      exact absurd (by simp [List.keys]) (nodupKeys_cons.mp hnod).1
  | cons item before ih =>
    cases before' with
    | nil =>
      obtain ⟨rfl, -⟩ := cons.inj hspl
      exact absurd (by simp [List.keys]) (nodupKeys_cons.mp hnod).1
    | cons item' before' =>
      obtain ⟨rfl, hrest⟩ := cons.inj hspl
      rw [ih (nodupKeys_cons.mp hnod).2 hrest]

section

variable (hnod : items.NodupKeys) {asset : AssetMetadata}
include hnod

theorem stored_eq_iff {error : StoreError} {final : LoadedAsset}
    (hrais : update items (attached asset) = .error error final) :
    final.stored = asset.fields ↔ ¬ Torn items asset.fields := by
  rcases stored_of_raised hnod hrais with ⟨hdict, hsto⟩ | ⟨entries, before, value, after, hents, rfl, hval, hent, hsto⟩
  · refine iff_of_true hsto ?_
    rintro ⟨_, _, _, -, -, -, entries, hents, -⟩
    rw [hents] at hdict
    cases hdict
  · have hbef : before.NodupKeys := (List.NodupKeys.sublist (List.sublist_append_left _ _) hnod)
    rw [hsto, hents]
    constructor
    · rintro heq ⟨before', value', after', hspl, -, -, entries', hents', item, hitem, hattr, hnew⟩
      obtain rfl := split_unique hnod hspl
      injection heq with heq
      injection hents' with hents'
      subst hents'
      rw [← heq, get_writes hbef hitem hattr] at hnew
      exact hnew rfl
    · intro htorn
      refine congrArg Document.dict (writes_eq_self fun item hitem hattr => ?_)
      by_contra hnew
      exact htorn ⟨before, value, after, rfl, hval, hent, entries, rfl, item, hitem, hattr, hnew⟩

theorem not_torn_of_returned {updated : LoadedAsset} (hretu : update items (attached asset) = .ok () updated)
    (fields : AssetValue) : ¬ Torn items fields := by
  rintro ⟨before, value, after, rfl, hval, hent, -⟩
  obtain ⟨error, final, hrais⟩ := update_raises_of_split hnod hval hent asset
  rw [hretu] at hrais
  cases hrais

end

theorem assetId_setOne (attr : String) (value : AssetValue) (asset : LoadedAsset) :
    (after (setOne attr value) asset).metadata.assetId = asset.metadata.assetId := by
  unfold after setOne
  split
  · next hset =>
      split at hset
      · injection hset with _ hset
        rw [← hset]
        exact assetId_setattr attr value asset.metadata
      · split at hset
        · injection hset with _ hset
          rw [← hset]
        · cases hset
  · next hset =>
      split at hset
      · cases hset
      · split at hset
        · cases hset
        · injection hset with _ hset
          rw [hset]

theorem assetId_update (items : AttrItems) (asset : LoadedAsset) :
    (after (update items) asset).metadata.assetId = asset.metadata.assetId := by
  induction items generalizing asset with
  | nil => rfl
  | cons item items ih =>
    have hitem := assetId_setOne item.1 item.2 asset
    cases hset : setOne item.1 item.2 asset with
    | ok result middle =>
      rw [after_of_ok hset] at hitem
      rw [after, update_cons_of_ok hset, ← hitem]
      exact ih middle
    | error error middle =>
      rw [after, hset] at hitem
      rw [after, update_cons_of_error hset, ← hitem]

end LoadedAsset

end EdxPlatform.Split
