import Mathlib.Algebra.Ring.Nat
import Mathlib.Data.Sum.Order
import EdxPlatform.Split.AssetRuns

/-!
# Pages of assets

The assets of a course are listed in pages of a sorted list.  Dates and other values do not compare.
-/

namespace EdxPlatform.Split

open AssetMetadata AssetDocument

inductive SortOrder where
  | ascending
  | descending
  deriving DecidableEq

/-- The numbers from `first` on by the steps of `step`, as far as `last` is not reached. -/
def xrange (first last step : Int) : List Int :=
  let count := if 0 < step then (last - first + step - 1) / step else (first - last - step - 1) / -step
  (List.range count.toNat).map fun index : Nat => first + index * step

/-- `values[index]`; a negative index counts from the end. -/
def getItemAt {α : Type} (values : List α) (index : Int) : Except StoreError α :=
  let position := if 0 ≤ index then index else values.length + index
  match if 0 ≤ position then values[position.toNat]? else none with
  | some value => .ok value
  | none => .error .indexError

/-! ## Sorted lists of all assets -/

variable {κ : Type} {α : Type}

section Listing

variable [LinearOrder κ] (names : SortedLists AssetDocument String)
  (dates : SortedLists AssetDocument (Timestamp ⊕ₗ κ)) (rank : AssetValue → κ)

def AssetDocument.hasDate (document : AssetDocument) : Bool :=
  match document.editInfo.editedOn with
  | .atom (.dateTime _) => true
  | _ => false

def AssetDocument.uploadDate (document : AssetDocument) : Timestamp ⊕ₗ κ :=
  match document.editInfo.editedOn with
  | .atom (.dateTime time) => toLex (.inl time)
  | value => toLex (.inr (rank value))

/-- To compare a date with anything else raises `TypeError`. -/
def comparable (documents : List AssetDocument) : Bool :=
  documents.all (·.hasDate) || documents.all (!·.hasDate)

/-- `update`, of a list that is sorted by upload date. -/
def updateByDate (allAssets added : List AssetDocument) : Except StoreError (List AssetDocument) :=
  if comparable (allAssets ++ added) then
    .ok (dates.update (AssetDocument.uploadDate rank) allAssets added)
  else .error .typeError

def typedAssets (courseAssets : CourseAssets) : Option String → List (List AssetDocument)
  | none => courseAssets.entries.map fun entry => entry.2
  | some assetType => [(courseAssets.lookup assetType).getD []]

def sortAssets (courseAssets : CourseAssets) (assetType : Option String) (sortBy : Option String) :
    Except StoreError (List AssetDocument) :=
  if sortBy = some "uploadDate" then
    (typedAssets courseAssets assetType).foldlM (updateByDate dates rank) []
  else
    .ok ((typedAssets courseAssets assetType).foldl (names.update AssetDocument.filename) [])

def pageIndices (numAssets start maxresults : Int) (order : SortOrder) : List Int :=
  let endIdx := if maxresults < 0 then numAssets else min numAssets (start + maxresults)
  match order with
  | .ascending => xrange start endIdx 1
  | .descending => xrange (numAssets - 1 - start) (numAssets - 1 - endIdx) (-1)

section

variable (courseKey : CourseLocator)

def AssetMetadata.ofRaw (document : AssetDocument) : AssetMetadata :=
  fromStorable { courseKey := courseKey, assetType := document.assetType, path := document.filename } document

def listAssets (courseAssets : CourseAssets) (assetType : Option String)
    (start maxresults : Int) (sort : Option (String × SortOrder)) : Except StoreError (List AssetMetadata) := do
  let sortOrder := (sort.map Prod.snd).getD .ascending
  let allAssets ← sortAssets names dates rank courseAssets assetType (sort.map Prod.fst)
  (pageIndices allAssets.length start maxresults sortOrder).mapM fun idx => do
    let document ← getItemAt allAssets idx
    pure (ofRaw courseKey document)

def getAllAssetMetadata (assetType : Option String) (start maxresults : Int)
    (sort : Option (String × SortOrder)) : StoreM (List AssetMetadata) := do
  let courseAssets ← findCourseAssets courseKey
  match listAssets names dates rank courseKey courseAssets assetType start maxresults sort with
  | .ok assets => pure assets
  | .error error => throw error

end

def fetchPages (courseKey : CourseLocator) (assetType : Option String) (sort : Option (String × SortOrder)) :
    Int → List Nat → StoreM (List AssetMetadata)
  | _, [] => pure []
  | start, size :: sizes => do
    let first ← getAllAssetMetadata names dates rank courseKey assetType start size sort
    let rest ← fetchPages courseKey assetType sort (start + size) sizes
    pure (first ++ rest)

end Listing

/-! ## Pages of a list -/

/-- The elements from `start` on, at most `maxresults` unless that is negative. -/
def page {α : Type} (start maxresults : Int) (values : List α) : List α :=
  if maxresults < 0 then values.drop start.toNat
  else (values.drop start.toNat).take maxresults.toNat

theorem xrange_up (first last : Int) :
    xrange first last 1 = (List.range (last - first).toNat).map fun index : Nat => first + index := by
  simp [xrange]

theorem xrange_down (first last : Int) :
    xrange first last (-1) = (List.range (first - last).toNat).map fun index : Nat => first - index := by
  have hcnt : (first - last - -1 - 1) / - -1 = first - last := by
    rw [show (- -1 : Int) = 1 from rfl, Int.ediv_one]
    omega
  unfold xrange
  rw [if_neg (by decide), hcnt]
  refine map_congr_left fun index _ => ?_
  omega

variable {values : List α}

section

variable {index : Nat} {value : α}

theorem getItemAt_ok (hval : values[index]? = some value) : getItemAt values index = .ok value := by
  simp [getItemAt, hval]

theorem getItemAt_reverse (hval : values.reverse[index]? = some value) :
    getItemAt values (values.length - 1 - index) = .ok value := by
  have hidx : index < values.length := by
    rw [← List.length_reverse]
    exact (getElem?_eq_some_iff.mp hval).1
  have hpos : (values.length : Int) - 1 - index = ((values.length - 1 - index : Nat) : Int) := by
    omega
  rw [hpos]
  apply getItemAt_ok
  rw [← hval, List.getElem?_reverse hidx]

end

def SortOrder.arrange {α : Type} (values : List α) : SortOrder → List α
  | .ascending => values
  | .descending => values.reverse

section Pages

variable {start : Int}

theorem length_page (hst : 0 ≤ start) (maxresults : Int) (values : List α) : (page start maxresults values).length =
      ((if maxresults < 0 then (values.length : Int) else min values.length (start + maxresults)) - start).toNat := by
  unfold page
  split
  · rw [length_drop]
    omega
  · rw [List.length_take, length_drop]
    omega

theorem getElem?_of_mem_page {entry : α × Nat} {maxresults : Int}
    (hent : entry ∈ (page start maxresults values).zipIdx) : values[start.toNat + entry.2]? = some entry.1 := by
  have hfnd := List.mem_zipIdx_iff_getElem?.mp hent
  unfold page at hfnd
  split at hfnd
  · rwa [List.getElem?_drop] at hfnd
  · rw [getElem?_take] at hfnd
    split at hfnd
    · rwa [List.getElem?_drop] at hfnd
    · cases hfnd

/-- Where the element with the given number of a page stands in the sorted list. -/
def SortOrder.position (numAssets start : Int) (order : SortOrder) (index : Nat) : Int :=
  match order with
  | .ascending => start + index
  | .descending => numAssets - 1 - start - index

theorem pageIndices_eq (hst : 0 ≤ start) (maxresults : Int) (order : SortOrder) :
    pageIndices values.length start maxresults order =
      ((page start maxresults (order.arrange values)).zipIdx.map Prod.snd).map
        (order.position values.length start) := by
  rw [List.zipIdx_map_snd, ← List.range_eq_range', length_page hst]
  cases order with
  | ascending => exact xrange_up _ _
  | descending =>
    unfold pageIndices SortOrder.arrange SortOrder.position
    simp only [xrange_down, List.length_reverse]
    congr 2
    omega

theorem getItemAt_position (hst : 0 ≤ start) {order : SortOrder} {index : Nat} {value : α}
    (hval : (order.arrange values)[start.toNat + index]? = some value) :
    getItemAt values (order.position values.length start index) = .ok value := by
  cases order with
  | ascending =>
    have hpos : SortOrder.ascending.position values.length start index = ((start.toNat + index : Nat) : Int) := by
      change start + (index : Int) = _
      omega
    rw [hpos]
    exact getItemAt_ok hval
  | descending =>
    have hpos : SortOrder.descending.position values.length start index =
        (values.length : Int) - 1 - ((start.toNat + index : Nat) : Int) := by
      change (values.length : Int) - 1 - start - (index : Int) = _
      omega
    rw [hpos]
    exact getItemAt_reverse hval

theorem mapM_pageIndices {β : Type} (hst : 0 ≤ start) (maxresults : Int) (order : SortOrder) (convert : α → β) :
    ((pageIndices values.length start maxresults order).mapM fun idx => do
      let value ← getItemAt values idx
      pure (convert value)) = Except.ok ((page start maxresults (order.arrange values)).map convert) := by
  have hitem : ∀ entry ∈ (page start maxresults (order.arrange values)).zipIdx,
      (do
        let value ← getItemAt values (order.position values.length start entry.2)
        pure (convert value)) = Except.ok (convert entry.1) := by
    intro entry hent
    rw [getItemAt_position hst (getElem?_of_mem_page hent)]
    rfl
  have hele := zipIdx_map_fst 0 (page start maxresults (order.arrange values))
  rw [pageIndices_eq hst, map_map]
  refine (mapM_map_ok hitem).trans ?_
  rw [← hele, map_map, hele]
  rfl

theorem page_append {size : Nat} (hst : 0 ≤ start) :
    page start size values ++ values.drop (start + size).toNat = values.drop start.toNat := by
  have hsum : (start + size).toNat = start.toNat + size := by omega
  unfold page
  rw [if_neg (by omega), hsum, Int.toNat_natCast, ← List.drop_drop, take_append_drop]

end Pages

section Sorted

variable [LinearOrder κ] {names : SortedLists AssetDocument String}
  {dates : SortedLists AssetDocument (Timestamp ⊕ₗ κ)} {rank : AssetValue → κ} {documents others : List AssetDocument}

theorem comparable_of_subset (hcmp : comparable others = true) (hsub : documents ⊆ others) :
    comparable documents = true := by
  unfold comparable at hcmp ⊢
  rw [or_eq_true, all_eq_true, all_eq_true] at hcmp ⊢
  exact hcmp.imp (fun hall document hmem => hall document (hsub hmem))
    fun hall document hmem => hall document (hsub hmem)

theorem comparable_congr (hperm : documents.Perm others) : comparable documents = comparable others := by
  rw [eq_iff_iff]
  exact ⟨fun h => comparable_of_subset h hperm.symm.subset, fun h => comparable_of_subset h hperm.subset⟩

theorem foldl_update {α ρ : Type} [LinearOrder ρ] {lists : SortedLists α ρ} (hls : lists.Documented)
    (key : α → ρ) (added : List (List α)) {values : List α} (hvals : SortedBy key values) :
    SortedBy key (added.foldl (lists.update key) values) ∧
      (added.foldl (lists.update key) values).Perm (values ++ added.flatten) := by
  induction added generalizing values with
  | nil => exact ⟨hvals, by rw [flatten_nil, append_nil]; exact List.Perm.refl values⟩
  | cons first added ih =>
    obtain ⟨hsor, hperm⟩ := hls.update key values first hvals
    obtain ⟨hfinal, hall⟩ := ih hsor
    refine ⟨hfinal, hall.trans ?_⟩
    rw [List.flatten_cons, ← append_assoc]
    exact hperm.append_right added.flatten

/-- Updates of a list that is sorted by upload date raise if a date is to be compared with another value. -/
theorem foldlM_updateByDate (hdates : dates.Documented) (rank : AssetValue → κ) (added : List (List AssetDocument))
    {values : List AssetDocument} (hvals : SortedBy (uploadDate rank) values)
    (hcmp : comparable values = true) :
    added.foldlM (updateByDate dates rank) values = if comparable (values ++ added.flatten) then
        .ok (added.foldl (dates.update (uploadDate rank)) values)
      else .error .typeError := by
  induction added generalizing values with
  | nil =>
    rw [flatten_nil, append_nil, hcmp]
    rfl
  | cons first added ih =>
    rw [foldlM_cons, List.flatten_cons, foldl_cons, ← append_assoc]
    unfold updateByDate
    obtain ⟨hsor, hperm⟩ := hdates.update (uploadDate rank) values first hvals
    cases hfst : comparable (values ++ first) with
    | true =>
      have hkept : comparable (dates.update (uploadDate rank) values first) = true := by
        rw [comparable_congr hperm, hfst]
      have hrest := ih hsor hkept
      rw [comparable_congr (hperm.append_right added.flatten)] at hrest
      exact hrest
    | false =>
      have hall : comparable (values ++ first ++ added.flatten) = false := by
        by_contra h
        rw [comparable_of_subset (not_eq_false _ ▸ h) (List.subset_append_left _ _)] at hfst
        cases hfst
      rw [hall]
      rfl

def selected (courseAssets : CourseAssets) (assetType : Option String) : List AssetDocument :=
  (typedAssets courseAssets assetType).flatten

def SortedAs (rank : AssetValue → κ) (sortBy : Option String) (values : List AssetDocument) : Prop :=
  if sortBy = some "uploadDate" then SortedBy (AssetDocument.uploadDate rank) values
  else SortedBy AssetDocument.filename values

theorem sortAssets_spec (hnames : names.Documented) (hdates : dates.Documented) (rank : AssetValue → κ)
    (courseAssets : CourseAssets) (assetType sortBy : Option String) :
    if sortBy = some "uploadDate" → comparable (selected courseAssets assetType) = true then
      ∃ values, sortAssets names dates rank courseAssets assetType sortBy = .ok values ∧
        SortedAs rank sortBy values ∧ values.Perm (selected courseAssets assetType)
    else sortAssets names dates rank courseAssets assetType sortBy = .error .typeError := by
  unfold sortAssets SortedAs
  by_cases hsort : sortBy = some "uploadDate"
  · have hrun := foldlM_updateByDate hdates rank (typedAssets courseAssets assetType) List.Pairwise.nil rfl
    rw [nil_append] at hrun
    rw [if_pos hsort, hrun]
    simp only [hsort, forall_const, if_true]
    obtain ⟨hsor, hperm⟩ := foldl_update hdates (uploadDate rank)
      (typedAssets courseAssets assetType) List.Pairwise.nil
    unfold selected
    split
    · exact ⟨_, rfl, hsor, hperm⟩
    · rfl
  · simp only [hsort, false_implies, if_true, if_false]
    obtain ⟨hsor, hperm⟩ := foldl_update hnames filename
      (typedAssets courseAssets assetType) List.Pairwise.nil
    exact ⟨_, rfl, hsor, hperm⟩

end Sorted

/-! ## Pages of the assets of a course -/

def SortOrder.Before {α κ : Type} [LinearOrder κ] (key : α → κ) (first second : α) : SortOrder → Prop
  | .ascending => key first ≤ key second
  | .descending => key second ≤ key first

/-- The order of the assets in a list: by file name unless it is by upload date. -/
def Ordered {κ : Type} [LinearOrder κ] (rank : AssetValue → κ) (sort : Option (String × SortOrder))
    (documents : List AssetDocument) : Prop :=
  let order := (sort.map Prod.snd).getD .ascending
  if sort.map Prod.fst = some "uploadDate" then
    documents.Pairwise fun first second => order.Before (AssetDocument.uploadDate rank) first second
  else documents.Pairwise fun first second => order.Before AssetDocument.filename first second

/-- The calls return the pages of one list of all the assets that are selected, in order. -/
structure ListsPages {κ : Type} [LinearOrder κ] (names : SortedLists AssetDocument String)
    (dates : SortedLists AssetDocument (Timestamp ⊕ₗ κ)) (rank : AssetValue → κ) (store : Store)
    (courseKey : CourseLocator) (courseAssets : CourseAssets) (assetType : Option String)
    (sort : Option (String × SortOrder)) (full : List AssetDocument) : Prop where
  all : full.Perm (selected courseAssets assetType)
  ordered : Ordered rank sort full
  page : ∀ start maxresults, 0 ≤ start → ∃ next,
    getAllAssetMetadata names dates rank courseKey assetType start maxresults sort store =
      .ok ((page start maxresults full).map (ofRaw courseKey)) next
  pages : ∀ sizes : List Nat, full.length ≤ sizes.sum → ∃ next,
    fetchPages names dates rank courseKey assetType sort 0 sizes store = .ok (full.map (ofRaw courseKey)) next

section Course

variable {names : SortedLists AssetDocument String}
  {dates : SortedLists AssetDocument (Timestamp ⊕ₗ κ)} {rank : AssetValue → κ} {store : Store}
  {courseKey : CourseLocator} {envelope : ObjectId × Structure} {assetType : Option String}
  {sort : Option (String × SortOrder)}

theorem findCourseAssets_run (hfinds : store.Finds courseKey envelope) :
    ∃ next, findCourseAssets courseKey store = .ok envelope.2.assets next ∧ Loads store next := by
  obtain ⟨next, hlook, hlds⟩ := lookupCourse_finds hfinds
  refine ⟨next, ?_, hlds⟩
  unfold findCourseAssets
  rw [hlook]

theorem Store.Finds.loads {next : Store} (hfinds : store.Finds courseKey envelope) (hlds : Loads store next) :
    next.Finds courseKey envelope where
  found := by rw [hlds.envelope, hfinds.found]
  version := hfinds.version

variable {values : List AssetDocument}

theorem getAllAssetMetadata_page (hfinds : store.Finds courseKey envelope)
    (hvals : sortAssets names dates rank envelope.2.assets assetType (sort.map Prod.fst) = .ok values)
    {start : Int} (hst : 0 ≤ start) (maxresults : Int) :
    ∃ next, getAllAssetMetadata names dates rank courseKey assetType start maxresults sort store =
        .ok ((EdxPlatform.Split.page start maxresults
          (((sort.map Prod.snd).getD .ascending).arrange values)).map (ofRaw courseKey)) next ∧
      Loads store next := by
  obtain ⟨next, hrun, hlds⟩ := findCourseAssets_run hfinds
  refine ⟨next, ?_, hlds⟩
  have hlist : listAssets names dates rank courseKey envelope.2.assets assetType start maxresults sort =
      .ok ((EdxPlatform.Split.page start maxresults
        (((sort.map Prod.snd).getD .ascending).arrange values)).map (ofRaw courseKey)) := by
    unfold listAssets
    rw [hvals]
    exact mapM_pageIndices hst maxresults _ (ofRaw courseKey)
  unfold getAllAssetMetadata
  rw [run_bind, hrun]
  simp only [hlist]
  rfl

theorem length_arrange {α : Type} (order : SortOrder) (values : List α) :
    (order.arrange values).length = values.length := by
  cases order with
  | ascending => rfl
  | descending => exact List.length_reverse

theorem fetchPages_run (hfinds : store.Finds courseKey envelope)
    (hvals : sortAssets names dates rank envelope.2.assets assetType (sort.map Prod.fst) = .ok values)
    (sizes : List Nat) {start : Int} (hst : 0 ≤ start)
    (hsizes : (values.length : Int) ≤ start + sizes.sum) :
    ∃ next, fetchPages names dates rank courseKey assetType sort start sizes store =
      .ok (((((sort.map Prod.snd).getD .ascending).arrange values).drop start.toNat).map (ofRaw courseKey)) next := by
  induction sizes generalizing start store with
  | nil =>
    rw [List.drop_eq_nil_of_le]
    · exact ⟨store, rfl⟩
    · rw [length_arrange]
      simp only [sum_nil] at hsizes
      omega
  | cons size sizes ih =>
    obtain ⟨middle, hfst, hlds⟩ := getAllAssetMetadata_page hfinds hvals hst (size : Int)
    rw [sum_cons] at hsizes
    obtain ⟨next, hrest⟩ := ih (hfinds.loads hlds) (show 0 ≤ start + (size : Int) by omega) (by omega)
    refine ⟨next, ?_⟩
    unfold fetchPages
    rw [run_bind, hfst]
    simp only
    rw [run_bind, hrest, ← page_append hst, map_append]
    rfl

variable [LinearOrder κ]

theorem ordered_arrange (hsor : SortedAs rank (sort.map Prod.fst) values) :
    Ordered rank sort (((sort.map Prod.snd).getD .ascending).arrange values) := by
  unfold SortedAs at hsor
  unfold Ordered
  generalize (sort.map Prod.snd).getD SortOrder.ascending = order
  split at hsor
  · next hsort =>
      rw [if_pos hsort]
      cases order with
      | ascending => exact hsor
      | descending => exact List.pairwise_reverse.mpr hsor
  · next hsort =>
      rw [if_neg hsort]
      cases order with
      | ascending => exact hsor
      | descending => exact List.pairwise_reverse.mpr hsor

/-- The pages are those of one list of all assets in order just if the assets are not listed by
upload date or all upload dates compare. -/
theorem listsPages_iff (hnames : names.Documented) (hdates : dates.Documented)
    (hfinds : store.Finds courseKey envelope) (assetType : Option String) (sort : Option (String × SortOrder)) :
    (∃ full, ListsPages names dates rank store courseKey envelope.2.assets assetType sort full) ↔
      (sort.map Prod.fst = some "uploadDate" → comparable (selected envelope.2.assets assetType) = true) := by
  have hspec := sortAssets_spec hnames hdates rank envelope.2.assets assetType (sort.map Prod.fst)
  split at hspec
  · next hcomparable =>
      refine iff_of_true ?_ hcomparable
      obtain ⟨values, hvalues, hsorted, hperm⟩ := hspec
      refine ⟨((sort.map Prod.snd).getD .ascending).arrange values, ?_, ordered_arrange hsorted, ?_, ?_⟩
      · cases (sort.map Prod.snd).getD .ascending with
        | ascending => exact hperm
        | descending => exact (List.reverse_perm values).trans hperm
      · intro start maxresults hstart
        obtain ⟨next, hrun, -⟩ := getAllAssetMetadata_page hfinds hvalues hstart maxresults
        exact ⟨next, hrun⟩
      · intro sizes hsizes
        have hlength := length_arrange ((sort.map Prod.snd).getD .ascending) values
        exact fetchPages_run hfinds hvalues sizes (le_refl 0) (by omega)
  · next hcomparable =>
      refine iff_of_false ?_ hcomparable
      rintro ⟨full, hpages⟩
      obtain ⟨next, hrun⟩ := hpages.page 0 (-1) (le_refl 0)
      obtain ⟨found, hfound, -⟩ := findCourseAssets_run hfinds
      unfold getAllAssetMetadata at hrun
      rw [run_bind, hfound] at hrun
      simp only [listAssets, hspec] at hrun
      cases hrun

end Course

def image (filename : String) (editedOn : AssetAtom) : AssetDocument :=
  let edited := { logo with editedOn := .atom editedOn }
  { edited.toStorable with filename := filename }

section

variable (images : List AssetDocument)

def imagesDatabase : Database where
  activeVersions := (∅ : Dict CourseKey CourseIndex).insert "course"
    { id := 0, versions := (∅ : Dict Branch ObjectId).insert "draft-branch" 0 }
  structures := (∅ : Dict ObjectId Structure).insert 0
    { root := rootKey, blocks := ∅, assets := (∅ : Dict String _).insert "asset" images }
  nextObjectId := 1

def imagesEnvelope : ObjectId × Structure :=
  (0, { root := rootKey, blocks := ∅, assets := (∅ : Dict String _).insert "asset" images })

theorem images_found : (started (imagesDatabase images) "course").Finds draftLocator (imagesEnvelope images) where
  found := by
    simp only [Store.envelope, imagesDatabase, started, startBulk, draftLocator, Store.struct,
      SplitBulkWriteRecord.head, lookup_insert_self, if_pos]
    rfl
  version := fun _ hver => nomatch hver

end

theorem images_listed : ∃ full, ListsPages insertedLists insertedLists (fun _ => (0 : Nat))
      (started (imagesDatabase [image "a.png" (.dateTime 2), image "b.png" (.dateTime 1)]) "course")
      draftLocator (imagesEnvelope [image "a.png" (.dateTime 2), image "b.png" (.dateTime 1)]).2.assets
      none (some ("uploadDate", .descending)) full :=
  (listsPages_iff insertedLists_documented insertedLists_documented (images_found _) none _).mpr fun _ => rfl

/-- The second image has no upload date. -/
theorem images_not_listed : ¬ ∃ full, ListsPages insertedLists insertedLists (fun _ => (0 : Nat))
      (started (imagesDatabase [image "a.png" (.dateTime 2), image "b.png" .none]) "course")
      draftLocator (imagesEnvelope [image "a.png" (.dateTime 2), image "b.png" .none]).2.assets
      none (some ("uploadDate", .descending)) full := by
  rintro ⟨full, hpages⟩
  obtain ⟨next, hrun⟩ := hpages.page 0 (-1) (le_refl 0)
  obtain ⟨found, hfound, -⟩ := findCourseAssets_run (images_found [image "a.png" (.dateTime 2), image "b.png" .none])
  unfold getAllAssetMetadata at hrun
  rw [run_bind, hfound] at hrun
  cases hrun

end EdxPlatform.Split
