import EdxPlatform.DraftMongo.Publishing

/-!
# What publishing comes to

The subtree that is read is published, and what its drafts have dropped is removed.
-/

namespace EdxPlatform.DraftMongo

open Relation Collection Collection DocumentId

variable {Data : Type}

section

variable (collection : Collection Data)

def PublishedShows (parent child : Location) : Prop :=
  ∃ document, collection.published parent = some document ∧ child ∈ document.children

/-- What learners see is a forest. -/
structure PublishedForest (collection : Collection Data) : Prop where
  unique : ∀ parent other child, PublishedShows collection parent child →
    PublishedShows collection other child → parent = other
  acyclic : Acyclic (PublishedShows collection)

def DraftLists (child : Location) : Prop :=
  ∃ parent document, collection.draft parent = some document ∧ child ∈ document.children

/-- The child is in the published version of the block and no longer in its draft. -/
def Drops (location child : Location) : Prop :=
  ∃ original item, collection.published location = some original ∧
    collection.draft location = some item ∧ child ∈ original.children ∧ child ∉ item.children

def Below (root location : Location) : Prop := Relation.ReflTransGen (Shows collection) root location

/-- The roots, and what is published below them and not listed by a draft. -/
inductive Falls (collection : Collection Data) (roots : Location → Prop) : Location → Prop
  | root {location : Location} (hroot : roots location) : Falls collection roots location
  | child {parent child : Location} {document : Document Data} (habove : Falls collection roots parent)
      (hparent : collection.published parent = some document) (hlists : child ∈ document.children)
      (hfree : ¬ DraftLists collection child) : Falls collection roots child

def DroppedBy (chosen : Location → Prop) (child : Location) : Prop :=
  ∃ location, chosen location ∧ Drops collection location child

def DeletedInDraft (root : Location) : Location → Prop :=
  Falls collection fun child => DroppedBy collection (Below collection root) child ∧ ¬ DraftLists collection child

/-- The published blocks that go when the children that were dropped go, moved or not. -/
def Lost (root : Location) : Location → Prop := Falls collection (DroppedBy collection (Below collection root))

/-- The published blocks that have moved from where they were to another draft. -/
def MovedInDraft (root location : Location) : Prop :=
  collection.published location ≠ none ∧ DraftLists collection location ∧
    ∃ parent, PublishedShows collection parent location ∧
      (Below collection root parent ∧ Drops collection parent location ∨ DeletedInDraft collection root parent)

end

variable (queryParent : Location → Collection Data → Option DocumentId × Collection Data)

/-- What publishing promises: it returns, the subtree that was read is the published one and
has no drafts, what was deleted is gone and what was moved is there. -/
def Publishes (branchSetting : Branch) (root : Location) (store : Store Data) : Prop :=
  ∃ bound, ∀ fuel > bound, ∃ after, publish queryParent branchSetting fuel root store = some ⟨after, none⟩ ∧
    (∀ location, Below store.collection root location →
      after.draft location = none ∧ after.published location = store.collection.visible location) ∧
    (∀ location, DeletedInDraft store.collection root location →
      ¬ Below store.collection root location → after.published location = none) ∧
    ∀ location, MovedInDraft store.collection root location → after.published location ≠ none

/-- No child that a draft of the subtree has dropped is listed by another draft, except for
those that are nowhere to be published; and the root is not deleted in a draft below it. -/
structure Unmoved (collection : Collection Data) (root : Location) : Prop where
  moved : ∀ location child, Below collection root location → Drops collection location child →
    DraftLists collection child → collection.published child = none ∧ ¬ Below collection root child
  root : collection.draft root ≠ none ∨ ¬ DeletedInDraft collection root root

/-- No child that was dropped has moved within the subtree, and the root is not among them. -/
structure MovesLeave (collection : Collection Data) (root : Location) : Prop where
  leave : ∀ location child, Below collection root location → Drops collection location child →
    DraftLists collection child → ¬ Below collection root child
  root : ¬ Lost collection root root

/-- What makes the turns of the walk independent of each other. -/
structure Settled (collection : Collection Data) (root : Location) : Prop where
  leave : ∀ location child, Below collection root location → Drops collection location child →
    DraftLists collection child → ¬ Below collection root child
  root : (collection.draft root ≠ none ∧ ∀ child, Drops collection root child →
      DraftLists collection child → collection.published child = none) ∨ ¬ Lost collection root root

variable {queryParent} {before : Collection Data} {root : Location} {child location : Location}

theorem Drops.shows (hdrops : Drops before location child) : PublishedShows before location child := by
  obtain ⟨original, item, hpub, -, hls, -⟩ := hdrops
  exact ⟨original, hpub, hls⟩

theorem Drops.draft_ne (hdrops : Drops before location child) : before.draft location ≠ none := by
  obtain ⟨original, item, -, hdrf, -, -⟩ := hdrops
  exact ne_none_iff_exists'.mpr ⟨item, hdrf⟩

theorem Falls.mono {roots others : Location → Prop}
    (hfalls : Falls before roots location) (hsub : ∀ location, roots location → others location) :
    Falls before others location := by
  induction hfalls with
  | root hroot => exact Falls.root (hsub _ hroot)
  | child _ hpar hls hfree ih => exact ih.child hpar hls hfree

theorem MovesLeave.settled (hlvs : MovesLeave before root) : Settled before root := ⟨hlvs.leave, .inr hlvs.root⟩

theorem Unmoved.deleted_of_lost (hunm : Unmoved before root) (hlost : Lost before root location) :
    DeletedInDraft before root location ∨ before.published location = none ∧ ¬ Below before root location := by
  induction hlost with
  | @root child hroot =>
    obtain ⟨parent, hpar, hdrops⟩ := hroot
    by_cases hlis : DraftLists before child
    · exact .inr (hunm.moved parent child hpar hdrops hlis)
    · exact .inl (Falls.root ⟨⟨parent, hpar, hdrops⟩, hlis⟩)
  | child _ hpar hls hfree ih =>
    rcases ih with hdel | ⟨hnone, -⟩
    · exact .inl (hdel.child hpar hls hfree)
    · cases hnone.symm.trans hpar

theorem Unmoved.settled (hunm : Unmoved before root) : Settled before root where
  leave location child hbel hdrops hlis := (hunm.moved location child hbel hdrops hlis).2
  root := by
    rcases hunm.root with hdrf | hstays
    · refine .inl ⟨hdrf, fun child hdrops hlis => ?_⟩
      exact (hunm.moved root child ReflTransGen.refl hdrops hlis).1
    · refine .inr fun hlost => ?_
      rcases hunm.deleted_of_lost hlost with hdel | ⟨-, hoff⟩
      · exact hstays hdel
      · exact hoff ReflTransGen.refl

section

variable (hfor : PublishedForest before) (hsett : Settled before root) (hbel : Below before root location)
include hfor hsett hbel

theorem PublishedForest.eq_root_of_lost (hlost : Lost before root location) :
    location = root ∨ Lost before root root ∧ before.draft root = none := by
  induction hbel with
  | refl => exact .inl rfl
  | @tail parent location habove hshows ih =>
    have hloc := habove.tail hshows
    have hfree : ¬ DraftLists before location := by
      cases hlost with
      | root hroot =>
        obtain ⟨other, hoth, hdrops⟩ := hroot
        exact fun hlis => hsett.leave other location hoth hdrops hlis hloc
      | child _ _ _ hfree => exact hfree
    obtain ⟨document, hvisb, hls⟩ := hshows
    -- the parent has no draft, since it would list the location
    rcases or_eq_some_iff.mp hvisb with hdrf | ⟨hdrf, hpub⟩
    · exact absurd ⟨parent, document, hdrf, hls⟩ hfree
    · have hpar : Lost before root parent := by
        cases hlost with
        | root hroot =>
          obtain ⟨other, -, hdrops⟩ := hroot
          obtain rfl := hfor.unique parent other location ⟨document, hpub, hls⟩ hdrops.shows
          exact absurd hdrf hdrops.draft_ne
        | @child other _ otherDocument hoth hotherPublished hothe _ =>
          obtain rfl := hfor.unique parent other location ⟨document, hpub, hls⟩ ⟨otherDocument, hotherPublished, hothe⟩
          exact hoth
      rcases ih hpar with rfl | hroot
      · exact .inr ⟨hpar, hdrf⟩
      · exact .inr hroot

theorem Settled.not_lost (hloc : location ≠ root ∨ before.draft location = none) : ¬ Lost before root location := by
  intro hlost
  rcases hfor.eq_root_of_lost hsett hbel hlost with rfl | ⟨hroot, hdrf⟩
  · exact hsett.root.elim (fun hdrf => hdrf.1 (hloc.resolve_left (not_not.mpr rfl))) fun hstays => hstays hlost
  · exact hsett.root.elim (fun hne => hne.1 hdrf) fun hstays => hstays hroot

end

/-! ## Progress -/

/-- What publishing has done when it has come through some drafts: their documents are
published, and what falls with the roots is gone. -/
structure Progress (before : Collection Data) (done roots : Location → Prop)
    (collection : Collection Data) : Prop where
  draft : ∀ location, collection.draft location = before.draft location
  fresh : ∀ location, done location → collection.published location = before.draft location
  fallen : ∀ location, ¬ done location → Falls before roots location → collection.published location = none
  kept : ∀ location, ¬ done location → ¬ Falls before roots location →
    collection.published location = before.published location

variable {done roots others : Location → Prop} {collection : Collection Data}

theorem Progress.start (before : Collection Data) :
    Progress before (fun _ => False) (DroppedBy before fun _ => False) before where
  draft _ := rfl
  fresh _ := False.elim
  fallen location _ hfalls := by
    have hnone : ∀ {other}, Falls before (DroppedBy before fun _ => False) other → False := by
      intro other hoth
      induction hoth with
      | root hroot => exact hroot.choose_spec.1
      | child _ _ _ _ ih => exact ih
    exact (hnone hfalls).elim
  kept _ _ _ := rfl

theorem Progress.congr (hprog : Progress before done roots collection)
    (hmore : ∀ location, Falls before roots location → Falls before others location)
    (hless : ∀ location, Falls before others location →
      Falls before roots location ∨ before.published location = none) :
    Progress before done others collection where
  __ := hprog
  fallen location hdone hfalls := by
    by_cases hfall : Falls before roots location
    · exact hprog.fallen location hdone hfall
    · exact (hprog.kept location hdone hfall).trans ((hless location hfalls).resolve_left hfall)
  kept location hdone hfalls := hprog.kept location hdone fun hoth => hfalls (hmore location hoth)

theorem Progress.congr_roots (hprog : Progress before done roots collection)
    (hsame : ∀ location, roots location ↔ others location) : Progress before done others collection :=
  hprog.congr (fun _ hfalls => hfalls.mono fun other => (hsame other).mp)
    fun _ hfalls => .inl (hfalls.mono fun other => (hsame other).mpr)

variable {item : Document Data}

theorem Progress.insert (hprog : Progress before done roots collection) (hitem : before.draft location = some item) :
    Progress before (fun other => done other ∨ other = location) roots
      (collection.insert (asPublished location) item) := by
  have hpub : ∀ other, Collection.published (collection.insert (asPublished location) item) other =
      if other = location then some item else collection.published other := by
    intro other
    refine (lookup_insert _ _ _ _).trans ?_
    by_cases heq : other = location
    · exact (if_pos (congrArg asPublished heq)).trans (if_pos heq).symm
    · exact (if_neg fun hsame => heq (mk.inj hsame).1).trans (if_neg heq).symm
  constructor
  · intro other
    rw [← hprog.draft other]
    exact lookup_insert_of_ne (by simp [asPublished]) _ _
  · intro other hoth
    rw [hpub]
    by_cases heq : other = location
    · rw [if_pos heq, heq, hitem]
    · rw [if_neg heq, hprog.fresh other (hoth.resolve_right heq)]
  · intro other hoth hfalls
    obtain ⟨hdone, hne⟩ := not_or.mp hoth
    rw [hpub, if_neg hne, hprog.fallen other hdone hfalls]
  · intro other hoth hfalls
    obtain ⟨hdone, hne⟩ := not_or.mp hoth
    rw [hpub, if_neg hne, hprog.kept other hdone hfalls]

theorem Progress.published_eq (hprog : Progress before done roots collection)
    {document : Document Data} (hdone : ¬ done location)
    (hdoc : collection.published location = some document) :
    before.published location = some document ∧ ¬ Falls before roots location := by
  have hstays : ¬ Falls before roots location := by
    intro hfalls
    rw [hprog.fallen location hdone hfalls] at hdoc
    cases hdoc
  exact ⟨(hprog.kept location hdone hstays).symm.trans hdoc, hstays⟩

variable {bound : Nat} {rank : Location → Nat}

theorem Progress.plan (hprog : Progress before done roots collection) (hfor : PublishedForest before)
    (hrank : ∀ parent child, PublishedShows before parent child → rank parent < rank child)
    (hbound : ∀ location, rank location ≤ bound) :
    Plan collection asPublished false (fun child => ¬ DraftLists before child) rank bound := by
  -- a document that lists what no draft lists is an original one
  have horig : ∀ {parent child document}, collection.published parent = some document →
      child ∈ document.children → ¬ DraftLists before child → PublishedShows before parent child := by
    intro parent child document hpar hls hfree
    by_cases hdone : done parent
    · rw [hprog.fresh parent hdone] at hpar
      exact absurd ⟨parent, document, hpar, hls⟩ hfree
    · exact ⟨document, (hprog.published_eq hdone hpar).1, hls⟩
  constructor
  · exact fun parent => rfl
  · intro parent document child hpar hls deleted hdel hshape
    constructor
    · rintro hall ⟨draftParent, draft, hdrf, hdraf⟩
      have hmem : (⟨draftParent, .draft⟩ : DocumentId) ∈ deleted := hall _ (mem_getRawParentLocations.mpr
          ⟨⟨draft, (hprog.draft draftParent).trans hdrf, hdraf⟩, .inl rfl⟩)
      cases hshape _ hmem
    · intro hfree id hid
      obtain ⟨⟨other, hoth, hothe⟩, -⟩ := mem_getRawParentLocations.mp hid
      obtain ⟨location, revision⟩ := id
      cases revision with
      | draft => exact absurd ⟨location, other, (hprog.draft location).symm.trans hoth, hothe⟩ hfree
      | published =>
        obtain rfl := hfor.unique location parent child (horig hoth hothe hfree) (horig hpar hls hfree)
        exact hdel
  · exact fun parent document child hpar hls hfree => hrank parent child (horig hpar hls hfree)
  · exact fun location _ => hbound location

theorem Progress.deleted (hprog : Progress before done roots collection) {dropped : Location}
    (hstays : ∀ location, done location → ¬ Falls before (fun other => roots other ∨ other = dropped) location)
    {after : Collection Data}
    (hgone : ∀ location, Hangs collection asPublished (fun child => ¬ DraftLists before child)
      dropped location → after.published location = none)
    (hkept : ∀ id, (∀ location, Hangs collection asPublished (fun child => ¬ DraftLists before child)
      dropped location → id ≠ asPublished location) → after.lookup id = collection.lookup id) :
    Progress before done (fun other => roots other ∨ other = dropped) after := by
  have hnotDone : ∀ {location}, Falls before (fun other => roots other ∨ other = dropped) location →
      ¬ done location := fun hfalls hloc => hstays _ hloc hfalls
  have hfalls : ∀ {location}, Hangs collection asPublished (fun child => ¬ DraftLists before child)
      dropped location → Falls before (fun other => roots other ∨ other = dropped) location := by
    intro location hhangs
    induction hhangs with
    | top _ => exact Falls.root (.inr rfl)
    | child _ hpar hls hfree _ ih => exact ih.child (hprog.published_eq (hnotDone ih) hpar).1 hls hfree
  -- what falls and is still there hangs on the location
  have hhangs : ∀ {location}, Falls before (fun other => roots other ∨ other = dropped) location →
      Falls before roots location ∨ collection.published location = none ∨
        Hangs collection asPublished (fun child => ¬ DraftLists before child) dropped location := by
    intro location hfalls
    induction hfalls with
    | @root location hroot =>
      rcases hroot with hroot | rfl
      · exact .inl (Falls.root hroot)
      · by_cases hnone : collection.published location = none
        · exact .inr (.inl hnone)
        · exact .inr (.inr (Hangs.top hnone))
    | @child parent child document habove hpar hls hfree ih =>
      by_cases hfall : Falls before roots parent
      · exact .inl (hfall.child hpar hls hfree)
      · have hsto : collection.published parent = some document :=
          (hprog.kept parent (hnotDone habove) hfall).trans hpar
        rcases ih with hoth | hnone | hpare
        · exact absurd hoth hfall
        · rw [hnone] at hsto
          cases hsto
        · by_cases hnone : collection.published child = none
          · exact .inr (.inl hnone)
          · exact .inr (.inr (hpare.child hsto hls hfree hnone))
  have hsame : ∀ {location}, ¬ Hangs collection asPublished (fun child => ¬ DraftLists before child)
      dropped location → after.published location = collection.published location := by
    intro location hnot
    refine hkept _ fun other hoth heq => hnot ?_
    rwa [(mk.inj heq).1]
  constructor
  · intro location
    rw [← hprog.draft location]
    exact hkept _ fun other _ heq => by cases heq
  · intro location hloc
    rw [hsame fun hhangs => hnotDone (hfalls hhangs) hloc, hprog.fresh location hloc]
  · intro location hloc hfall
    by_cases hhan : Hangs collection asPublished (fun child => ¬ DraftLists before child) dropped location
    · exact hgone location hhan
    · rw [hsame hhan]
      rcases hhangs hfall with hoth | hnone | hoth
      · exact hprog.fallen location hloc hoth
      · exact hnone
      · exact absurd hoth hhan
  · intro location hloc hfall
    rw [hsame fun hhangs => hfall (hfalls hhangs)]
    exact hprog.kept location hloc fun hoth => hfall (hoth.mono fun _ => .inl)

variable {fuel : Nat} {itemLocation : Location} {store : Store Data}

theorem Progress.deleteDropped (hfor : PublishedForest before)
    (hrank : ∀ parent child, PublishedShows before parent child → rank parent < rank child)
    (hbound : ∀ location, rank location ≤ bound)
    (hfuel : bound + 1 < fuel) {children : List Location} {all : Location → Prop}
    (hstays : ∀ location, done location → ¬ Falls before all location)
    (origChildren : List Location) (hall : ∀ child ∈ origChildren, child ∉ children →
      all child) {roots : Location → Prop} (hroots : ∀ location, roots location → all location)
    (hcache : ∀ child ∈ origChildren, store.parentCache.lookup child = some (some (asPublished itemLocation)))
    (hprog : Progress before done roots store.collection) :
    ∃ after, deleteDropped queryParent fuel itemLocation children origChildren store = some after ∧
      Progress before done (fun other => roots other ∨ other ∈ origChildren ∧ other ∉ children)
        after.collection := by
  induction origChildren generalizing store roots with
  | nil => exact ⟨store, rfl, hprog.congr_roots fun other => by simp⟩
  | cons origChild origChildren ih =>
    have htail := fun child (hch : child ∈ origChildren) => mem_cons_of_mem origChild hch
    have hallRest := fun child hch => hall child (htail child hch)
    rw [DraftMongo.deleteDropped]
    by_cases hin : origChild ∈ children
    · obtain ⟨after, hrun, haft⟩ := ih hallRest hroots (fun child hch => hcache child (htail child hch)) hprog
      rw [if_pos hin]
      refine ⟨after, hrun, haft.congr_roots fun other => or_congr_right ?_⟩
      rw [mem_cons, or_and_right, or_iff_right]
      rintro ⟨rfl, hout⟩
      exact hout hin
    · have hrootsNext : ∀ location, (roots location ∨ location = origChild) → all location := by
        rintro location (hroot | rfl)
        · exact hroots location hroot
        · exact hall location mem_cons_self hin
      obtain ⟨middle, hdelete, hgone, hkept⟩ := (hprog.plan hfor hrank hbound).subtree hfuel origChild
      have hmid := hprog.deleted
        (fun location hdone hfalls => hstays location hdone (hfalls.mono hrootsNext)) hgone hkept
      have hcac : ∀ child ∈ origChildren, ({ store with collection := middle } : Store Data
          ).parentCache.lookup child = some (some (asPublished itemLocation)) :=
        fun child hch => hcache child (htail child hch)
      obtain ⟨after, hrun, haft⟩ := ih hallRest hrootsNext hcac hmid
      rw [if_neg hin, Store.getRawParentLocation, hcache origChild mem_cons_self]
      simp only [if_true, hdelete]
      refine ⟨after, hrun, haft.congr_roots fun other => ?_⟩
      rw [or_assoc, mem_cons, or_and_right]
      refine or_congr_right (or_congr_left (and_iff_left_of_imp ?_).symm)
      rintro rfl
      exact hin

theorem Store.lookup_setParents {parent : DocumentId} {children : List Location}
    (hch : child ∈ children) (store : Store Data) :
    (store.setParents parent children).parentCache.lookup child = some (some parent) := by
  have hfold : ∀ (children : List Location) (cache : Dict Location (Option DocumentId)),
      child ∈ children ∨ cache.lookup child = some (some parent) →
      (children.foldl (fun cache child => cache.insert child (some parent)) cache).lookup child =
        some (some parent) := by
    intro children
    induction children with
    | nil => exact fun cache hcach => hcach.resolve_left not_mem_nil
    | cons other children ih =>
      intro cache hmem
      refine ih _ ?_
      by_cases heq : child = other
      · exact .inr (by rw [heq, lookup_insert_self])
      · rw [lookup_insert_of_ne heq]
        exact hmem.imp_left fun hmem => (mem_cons.mp hmem).resolve_left heq
  exact hfold children store.parentCache (.inl hch)

variable {publishing : Publishing Data}

theorem Progress.publishItem (hfor : PublishedForest before)
    (hrank : ∀ parent child, PublishedShows before parent child → rank parent < rank child)
    (hbound : ∀ location, rank location ≤ bound) (hfuel : bound + 1 < fuel)
    (hitem : before.draft itemLocation = some item)
    (hnew : ¬ done itemLocation)
    (hstays : ∀ location, done location →
      ¬ Falls before (DroppedBy before fun other => done other ∨ other = itemLocation) location)
    (hfall : Falls before (DroppedBy before done) itemLocation → ∀ child, Drops before itemLocation child →
      DraftLists before child → before.published child = none)
    (hprog : Progress before done (DroppedBy before done) publishing.collection) :
    ∃ after, publishItem queryParent fuel itemLocation item publishing = some after ∧
      after.toBeDeleted = publishing.toBeDeleted ++ [asDraft itemLocation] ∧
      Progress before (fun other => done other ∨ other = itemLocation)
        (DroppedBy before fun other => done other ∨ other = itemLocation) after.collection := by
  have hdrop : ∀ child, DroppedBy before (fun other => done other ∨ other = itemLocation) child ↔
      DroppedBy before done child ∨ Drops before itemLocation child := by
    intro child
    simp only [DroppedBy, or_and_right, exists_or, exists_eq_left]
  rw [DraftMongo.publishItem, Store.loadItem]
  cases hsto : publishing.collection.lookup (asPublished itemLocation) with
  | none =>
    refine ⟨_, rfl, rfl, (hprog.insert hitem).congr (fun location hfalls => ?_) fun location hfalls => ?_⟩
    · exact hfalls.mono fun child hroot => (hdrop child).mpr (.inl hroot)
    · -- the published version has fallen already, and its children with it
      induction hfalls with
      | @root child hroot =>
        rcases (hdrop child).mp hroot with hroot | hdrops
        · exact .inl (Falls.root hroot)
        · obtain ⟨original, horig, hls⟩ := hdrops.shows
          have hite : Falls before (DroppedBy before done) itemLocation := by
            by_contra hkept
            cases hsto.symm.trans ((hprog.kept itemLocation hnew hkept).trans horig)
          by_cases hlis : DraftLists before child
          · exact .inr (hfall hite child hdrops hlis)
          · exact .inl (hite.child horig hls hlis)
      | child _ hpar hls hfree ih =>
        rcases ih with hoth | hnone
        · exact .inl (hoth.child hpar hls hfree)
        · cases hnone.symm.trans hpar
  | some original =>
    obtain ⟨horig, -⟩ := hprog.published_eq hnew hsto
    have hdrops : ∀ child, Drops before itemLocation child ↔ child ∈ original.children ∧ child ∉ item.children := by
      intro child
      constructor
      · rintro ⟨other, otherItem, hoth, hotherItem, hls, hout⟩
        obtain rfl := some_unique horig hoth
        obtain rfl := some_unique hitem hotherItem
        exact ⟨hls, hout⟩
      · exact fun hch => ⟨original, item, horig, hitem, hch⟩
    obtain ⟨after, hrun, haft⟩ := Progress.deleteDropped hfor hrank hbound hfuel hstays original.children
      (fun child hls hout => (hdrop child).mpr (.inr ((hdrops child).mpr ⟨hls, hout⟩)))
      (fun child hroot => (hdrop child).mpr (.inl hroot))
      (fun child hls => Store.lookup_setParents hls publishing.toStore) hprog
    refine ⟨{ after.updatePublished itemLocation item with
        toBeDeleted := publishing.toBeDeleted ++ [asDraft itemLocation] }, ?_, rfl, ?_⟩
    · change Option.map _ (DraftMongo.deleteDropped queryParent fuel itemLocation item.children
        original.children _) = _
      rw [hrun]
      rfl
    · refine (haft.insert hitem).congr_roots fun child => ?_
      rw [hdrop, hdrops]

/-! ## The depth-first walk -/

def DraftBelow (collection : Collection Data) (top location : Location) : Prop :=
  Below collection top location ∧ collection.draft location ≠ none

def WalksThrough (before : Collection Data) (root : Location)
    (call : Location → Publishing Data → Option (Publishing Data)) (top : Location) : Prop :=
  ∀ (done : Location → Prop) (publishing : Publishing Data),
    (∀ location, Below before top location → ¬ done location) →
    (∀ location, done location → ¬ Lost before root location ∧ Below before root location) →
    Progress before done (DroppedBy before done) publishing.collection →
    ∃ after, call top publishing = some after ∧ Progress before (fun other => done other ∨ DraftBelow before top other)
        (DroppedBy before fun other => done other ∨ DraftBelow before top other) after.collection ∧
      ∀ id, id ∈ after.toBeDeleted ↔
        id ∈ publishing.toBeDeleted ∨ id.revision = .draft ∧ DraftBelow before top id.location

theorem Progress.congr_done {others : Location → Prop}
    (hprog : Progress before done (DroppedBy before done) collection)
    (hsame : ∀ location, done location ↔ others location) :
    Progress before others (DroppedBy before others) collection := by
  obtain rfl : done = others := funext fun location => propext (hsame location)
  exact hprog

theorem Store.getItem_spec (store : Store Data) (location : Location)
    (hdir : store.collection.draft location ≠ none → location.directOnly = false) :
    ∃ after, store.getItem location = ((store.collection.visible location).map fun item =>
          (item, (store.collection.draft location).isSome), after) ∧
      after.collection = store.collection := by
  have hload : ∀ id, ∃ after, store.loadItem id = (store.collection.lookup id, after) ∧
      after.collection = store.collection ∧ (store.collection.lookup id = none → after = store) := by
    intro id
    rw [Store.loadItem]
    cases hlook : store.collection.lookup id with
    | none => exact ⟨store, rfl, rfl, fun _ => rfl⟩
    | some document => exact ⟨_, rfl, rfl, fun hnone => by cases hnone⟩
  obtain ⟨read, hread, hreadC, hreadN⟩ := hload ⟨location, .draft⟩
  obtain ⟨other, hoth, hotherCollection, -⟩ := hload (asPublished location)
  rw [Store.getItem, hoth, hread]
  cases hdrf : store.collection.draft location with
  | some draft =>
    have hlook : store.collection.lookup ⟨location, .draft⟩ = some draft := hdrf
    rw [hdir (ne_none_iff_exists'.mpr ⟨draft, hdrf⟩), if_neg false_ne_true, hlook, visible, hdrf]
    exact ⟨read, rfl, hreadC⟩
  | none =>
    have hlook : store.collection.lookup ⟨location, .draft⟩ = none := hdrf
    rw [hlook, hreadN hlook, visible_of_draft_eq_none hdrf]
    refine ⟨other, ?_, hotherCollection⟩
    by_cases honly : location.directOnly = true
    · rw [if_pos honly]
      rfl
    · rw [if_neg honly]
      simp only [hoth]
      rfl

variable {parent : Location}

theorem TreeShaped.eachInTurn (hshp : TreeShaped before) {call : Location → Publishing Data → Option (Publishing Data)}
    (children : List Location) (hnod : children.Nodup)
    (hshows : ∀ child ∈ children, Shows before parent child)
    (hcall : ∀ child ∈ children, WalksThrough before root call child)
    (hbel : ∀ child ∈ children, ∀ location, DraftBelow before child location →
      ¬ Lost before root location ∧ Below before root location)
    {done : Location → Prop}
    (hclear : ∀ child ∈ children, ∀ location, Below before child location → ¬ done location)
    (hdone : ∀ location, done location → ¬ Lost before root location ∧ Below before root location)
    (hprog : Progress before done (DroppedBy before done) publishing.collection) :
    ∃ after, eachInTurn call children publishing = some after ∧
      Progress before (fun other => done other ∨ ∃ child ∈ children, DraftBelow before child other)
        (DroppedBy before fun other => done other ∨ ∃ child ∈ children, DraftBelow before child other)
        after.collection ∧
      ∀ id, id ∈ after.toBeDeleted ↔ id ∈ publishing.toBeDeleted ∨
        id.revision = .draft ∧ ∃ child ∈ children, DraftBelow before child id.location := by
  induction children generalizing done publishing with
  | nil => exact ⟨publishing, rfl, hprog.congr_done fun other => by simp, fun id => by simp⟩
  | cons child children ih =>
    obtain ⟨hnew, hrest⟩ := nodup_cons.mp hnod
    have htail := fun other (hoth : other ∈ children) => mem_cons_of_mem child hoth
    obtain ⟨middle, hrun, hmid, hdel⟩ := hcall child mem_cons_self done publishing
      (hclear child mem_cons_self) hdone hprog
    have hclearNext : ∀ other ∈ children, ∀ location, Below before other location →
        ¬ (done location ∨ DraftBelow before child location) := by
      rintro other hoth location hloc (hdoneL | ⟨hchil, -⟩)
      · exact hclear other (htail other hoth) location hloc hdoneL
      · have heq := hshp.disjoint (hshows child mem_cons_self) (hshows other (htail other hoth)) hchil hloc
        exact hnew (heq ▸ hoth)
    have hdon : ∀ location, (done location ∨ DraftBelow before child location) →
        ¬ Lost before root location ∧ Below before root location := by
      rintro location (hloc | hloc)
      · exact hdone location hloc
      · exact hbel child mem_cons_self location hloc
    obtain ⟨after, hruns, haft, hdele⟩ := ih hrest (fun other hoth => hshows other (htail other hoth))
      (fun other hoth => hcall other (htail other hoth))
      (fun other hoth => hbel other (htail other hoth)) hclearNext hdon hmid
    refine ⟨after, ?_, haft.congr_done fun other => ?_, fun id => ?_⟩
    · rw [DraftMongo.eachInTurn, hrun]
      exact hruns
    · rw [or_assoc, exists_mem_cons_iff]
    · rw [hdele, hdel, or_assoc, exists_mem_cons_iff, and_or_left]

theorem draftBelow_iff (hvisb : before.visible parent = some item) : DraftBelow before parent location ↔
      (location = parent ∧ before.draft parent ≠ none) ∨
        ∃ child ∈ item.children, DraftBelow before child location := by
  constructor
  · rintro ⟨hbel, hdrf⟩
    rcases ReflTransGen.cases_head hbel with rfl | ⟨child, ⟨other, hoth, hls⟩, hrest⟩
    · exact .inl ⟨rfl, hdrf⟩
    · obtain rfl := some_unique hvisb hoth
      exact .inr ⟨child, hls, hrest, hdrf⟩
  · rintro (⟨rfl, hdrf⟩ | ⟨child, hls, hbel, hdrf⟩)
    · exact ⟨ReflTransGen.refl, hdrf⟩
    · exact ⟨hbel.head ⟨item, hvisb, hls⟩, hdrf⟩

theorem TreeShaped.internalDepthFirst (hshp : TreeShaped before) (hfor : PublishedForest before)
    (hsett : Settled before root) {publicRank : Location → Nat}
    (hrank : ∀ parent child, Shows before parent child → rank parent < rank child)
    (hbound : ∀ location, rank location ≤ bound)
    (hpublicRank : ∀ parent child, PublishedShows before parent child → publicRank parent < publicRank child)
    (hpubli : ∀ location, publicRank location ≤ bound) (fuel : Nat) {top : Location}
    (htop : Below before root top) (hfuel : 2 * bound + 2 < fuel + rank top) :
    WalksThrough before root (internalDepthFirst queryParent fuel) top := by
  induction fuel generalizing top with
  | zero =>
    have hle := hbound top
    omega
  | succ fuel ih =>
    intro done publishing hclear hdone hprog
    have hle := hbound top
    have hchildNe : ∀ {child}, Shows before top child → ∀ {location}, Below before child location →
        location ≠ root := by
      rintro child hshows location hbel rfl
      exact hshp.acyclic location (TransGen.tail' htop hshows |>.trans_left hbel)
    -- what is read is what was read before
    have hvisb : publishing.collection.visible top = before.visible top := by
      rw [visible, visible, hprog.draft top]
      cases hdrf : before.draft top with
      | some draft => rfl
      | none =>
        have hstays := hsett.not_lost hfor htop (.inr hdrf)
        rw [hprog.kept top (hclear top ReflTransGen.refl) fun hfalls => hstays ?_]
        refine hfalls.mono ?_
        rintro child ⟨location, hloc, hdrops⟩
        exact ⟨location, (hdone location hloc).2, hdrops⟩
    obtain ⟨store, hitem, hstore⟩ := publishing.toStore.getItem_spec top
      (fun hdrf => hshp.directOnly top (hprog.draft top ▸ hdrf))
    rw [DraftMongo.internalDepthFirst, hitem, hvisb, hprog.draft top]
    cases hread : before.visible top with
    | none =>
      have hnone : ∀ other, ¬ DraftBelow before top other := by
        rintro other ⟨hbel, hdrf⟩
        rcases ReflTransGen.cases_head hbel with rfl | ⟨child, ⟨item, hitem, -⟩, -⟩
        · exact hdrf (Option.or_eq_none_iff.mp hread).1
        · cases hread.symm.trans hitem
      refine ⟨publishing, rfl, hprog.congr_done fun other => ?_, fun id => ?_⟩
      · exact (or_iff_left (hnone other)).symm
      · exact (or_iff_left fun hdrf => hnone id.location hdrf.2).symm
    | some item =>
      have hshows : ∀ child ∈ item.children, Shows before top child :=
        fun child hls => ⟨item, hread, hls⟩
      have hbel : ∀ child ∈ item.children, ∀ location, DraftBelow before child location →
          ¬ Lost before root location ∧ Below before root location := by
        rintro child hls location ⟨hloc, -⟩
        have hroot : Below before root location := (htop.tail (hshows child hls)).trans hloc
        exact ⟨hsett.not_lost hfor hroot (.inl (hchildNe (hshows child hls) hloc)), hroot⟩
      have hloaded : Progress before done (DroppedBy before done)
          ({ publishing with toStore := store } : Publishing Data).collection := hstore ▸ hprog
      obtain ⟨middle, hrun, hmid, hdel⟩ := hshp.eachInTurn item.children (hshp.nodup top item hread) hshows
        (fun child hls => ih (htop.tail (hshows child hls)) (by have := hrank top child (hshows child hls); omega))
        hbel
        (fun child hls location hloc => hclear location (hloc.head (hshows child hls)))
        hdone hloaded
      simp only [map_some, hrun, bind_some]
      cases hdrf : before.draft top with
      | none =>
        have hsame : ∀ location, DraftBelow before top location ↔
            ∃ child ∈ item.children, DraftBelow before child location := by
          intro location
          rw [draftBelow_iff hread, hdrf, or_iff_right]
          exact fun hself => hself.2 rfl
        refine ⟨middle, by simp, hmid.congr_done fun location => ?_, fun id => ?_⟩
        · rw [hsame]
        · rw [hdel, hsame]
      | some draft =>
        have hne : before.draft top ≠ none := ne_none_iff_exists'.mpr ⟨draft, hdrf⟩
        obtain rfl : draft = item := by
          rw [visible, hdrf, some_or] at hread
          exact some.inj hread
        have hsame : ∀ location, DraftBelow before top location ↔
            location = top ∨ ∃ child ∈ draft.children, DraftBelow before child location := by
          intro location
          rw [draftBelow_iff hread, and_iff_left hne]
        have hdon : ∀ location, (done location ∨ ∃ child ∈ draft.children, DraftBelow before child location) →
            ¬ Lost before root location ∧ Below before root location := by
          rintro location (hloc | ⟨child, hls, hloc⟩)
          · exact hdone location hloc
          · exact hbel child hls location hloc
        have hnew : ¬ (done top ∨ ∃ child ∈ draft.children, DraftBelow before child top) := by
          rintro (htopDone | ⟨child, hls, hcycle, -⟩)
          · exact hclear top ReflTransGen.refl htopDone
          · exact hshp.acyclic top (TransGen.head' (hshows child hls) hcycle)
        have hstays : ∀ location, (done location ∨ ∃ child ∈ draft.children, DraftBelow before child location) →
            ¬ Falls before (DroppedBy before fun other => (done other ∨
              ∃ child ∈ draft.children, DraftBelow before child other) ∨ other = top) location := by
          refine fun location hloc hfalls => (hdon location hloc).1 (hfalls.mono ?_)
          rintro child ⟨other, hoth | rfl, hdrops⟩
          · exact ⟨other, (hdon other hoth).2, hdrops⟩
          · exact ⟨other, htop, hdrops⟩
        have hfall : Falls before (DroppedBy before fun other => done other ∨
            ∃ child ∈ draft.children, DraftBelow before child other) top →
            ∀ child, Drops before top child → DraftLists before child → before.published child = none := by
          intro hfalls
          have hlost : Lost before root top := by
            refine hfalls.mono ?_
            rintro child ⟨other, hoth, hdrops⟩
            exact ⟨other, (hdon other hoth).2, hdrops⟩
          obtain rfl : top = root := by
            by_contra hne
            exact hsett.not_lost hfor htop (.inl hne) hlost
          exact (hsett.root.resolve_right (not_not.mpr hlost)).2
        obtain ⟨after, hpublish, hnoted, haft⟩ := hmid.publishItem hfor hpublicRank
          hpubli (show bound + 1 < fuel + 1 by omega) hdrf hnew hstays hfall
        refine ⟨after, ?_, haft.congr_done fun location => ?_, fun id => ?_⟩
        · have hcond : ¬ (top.directOnly = true ∨ ¬ (some draft).isSome = true) := by
            simp [hshp.directOnly top hne]
          rw [if_neg hcond]
          exact hpublish
        · rw [hsame, or_assoc, or_comm (b := location = top)]
        · rw [hnoted, mem_append, mem_singleton, hdel, hsame, hshp.asDraft_of_draft hne, or_assoc]
          refine or_congr_right ?_
          obtain ⟨location, revision⟩ := id
          rw [mk.injEq, and_or_left, or_comm, and_comm (a := location = top)]

theorem PublishedForest.exists_rank (hfor : PublishedForest before) : ∃ (rank : Location → Nat) (bound : Nat),
      (∀ parent child, PublishedShows before parent child → rank parent < rank child) ∧
        ∀ location, rank location ≤ bound := by
  obtain ⟨rank, hrank, hbound⟩ := hfor.acyclic.exists_rank
    (before.keys.map location).toFinset (by
      rintro parent child ⟨document, hpub, -⟩
      rw [mem_toFinset, mem_map]
      exact ⟨_, mem_of_lookup hpub, rfl⟩)
  exact ⟨rank, _, hrank, hbound⟩

theorem droppedBy_draftBelow (child : Location) :
    DroppedBy before (DraftBelow before root) child ↔ DroppedBy before (Below before root) child :=
  ⟨fun ⟨location, hloc, hdrops⟩ => ⟨location, hloc.1, hdrops⟩,
    fun ⟨location, hloc, hdrops⟩ => ⟨location, ⟨hloc, hdrops.draft_ne⟩, hdrops⟩⟩

/-- What a publication leaves. -/
structure Published (before : Collection Data) (root : Location) (after : Collection Data) : Prop where
  subtree : ∀ location, Below before root location →
    after.draft location = none ∧ after.published location = before.visible location
  lost : ∀ location, Lost before root location → ¬ DraftBelow before root location → after.published location = none
  kept : ∀ location, ¬ Lost before root location → ¬ DraftBelow before root location →
    after.published location = before.published location

theorem Progress.published (hfor : PublishedForest before) (hsett : Settled before root)
    (hprog : Progress before (DraftBelow before root) (DroppedBy before (Below before root)) publishing.collection)
    (hnoted : ∀ id, id ∈ publishing.toBeDeleted ↔ id.revision = .draft ∧ DraftBelow before root id.location) :
    Published before root (publishing.collection.remove publishing.toBeDeleted) := by
  have hpub : ∀ location, (publishing.collection.remove publishing.toBeDeleted).published location =
      publishing.collection.published location := by
    intro location
    rw [Collection.published, lookup_remove, if_neg]
    · rfl
    · intro hmem
      cases ((hnoted _).mp hmem).1
  constructor
  · intro location hbel
    rw [hpub]
    cases hdrf : before.draft location with
    | some draft =>
      have hread : DraftBelow before root location := ⟨hbel, ne_none_iff_exists'.mpr ⟨draft, hdrf⟩⟩
      rw [hprog.fresh location hread, visible, hdrf, some_or]
      refine ⟨?_, rfl⟩
      rw [Collection.draft, lookup_remove, if_pos ((hnoted _).mpr ⟨rfl, hread⟩)]
    | none =>
      have hread : ¬ DraftBelow before root location := fun hread => hread.2 hdrf
      rw [hprog.kept location hread (hsett.not_lost hfor hbel (.inr hdrf)), visible_of_draft_eq_none hdrf]
      refine ⟨?_, rfl⟩
      rw [Collection.draft, lookup_remove]
      split_ifs
      · rfl
      · exact (hprog.draft location).trans hdrf
  · intro location hlost hread
    rw [hpub]
    exact hprog.fallen location hread hlost
  · intro location hlost hread
    rw [hpub]
    exact hprog.kept location hread hlost

theorem Settled.publish (queryParent : Location → Collection Data →
    Option DocumentId × Collection Data) (hshp : TreeShaped store.collection)
    (hfor : PublishedForest store.collection) (hroot : store.collection.visible root ≠ none)
    (hsett : Settled store.collection root) : ∃ bound, ∀ fuel > bound, ∃ after,
      publish queryParent .draftPreferred fuel root store = some ⟨after, none⟩ ∧
      Published store.collection root after := by
  obtain ⟨rank, bound, hrank, hbound⟩ := hshp.exists_rank
  obtain ⟨publicRank, publicBound, hpublicRank, hpubli⟩ := hfor.exists_rank
  refine ⟨2 * (bound + publicBound) + 2, fun fuel hfuel => ?_⟩
  have hwalks : WalksThrough store.collection root (internalDepthFirst queryParent fuel) root :=
    hshp.internalDepthFirst hfor hsett hrank (fun location => Nat.le_add_right_of_le (hbound location)) hpublicRank
      (fun location => Nat.le_add_left_of_le (hpubli location)) fuel
      ReflTransGen.refl (Nat.lt_add_right _ hfuel)
  obtain ⟨publishing, hrun, hwal, hnoted⟩ := hwalks (fun _ => False) { store with }
    (fun _ _ => id) (fun _ => False.elim) (Progress.start store.collection)
  have hpub := Progress.published hfor hsett
    ((hwal.congr_done fun location => or_iff_right id).congr_roots droppedBy_draftBelow)
    fun id => (hnoted id).trans (or_iff_right not_mem_nil)
  refine ⟨publishing.collection.remove publishing.toBeDeleted, ?_, hpub⟩
  obtain ⟨hdrf, hvisb⟩ := hpub.subtree root ReflTransGen.refl
  obtain ⟨read, hread, -⟩ := Store.getItem_spec
    ({ collection := publishing.collection.remove publishing.toBeDeleted } : Store Data) root
    fun hne => absurd hdrf hne
  obtain ⟨item, hitem⟩ := ne_none_iff_exists'.mp hroot
  rw [DraftMongo.publish, if_neg (not_not.mpr rfl), hrun, map_some]
  simp only [hread, visible_of_draft_eq_none hdrf, hvisb, hitem, map_some]

section

variable (hshp : TreeShaped store.collection) (hfor : PublishedForest store.collection)
  (hroot : store.collection.visible root ≠ none)
include hshp hfor hroot

theorem Unmoved.publishes (hunm : Unmoved store.collection root) :
    Publishes queryParent .draftPreferred root store := by
  obtain ⟨bound, hends⟩ := hunm.settled.publish queryParent hshp hfor hroot
  refine ⟨bound, fun fuel hfuel => ?_⟩
  obtain ⟨after, hrun, hpub⟩ := hends fuel hfuel
  refine ⟨after, hrun, hpub.subtree, ?_, ?_⟩
  · intro location hdel hoff
    exact hpub.lost location (hdel.mono fun _ => And.left) fun hread => hoff hread.1
  · rintro location ⟨hsto, hlis, -⟩
    by_cases hread : DraftBelow store.collection root location
    · rw [(hpub.subtree location hread.1).2]
      exact fun hnone => hread.2 (Option.or_eq_none_iff.mp hnone).1
    · rw [hpub.kept location ?_ hread]
      · exact hsto
      · intro hlost
        cases hlost with
        | root hroot =>
          obtain ⟨parent, hpar, hdrops⟩ := hroot
          exact hsto (hunm.moved parent location hpar hdrops hlis).1
        | child _ _ _ hfree => exact hfree hlis

theorem MovesLeave.unmoved (hlvs : MovesLeave store.collection root)
    (hpubl : Publishes queryParent .draftPreferred root store) :
    Unmoved store.collection root := by
  obtain ⟨bound, hends⟩ := hlvs.settled.publish queryParent hshp hfor hroot
  obtain ⟨other, hprom⟩ := hpubl
  obtain ⟨after, hrun, hpub⟩ := hends (bound + other + 1) (by omega)
  obtain ⟨result, hres, -, -, hmoved⟩ := hprom (bound + other + 1) (by omega)
  obtain rfl : after = result := by
    rw [hrun] at hres
    exact (Outcome.mk.inj (some.inj hres)).1
  refine ⟨fun parent child hbel hdrops hlis => ?_, .inr fun hdel => ?_⟩
  · have hoff := hlvs.leave parent child hbel hdrops hlis
    refine ⟨?_, hoff⟩
    by_contra hsto
    refine hmoved child ⟨hsto, hlis, parent, hdrops.shows, .inl ⟨hbel, hdrops⟩⟩ ?_
    exact hpub.lost child (Falls.root ⟨parent, hbel, hdrops⟩) fun hread => hoff hread.1
  · exact hlvs.root (hdel.mono fun _ => And.left)

end

/-- Publishing keeps its promise when nothing has moved; and where everything that has moved
left the subtree, only then. -/
theorem publishes_unmoved (store : Store Data) (hshaped : TreeShaped store.collection)
    (hforest : PublishedForest store.collection) (hroot : store.collection.visible root ≠ none)
    (branchSetting : Branch) :
    (branchSetting = .draftPreferred ∧ Unmoved store.collection root →
      Publishes queryParent branchSetting root store) ∧
    (MovesLeave store.collection root → Publishes queryParent branchSetting root store →
      branchSetting = .draftPreferred ∧ Unmoved store.collection root) := by
  constructor
  · rintro ⟨rfl, hunmoved⟩
    exact hunmoved.publishes hshaped hforest hroot
  · intro hleaves hpublishes
    have hbranch : branchSetting = .draftPreferred := by
      by_contra hne
      obtain ⟨bound, hpromised⟩ := hpublishes
      obtain ⟨after, hrun, -⟩ := hpromised (bound + 1) (Nat.lt_succ_self bound)
      rw [publish, if_pos hne] at hrun
      cases hrun
    subst hbranch
    exact ⟨rfl, hleaves.unmoved hshaped hforest hroot hpublishes⟩

theorem PublishedForest.of_rank (rank : Location → Nat)
    (huniq : ∀ edge ∈ before.edges before.published, ∀ other ∈ before.edges before.published,
      edge.2 = other.2 → edge.1 = other.1)
    (hrank : ∀ edge ∈ before.edges before.published, rank edge.1 < rank edge.2) :
    PublishedForest before := by
  have hmem : ∀ {parent child}, PublishedShows before parent child →
      (parent, child) ∈ before.edges before.published := by
    rintro parent child ⟨document, hpub, hls⟩
    exact mem_edges hpub hls ⟨⟨⟨parent, .published⟩, document⟩, mem_lookup_iff.mp hpub, rfl⟩
  exact ⟨fun parent other child hpar hoth => huniq _ (hmem hpar) _ (hmem hoth) rfl,
    Acyclic.of_rank rank fun parent child hshows => hrank _ (hmem hshows)⟩

def droppedHint : Collection String :=
  Dict.ofList [(⟨⟨"vertical", "unit"⟩, .published⟩, ⟨[⟨"problem", "quiz"⟩, ⟨"html", "hint"⟩], "Unit"⟩),
      (⟨⟨"problem", "quiz"⟩, .published⟩, ⟨[], "Quiz"⟩),
      (⟨⟨"html", "hint"⟩, .published⟩, ⟨[], "Hint"⟩),
      (⟨⟨"vertical", "unit"⟩, .draft⟩, ⟨[⟨"problem", "quiz"⟩], "Unit"⟩)]

theorem droppedHint_unmoved : Unmoved droppedHint ⟨"vertical", "unit"⟩ where
  moved location child _ hdrops hlis := by
    have hdrafts : ∀ {location document}, droppedHint.draft location = some document →
        document.children = [⟨"problem", "quiz"⟩] := by
      intro location document hdrf
      have hmem := Dict.mem_of_lookup_ofList hdrf
      simp only [mem_cons, Prod.mk.injEq, mk.injEq, reduceCtorEq, and_false, false_and,
        false_or, not_mem_nil, or_false] at hmem
      rw [hmem.2]
    obtain ⟨original, item, -, hitem, -, hout⟩ := hdrops
    obtain ⟨parent, document, hdoc, hls⟩ := hlis
    rw [hdrafts hitem] at hout
    rw [hdrafts hdoc] at hls
    exact absurd hls hout
  root := .inl (by decide)

/-- The hint goes when the unit is published. -/
theorem droppedHint_publishes :
    Publishes unqueried .draftPreferred ⟨"vertical", "unit"⟩ { collection := droppedHint } :=
  (publishes_unmoved { collection := droppedHint }
    (TreeShaped.of_rank (fun location => if location.category = "vertical" then 0 else 1)
      (by decide) (by decide) (by decide) (by decide))
    (PublishedForest.of_rank (fun location => if location.category = "vertical" then 0 else 1) (by decide) (by decide))
    (by decide) .draftPreferred).1 ⟨rfl, droppedHint_unmoved⟩

/-- Two units and a quiz in the first are made and published, then the quiz is moved to the
second unit. -/
def movedQuiz : Option (Collection String) := do
  let unit : Location := ⟨"vertical", "unit"⟩
  let other : Location := ⟨"vertical", "other"⟩
  let quiz : Location := ⟨"problem", "quiz"⟩
  let publish (location : Location) (collection : Collection String) :=
    publish unqueried .draftPreferred 9 location { collection }
  let made ← updateItem .draftPreferred 9 quiz ⟨[], "Quiz"⟩ true ∅
  let made ← updateItem .draftPreferred 9 unit ⟨[quiz], "Unit"⟩ true made.collection
  let made ← updateItem .draftPreferred 9 other ⟨[], "Other"⟩ true made.collection
  let published ← publish unit made.collection
  let published ← publish other published.collection
  let moved ← updateItem .draftPreferred 9 unit ⟨[], "Unit"⟩ false published.collection
  let moved ← updateItem .draftPreferred 9 other ⟨[quiz], "Other"⟩ false moved.collection
  return moved.collection

/-- Publishing the first unit takes the quiz from the learners before the second unit is
published. -/
theorem movedQuiz_not_publishes : ∃ state, movedQuiz = some state ∧ TreeShaped state ∧ PublishedForest state ∧
    ¬ Publishes unqueried .draftPreferred ⟨"vertical", "unit"⟩ { collection := state } := by
  refine ⟨movedQuiz.getD ∅, rfl, ?_, ?_, ?_⟩
  · exact TreeShaped.of_rank (fun location => if location.category = "problem" then 1 else 0)
      (by decide) (by decide) (by decide) (by decide)
  · exact PublishedForest.of_rank (fun location => if location.category = "problem" then 1 else 0)
      (by decide) (by decide)
  · rintro ⟨bound, hpublishes⟩
    obtain ⟨after, hrun, -, -, hmoved⟩ := hpublishes (bound + 3) (by omega)
    have hgone : (publish unqueried .draftPreferred (bound + 3) ⟨"vertical", "unit"⟩
        { collection := movedQuiz.getD ∅ }).map (fun outcome => outcome.collection.published ⟨"problem", "quiz"⟩) =
          some none := rfl
    have hquiz : MovedInDraft (movedQuiz.getD ∅) ⟨"vertical", "unit"⟩ ⟨"problem", "quiz"⟩ := by
      refine ⟨by decide, ⟨⟨"vertical", "other"⟩, _, rfl, mem_cons_self⟩, ⟨"vertical", "unit"⟩,
        ⟨_, rfl, mem_cons_self⟩, .inl ⟨Relation.ReflTransGen.refl, _, _, rfl, rfl, ?_, ?_⟩⟩
      · exact mem_cons_self
      · exact not_mem_nil
    rw [hrun, map_some, Option.some.injEq] at hgone
    exact hmoved _ hquiz hgone

end EdxPlatform.DraftMongo
