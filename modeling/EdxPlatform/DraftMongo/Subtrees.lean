import EdxPlatform.DraftMongo.Collection
import EdxPlatform.Lib.Acyclic

/-!
# Deleting subtrees

`_delete_subtree` walks from a document to the documents of its children, as long as no
parent of a child stays.
-/

namespace EdxPlatform.DraftMongo

open Relation Collection

variable {Data : Type}

/-- `_delete_item` of `_delete_subtree`. -/
def deleteItem (asFunctions : List (Location → DocumentId)) (draftOnly : Bool) : Visit Data :=
  fun currentEntry walk =>
    let toBeDeleted := walk.toBeDeleted ++ [currentEntry.1]
    let revision := if draftOnly then some .draft else none
    let nextTier := currentEntry.2.children.flatMap fun childLoc =>
      let parents := walk.collection.getRawParentLocations childLoc revision
      if parents.all (toBeDeleted.contains ·) then asFunctions.map (· childLoc) else []
    ({ walk with toBeDeleted }, .ok nextTier)

/-- `_delete_subtree` -/
def deleteSubtree (fuel : Nat) (location : Location) (asFunctions : List (Location → DocumentId))
    (draftOnly : Bool) (collection : Collection Data) : Option (Outcome Data) :=
  breadthFirst (deleteItem asFunctions draftOnly) fuel (asFunctions.map (· location)) collection

/-! ## The shape of the content -/

namespace Collection

def visible (collection : Collection Data) (location : Location) : Option (Document Data) :=
  (collection.draft location).or (collection.published location)

end Collection

def Shows (collection : Collection Data) (parent child : Location) : Prop :=
  ∃ document, collection.visible parent = some document ∧ child ∈ document.children

/-- What authors see is a forest, in which direct-only blocks have no drafts. -/
structure TreeShaped (collection : Collection Data) : Prop where
  directOnly : ∀ location, collection.draft location ≠ none → location.directOnly = false
  unique : ∀ parent other child, Shows collection parent child → Shows collection other child → parent = other
  acyclic : Acyclic (Shows collection)
  nodup : ∀ location document, collection.visible location = some document → document.children.Nodup

variable {collection : Collection Data} {location : Location}

theorem visible_of_draft_eq_none (hdrf : collection.draft location = none) :
    collection.visible location = collection.published location := by
  rw [visible, hdrf, none_or]

variable {document : Document Data}

theorem TreeShaped.visible_of_asDraft (hshp : TreeShaped collection)
    (hdoc : collection.lookup (asDraft location) = some document) :
    collection.visible location = some document := by
  by_cases hdir : location.directOnly = true
  · rw [asDraft, if_pos hdir] at hdoc
    have hdrf : collection.draft location = none := by
      by_contra hdrf
      exact false_ne_true ((hshp.directOnly location hdrf).symm.trans hdir)
    rw [visible_of_draft_eq_none hdrf]
    exact hdoc
  · rw [asDraft, if_neg hdir] at hdoc
    rw [visible, draft, hdoc, some_or]

theorem TreeShaped.asDraft_of_draft (hshp : TreeShaped collection)
    (hdrf : collection.draft location ≠ none) : asDraft location = ⟨location, .draft⟩ := by
  rw [asDraft, if_neg (eq_false_iff.mp (hshp.directOnly location hdrf))]

theorem location_asDraft (location : Location) : (asDraft location).location = location := by
  rw [asDraft]
  split_ifs <;> rfl

variable {child parent : Location}

theorem TreeShaped.disjoint (hshp : TreeShaped collection) {other : Location}
    (hch : Shows collection parent child) (hoth : Shows collection parent other)
    (hfst : ReflTransGen (Shows collection) child location)
    (hsec : ReflTransGen (Shows collection) other location) : child = other := by
  -- a child that leads to a child of the same parent leads to the parent
  have hequal : ∀ {child other}, Shows collection parent child → Shows collection parent other →
      ReflTransGen (Shows collection) child other → child = other := by
    intro child other hch hoth hpath
    rcases ReflTransGen.cases_tail hpath with heq | ⟨above, habove, hlast⟩
    · exact heq.symm
    · obtain rfl := hshp.unique above parent other hlast hoth
      exact absurd (TransGen.head' hch habove) (hshp.acyclic above)
  induction hfst with
  | refl => exact (hequal hoth hch hsec).symm
  | @tail middle last habove hlast ih =>
    rcases ReflTransGen.cases_tail hsec with heq | ⟨otherMiddle, hothe, hotherLast⟩
    · subst heq
      exact hequal hch hoth (habove.tail hlast)
    · obtain rfl := hshp.unique middle otherMiddle last hlast hotherLast
      exact ih hothe

theorem TreeShaped.exists_rank (hshp : TreeShaped collection) : ∃ (rank : Location → Nat) (bound : Nat),
    (∀ parent child, Shows collection parent child → rank parent < rank child) ∧
      ∀ location, rank location ≤ bound := by
  obtain ⟨rank, hrank, hbound⟩ := hshp.acyclic.exists_rank
    (collection.keys.map DocumentId.location).toFinset (by
      rintro parent child ⟨document, hvisb, -⟩
      rw [mem_toFinset, mem_map]
      rcases or_eq_some_iff.mp hvisb with hdrf | ⟨-, hpub⟩
      · exact ⟨_, mem_of_lookup hdrf, rfl⟩
      · exact ⟨_, mem_of_lookup hpub, rfl⟩)
  exact ⟨rank, _, hrank, hbound⟩

def Collection.edges (collection : Collection Data) (read : Location → Option (Document Data)) :
    List (Location × Location) :=
  collection.entries.flatMap fun entry =>
    ((read entry.1.location).elim [] Document.children).map (Prod.mk entry.1.location)

theorem mem_edges {read : Location → Option (Document Data)} (hread : read parent = some document)
    (hls : child ∈ document.children)
    (hent : ∃ entry ∈ collection.entries, entry.1.location = parent) :
    (parent, child) ∈ collection.edges read := by
  obtain ⟨entry, hent, rfl⟩ := hent
  refine mem_flatMap.mpr ⟨entry, hent, mem_map_of_mem ?_⟩
  rw [hread]
  exact hls

theorem exists_mem_entries (hvisb : collection.visible location = some document) :
    ∃ entry ∈ collection.entries, entry.1.location = location := by
  rcases or_eq_some_iff.mp hvisb with hdrf | ⟨-, hpub⟩
  · exact ⟨⟨⟨location, .draft⟩, document⟩, mem_lookup_iff.mp hdrf, rfl⟩
  · exact ⟨⟨⟨location, .published⟩, document⟩, mem_lookup_iff.mp hpub, rfl⟩

theorem mem_edges_of_shows (hshows : Shows collection parent child) :
    (parent, child) ∈ collection.edges collection.visible := by
  obtain ⟨document, hvisb, hls⟩ := hshows
  exact mem_edges hvisb hls (exists_mem_entries hvisb)

theorem TreeShaped.of_rank (rank : Location → Nat)
    (hdir : ∀ entry ∈ collection.entries, entry.1.revision = .draft → entry.1.location.directOnly = false)
    (huniq : ∀ edge ∈ collection.edges collection.visible,
      ∀ other ∈ collection.edges collection.visible, edge.2 = other.2 → edge.1 = other.1)
    (hrank : ∀ edge ∈ collection.edges collection.visible, rank edge.1 < rank edge.2)
    (hnod : ∀ entry ∈ collection.entries, ((collection.visible entry.1.location).elim [] Document.children).Nodup) :
    TreeShaped collection where
  directOnly location hdrf := by
    obtain ⟨document, hdoc⟩ := ne_none_iff_exists'.mp hdrf
    exact hdir ⟨⟨location, .draft⟩, document⟩ (mem_lookup_iff.mp hdoc) rfl
  unique parent other child hpar hoth := huniq _ (mem_edges_of_shows hpar) _ (mem_edges_of_shows hoth) rfl
  acyclic := Acyclic.of_rank rank fun _ _ hshows => hrank _ (mem_edges_of_shows hshows)
  nodup location document hvisb := by
    obtain ⟨entry, hent, rfl⟩ := exists_mem_entries hvisb
    have hkids := hnod entry hent
    rwa [hvisb] at hkids

/-- The locations that a deletion comes to from the top: it goes from the documents of one
revision to those of their children that pass. -/
inductive Hangs (collection : Collection Data) (asFunction : Location → DocumentId)
    (passes : Location → Prop) (top : Location) : Location → Prop
  | top (hstored : collection.lookup (asFunction top) ≠ none) : Hangs collection asFunction passes top top
  | child {parent child : Location} {document : Document Data} (habove : Hangs collection asFunction passes top parent)
      (hparent : collection.lookup (asFunction parent) = some document)
      (hlists : child ∈ document.children) (hpasses : passes child)
      (hstored : collection.lookup (asFunction child) ≠ none) :
      Hangs collection asFunction passes top child

/-- The check of the parents comes to a condition on the child alone, and the children that
pass are ranked above their parents. -/
structure Plan (collection : Collection Data) (asFunction : Location → DocumentId)
    (draftOnly : Bool) (passes : Location → Prop) (rank : Location → Nat) (bound : Nat) : Prop where
  location : ∀ parent, (asFunction parent).location = parent
  check : ∀ parent document child, collection.lookup (asFunction parent) = some document →
    child ∈ document.children → ∀ deleted : List DocumentId, asFunction parent ∈ deleted →
    (∀ id ∈ deleted, id = asFunction id.location) →
    ((∀ id ∈ collection.getRawParentLocations child (if draftOnly then some .draft else none),
      id ∈ deleted) ↔ passes child)
  ranked : ∀ parent document child, collection.lookup (asFunction parent) = some document →
    child ∈ document.children → passes child → rank parent < rank child
  bounded : ∀ location, collection.lookup (asFunction location) ≠ none → rank location ≤ bound

variable {asFunction : Location → DocumentId} {draftOnly : Bool} {passes : Location → Prop}
  {rank : Location → Nat} {bound : Nat} {top : Location}

theorem Hangs.stored (hhangs : Hangs collection asFunction passes top location) :
    collection.lookup (asFunction location) ≠ none := by
  cases hhangs with
  | top hsto => exact hsto
  | child _ _ _ _ hsto => exact hsto

theorem Hangs.under (hhangs : Hangs collection asFunction passes child location)
    (htop : collection.lookup (asFunction top) = some document) (hls : child ∈ document.children)
    (hpass : passes child) : Hangs collection asFunction passes top location := by
  induction hhangs with
  | top hsto => exact (Hangs.top (ne_none_iff_exists'.mpr ⟨_, htop⟩)).child htop hls hpass hsto
  | child _ hpar hls hpass hsto ih => exact ih.child hpar hls hpass hsto

theorem hangs_iff : Hangs collection asFunction passes top location ↔
    ∃ document, collection.lookup (asFunction top) = some document ∧
      (location = top ∨ ∃ child ∈ document.children, passes child ∧
        Hangs collection asFunction passes child location) := by
  constructor
  · intro hhangs
    induction hhangs with
    | top hsto =>
      obtain ⟨document, hdoc⟩ := ne_none_iff_exists'.mp hsto
      exact ⟨document, hdoc, .inl rfl⟩
    | child _ hpar hls hpass hsto ih =>
      obtain ⟨document, hdoc, rfl | ⟨next, hnxt, hpas, hbel⟩⟩ := ih
      · obtain rfl := some_unique hpar hdoc
        exact ⟨_, hdoc, .inr ⟨_, hls, hpass, Hangs.top hsto⟩⟩
      · exact ⟨document, hdoc, .inr ⟨next, hnxt, hpas, hbel.child hpar hls hpass hsto⟩⟩
  · rintro ⟨document, hdoc, rfl | ⟨child, hls, hpass, hbel⟩⟩
    · exact Hangs.top (ne_none_iff_exists'.mpr ⟨document, hdoc⟩)
    · exact hbel.under hdoc hls hpass

variable {toBeDeleted : List DocumentId}

section

variable (hplan : Plan collection asFunction draftOnly passes rank bound)
include hplan

theorem Plan.item {entry : Entry Data} (hdel : ∀ id ∈ toBeDeleted ++ [entry.1], id = asFunction id.location)
    (hlook : collection.lookup entry.1 = some entry.2) :
    ∃ items, deleteItem [asFunction] draftOnly entry { collection, toBeDeleted } =
        ({ collection, toBeDeleted := toBeDeleted ++ [entry.1] }, .ok items) ∧
      ∀ id, id ∈ items ↔ ∃ child ∈ entry.2.children, passes child ∧ id = asFunction child := by
  have hnoted : entry.1 ∈ toBeDeleted ++ [entry.1] := mem_append_right _ mem_cons_self
  have hid : entry.1 = asFunction entry.1.location := hdel _ hnoted
  refine ⟨_, rfl, fun id => ?_⟩
  rw [mem_flatMap]
  refine exists_congr fun child => and_congr_right fun hls => ?_
  rw [← hplan.check entry.1.location entry.2 child (hid ▸ hlook) hls _ (hid ▸ hnoted) hdel]
  change id ∈ (if (collection.getRawParentLocations child _).all _ = true then [asFunction child] else []) ↔ _
  have hall : ((collection.getRawParentLocations child (if draftOnly then some .draft else none)).all
      ((toBeDeleted ++ [entry.1]).contains ·) = true) ↔
      ∀ id ∈ collection.getRawParentLocations child (if draftOnly then some .draft else none),
        id ∈ toBeDeleted ++ [entry.1] := by
    simp only [all_eq_true, List.contains_iff_mem]
  rw [← hall]
  by_cases hpars : (collection.getRawParentLocations child
      (if draftOnly then some .draft else none)).all ((toBeDeleted ++ [entry.1]).contains ·) = true
  · rw [if_pos hpars, mem_singleton, and_iff_right hpars]
  · rw [if_neg hpars]
    exact iff_of_false not_mem_nil fun hpass => hpars hpass.1

theorem Plan.tier (entries : List (Entry Data)) (hdel : ∀ id ∈ toBeDeleted, id = asFunction id.location)
    (hents : ∀ entry ∈ entries, entry.1 = asFunction entry.1.location ∧ collection.lookup entry.1 = some entry.2) :
    ∃ nextTier, visitTier (deleteItem [asFunction] draftOnly) entries { collection, toBeDeleted } =
        ({ collection, toBeDeleted := toBeDeleted ++ entries.map Sigma.fst }, .ok nextTier) ∧
      ∀ id, id ∈ nextTier ↔ ∃ entry ∈ entries, ∃ child ∈ entry.2.children, passes child ∧ id = asFunction child := by
  induction entries generalizing toBeDeleted with
  | nil => exact ⟨[], by simp [visitTier], fun id => by simp⟩
  | cons entry entries ih =>
    obtain ⟨hid, hlook⟩ := hents entry mem_cons_self
    have hmid : ∀ id ∈ toBeDeleted ++ [entry.1], id = asFunction id.location := by
      intro id hmem
      rcases mem_append.mp hmem with hmem | hmem
      · exact hdel id hmem
      · rw [mem_singleton.mp hmem]
        exact hid
    obtain ⟨items, hitem, hitems⟩ := hplan.item hmid hlook
    obtain ⟨rest, htier, hrest⟩ := ih hmid fun other hoth => hents other (mem_cons_of_mem _ hoth)
    refine ⟨items ++ rest, ?_, fun id => ?_⟩
    · rw [visitTier, hitem]
      simp only [htier, append_assoc, singleton_append, map_cons]
    · rw [mem_append, hitems, hrest, exists_mem_cons_iff]

end

variable {tier : List DocumentId}

section

variable (hplan : Plan collection asFunction draftOnly passes rank bound)
include hplan

theorem Plan.exists_hangs_iff {nextTier : List DocumentId} (htier : ∀ id ∈ tier, id = asFunction id.location)
    (hnxt : ∀ id, id ∈ nextTier ↔ ∃ entry ∈ collection.find tier, ∃ child ∈ entry.2.children,
      passes child ∧ id = asFunction child) :
    (∃ top, asFunction top ∈ tier ∧ Hangs collection asFunction passes top location) ↔
      asFunction location ∈ (collection.find tier).map Sigma.fst ∨
        ∃ top, asFunction top ∈ nextTier ∧ Hangs collection asFunction passes top location := by
  constructor
  · rintro ⟨top, htop, hhangs⟩
    obtain ⟨document, hdoc, rfl | ⟨child, hls, hpass, hbel⟩⟩ := hangs_iff.mp hhangs
    · exact .inl (mem_map.mpr ⟨⟨_, document⟩, mem_find.mpr ⟨htop, hdoc⟩, rfl⟩)
    · refine .inr ⟨child, (hnxt _).mpr ⟨⟨asFunction top, document⟩, ?_, child, hls, hpass, rfl⟩, hbel⟩
      exact mem_find.mpr ⟨htop, hdoc⟩
  · rintro (hfnd | ⟨top, htop, hhangs⟩)
    · obtain ⟨entry, hent, heq⟩ := mem_map.mp hfnd
      obtain ⟨hmem, hlook⟩ := mem_find.mp hent
      rw [heq] at hmem hlook
      exact ⟨location, hmem, Hangs.top (ne_none_iff_exists'.mpr ⟨_, hlook⟩)⟩
    · obtain ⟨entry, hent, child, hls, hpass, heq⟩ := (hnxt _).mp htop
      obtain ⟨hmem, hlook⟩ := mem_find.mp hent
      obtain rfl : top = child := by rw [← hplan.location top, heq, hplan.location]
      have hshape := htier _ hmem
      exact ⟨entry.1.location, hshape ▸ hmem, hhangs.under (hshape ▸ hlook) hls hpass⟩

theorem Plan.tiers {fuel : Nat} (toBeDeleted : List DocumentId)
    (hdel : ∀ id ∈ toBeDeleted, id = asFunction id.location)
    (htier : ∀ id ∈ tier, id = asFunction id.location) (hpos : 0 < fuel)
    (hfuel : ∀ id ∈ tier, collection.lookup id ≠ none → bound + 1 < fuel + rank id.location) :
    ∃ after : Walk Data, visitTiers (deleteItem [asFunction] draftOnly) fuel tier
        { collection, toBeDeleted } = some (after, .ok ()) ∧ after.collection = collection ∧
      ∀ id, id ∈ after.toBeDeleted ↔ id ∈ toBeDeleted ∨
        ∃ location, id = asFunction location ∧ ∃ top, asFunction top ∈ tier ∧
          Hangs collection asFunction passes top location := by
  induction fuel generalizing tier toBeDeleted with
  | zero => exact absurd hpos (Nat.lt_irrefl 0)
  | succ fuel ih =>
    have hents : ∀ entry ∈ collection.find tier, entry.1 = asFunction entry.1.location ∧
        collection.lookup entry.1 = some entry.2 := by
      intro entry hent
      obtain ⟨hmem, hlook⟩ := mem_find.mp hent
      exact ⟨htier _ hmem, hlook⟩
    obtain ⟨nextTier, hvisd, hnxt⟩ := hplan.tier (collection.find tier) hdel hents
    have hnoted : ∀ id ∈ toBeDeleted ++ (collection.find tier).map Sigma.fst, id = asFunction id.location := by
      intro id hmem
      rcases mem_append.mp hmem with hmem | hmem
      · exact hdel id hmem
      · obtain ⟨entry, hent, rfl⟩ := mem_map.mp hmem
        exact (hents entry hent).1
    -- what hangs on the tier is in it, or hangs on the next one
    have hspl : ∀ location, (∃ top, asFunction top ∈ tier ∧ Hangs collection asFunction passes top location) ↔
        asFunction location ∈ (collection.find tier).map Sigma.fst ∨
          ∃ top, asFunction top ∈ nextTier ∧ Hangs collection asFunction passes top location :=
      fun location => hplan.exists_hangs_iff htier hnxt
    have hmemb : ∀ deleted : List DocumentId, (∀ id, id ∈ deleted ↔
          id ∈ toBeDeleted ++ (collection.find tier).map Sigma.fst ∨ ∃ location, id = asFunction location ∧
            ∃ top, asFunction top ∈ nextTier ∧ Hangs collection asFunction passes top location) →
        ∀ id, id ∈ deleted ↔ id ∈ toBeDeleted ∨ ∃ location, id = asFunction location ∧
          ∃ top, asFunction top ∈ tier ∧ Hangs collection asFunction passes top location := by
      intro deleted hmem id
      rw [hmem, mem_append, or_assoc]
      refine or_congr_right ?_
      constructor
      · rintro (hfnd | ⟨location, rfl, hhangs⟩)
        · have hshape := hnoted id (mem_append_right _ hfnd)
          exact ⟨id.location, hshape, (hspl id.location).mpr (.inl (hshape ▸ hfnd))⟩
        · exact ⟨location, rfl, (hspl location).mpr (.inr hhangs)⟩
      · rintro ⟨location, rfl, hhangs⟩
        exact ((hspl location).mp hhangs).imp_right fun hnxt => ⟨location, rfl, hnxt⟩
    rw [visitTiers, hvisd]
    by_cases hmore : nextTier.length > 0
    · simp only [hmore, if_true]
      have hranks : ∀ id ∈ nextTier, id = asFunction id.location ∧ bound + 1 < fuel + rank id.location := by
        intro id hid
        obtain ⟨entry, hent, child, hls, hpass, rfl⟩ := (hnxt id).mp hid
        obtain ⟨hshape, hlook⟩ := hents entry hent
        have hless := hplan.ranked entry.1.location entry.2 child (hshape ▸ hlook) hls hpass
        have hst := hfuel entry.1 (mem_find.mp hent).1 (ne_none_iff_exists'.mpr ⟨_, hlook⟩)
        rw [hplan.location]
        exact ⟨rfl, by omega⟩
      have hleft : 0 < fuel := by
        obtain ⟨id, hid⟩ := List.exists_mem_of_length_pos hmore
        obtain ⟨entry, hent, -⟩ := (hnxt id).mp hid
        obtain ⟨hshape, hlook⟩ := hents entry hent
        have hsto : collection.lookup entry.1 ≠ none := ne_none_iff_exists'.mpr ⟨_, hlook⟩
        have hst := hfuel entry.1 (mem_find.mp hent).1 hsto
        have hle := hplan.bounded entry.1.location (hshape ▸ hsto)
        omega
      obtain ⟨after, hrun, hcol, hmem⟩ := ih _ hnoted (fun id hid => (hranks id hid).1) hleft
        fun id hid _ => (hranks id hid).2
      exact ⟨after, hrun, hcol, hmemb after.toBeDeleted hmem⟩
    · simp only [hmore, if_false]
      obtain rfl : nextTier = [] := length_eq_zero_iff.mp (Nat.eq_zero_of_not_pos hmore)
      exact ⟨_, rfl, rfl, hmemb _ fun id => by simp⟩

theorem Plan.subtree {fuel : Nat} (hfuel : bound + 1 < fuel) (location : Location) :
    ∃ after, deleteSubtree fuel location [asFunction] draftOnly collection = some ⟨after, none⟩ ∧
      (∀ found, Hangs collection asFunction passes location found → after.lookup (asFunction found) = none) ∧
      ∀ id, (∀ found, Hangs collection asFunction passes location found → id ≠ asFunction found) →
        after.lookup id = collection.lookup id := by
  have htier : ∀ id ∈ [asFunction location], id = asFunction id.location := by
    intro id hid
    rw [mem_singleton.mp hid, hplan.location]
  obtain ⟨walk, hrun, hcol, hmem⟩ := hplan.tiers [] (fun id hid => nomatch hid) htier
    (Nat.zero_lt_of_lt hfuel) fun id _ _ => Nat.lt_add_right _ hfuel
  have hdel : ∀ id, id ∈ walk.toBeDeleted ↔ ∃ found, id = asFunction found ∧
      Hangs collection asFunction passes location found := by
    intro id
    rw [hmem, or_iff_right not_mem_nil]
    refine exists_congr fun found => and_congr_right fun _ => ?_
    constructor
    · rintro ⟨top, htop, hhangs⟩
      obtain rfl : top = location := by
        rw [← hplan.location top, mem_singleton.mp htop, hplan.location]
      exact hhangs
    · exact fun hhangs => ⟨location, mem_singleton_self _, hhangs⟩
  refine ⟨walk.collection.remove walk.toBeDeleted, ?_, fun found hhangs => ?_, fun id hid => ?_⟩
  · rw [deleteSubtree, map_singleton, breadthFirst_singleton, hrun]
    rfl
  · rw [lookup_remove, if_pos ((hdel _).mpr ⟨found, rfl, hhangs⟩)]
  · rw [lookup_remove, if_neg, hcol]
    intro hfnd
    obtain ⟨found, heq, hhangs⟩ := (hdel id).mp hfnd
    exact hid found hhangs heq

end

end EdxPlatform.DraftMongo
