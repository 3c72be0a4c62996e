import EdxPlatform.DraftMongo.Publishing
import EdxPlatform.DraftMongo.Unpublishing

/-!
# Reverting to the published version

The walk goes down the published documents to the first block that also has a draft, and
from there down the drafts only.
-/

namespace EdxPlatform.DraftMongo

open Relation

variable {Data : Type}

def Collection.versions (collection : Collection Data) (location : Location) : List (Revision × Document Data) :=
  ((collection.draft location).map (Prod.mk .draft)).toList ++
    ((collection.published location).map (Prod.mk .published)).toList

def inTurn (call : Location → Collection Data → Option (Outcome Data)) :
    List Location → Collection Data → Option (Outcome Data)
  | [], collection => some ⟨collection, none⟩
  | location :: locations, collection =>
    match call location collection with
    | none => none
    | some ⟨collection, some error⟩ => some ⟨collection, some error⟩
    | some ⟨collection, none⟩ => inTurn call locations collection

/-- `delete_draft_only` of `revert_to_published`. -/
def deleteDraftOnly : Nat → Location → Collection Data → Option (Outcome Data)
  | 0, _, _ => none
  | fuel + 1, rootLocation, collection =>
    match collection.versions rootLocation with
    | [] => some ⟨collection, none⟩
    | [(revision, item)] =>
      if revision = .draft then some ⟨collection, some .assertion⟩
      else inTurn (deleteDraftOnly fuel) item.children collection
    | _ => deleteSubtree (fuel + 1) rootLocation [asDraft] true collection

/-- `revert_to_published` -/
def revertToPublished (branchSetting : Branch) (fuel : Nat) (location : Location)
    (collection : Collection Data) : Option (Outcome Data) :=
  if branchSetting ≠ .draftPreferred then
    some ⟨collection, some (.invalidBranchSetting .draftPreferred branchSetting)⟩
  else if location.directOnly then some ⟨collection, none⟩
  else if (collection.published location).isNone then some ⟨collection, some (.invalidVersion location)⟩
  else deleteDraftOnly fuel location collection

/-- What reverting promises: it returns, and no block of the published subtree has a draft,
so that what is read there is what is published. -/
def Reverts (branchSetting : Branch) (root : Location) (before : Collection Data) : Prop :=
  ∃ bound, ∀ fuel > bound, ∃ after, revertToPublished branchSetting fuel root before = some ⟨after, none⟩ ∧
    ∀ level location, PublishedAt before root level location →
      after.draft location = none ∧ after.visible location = before.published location

section

variable (before : Collection Data)

def Descends (parent child : Location) : Prop :=
  before.draft parent = none ∧ ∃ document, before.published parent = some document ∧ child ∈ document.children

/-- The location hangs by drafts on a block, the first with both versions on the way down
from the root. -/
def Reached (root location : Location) : Prop :=
  ∃ top, Relation.ReflTransGen (Descends before) root top ∧ before.draft top ≠ none ∧
    before.published top ≠ none ∧ Hangs before asDraft (fun _ => True) top location

def NoLoneDraft (root : Location) : Prop :=
  ∀ location, Relation.ReflTransGen (Descends before) root location →
    before.draft location ≠ none → before.published location ≠ none

end

variable {before : Collection Data} {root : Location} {child parent : Location}

theorem Descends.shows (hdes : Descends before parent child) : Shows before parent child := by
  obtain ⟨hdrf, document, hdoc, hls⟩ := hdes
  exact ⟨document, (visible_of_draft_eq_none hdrf).trans hdoc, hls⟩

variable {location top : Location}

theorem TreeShaped.shows_of_hangs (hshp : TreeShaped before)
    (hhangs : Hangs before asDraft (fun _ => True) top location) :
    ReflTransGen (Shows before) top location := by
  induction hhangs with
  | top _ => exact ReflTransGen.refl
  | child _ hpar hls _ _ ih => exact ih.tail ⟨_, hshp.visible_of_asDraft hpar, hls⟩

theorem TreeShaped.shows_of_reached (hshp : TreeShaped before)
    (hrchd : Reached before root location) : ReflTransGen (Shows before) root location := by
  obtain ⟨top, hpath, -, -, hhangs⟩ := hrchd
  exact (ReflTransGen.mono (fun _ _ hdes => hdes.shows) root top hpath).trans (hshp.shows_of_hangs hhangs)

/-! ## What the walk removes -/

/-- Some documents are gone, but none of those below the top. -/
structure Trimmed (before after : Collection Data) (top : Location) : Prop where
  sub : ∀ id document, after.lookup id = some document → before.lookup id = some document
  same : ∀ location, Relation.ReflTransGen (Shows before) top location → ∀ revision,
    after.lookup ⟨location, revision⟩ = before.lookup ⟨location, revision⟩

/-- Just the drafts of the chosen locations are removed. -/
structure Removes (chosen : Location → Prop) (before after : Collection Data) : Prop where
  gone : ∀ location, chosen location → after.lookup (asDraft location) = none
  kept : ∀ id, (∀ location, chosen location → id ≠ asDraft location) → after.lookup id = before.lookup id

variable {chosen others : Location → Prop} {middle after : Collection Data}

theorem Removes.congr (hremo : Removes chosen before after)
    (hsame : ∀ location, chosen location ↔ others location) : Removes others before after := by
  obtain rfl : chosen = others := funext fun location => propext (hsame location)
  exact hremo

variable {document : Document Data} (hshp : TreeShaped before)

theorem Removes.sub (hremo : Removes chosen before after) {id : DocumentId} (hdoc : after.lookup id = some document) :
    before.lookup id = some document := by
  by_cases hchos : ∃ location, chosen location ∧ id = asDraft location
  · obtain ⟨location, hloc, rfl⟩ := hchos
    rw [hremo.gone location hloc] at hdoc
    cases hdoc
  · rw [← hdoc, hremo.kept id fun location hloc heq => hchos ⟨location, hloc, heq⟩]

theorem Removes.trans (hfst : Removes chosen before middle) (hsec : Removes others middle after) :
    Removes (fun location => chosen location ∨ others location) before after where
  gone location hloc := by
    rcases hloc with hloc | hloc
    · by_contra hsto
      obtain ⟨document, hdoc⟩ := ne_none_iff_exists'.mp hsto
      have hmid := hsec.sub hdoc
      rw [hfst.gone location hloc] at hmid
      cases hmid
    · exact hsec.gone location hloc
  kept id hid := by
    rw [hsec.kept id fun location hloc => hid location (.inr hloc),
      hfst.kept id fun location hloc => hid location (.inl hloc)]

theorem Trimmed.removes (htrimm : Trimmed before middle top) (hremo : Removes chosen middle after)
    (hels : ∀ location, chosen location → ¬ ReflTransGen (Shows before) top location) :
    Trimmed before after top where
  sub id document hdoc := htrimm.sub id document (hremo.sub hdoc)
  same location hbel revision := by
    rw [← htrimm.same location hbel revision]
    refine hremo.kept _ fun other hoth heq => hels other hoth ?_
    rwa [← location_asDraft other, ← heq]

theorem Trimmed.down (htrimm : Trimmed before after top)
    (hshows : Shows before top child) : Trimmed before after child where
  sub := htrimm.sub
  same location hbel := htrimm.same location (hbel.head hshows)

section

variable (htrimm : Trimmed before after top)
include hshp htrimm

theorem TreeShaped.plan {rank : Location → Nat} {bound : Nat}
    (hrank : ∀ parent child, Shows before parent child → rank parent < rank child)
    (hbound : ∀ location, rank location ≤ bound) :
    Plan after asDraft true (fun _ => True) rank bound where
  location := location_asDraft
  check parent document child hpar hls deleted hdel _ := by
    refine iff_true_intro fun id hid => ?_
    obtain ⟨⟨other, hoth, hothe⟩, hrev⟩ := Collection.mem_getRawParentLocations.mp hid
    have hbef := htrimm.sub id other hoth
    have hid : id = asDraft id.location := by
      obtain ⟨location, revision⟩ := id
      cases revision with
      | draft => exact (hshp.asDraft_of_draft (ne_none_iff_exists'.mpr ⟨other, hbef⟩)).symm
      | published =>
        have hdir : location.directOnly = true := by simpa using hrev
        rw [asDraft, if_pos hdir]
    have hshows : Shows before id.location child := ⟨other, hshp.visible_of_asDraft (hid ▸ hbef), hothe⟩
    have hpare : Shows before parent child := ⟨document, hshp.visible_of_asDraft (htrimm.sub _ _ hpar), hls⟩
    rwa [hid, hshp.unique id.location parent child hshows hpare]
  ranked parent document child hpar hls _ :=
    hrank parent child ⟨document, hshp.visible_of_asDraft (htrimm.sub _ _ hpar), hls⟩
  bounded location _ := hbound location

theorem Trimmed.hangs_iff :
    Hangs after asDraft (fun _ => True) top location ↔ Hangs before asDraft (fun _ => True) top location := by
  have hlook : ∀ {below}, ReflTransGen (Shows before) top below →
      after.lookup (asDraft below) = before.lookup (asDraft below) := by
    intro below hbel
    have hsame := htrimm.same below hbel (asDraft below).revision
    have hid : (⟨below, (asDraft below).revision⟩ : DocumentId) = asDraft below := by
      rw [asDraft]
      split_ifs <;> rfl
    rwa [hid] at hsame
  constructor
  · intro hhangs
    induction hhangs with
    | top hsto => exact Hangs.top (hlook ReflTransGen.refl ▸ hsto)
    | @child parent child document habove hpar hls _ hsto ih =>
      have hbel := hshp.shows_of_hangs ih
      have hbef := htrimm.sub _ _ hpar
      refine ih.child hbef hls trivial ?_
      rwa [← hlook (hbel.tail ⟨document, hshp.visible_of_asDraft hbef, hls⟩)]
  · intro hhangs
    induction hhangs with
    | top hsto => exact Hangs.top (hlook ReflTransGen.refl ▸ hsto)
    | @child parent child document habove hpar hls _ hsto ih =>
      have hbel := hshp.shows_of_hangs habove
      refine ih.child (hlook hbel ▸ hpar) hls trivial ?_
      rwa [hlook (hbel.tail ⟨document, hshp.visible_of_asDraft hpar, hls⟩)]

end

/-! ## The walk -/

section

variable (hdrf : before.draft parent = none) (hpub : before.published parent = some document)
include hdrf hpub

theorem noLoneDraft_iff_of_published :
    NoLoneDraft before parent ↔ ∀ child ∈ document.children, NoLoneDraft before child := by
  constructor
  · exact fun hnone child hls location hpath => hnone location (hpath.head ⟨hdrf, document, hpub, hls⟩)
  · intro hall location hpath hloc
    rcases ReflTransGen.cases_head hpath with rfl | ⟨child, ⟨-, other, hoth, hls⟩, hrest⟩
    · exact absurd hdrf hloc
    · obtain rfl := some_unique hpub hoth
      exact hall child hls location hrest hloc

theorem reached_iff_of_published :
    Reached before parent location ↔ ∃ child ∈ document.children, Reached before child location := by
  constructor
  · rintro ⟨top, hpath, htop, htopP, hhangs⟩
    rcases ReflTransGen.cases_head hpath with rfl | ⟨child, ⟨-, other, hoth, hls⟩, hrest⟩
    · exact absurd hdrf htop
    · obtain rfl := some_unique hpub hoth
      exact ⟨child, hls, top, hrest, htop, htopP, hhangs⟩
  · rintro ⟨child, hls, top, hpath, htop⟩
    exact ⟨top, hpath.head ⟨hdrf, document, hpub, hls⟩, htop⟩

end

theorem eq_of_descends (hdrf : before.draft top ≠ none)
    (hpath : ReflTransGen (Descends before) top location) : location = top := by
  rcases ReflTransGen.cases_head hpath with heq | ⟨child, hdes, -⟩
  · exact heq.symm
  · exact absurd hdes.1 hdrf

def WalksDown (before : Collection Data) (call : Location → Collection Data → Option (Outcome Data))
    (root : Location) : Prop :=
  ∀ middle, Trimmed before middle root → ∃ after raised, call root middle = some ⟨after, raised⟩ ∧
    (raised = none ↔ NoLoneDraft before root) ∧
    (raised = none → Removes (Reached before root) middle after)

section

include hshp

theorem TreeShaped.inTurn {call : Location → Collection Data → Option (Outcome Data)}
    (children : List Location) (hnod : children.Nodup)
    (hshows : ∀ child ∈ children, Shows before parent child)
    (hcall : ∀ child ∈ children, WalksDown before call child) {middle : Collection Data}
    (htrimm : ∀ child ∈ children, Trimmed before middle child) :
    ∃ after raised, inTurn call children middle = some ⟨after, raised⟩ ∧
      (raised = none ↔ ∀ child ∈ children, NoLoneDraft before child) ∧
      (raised = none → Removes (fun location => ∃ child ∈ children, Reached before child location) middle after) := by
  induction children generalizing middle with
  | nil =>
    refine ⟨middle, none, rfl, ?_, fun _ => ⟨fun location => ?_, fun _ _ => rfl⟩⟩
    · exact iff_of_true rfl fun child hch => nomatch hch
    · exact fun hrchd => absurd hrchd (by simp)
  | cons child children ih =>
    obtain ⟨hnew, hrest⟩ := nodup_cons.mp hnod
    obtain ⟨next, raised, hrun, hrais, hremo⟩ := hcall child mem_cons_self middle (htrimm child mem_cons_self)
    rw [DraftMongo.inTurn, hrun]
    cases raised with
    | some error =>
      refine ⟨next, some error, rfl, ?_, fun hnone => absurd hnone (some_ne_none error)⟩
      refine iff_of_false (some_ne_none error) fun hall => ?_
      exact some_ne_none error (hrais.mpr (hall child mem_cons_self))
    | none =>
      have hfst := hremo rfl
      have htrim : ∀ other ∈ children, Trimmed before next other := by
        intro other hoth
        refine (htrimm other (mem_cons_of_mem _ hoth)).removes hfst ?_
        -- what is removed below the child is not below its sibling
        intro location hrchd hbel
        have heq := hshp.disjoint (hshows child mem_cons_self)
          (hshows other (mem_cons_of_mem _ hoth)) (hshp.shows_of_reached hrchd) hbel
        exact hnew (heq ▸ hoth)
      obtain ⟨after, raised, hruns, hraise, hrem⟩ := ih hrest (forall_mem_cons.mp hshows).2
        (forall_mem_cons.mp hcall).2 htrim
      refine ⟨after, raised, hruns, ?_, fun hnone => ?_⟩
      · rw [hraise, forall_mem_cons]
        exact (and_iff_right (hrais.mp rfl)).symm
      · refine (hfst.trans (hrem hnone)).congr fun location => ?_
        rw [exists_mem_cons_iff]

theorem TreeShaped.deleteDraftOnly {rank : Location → Nat} {bound : Nat}
    (hrank : ∀ parent child, Shows before parent child → rank parent < rank child)
    (hbound : ∀ location, rank location ≤ bound) (fuel : Nat) (root : Location)
    (hfuel : 2 * bound + 2 < fuel + rank root) : WalksDown before (deleteDraftOnly fuel) root := by
  induction fuel generalizing root with
  | zero =>
    have hle := hbound root
    omega
  | succ fuel ih =>
    intro middle htrimm
    have hle := hbound root
    have hdrf : middle.draft root = before.draft root := htrimm.same root ReflTransGen.refl .draft
    have hpub : middle.published root = before.published root := htrimm.same root ReflTransGen.refl .published
    rw [DraftMongo.deleteDraftOnly, Collection.versions, hdrf, hpub]
    cases hdrB : before.draft root with
    | some draft =>
      have hedit : before.draft root ≠ none := ne_none_iff_exists'.mpr ⟨draft, hdrB⟩
      cases hpubB : before.published root with
      | none =>
        refine ⟨middle, some .assertion, rfl, ?_, fun hnone => absurd hnone (some_ne_none _)⟩
        refine iff_of_false (some_ne_none _) fun hnone => ?_
        exact hnone root ReflTransGen.refl hedit hpubB
      | some published =>
        have hsto : before.published root ≠ none := ne_none_iff_exists'.mpr ⟨published, hpubB⟩
        have hplan := hshp.plan htrimm hrank hbound
        obtain ⟨after, hrun, hgone, hkept⟩ := hplan.subtree (show bound + 1 < fuel + 1 by omega) root
        refine ⟨after, none, hrun, iff_of_true rfl ?_, fun _ => ?_⟩
        · intro location hpath _
          rwa [eq_of_descends hedit hpath]
        · refine (Removes.mk hgone hkept).congr fun location => ?_
          rw [htrimm.hangs_iff hshp]
          constructor
          · exact fun hhangs => ⟨root, ReflTransGen.refl, hedit, hsto, hhangs⟩
          · rintro ⟨top, hpath, -, -, hhangs⟩
            rwa [eq_of_descends hedit hpath] at hhangs
    | none =>
      cases hpubB : before.published root with
      | none =>
        have hends : ∀ {location}, ReflTransGen (Descends before) root location → location = root := by
          intro location hpath
          rcases ReflTransGen.cases_head hpath with heq | ⟨child, ⟨-, other, hoth, -⟩, -⟩
          · exact heq.symm
          · rw [hpubB] at hoth
            cases hoth
        refine ⟨middle, none, rfl, iff_of_true rfl ?_, fun _ => ⟨?_, fun _ _ => rfl⟩⟩
        · intro location hpath hloc
          rw [hends hpath] at hloc
          exact absurd hdrB hloc
        · rintro location ⟨top, hpath, htop, -⟩
          rw [hends hpath] at htop
          exact absurd hdrB htop
      | some item =>
        have hshows : ∀ child ∈ item.children, Shows before root child := fun child hls =>
          Descends.shows ⟨hdrB, item, hpubB, hls⟩
        have hvisb : before.visible root = some item := (visible_of_draft_eq_none hdrB).trans hpubB
        obtain ⟨after, raised, hrun, hrais, hremo⟩ := hshp.inTurn item.children (hshp.nodup root item hvisb) hshows
          (fun child hls => ih child (by have := hrank root child (hshows child hls); omega))
          fun child hls => htrimm.down (hshows child hls)
        refine ⟨after, raised, hrun, ?_, fun hnone => (hremo hnone).congr fun location => ?_⟩
        · rw [hrais, noLoneDraft_iff_of_published hdrB hpubB]
        · rw [reached_iff_of_published hdrB hpubB]

theorem TreeShaped.revertToPublished (hdir : root.directOnly = false)
    (hpub : before.published root ≠ none) : ∃ bound, ∀ fuel > bound, ∃ after raised,
      revertToPublished .draftPreferred fuel root before = some ⟨after, raised⟩ ∧
      (raised = none ↔ NoLoneDraft before root) ∧
      (raised = none → Removes (Reached before root) before after) := by
  obtain ⟨rank, bound, hrank, hbound⟩ := hshp.exists_rank
  refine ⟨2 * bound + 2, fun fuel hfuel => ?_⟩
  have hsame : Trimmed before before root := ⟨fun _ _ => id, fun _ _ _ => rfl⟩
  obtain ⟨after, raised, hrun, hres⟩ := hshp.deleteDraftOnly hrank hbound fuel root
    (Nat.lt_add_right _ hfuel) before hsame
  refine ⟨after, raised, ?_, hres⟩
  rw [DraftMongo.revertToPublished, if_neg (not_not.mpr rfl), hdir, if_neg false_ne_true,
    Option.isNone_eq_false_iff.mpr (Option.isSome_iff_ne_none.mpr hpub), if_neg false_ne_true, hrun]

/-- A block is as it was published exactly when its draft is reached, or it has none and is
not reached. -/
theorem TreeShaped.reverted_iff (hremo : Removes (Reached before root) before after)
    (hpub : before.published location ≠ none) :
    (after.draft location = none ∧ after.visible location = before.published location) ↔
      (Reached before root location ↔ before.draft location ≠ none) := by
  -- only the location itself could remove its documents
  have hkept : ∀ revision, (Reached before root location → (⟨location, revision⟩ : DocumentId) ≠ asDraft location) →
      after.lookup ⟨location, revision⟩ = before.lookup ⟨location, revision⟩ := by
    intro revision hne
    refine hremo.kept _ fun other hoth heq => ?_
    obtain rfl : location = other := by rw [← location_asDraft other, ← heq]
    exact hne hoth heq
  by_cases hdrf : before.draft location = none
  · have hpubl : Reached before root location → asDraft location = ⟨location, .published⟩ := by
      rintro ⟨top, -, -, -, hhangs⟩
      by_cases hdir : location.directOnly = true
      · rw [asDraft, if_pos hdir]
      · refine absurd ?_ hhangs.stored
        rw [asDraft, if_neg hdir]
        exact hdrf
    have haft : after.draft location = none :=
      (hkept .draft fun hrchd heq => by cases heq.trans (hpubl hrchd)).trans hdrf
    rw [visible_of_draft_eq_none haft, and_iff_right haft]
    by_cases hrchd : Reached before root location
    · have hgone : after.published location = none := by
        rw [Collection.published, ← hpubl hrchd]
        exact hremo.gone location hrchd
      rw [hgone]
      exact iff_of_false (fun heq => hpub heq.symm) fun hsame => hsame.mp hrchd hdrf
    · exact iff_of_true (hkept .published fun hoth => absurd hoth hrchd) (iff_of_false hrchd (not_not.mpr hdrf))
  · have hid := hshp.asDraft_of_draft hdrf
    by_cases hrchd : Reached before root location
    · have hgone : after.draft location = none := by
        rw [Collection.draft, ← hid]
        exact hremo.gone location hrchd
      rw [visible_of_draft_eq_none hgone]
      refine iff_of_true ⟨hgone, hkept .published fun _ heq => ?_⟩ (iff_of_true hrchd hdrf)
      cases heq.trans hid
    · have hstays : after.draft location = before.draft location := hkept .draft fun hoth => absurd hoth hrchd
      rw [hstays]
      exact iff_of_false (fun hnone => hdrf hnone.1) fun hsame => hrchd (hsame.mpr hdrf)

end

/-- Reverting a block restores what is published exactly when no lone draft is on its way
and the drafts of the published subtree are those that it reaches. -/
theorem reverts_iff (hshaped : TreeShaped before) (hdirectOnly : root.directOnly = false)
    (hpublished : before.published root ≠ none) (branchSetting : Branch) :
    Reverts branchSetting root before ↔ branchSetting = .draftPreferred ∧ NoLoneDraft before root ∧
        ∀ level location, PublishedAt before root level location →
          (Reached before root location ↔ before.draft location ≠ none) := by
  obtain ⟨bound, hends⟩ := hshaped.revertToPublished hdirectOnly hpublished
  constructor
  · rintro ⟨other, hreverts⟩
    have hbranch : branchSetting = .draftPreferred := by
      by_contra hne
      obtain ⟨after, hrun, -⟩ := hreverts (other + 1) (Nat.lt_succ_self other)
      rw [revertToPublished, if_pos hne] at hrun
      cases hrun
    subst hbranch
    obtain ⟨after, hrun, hrestored⟩ := hreverts (bound + other + 1) (by omega)
    obtain ⟨result, raised, hresult, hraised, hremoves⟩ := hends (bound + other + 1) (by omega)
    rw [hrun, Option.some.injEq, Outcome.mk.injEq] at hresult
    obtain ⟨rfl, rfl⟩ := hresult
    refine ⟨rfl, hraised.mp rfl, fun level location hlevel => ?_⟩
    exact (hshaped.reverted_iff (hremoves rfl) hlevel.published_ne).mp (hrestored level location hlevel)
  · rintro ⟨rfl, hnone, hdrafts⟩
    refine ⟨bound, fun fuel hfuel => ?_⟩
    obtain ⟨after, raised, hrun, hraised, hremoves⟩ := hends fuel hfuel
    obtain rfl := hraised.mpr hnone
    refine ⟨after, hrun, fun level location hlevel => ?_⟩
    exact (hshaped.reverted_iff (hremoves rfl) hlevel.published_ne).mpr (hdrafts level location hlevel)

/-- The only draft is below a block that is published and was not edited. -/
theorem editedProblem_reverts_iff : Reverts .draftPreferred ⟨"vertical", "unit"⟩ editedProblem ↔
      Branch.draftPreferred = .draftPreferred ∧ NoLoneDraft editedProblem ⟨"vertical", "unit"⟩ ∧
        ∀ level location, PublishedAt editedProblem ⟨"vertical", "unit"⟩ level location →
          (Reached editedProblem ⟨"vertical", "unit"⟩ location ↔ editedProblem.draft location ≠ none) :=
  reverts_iff (TreeShaped.of_rank (fun location => if location.category = "problem" then 1 else 0)
      (by decide) (by decide) (by decide) (by decide))
    (by decide) (by decide) _

/-- A unit with a quiz in a conditional is made and published, then edited as a whole; the
conditional is published again, and the quiz edited again. -/
def editedQuiz : Option (Collection String) := do
  let unit : Location := ⟨"vertical", "unit"⟩
  let conditional : Location := ⟨"conditional", "choice"⟩
  let quiz : Location := ⟨"problem", "quiz"⟩
  let publish (location : Location) (collection : Collection String) :=
    publish unqueried .draftPreferred 9 location { collection }
  let made ← updateItem .draftPreferred 9 quiz ⟨[], "Quiz"⟩ true ∅
  let made ← updateItem .draftPreferred 9 conditional ⟨[quiz], "Choice"⟩ true made.collection
  let made ← updateItem .draftPreferred 9 unit ⟨[conditional], "Unit"⟩ true made.collection
  let published ← publish unit made.collection
  let edited ← updateItem .draftPreferred 9 unit ⟨[conditional], "New unit"⟩ false published.collection
  let published ← publish conditional edited.collection
  let edited ← updateItem .draftPreferred 9 quiz ⟨[], "Harder quiz"⟩ false published.collection
  return edited.collection

/-- The draft of the quiz survives, since the conditional between has none. -/
theorem editedQuiz_not_reverts : ∃ state, editedQuiz = some state ∧ TreeShaped state ∧
    state.published ⟨"vertical", "unit"⟩ ≠ none ∧ ¬ Reverts .draftPreferred ⟨"vertical", "unit"⟩ state := by
  refine ⟨editedQuiz.getD ∅, rfl, ?_, by decide, ?_⟩
  · refine TreeShaped.of_rank (fun location =>
      if location.category = "problem" then 2 else if location.category = "conditional" then 1 else 0)
      (by decide) (by decide) (by decide) (by decide)
  · rintro ⟨bound, hreverts⟩
    obtain ⟨after, hrun, hrestored⟩ := hreverts (bound + 3) (by omega)
    have hdraft : (revertToPublished .draftPreferred (bound + 3) ⟨"vertical", "unit"⟩
        (editedQuiz.getD ∅)).map (fun outcome => outcome.collection.draft ⟨"problem", "quiz"⟩) =
          some (some ⟨[], "Harder quiz"⟩) := rfl
    have hquiz : PublishedAt (editedQuiz.getD ∅) ⟨"vertical", "unit"⟩ 2 ⟨"problem", "quiz"⟩ :=
      ((PublishedAt.root rfl).child rfl mem_cons_self rfl).child rfl mem_cons_self rfl
    rw [hrun, map_some, Option.some.injEq, (hrestored 2 _ hquiz).1] at hdraft
    cases hdraft

end EdxPlatform.DraftMongo
