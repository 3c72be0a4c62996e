import EdxPlatform.DraftMongo.Collection

/-!
# Unpublishing a subtree

The published documents below a block are copied tier by tier, and removed after the last
tier.  A draft that is there already stops the walk.
-/

namespace EdxPlatform.DraftMongo

open Collection

variable {Data : Type} {before : Collection Data} {root : Location}

/-- The location is some number of published documents below the root, and is published. -/
inductive PublishedAt (before : Collection Data) (root : Location) : Nat → Location → Prop
  | root {document : Document Data} (hroot : before.published root = some document) : PublishedAt before root 0 root
  | child {level : Nat} {parent child : Location} {document childDocument : Document Data}
      (habove : PublishedAt before root level parent)
      (hparent : before.published parent = some document) (hlists : child ∈ document.children)
      (hchild : before.published child = some childDocument) :
      PublishedAt before root (level + 1) child

/-- Nothing below the root has a draft, and no location is on two tiers. -/
structure Unshared (before : Collection Data) (root : Location) : Prop where
  undrafted : ∀ level location, PublishedAt before root level location → before.draft location = none
  once : ∀ level other location, PublishedAt before root level location →
    PublishedAt before root other location → level = other

/-- What unpublishing promises: it ends, and either fails without a trace or turns every
document of the published subtree into a draft. -/
def UnpublishesAtomically (branchSetting : Branch) (root : Location) (before : Collection Data) :
    Prop :=
  ∃ outcome, (∀ fuel > before.entries.length, unpublish branchSetting fuel root before = some outcome) ∧
    (outcome.raised ≠ none → outcome.collection = before) ∧
    (outcome.raised = none → ∀ level location, PublishedAt before root level location →
      outcome.collection.draft location = before.published location ∧ outcome.collection.published location = none)

variable {location : Location}

theorem PublishedAt.published_ne {level : Nat}
    (hat : PublishedAt before root level location) : before.published location ≠ none := by
  cases hat with
  | root hroot => exact ne_none_iff_exists'.mpr ⟨_, hroot⟩
  | child _ _ _ hch => exact ne_none_iff_exists'.mpr ⟨_, hch⟩

theorem publishedAt_zero_iff :
    PublishedAt before root 0 location ↔ location = root ∧ before.published root ≠ none := by
  constructor
  · intro hat
    cases hat with
    | root hroot => exact ⟨rfl, ne_none_iff_exists'.mpr ⟨_, hroot⟩⟩
  · rintro ⟨rfl, hroot⟩
    obtain ⟨document, hdoc⟩ := ne_none_iff_exists'.mp hroot
    exact PublishedAt.root hdoc

/-- The documents that the walk has come to so far are copied and noted for removal. -/
structure Converted (before : Collection Data) (reached : Location → Prop) (walk : Walk Data) :
    Prop where
  published : ∀ location, walk.collection.published location = before.published location
  stored : ∀ location, reached location → before.published location ≠ none
  undrafted : ∀ location, reached location → before.draft location = none
  drafted : ∀ location, reached location → walk.collection.draft location = before.published location
  kept : ∀ location, ¬ reached location → walk.collection.draft location = before.draft location
  deleted : ∀ id, id ∈ walk.toBeDeleted ↔ id.revision = .published ∧ reached id.location
  nodup : walk.toBeDeleted.Nodup

variable {reached : Location → Prop} {walk : Walk Data}

theorem Converted.start (before : Collection Data) : Converted before (fun _ => False) { collection := before } where
  published _ := rfl
  stored _ := False.elim
  undrafted _ := False.elim
  drafted _ := False.elim
  kept _ _ := rfl
  deleted _ := ⟨fun hmem => absurd hmem not_mem_nil, fun hmem => hmem.2.elim⟩
  nodup := nodup_nil

theorem Converted.congr {others : Location → Prop} (hwalk : Converted before reached walk)
    (hsame : ∀ location, reached location ↔ others location) : Converted before others walk := by
  obtain rfl : reached = others := funext fun location => propext (hsame location)
  exact hwalk

section

variable (hwalk : Converted before reached walk)
include hwalk

theorem Converted.length_le : walk.toBeDeleted.length ≤ before.entries.length := by
  have hsub : walk.toBeDeleted ⊆ before.entries.map Sigma.fst := by
    intro id hid
    obtain ⟨hrev, hrchd⟩ := (hwalk.deleted id).mp hid
    obtain ⟨document, hdoc⟩ := ne_none_iff_exists'.mp (hwalk.stored _ hrchd)
    refine mem_map.mpr ⟨⟨id, document⟩, mem_lookup_iff.mp ?_, rfl⟩
    rw [mem_def, ← hdoc, Collection.published, ← hrev]
  have hle := (List.subperm_of_subset hwalk.nodup hsub).length_le
  rwa [length_map] at hle

theorem Converted.mem_iff (location : Location) : (⟨location, .draft⟩ : DocumentId) ∈ walk.collection ↔
      reached location ∨ before.draft location ≠ none := by
  rw [mem_iff_lookup, ← ne_none_iff_exists']
  change walk.collection.draft location ≠ none ↔ _
  by_cases hrchd : reached location
  · rw [hwalk.drafted location hrchd]
    exact iff_of_true (hwalk.stored location hrchd) (.inl hrchd)
  · rw [hwalk.kept location hrchd, or_iff_right hrchd]

theorem Converted.convertItem_ok {document : Document Data} (hsto : before.published location = some document)
    (hfree : ¬ (reached location ∨ before.draft location ≠ none)) :
    ∃ after, convertItem true false ⟨⟨location, .published⟩, document⟩ walk =
        (after, .ok (document.children.map asPublished)) ∧
      after.toBeDeleted.length = walk.toBeDeleted.length + 1 ∧
      Converted before (fun other => reached other ∨ other = location) after := by
  obtain ⟨hnew, hund⟩ := not_or.mp hfree
  have hmem : (⟨location, .draft⟩ : DocumentId) ∉ walk.collection :=
    fun hmem => hfree ((hwalk.mem_iff location).mp hmem)
  refine ⟨_, by rw [convertItem]; exact if_neg hmem, length_append, ?_⟩
  have hdraf : ∀ other, (walk.collection.insert ⟨location, .draft⟩ document).lookup
      ⟨other, .draft⟩ = if other = location then some document else walk.collection.draft other := by
    intro other
    rw [lookup_insert]
    by_cases heq : other = location
    · rw [if_pos heq, if_pos (congrArg (DocumentId.mk · .draft) heq)]
    · rw [if_neg heq, if_neg fun hsame => heq (DocumentId.mk.inj hsame).1]
      rfl
  constructor
  · intro other
    rw [← hwalk.published other]
    exact lookup_insert_of_ne (by simp) _ _
  · rintro other (hrchd | rfl)
    · exact hwalk.stored other hrchd
    · exact ne_none_iff_exists'.mpr ⟨document, hsto⟩
  · rintro other (hrchd | rfl)
    · exact hwalk.undrafted other hrchd
    · exact not_not.mp hund
  · rintro other hoth
    refine (hdraf other).trans ?_
    by_cases heq : other = location
    · rw [if_pos heq, heq, hsto]
    · rw [if_neg heq, hwalk.drafted other (hoth.resolve_right heq)]
  · intro other hoth
    obtain ⟨hunr, hne⟩ := not_or.mp hoth
    refine (hdraf other).trans ?_
    rw [if_neg hne, hwalk.kept other hunr]
  · rintro ⟨other, revision⟩
    change _ ∈ walk.toBeDeleted ++ [_] ↔ _
    rw [mem_append, mem_singleton, hwalk.deleted, DocumentId.mk.injEq]
    tauto
  · refine List.Nodup.append hwalk.nodup (nodup_singleton _) ?_
    rw [List.disjoint_singleton]
    exact fun hmem => hnew ((hwalk.deleted _).mp hmem).2

theorem Converted.convertItem_error (location : Location)
    (document : Document Data) (hbloc : reached location ∨ before.draft location ≠ none) :
    convertItem true false ⟨⟨location, .published⟩, document⟩ walk =
      (walk, .error (.duplicateItem ⟨location, .draft⟩)) := by
  rw [convertItem]
  exact if_pos ((hwalk.mem_iff location).mpr hbloc)

end

theorem Converted.visitTier (entries : List (Entry Data)) {reached : Location → Prop}
    {walk : Walk Data} (hwalk : Converted before reached walk)
    (hsto : ∀ entry ∈ entries, entry.1.revision = .published ∧ before.lookup entry.1 = some entry.2)
    (hnod : (entries.map Sigma.fst).Nodup) :
    (∃ after, visitTier (convertItem true false) entries walk =
        (after, .ok (entries.flatMap fun entry => entry.2.children.map asPublished)) ∧
      after.toBeDeleted.length = walk.toBeDeleted.length + entries.length ∧
      (∀ entry ∈ entries, ¬ (reached entry.1.location ∨ before.draft entry.1.location ≠ none)) ∧
      Converted before (fun location => reached location ∨ ∃ entry ∈ entries, entry.1.location = location) after) ∨
    ∃ after error others, visitTier (convertItem true false) entries walk = (after, .error error) ∧
      (∃ entry ∈ entries, reached entry.1.location ∨ before.draft entry.1.location ≠ none) ∧
      Converted before others after ∧ ∀ location, reached location → others location := by
  induction entries generalizing reached walk with
  | nil =>
    refine .inl ⟨walk, rfl, rfl, fun entry hent => absurd hent not_mem_nil, ?_⟩
    exact hwalk.congr fun location => by simp
  | cons entry entries ih =>
    obtain ⟨⟨⟨location, revision⟩, document⟩, rfl, hlook⟩ :
        ∃ found : Entry Data, found = entry ∧ before.lookup found.1 = some found.2 :=
      ⟨entry, rfl, (hsto entry mem_cons_self).2⟩
    obtain rfl : revision = .published := (hsto _ mem_cons_self).1
    obtain ⟨hnew, hrest⟩ := nodup_cons.mp hnod
    by_cases hfree : reached location ∨ before.draft location ≠ none
    · right
      refine ⟨walk, .duplicateItem ⟨location, .draft⟩, reached, ?_, ⟨_, mem_cons_self, hfree⟩, hwalk, fun _ => id⟩
      rw [DraftMongo.visitTier, hwalk.convertItem_error location document hfree]
    · obtain ⟨middle, hitem, hlen, hmid⟩ := hwalk.convertItem_ok hlook hfree
      rcases ih hmid (forall_mem_cons.mp hsto).2 hrest with
        ⟨after, htier, hleng, hclear, haft⟩ |
        ⟨after, error, others, htier, ⟨other, hoth, hbloc⟩, haft, hmono⟩
      · left
        refine ⟨after, ?_, ?_, ?_, haft.congr fun other => ?_⟩
        · rw [DraftMongo.visitTier, hitem]
          simp only [htier, flatMap_cons]
        · rw [hleng, hlen, length_cons]
          omega
        · intro other hoth
          rcases mem_cons.mp hoth with rfl | hoth
          · exact hfree
          · exact fun hbloc => hclear other hoth (hbloc.imp_left .inl)
        · rw [exists_mem_cons_iff, or_assoc]
          exact or_congr_right (or_congr_left eq_comm)
      · right
        refine ⟨after, error, others, ?_, ?_, haft, fun other hrchd => hmono other (.inl hrchd)⟩
        · rw [DraftMongo.visitTier, hitem]
          simp only [htier]
        · refine ⟨other, mem_cons_of_mem _ hoth, hbloc.imp_left ?_⟩
          -- the head of the tier is not met again in its rest
          refine Or.rec id fun heq => absurd ?_ hnew
          have hid : other.1 = ⟨location, .published⟩ := by
            rw [← heq, ← (hsto other (mem_cons_of_mem _ hoth)).1]
          have hmem : other.1 ∈ entries.map Sigma.fst := mem_map_of_mem hoth
          rwa [hid] at hmem

/-- What the walk has done when it comes to a tier. -/
structure AtTier (before : Collection Data) (root : Location) (level : Nat) (tier : List DocumentId)
    (walk : Walk Data) : Prop where
  converted : Converted before (fun location => ∃ above < level, PublishedAt before root above location) walk
  revision : ∀ id ∈ tier, id.revision = .published
  tier : ∀ location, PublishedAt before root level location ↔
    asPublished location ∈ tier ∧ before.published location ≠ none
  once : ∀ above < level, ∀ other < level, ∀ location, PublishedAt before root above location →
    PublishedAt before root other location → above = other

variable {level : Nat} {tier : List DocumentId}

theorem AtTier.start (before : Collection Data) (root : Location) :
    AtTier before root 0 [asPublished root] { collection := before } where
  converted := (Converted.start before).congr fun location => by simp
  revision id hid := by
    rw [mem_singleton.mp hid]
    rfl
  tier location := by
    rw [publishedAt_zero_iff, mem_singleton, asPublished, asPublished, DocumentId.mk.injEq]
    constructor
    · rintro ⟨rfl, hroot⟩
      exact ⟨⟨rfl, rfl⟩, hroot⟩
    · rintro ⟨⟨rfl, -⟩, hroot⟩
      exact ⟨rfl, hroot⟩
  once above hlt := absurd hlt (Nat.not_lt_zero above)

theorem AtTier.mem_find (hat : AtTier before root level tier walk) {entry : Entry Data} :
    entry ∈ walk.collection.find tier ↔ entry.1.revision = .published ∧
      before.lookup entry.1 = some entry.2 ∧ PublishedAt before root level entry.1.location := by
  obtain ⟨⟨location, revision⟩, document⟩ := entry
  rw [Collection.mem_find]
  constructor
  · rintro ⟨hmem, hlook⟩
    obtain rfl : revision = .published := hat.revision _ hmem
    have hbef : before.published location = some document := (hat.converted.published location).symm.trans hlook
    exact ⟨rfl, hbef, (hat.tier location).mpr ⟨hmem, ne_none_iff_exists'.mpr ⟨document, hbef⟩⟩⟩
  · rintro ⟨hrev, hlook, hlevel⟩
    obtain rfl : revision = .published := hrev
    exact ⟨((hat.tier location).mp hlevel).1, (hat.converted.published location).trans hlook⟩

def Blocked (before : Collection Data) (root : Location) (level : Nat) (location : Location) : Prop :=
  (∃ above < level, PublishedAt before root above location) ∨ before.draft location ≠ none

theorem AtTier.exists_mem_find_iff (hat : AtTier before root level tier walk) (location : Location) :
    (∃ entry ∈ walk.collection.find tier, entry.1.location = location) ↔ PublishedAt before root level location := by
  constructor
  · rintro ⟨entry, hent, rfl⟩
    exact (hat.mem_find.mp hent).2.2
  · intro hlevel
    obtain ⟨document, hdoc⟩ := ne_none_iff_exists'.mp hlevel.published_ne
    exact ⟨⟨⟨location, .published⟩, document⟩, hat.mem_find.mpr ⟨rfl, hdoc, hlevel⟩, rfl⟩

theorem AtTier.next (hat : AtTier before root level tier walk) {after : Walk Data}
    (hclear : ∀ location, PublishedAt before root level location → ¬ Blocked before root level location)
    (haft : Converted before (fun location =>
      (∃ above < level, PublishedAt before root above location) ∨
        ∃ entry ∈ walk.collection.find tier, entry.1.location = location) after) :
    AtTier before root (level + 1)
      ((walk.collection.find tier).flatMap fun entry => entry.2.children.map asPublished) after where
  converted := by
    refine haft.congr fun location => ?_
    rw [hat.exists_mem_find_iff]
    simp only [Nat.lt_succ_iff_lt_or_eq, or_and_right, exists_or, exists_eq_left]
  revision id hid := by
    obtain ⟨entry, -, hch⟩ := mem_flatMap.mp hid
    obtain ⟨child, -, rfl⟩ := mem_map.mp hch
    rfl
  tier location := by
    constructor
    · intro hlevel
      refine ⟨?_, hlevel.published_ne⟩
      cases hlevel with
      | @child _ parent _ document _ habove hpar hls _ =>
        exact mem_flatMap.mpr ⟨⟨⟨parent, .published⟩, document⟩,
          hat.mem_find.mpr ⟨rfl, hpar, habove⟩, mem_map_of_mem hls⟩
    · rintro ⟨hmem, hsto⟩
      obtain ⟨document, hdoc⟩ := ne_none_iff_exists'.mp hsto
      obtain ⟨⟨⟨parent, revision⟩, parentDocument⟩, hent, hch⟩ := mem_flatMap.mp hmem
      obtain ⟨rfl, hpar, habove⟩ := hat.mem_find.mp hent
      obtain ⟨child, hls, heq⟩ := mem_map.mp hch
      obtain rfl : child = location := (DocumentId.mk.inj heq).1
      exact PublishedAt.child habove hpar hls hdoc
  once above habove other hoth location habo hothe := by
    rcases Nat.lt_succ_iff_lt_or_eq.mp habove with habove | rfl
    · rcases Nat.lt_succ_iff_lt_or_eq.mp hoth with hoth | rfl
      · exact hat.once above habove other hoth location habo hothe
      · exact absurd (.inl ⟨above, habove, habo⟩) (hclear location hothe)
    · rcases Nat.lt_succ_iff_lt_or_eq.mp hoth with hoth | rfl
      · exact absurd (.inl ⟨other, hoth, hothe⟩) (hclear location habo)
      · rfl

variable {other : Nat}

theorem PublishedAt.level_le (hemp : ∀ location, ¬ PublishedAt before root (level + 1) location)
    (hat : PublishedAt before root other location) : other ≤ level := by
  induction hat with
  | root _ => exact Nat.zero_le level
  | @child above parent child _ _ habove hpar hls hch ih =>
    refine Nat.lt_of_le_of_ne ih fun heq => ?_
    subst heq
    exact hemp child (PublishedAt.child habove hpar hls hch)

theorem AtTier.finished (hat : AtTier before root (level + 1) [] walk) : Unshared before root ∧
      Converted before (fun location => ∃ above, PublishedAt before root above location) walk := by
  have hlev : ∀ {other location}, PublishedAt before root other location → other < level + 1 :=
    fun hoth => Nat.lt_succ_of_le (hoth.level_le fun location hlevel => not_mem_nil ((hat.tier location).mp hlevel).1)
  constructor
  · constructor
    · exact fun other location hoth => hat.converted.undrafted location ⟨other, hlev hoth, hoth⟩
    · exact fun first second location hfst hsec => hat.once first (hlev hfst) second (hlev hsec) location hfst hsec
  · refine hat.converted.congr fun location => exists_congr fun above => ?_
    exact and_iff_right_of_imp hlev

theorem AtTier.visitTiers (fuel : Nat) {level : Nat} {tier : List DocumentId} {walk : Walk Data}
    (hat : AtTier before root level tier walk)
    (hfuel : before.entries.length < fuel + walk.toBeDeleted.length) :
    (∃ after, visitTiers (convertItem true false) fuel tier walk = some (after, .ok ()) ∧ Unshared before root ∧
      Converted before (fun location => ∃ above, PublishedAt before root above location) after) ∨
    ∃ after error others last, visitTiers (convertItem true false) fuel tier walk =
        some (after, .error error) ∧ Converted before others after ∧
      (∀ above < last, ∀ location, PublishedAt before root above location → others location) ∧
      ∃ location, PublishedAt before root last location ∧ Blocked before root last location := by
  induction fuel generalizing level tier walk with
  | zero => exact absurd hat.converted.length_le (by omega)
  | succ fuel ih =>
    have hfind : ∀ entry ∈ walk.collection.find tier, entry.1.revision = .published ∧
        before.lookup entry.1 = some entry.2 := fun entry hent =>
      ⟨(hat.mem_find.mp hent).1, (hat.mem_find.mp hent).2.1⟩
    rcases hat.converted.visitTier _ hfind (walk.collection.nodup_keys_find tier) with
      ⟨after, htier, hlen, hclear, haft⟩ |
      ⟨after, error, others, htier, ⟨entry, hent, hbloc⟩, haft, hmono⟩
    · have hunb : ∀ location, PublishedAt before root level location → ¬ Blocked before root level location := by
        intro location hlevel
        obtain ⟨entry, hent, rfl⟩ := (hat.exists_mem_find_iff location).mpr hlevel
        exact hclear entry hent
      have hnxt := hat.next hunb haft
      rw [DraftMongo.visitTiers, htier]
      by_cases hmore : 0 < ((walk.collection.find tier).flatMap fun entry => entry.2.children.map asPublished).length
      · simp only [hmore, if_true]
        refine ih hnxt ?_
        have hpos : 0 < (walk.collection.find tier).length := by
          obtain ⟨id, hid⟩ := List.exists_mem_of_length_pos hmore
          obtain ⟨entry, hent, -⟩ := mem_flatMap.mp hid
          exact List.length_pos_of_mem hent
        omega
      · simp only [hmore, if_false]
        rw [length_eq_zero_iff.mp (Nat.eq_zero_of_not_pos hmore)] at hnxt
        exact .inl ⟨after, rfl, hnxt.finished⟩
    · rw [DraftMongo.visitTiers, htier]
      refine .inr ⟨after, error, others, level, rfl, haft, ?_, ?_⟩
      · exact fun above hlt location habove => hmono location ⟨above, hlt, habove⟩
      · exact ⟨entry.1.location, (hat.mem_find.mp hent).2.2, hbloc⟩

theorem not_unshared_of_blocked {last : Nat}
    (hlast : PublishedAt before root last location) (hbloc : Blocked before root last location) :
    ¬ Unshared before root := by
  intro huns
  rcases hbloc with ⟨above, hlt, habove⟩ | hdrf
  · exact Nat.ne_of_lt hlt (huns.once above last location habove hlast)
  · exact hdrf (huns.undrafted last location hlast)

variable {fuel : Nat}

theorem breadthFirst_convertItem (before : Collection Data) (root : Location) (hfuel : before.entries.length < fuel) :
    (∃ after, breadthFirst (convertItem true false) fuel [asPublished root] before =
        some ⟨after.collection.remove after.toBeDeleted, none⟩ ∧ Unshared before root ∧
      Converted before (fun location => ∃ above, PublishedAt before root above location) after) ∨
    ∃ after error others last, breadthFirst (convertItem true false) fuel [asPublished root] before =
        some ⟨after.collection, some error⟩ ∧ Converted before others after ∧
      (∀ above < last, ∀ location, PublishedAt before root above location → others location) ∧
      ∃ location, PublishedAt before root last location ∧ Blocked before root last location := by
  rcases (AtTier.start before root).visitTiers fuel hfuel with
    ⟨after, hrun, haft⟩ | ⟨after, error, others, last, hrun, haft⟩
  · refine .inl ⟨after, ?_, haft⟩
    rw [breadthFirst_singleton, hrun]
    rfl
  · refine .inr ⟨after, error, others, last, ?_, haft⟩
    rw [breadthFirst_singleton, hrun]
    rfl

theorem unpublish_eq (before : Collection Data) (fuel : Nat) (hdir : root.directOnly = false) :
    unpublish .draftPreferred fuel root before =
      breadthFirst (convertItem true false) fuel [asPublished root] before := by
  simp [unpublish, convertToDraft, hdir]

theorem visitTiers_add {function : Visit Data} {tier : List DocumentId} {walk : Walk Data}
    {result : Walk Data × Except StoreError Unit}
    (hrun : visitTiers function fuel tier walk = some result) (more : Nat) :
    visitTiers function (fuel + more) tier walk = some result := by
  induction fuel generalizing tier walk with
  | zero => cases hrun
  | succ fuel ih =>
    rw [Nat.succ_add, visitTiers]
    rw [visitTiers] at hrun
    rcases htier : visitTier function (walk.collection.find tier) walk with ⟨after, error | nextTier⟩
    · rw [htier] at hrun
      exact hrun
    · rw [htier] at hrun
      by_cases hmore : nextTier.length > 0
      · simp only [hmore, if_true] at hrun ⊢
        exact ih hrun
      · simp only [hmore, if_false] at hrun ⊢
        exact hrun

theorem breadthFirst_of_le {function : Visit Data} {rootUsages : List DocumentId}
    {outcome : Outcome Data} (hle : fuel ≤ other)
    (hrun : breadthFirst function fuel rootUsages before = some outcome) :
    breadthFirst function other rootUsages before = some outcome := by
  obtain ⟨more, rfl⟩ := Nat.exists_eq_add_of_le hle
  rw [breadthFirst] at hrun ⊢
  by_cases hemp : rootUsages.length = 0
  · rwa [if_pos hemp] at hrun ⊢
  · rw [if_neg hemp, map_eq_some_iff] at hrun
    obtain ⟨result, hres, hout⟩ := hrun
    rw [if_neg hemp, visitTiers_add hres more, map_some, hout]

theorem Collection.find_singleton {id : DocumentId} {document : Document Data}
    (hlook : before.lookup id = some document) : before.find [id] = [⟨id, document⟩] := by
  have hnod : (before.find [id]).Nodup := (before.nodup_keys_find [id]).of_map
  refine List.perm_singleton.mp ((List.perm_ext_iff_of_nodup hnod (nodup_singleton _)).mpr ?_)
  intro entry
  rw [Collection.mem_find, mem_singleton, mem_singleton]
  constructor
  · rintro ⟨rfl, hent⟩
    rw [hent] at hlook
    rw [← some.inj hlook]
  · rintro rfl
    exact ⟨rfl, hlook⟩

theorem breadthFirst_of_draft (hpub : before.published root ≠ none) (hdrf : before.draft root ≠ none) (fuel : Nat) :
    breadthFirst (convertItem true false) (fuel + 1) [asPublished root] before =
      some ⟨before, some (.duplicateItem ⟨root, .draft⟩)⟩ := by
  obtain ⟨document, hdoc⟩ := ne_none_iff_exists'.mp hpub
  have hfind : before.find [asPublished root] = [⟨asPublished root, document⟩] := find_singleton hdoc
  have hitem := (Converted.start before).convertItem_error root document (.inr hdrf)
  rw [breadthFirst_singleton, visitTiers, hfind, visitTier, asPublished, hitem]
  rfl

theorem PublishedAt.root_published (hat : PublishedAt before root level location) : before.published root ≠ none := by
  induction hat with
  | root hroot => exact ne_none_iff_exists'.mpr ⟨_, hroot⟩
  | child _ _ _ _ ih => exact ih

theorem Converted.collection_ne {others : Location → Prop} {after : Walk Data}
    (haft : Converted before others after) (hroot : others root) : after.collection ≠ before := by
  intro heq
  have hdrf : after.collection.draft root = before.published root := haft.drafted root hroot
  rw [heq, haft.undrafted root hroot] at hdrf
  exact haft.stored root hroot hdrf.symm

/-- Unpublishing is atomic exactly when it has nothing to do, fails on the root, or meets
neither a draft nor a location twice below it. -/
theorem unpublishesAtomically_iff (branchSetting : Branch) (root : Location) (before : Collection Data) :
    UnpublishesAtomically branchSetting root before ↔
      root.directOnly ∨ branchSetting ≠ .draftPreferred ∨ before.published root = none ∨
        before.draft root ≠ none ∨ Unshared before root := by
  have hfailed : ∀ error, (∀ fuel, unpublish branchSetting fuel root before = some ⟨before, some error⟩) →
      UnpublishesAtomically branchSetting root before := fun error hrun =>
    ⟨_, fun fuel _ => hrun fuel, fun _ => rfl, fun hnone => absurd hnone (some_ne_none error)⟩
  by_cases hdirectOnly : root.directOnly
  · refine iff_of_true (hfailed (.invalidVersion root) fun fuel => ?_) (.inl hdirectOnly)
    rw [unpublish, if_pos hdirectOnly]
  by_cases hbranch : branchSetting = .draftPreferred
  swap
  · refine iff_of_true (hfailed (.invalidBranchSetting .draftPreferred branchSetting) fun fuel => ?_)
      (.inr (.inl hbranch))
    rw [unpublish, if_neg hdirectOnly, if_pos hbranch]
  subst hbranch
  have heq : ∀ fuel, unpublish .draftPreferred fuel root before = _ := fun fuel =>
    unpublish_eq before fuel (eq_false_iff.mpr hdirectOnly)
  simp only [UnpublishesAtomically, heq, hdirectOnly, ne_eq, not_true_eq_false, false_eq_true, false_or]
  rcases breadthFirst_convertItem before root (Nat.lt_succ_self before.entries.length) with
    ⟨after, hrun, hunshared, hafter⟩ |
    ⟨after, error, others, last, hrun, hafter, hlevels, location, hlast, hblocked⟩
  · refine iff_of_true ⟨_, fun fuel hfuel => breadthFirst_of_le hfuel hrun, fun hraised => (hraised rfl).elim,
      fun _ level location hlevel => ?_⟩ (.inr (.inr hunshared))
    have hdeleted : (⟨location, .published⟩ : DocumentId) ∈ after.toBeDeleted :=
      (hafter.deleted _).mpr ⟨rfl, level, hlevel⟩
    have hkept : (⟨location, .draft⟩ : DocumentId) ∉ after.toBeDeleted := fun hmem =>
      Revision.noConfusion ((hafter.deleted _).mp hmem).1
    constructor
    · rw [Collection.draft, lookup_remove, if_neg hkept]
      exact hafter.drafted location ⟨level, hlevel⟩
    · rw [Collection.published, lookup_remove, if_pos hdeleted]
  · by_cases hdraft : before.draft root = none
    · refine iff_of_false ?_ ?_
      · rintro ⟨outcome, hends, hfails, -⟩
        rw [hends _ (Nat.lt_succ_self _), Option.some.injEq] at hrun
        subst hrun
        refine hafter.collection_ne (hlevels 0 ?_ root ?_) (hfails (some_ne_none error))
        · -- on the first tier only a draft of the root could be in the way
          refine Nat.pos_of_ne_zero fun hzero => ?_
          subst hzero
          obtain ⟨rfl, -⟩ := publishedAt_zero_iff.mp hlast
          rcases hblocked with ⟨above, hlt, -⟩ | hblocked
          · exact Nat.not_lt_zero above hlt
          · exact hblocked hdraft
        · exact publishedAt_zero_iff.mpr ⟨rfl, hlast.root_published⟩
      · rintro (hnone | hsome | hunshared)
        · exact hlast.root_published hnone
        · exact hsome hdraft
        · exact not_unshared_of_blocked hlast hblocked hunshared
    · refine iff_of_true ⟨⟨before, some (.duplicateItem ⟨root, .draft⟩)⟩, fun fuel hfuel => ?_, fun _ => rfl,
        fun hnone => absurd hnone (some_ne_none _)⟩ (.inr (.inl hdraft))
      exact breadthFirst_of_le (Nat.le_trans (Nat.succ_le_succ (Nat.zero_le _)) hfuel)
        (breadthFirst_of_draft hlast.root_published hdraft 0)

/-- A published vertical, of which only the problem in it has been edited since. -/
def editedProblem : Collection String :=
  Dict.ofList [(⟨⟨"vertical", "unit"⟩, .published⟩, ⟨[⟨"problem", "quiz"⟩], "Unit"⟩),
      (⟨⟨"problem", "quiz"⟩, .published⟩, ⟨[], "Quiz"⟩),
      (⟨⟨"problem", "quiz"⟩, .draft⟩, ⟨[], "Harder quiz"⟩)]

/-- The draft of the vertical stays behind when the draft of the problem stops the call. -/
theorem editedProblem_not_unpublishesAtomically :
    ¬ UnpublishesAtomically .draftPreferred ⟨"vertical", "unit"⟩ editedProblem := by
  rintro ⟨outcome, hends, hfails, -⟩
  have hrun : (unpublish .draftPreferred 4 ⟨"vertical", "unit"⟩ editedProblem).map (fun outcome =>
      (outcome.raised, outcome.collection.draft ⟨"vertical", "unit"⟩)) =
        some (some (.duplicateItem ⟨⟨"problem", "quiz"⟩, .draft⟩), some ⟨[⟨"problem", "quiz"⟩], "Unit"⟩) := by decide
  rw [hends 4 (by decide), map_some, Option.some.injEq, Prod.mk.injEq] at hrun
  obtain ⟨hraised, hdraft⟩ := hrun
  rw [hfails (hraised.symm ▸ some_ne_none _)] at hdraft
  exact absurd hdraft (by decide)

end EdxPlatform.DraftMongo
