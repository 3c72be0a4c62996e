import Mathlib.Data.List.DropRight
import EdxPlatform.Lib.Acyclic
import EdxPlatform.Lib.ShortNames

/-!
# Striking nodes off a graph

Nodes are listed depth first, each as often as it is come by.  A node is struck off when it is
listed and all of its parents have been struck off.  Whether a node is listed again after that
can be told from the listing alone: it is not if each node that is struck off in the end is
listed just once after the last listing of its parents.
-/

namespace EdxPlatform

open Relation

variable {α : Type} {children : α → List α}

/-- Some nodes and what is below them, depth first, down to a number of levels. -/
def listing (children : α → List α) : Nat → List α → List α
  | 0, _ => []
  | depth + 1, keys => keys.flatMap fun key => key :: listing children depth (children key)

section Definitions

variable [DecidableEq α]

open Classical in
/-- Strikes off the nodes of a list one after the other; `none` if one is struck off again. -/
noncomputable def strike (children : α → List α) (gone : Finset α) : List α → Option (Finset α)
  | [] => some gone
  | key :: keys =>
    if ∀ parent, key ∈ children parent → parent ∈ gone then
      if key ∈ gone then none else strike children (insert key gone) keys
    else strike children gone keys

def OnceAfterParents (children : α → List α) (listed : List α) (key : α) : Prop :=
  (listed.rtakeWhile fun other => decide (key ∉ children other)).count key = 1

end Definitions

/-- The nodes that are struck off in the end: those that are listed first, or have a parent,
and all of whose parents are struck off. -/
inductive Doomed (children : α → List α) (first : α → Prop) : α → Prop where
  | intro {key : α} (hlisted : first key ∨ ∃ parent, key ∈ children parent)
      (hparents : ∀ parent, key ∈ children parent → Doomed children first parent) :
      Doomed children first key

section Striking

variable [DecidableEq α]

def ParentsGone (children : α → List α) (gone : Finset α) : Prop :=
  ∀ key ∈ gone, ∀ parent, key ∈ children parent → parent ∈ gone

theorem strike_append (gone : Finset α) (keys others : List α) : strike children gone (keys ++ others) =
      (strike children gone keys).bind fun gone => strike children gone others := by
  induction keys generalizing gone with
  | nil => rfl
  | cons key keys ih =>
    rw [cons_append, strike, strike]
    split
    · split
      · rfl
      · exact ih _
    · exact ih gone

section

variable {gone : Finset α} (hgone : ParentsGone children gone)
include hgone

theorem ParentsGone.insert {key : α} (hpars : ∀ parent, key ∈ children parent → parent ∈ gone) :
    ParentsGone children (insert key gone) := by
  intro other hoth parent hpar
  rcases Finset.mem_insert.mp hoth with rfl | hold
  · exact Finset.mem_insert_of_mem (hpars parent hpar)
  · exact Finset.mem_insert_of_mem (hgone other hold parent hpar)

theorem strike_listing_of_kept (depth : Nat)
    {keys : List α} (hkept : ∀ key ∈ keys, ∃ parent, key ∈ children parent ∧ parent ∉ gone) :
    strike children gone (listing children depth keys) = some gone := by
  induction depth generalizing keys with
  | zero => rfl
  | succ depth ih =>
    induction keys with
    | nil => rfl
    | cons key keys ihKeys =>
      obtain ⟨parent, hpar, hthere⟩ := hkept key mem_cons_self
      have hkey : key ∉ gone := fun hmem => hthere (hgone key hmem parent hpar)
      have hbel := ih fun child hch => ⟨key, hch, hkey⟩
      have hrest := ihKeys fun other hoth => hkept other (mem_cons_of_mem key hoth)
      change strike children gone
        ((key :: listing children depth (children key)) ++ listing children (depth + 1) keys) = _
      rw [strike_append, strike, if_neg fun hall => hthere (hall parent hpar), hbel]
      exact hrest

end

end Striking

/-! ## What is struck off -/

section Doomed

variable {first : α → Prop} {listed : List α} {key : α}

theorem Doomed.acc (hdoom : Doomed children first key) : Acc (fun parent child => child ∈ children parent) key := by
  induction hdoom with
  | intro _ _ ih => exact Acc.intro _ ih

theorem Doomed.parent {parent : α} (hdoom : Doomed children first key)
    (hch : key ∈ children parent) : Doomed children first parent := by
  cases hdoom with
  | intro _ hpars => exact hpars parent hch

theorem Doomed.acyclic : Acyclic fun parent child => Doomed children first child ∧ child ∈ children parent := by
  intro key hcycle
  have hdoom : Doomed children first key := by
    cases hcycle with
    | single hedge => exact hedge.1
    | tail _ hedge => exact hedge.1
  have hpath := TransGen.mono (fun _ _ hedge => hedge.2) key key hcycle
  have hirr : ∀ {other : α}, Acc (TransGen fun parent child => child ∈ children parent) other →
      ¬ TransGen (fun parent child => child ∈ children parent) other other := by
    intro other hacc
    induction hacc with
    | intro other _ ih => exact fun hloop => ih other hloop hloop
  exact hirr hdoom.acc.transGen hpath

variable {after before : List α}

theorem rtakeWhile_append_of_pos {keep : α → Bool} (hall : ∀ key ∈ after, keep key = true) :
    (before ++ after).rtakeWhile keep = before.rtakeWhile keep ++ after := by
  unfold List.rtakeWhile
  rw [reverse_append, List.takeWhile_append_of_pos fun key hkey => hall key (List.mem_reverse.mp hkey),
    reverse_append, List.reverse_reverse]

variable [DecidableEq α]

theorem OnceAfterParents.mem (honce : OnceAfterParents children listed key) :
    key ∈ listed.rtakeWhile fun other => decide (key ∉ children other) := by
  rw [← count_pos_iff, honce]
  exact Nat.one_pos

section

variable (honce : OnceAfterParents children (before ++ key :: after) key)
include honce

theorem OnceAfterParents.notMem (hnone : ∀ parent ∈ key :: after, key ∉ children parent) : key ∉ after := by
  have hcnt := honce
  unfold OnceAfterParents at hcnt
  rw [rtakeWhile_append_of_pos fun parent hpar => decide_eq_true (hnone parent hpar),
    count_append, count_cons_self] at hcnt
  rw [← List.count_eq_zero]
  omega

theorem OnceAfterParents.none_after (hlast : key ∉ after) : ∀ parent ∈ key :: after, key ∉ children parent := by
  have hmem := honce.mem
  have hsuf : key :: after <:+ before ++ key :: after := List.suffix_append before (key :: after)
  have htaken : key :: after <:+ (before ++ key :: after).rtakeWhile fun other => decide (key ∉ children other) := by
    rcases List.suffix_or_suffix_of_suffix hsuf (List.rtakeWhile_suffix _ _) with hshort | hlong
    · exact hshort
    · rcases List.suffix_cons_iff.mp hlong with heq | hless
      · rw [heq]
      · exact absurd (hless.subset hmem) hlast
  intro parent hpar
  have hkept := List.mem_rtakeWhile_imp (htaken.subset hpar)
  exact of_decide_eq_true hkept

end

/-- If each node that is to be struck off is listed once after the last listing of its parents,
these nodes are struck off, and none is struck off again. -/
theorem strike_of_once (hlis : ∀ key ∈ listed, first key ∨ ∃ parent, key ∈ children parent)
    (honce : ∀ key, Doomed children first key → OnceAfterParents children listed key) :
    ∃ gone, strike children ∅ listed = some gone ∧ ∀ key, key ∈ gone ↔ Doomed children first key := by
  have hloop : ∀ (after before : List α) (gone : Finset α), listed = before ++ after →
      (∀ key, key ∈ gone ↔ Doomed children first key ∧ key ∉ after) →
      ∃ last, strike children gone after = some last ∧ ∀ key, key ∈ last ↔ Doomed children first key := by
    intro after
    induction after with
    | nil => exact fun before gone _ hgone => ⟨gone, rfl, fun key => by simp [hgone]⟩
    | cons key after ih =>
      intro before gone heq hgone
      have hnxt : listed = (before ++ [key]) ++ after := by
        rw [heq, append_assoc, singleton_append]
      rw [strike]
      split
      · next hpars =>
          have hdoom : Doomed children first key :=
            Doomed.intro (hlis key (heq ▸ mem_append_right _ mem_cons_self))
              fun parent hpar => ((hgone parent).mp (hpars parent hpar)).1
          have hlast : key ∉ after := by
            refine OnceAfterParents.notMem (heq ▸ honce key hdoom) fun parent hmem hch => ?_
            exact ((hgone parent).mp (hpars parent hch)).2 hmem
          rw [if_neg fun hmem => ((hgone key).mp hmem).2 mem_cons_self]
          refine ih (before ++ [key]) _ hnxt fun other => ?_
          rw [Finset.mem_insert, hgone, mem_cons, not_or]
          constructor
          · rintro (rfl | ⟨hoth, -, haft⟩)
            · exact ⟨hdoom, hlast⟩
            · exact ⟨hoth, haft⟩
          · rintro ⟨hoth, haft⟩
            by_cases hsame : other = key
            · exact .inl hsame
            · exact .inr ⟨hoth, hsame, haft⟩
      · next hkept =>
          refine ih (before ++ [key]) gone hnxt fun other => ?_
          rw [hgone, mem_cons, not_or]
          refine and_congr_right fun hoth => and_iff_right_of_imp fun haft => ?_
          rintro rfl
          refine hkept fun parent hpar => (hgone parent).mpr ⟨hoth.parent hpar, fun hmem => ?_⟩
          exact OnceAfterParents.none_after (heq ▸ honce other hoth) haft parent hmem hpar
  refine hloop listed [] ∅ rfl fun key => ?_
  refine iff_of_false (Finset.notMem_empty key) fun ⟨hdoom, hnever⟩ => hnever ?_
  exact (List.rtakeWhile_suffix _ _).subset (honce key hdoom).mem

end Doomed

section Listing

variable {depth : Nat} {keys : List α}

theorem mem_listing {key : α} (hmem : key ∈ listing children depth keys) :
    key ∈ keys ∨ ∃ parent, key ∈ children parent := by
  induction depth generalizing keys with
  | zero => cases hmem
  | succ depth ih =>
    obtain ⟨other, hoth, hbel⟩ := mem_flatMap.mp hmem
    rcases mem_cons.mp hbel with rfl | hbel
    · exact .inl hoth
    · exact .inr ((ih hbel).elim (fun hch => ⟨other, hch⟩) id)

theorem mem_listing_self {key : α} (hkey : key ∈ keys) (depth : Nat) : key ∈ listing children (depth + 1) keys :=
  mem_flatMap.mpr ⟨key, hkey, mem_cons_self⟩

variable {levels : Nat}

/-- If the listing goes down far enough, the children of a node that is to be struck off are
listed after it. -/
theorem children_listed {first : α → Prop} {rank : α → Nat}
    (hrank : ∀ parent child, Doomed children first child → child ∈ children parent → rank parent < rank child)
    (hlev : ∀ key, Doomed children first key → rank key + 2 ≤ levels)
    {before after : List α} {parent : α}
    (hdepth : ∀ key ∈ keys, Doomed children first key → levels ≤ rank key + depth)
    (hdoom : Doomed children first parent)
    (heq : listing children depth keys = before ++ parent :: after) :
    ∀ child ∈ children parent, child ∈ after := by
  induction depth generalizing keys before after with
  | zero => simp [listing] at heq
  | succ depth ih =>
    induction keys generalizing before after with
    | nil => simp [listing] at heq
    | cons key keys ihKeys =>
      change (key :: listing children depth (children key)) ++ listing children (depth + 1) keys =
        before ++ parent :: after at heq
      have hrest : ∀ {before after}, listing children (depth + 1) keys = before ++ parent :: after →
          ∀ child ∈ children parent, child ∈ after :=
        ihKeys fun other hoth => hdepth other (mem_cons_of_mem key hoth)
      cases before with
      | nil =>
        obtain ⟨rfl, rfl⟩ := cons.inj heq
        intro child hch
        obtain ⟨less, rfl⟩ : ∃ less, depth = less + 1 := by
          have := hdepth key mem_cons_self hdoom
          have := hlev key hdoom
          exact ⟨depth - 1, by omega⟩
        exact mem_append_left _ (mem_listing_self hch less)
      | cons other before =>
        obtain ⟨-, heq⟩ := cons.inj heq
        rcases List.append_eq_append_iff.mp heq with ⟨more, -, hlat⟩ | ⟨more, hbel, hmore⟩
        · exact hrest hlat
        · cases more with
          | nil =>
            have hlat : listing children (depth + 1) keys = [] ++ parent :: after := hmore.symm
            exact hrest hlat
          | cons top more =>
            obtain ⟨rfl, rfl⟩ := cons.inj hmore
            intro child hch
            refine mem_append_left _ (ih (fun below hbel hbelo => ?_) hbel child hch)
            have := hrank key below hbelo hbel
            have := hdepth key mem_cons_self (hbelo.parent hbel)
            omega

variable [DecidableEq α] {gone last : Finset α} {listed : List α}

theorem strike_mono (hstrike : strike children gone listed = some last) :
    gone ⊆ last ∧ ∀ key ∈ last, key ∈ gone ∨ key ∈ listed := by
  induction listed generalizing gone with
  | nil =>
    obtain rfl := some.inj hstrike
    exact ⟨Finset.Subset.refl _, fun _ => .inl⟩
  | cons key listed ih =>
    rw [strike] at hstrike
    split at hstrike
    · split at hstrike
      · cases hstrike
      · obtain ⟨hsub, hmem⟩ := ih hstrike
        refine ⟨(Finset.subset_insert key gone).trans hsub, fun other hoth => ?_⟩
        rcases hmem other hoth with hins | hlat
        · rcases Finset.mem_insert.mp hins with rfl | hold
          · exact .inr mem_cons_self
          · exact .inl hold
        · exact .inr (mem_cons_of_mem key hlat)
    · obtain ⟨hsub, hmem⟩ := ih hstrike
      exact ⟨hsub, fun other hoth => (hmem other hoth).imp_right (mem_cons_of_mem key)⟩

theorem count_of_parents_gone {key : α} (hstrike : strike children gone listed = some last)
    (hpars : ∀ parent, key ∈ children parent → parent ∈ gone) :
    listed.count key ≤ 1 ∧ (key ∈ gone → key ∉ listed) ∧ (key ∈ listed → key ∈ last) := by
  induction listed generalizing gone with
  | nil => exact ⟨Nat.zero_le 1, fun _ => not_mem_nil, nofun⟩
  | cons other listed ih =>
    rw [strike] at hstrike
    by_cases hsame : other = key
    · subst hsame
      rw [if_pos hpars] at hstrike
      split at hstrike
      · cases hstrike
      · next hthere =>
          have hins : ∀ parent, other ∈ children parent → parent ∈ insert other gone :=
            fun parent hpar => Finset.mem_insert_of_mem (hpars parent hpar)
          have hnever := (ih hstrike hins).2.1 (Finset.mem_insert_self other gone)
          refine ⟨?_, fun hmem => absurd hmem hthere, fun _ => ?_⟩
          · rw [count_cons_self, List.count_eq_zero.mpr hnever]
          · exact (strike_mono hstrike).1 (Finset.mem_insert_self other gone)
    · rw [List.count_cons_of_ne hsame, mem_cons, or_iff_right (Ne.symm hsame)]
      split at hstrike
      · split at hstrike
        · cases hstrike
        · obtain ⟨hcnt, hnever, hlast⟩ := ih hstrike fun parent hpar => Finset.mem_insert_of_mem (hpars parent hpar)
          exact ⟨hcnt, fun hmem => hnever (Finset.mem_insert_of_mem hmem), hlast⟩
      · exact ih hstrike hpars

/-- If no node is struck off again, each that is to be struck off is listed once after the last
listing of its parents. -/
theorem once_of_strike {rank : α → Nat}
    (hrank : ∀ parent child, Doomed children (· ∈ keys) child → child ∈ children parent → rank parent < rank child)
    (hlev : ∀ key, Doomed children (· ∈ keys) key → rank key + 2 ≤ levels) (hdepth : levels ≤ depth)
    (hstrike : strike children ∅ (listing children depth keys) = some gone) {key : α}
    (hdoom : Doomed children (· ∈ keys) key) :
    key ∈ gone ∧ OnceAfterParents children (listing children depth keys) key := by
  induction hdoom with
  | @intro key hlis hpars ih =>
    have hdoom := Doomed.intro hlis hpars
    let apart : α → Bool := fun other => decide (key ∉ children other)
    let before := (listing children depth keys).rdropWhile apart
    let after := (listing children depth keys).rtakeWhile apart
    have hspl : listing children depth keys = before ++ after := List.rdropWhile_append_rtakeWhile.symm
    have happ : ∀ other ∈ after, key ∉ children other := by
      intro other hoth
      have hkept := List.mem_rtakeWhile_imp hoth
      exact of_decide_eq_true hkept
    -- the parents are gone before the part in which none of them is listed
    rw [hspl, strike_append] at hstrike
    obtain ⟨middle, hbef, haft⟩ := bind_eq_some_iff.mp hstrike
    have hgone : ∀ parent, key ∈ children parent → parent ∈ middle := fun parent hpar =>
      ((strike_mono haft).2 parent (ih parent hpar).1).resolve_right fun hmem => happ parent hmem hpar
    obtain ⟨hcnt, -, hlast⟩ := count_of_parents_gone haft hgone
    have hmem : key ∈ after := by
      by_cases hnil : before = []
      · rcases hlis with hkey | ⟨parent, hpar⟩
        · obtain ⟨less, rfl⟩ : ∃ less, depth = less + 1 := by
            have := hlev key hdoom
            exact ⟨depth - 1, by omega⟩
          have hthere : key ∈ listing children (less + 1) keys := mem_listing_self hkey less
          rwa [hspl, hnil] at hthere
        · have hthere := (strike_mono hbef).2 parent (hgone parent hpar)
          rw [hnil] at hthere
          exact absurd hthere (by simp)
      · have hpar := List.rdropWhile_last_not apart (listing children depth keys) hnil
        have hch : key ∈ children (before.getLast hnil) := by
          by_contra hnot
          exact hpar (decide_eq_true hnot)
        have heq : listing children depth keys = before.dropLast ++ before.getLast hnil :: after := by
          rw [hspl, List.append_cons, List.dropLast_append_getLast]
        exact children_listed hrank hlev (fun other _ _ => by omega) (hpars _ hch) heq key hch
    refine ⟨hlast hmem, ?_⟩
    have hpos := count_pos_iff.mpr hmem
    have honce : after.count key = 1 := by omega
    exact honce

/-- No node is struck off again if and only if each that is to be struck off is listed once
after the last listing of its parents. -/
theorem strike_listing_iff {nodes : Finset α}
    (hnodes : ∀ key, Doomed children (· ∈ keys) key → key ∈ nodes) (hdepth : nodes.card + 2 ≤ depth) :
    (∃ gone, strike children ∅ (listing children depth keys) = some gone) ↔
      ∀ key, Doomed children (· ∈ keys) key → OnceAfterParents children (listing children depth keys) key := by
  constructor
  · rintro ⟨gone, hstrike⟩ key hdoom
    obtain ⟨rank, hrank, hbound⟩ := Doomed.acyclic.exists_rank nodes
      fun parent child hedge => hnodes parent (hedge.1.parent hedge.2)
    refine (once_of_strike (fun parent child hch hmem => hrank parent child ⟨hch, hmem⟩)
      (fun other _ => ?_) hdepth hstrike hdoom).2
    have := hbound other
    omega
  · intro honce
    obtain ⟨gone, hstrike, -⟩ := strike_of_once (fun key hmem => mem_listing hmem) honce
    exact ⟨gone, hstrike⟩

end Listing

end EdxPlatform
