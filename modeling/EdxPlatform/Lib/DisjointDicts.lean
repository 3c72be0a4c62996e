import EdxPlatform.Lib.Dict

/-!
# Updates by dictionaries that have no key in common

The order of such updates makes no difference.
-/

namespace EdxPlatform.Dict

variable {κ ν : Type}

def PairwiseDisjoint (dicts : List (Dict κ ν)) : Prop := dicts.Pairwise AList.Disjoint

variable {dicts others : List (Dict κ ν)}

theorem PairwiseDisjoint.perm (hdisj : PairwiseDisjoint dicts) (hperm : dicts.Perm others) : PairwiseDisjoint others :=
  List.Pairwise.perm hdisj hperm fun hfst key hkey hoth => hfst key hoth hkey

variable [DecidableEq κ]

def updateAll (dict : Dict κ ν) (others : List (Dict κ ν)) : Dict κ ν := others.foldl update dict

theorem lookup_updateAll_of_notMem {key : κ} (hnot : ∀ other ∈ others, key ∉ other) (dict : Dict κ ν) :
    (updateAll dict others).lookup key = dict.lookup key := by
  induction others generalizing dict with
  | nil => rfl
  | cons other others ih =>
    obtain ⟨hoth, hrest⟩ := forall_mem_cons.mp hnot
    change (updateAll (update dict other) others).lookup key = _
    rw [ih hrest, lookup_update, lookup_eq_none.mpr hoth, none_or]

theorem lookup_updateAll_of_mem (hdisj : PairwiseDisjoint others)
    {other : Dict κ ν} (hoth : other ∈ others) {key : κ} {value : ν}
    (hlook : other.lookup key = some value) (dict : Dict κ ν) :
    (updateAll dict others).lookup key = some value := by
  have hkey : key ∈ other := mem_of_lookup hlook
  induction others generalizing dict with
  | nil => cases hoth
  | cons first others ih =>
    obtain ⟨hfst, hrest⟩ := pairwise_cons.mp hdisj
    change (updateAll (update dict first) others).lookup key = _
    rcases mem_cons.mp hoth with rfl | hoth
    · rw [lookup_updateAll_of_notMem fun next hnxt => hfst next hnxt key hkey, lookup_update, hlook, some_or]
    · exact ih hrest hoth _

theorem lookup_updateAll_perm (hdisj : PairwiseDisjoint dicts)
    (hperm : dicts.Perm others) (dict : Dict κ ν) (key : κ) :
    (updateAll dict dicts).lookup key = (updateAll dict others).lookup key := by
  by_cases hkey : ∃ other ∈ dicts, key ∈ other
  · obtain ⟨other, hoth, hmem⟩ := hkey
    obtain ⟨value, hval⟩ := mem_iff_lookup.mp hmem
    rw [lookup_updateAll_of_mem hdisj hoth hval,
      lookup_updateAll_of_mem (hdisj.perm hperm) (hperm.mem_iff.mp hoth) hval]
  · rw [not_exists] at hkey
    have hnot : ∀ other ∈ dicts, key ∉ other := fun other hoth hmem => hkey other ⟨hoth, hmem⟩
    rw [lookup_updateAll_of_notMem hnot,
      lookup_updateAll_of_notMem fun other hoth => hnot other (hperm.mem_iff.mpr hoth)]

end EdxPlatform.Dict
