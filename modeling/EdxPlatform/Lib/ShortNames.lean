import Mathlib.Data.Finset.Dedup
import Mathlib.Data.List.AList
import Mathlib.Data.List.Induction

/-!
# Names of list lemmas

The lemmas on lists, options and truth values that most proofs use go by their short names.
-/

namespace EdxPlatform

export List (all_eq_true any_cons any_eq_false any_eq_true append_assoc append_cancel_left append_eq_nil_iff
  append_inj' append_ne_nil_of_left_ne_nil append_nil append_of_mem cons.inj cons.injEq cons_append cons_ne_nil
  cons_prefix_cons countP_append countP_cons count_append count_cons_self count_nil count_pos_iff dlookup_cons_eq
  dlookup_cons_ne drop_left exists_cons_of_ne_nil exists_mem_cons_iff exists_mem_of_ne_nil filterMap_append
  filterMap_congr filterMap_cons_none filterMap_cons_some filter_append filter_congr filter_cons filter_cons_of_neg
  filter_cons_of_pos filter_eq_nil_iff filter_eq_self filter_filter filter_nil filter_true find?_some flatMap_append
  flatMap_cons flatMap_map flatMap_singleton flatten_nil foldlM_cons foldl_append foldl_cons foldl_nil
  forall_mem_append forall_mem_cons forall_mem_nil getElem?_eq_getElem getElem?_eq_some_iff getElem?_map getElem?_take
  getLast?_append_of_ne_nil getLast?_concat inj_on_of_nodup_map isEmpty_iff keys_cons length_append length_cons
  length_drop length_eq_zero_iff length_map length_nil length_pos_iff length_replicate length_singleton lookup_cons
  map_append map_congr_left map_cons map_eq_nil_iff map_id map_map map_nil map_singleton map_snd_zip map_take
  mem_append mem_append_left mem_append_right mem_cons mem_cons_of_mem mem_cons_self mem_filter mem_filterMap
  mem_flatMap mem_map mem_map_of_mem mem_of_find?_eq_some mem_of_getElem? mem_of_mem_filter mem_of_mem_head?
  mem_singleton mem_singleton_self mem_toFinset ne_nil_of_mem nil_append nodupKeys_cons nodup_append nodup_cons
  nodup_nil nodup_singleton not_mem_nil pairwise_append pairwise_cons prefix_append replicate reverseRecOn
  reverse_append reverse_cons singleton_append suffix_cons suffix_rfl sum_append sum_cons sum_nil take_append_drop
  take_succ_cons zipIdx_map_fst zip_cons_cons)

export Option (all_none all_some any_none any_some bind_eq_some_iff bind_none bind_some elim_some
  eq_none_iff_forall_ne_some filter_eq_some_iff filter_some getD_none getD_some isSome_iff_exists
  isSome_map isSome_none isSome_some map_eq_none_iff map_eq_some_iff map_none map_some mem_def
  ne_none_iff_exists' none_or or_eq_some_iff or_none some.inj some_inj some_ne_none some_or)

export Except (ok.inj)

export Bool (and_eq_true eq_false_iff eq_iff_iff false_eq_true false_ne_true not_eq_false
  not_eq_true not_eq_true' or_eq_false_iff or_eq_true)

export AList (lookup_empty lookup_eq_none lookup_erase_ne lookup_isSome mem_insert mem_keys mem_lookup_iff notMem_empty)

export Nat (le_succ lt_succ_of_lt lt_succ_self)

export Function (Injective comp_apply comp_def injective_id update_apply update_of_ne update_self)

theorem some_unique {α : Type*} {result : Option α} {value other : α} (hval : result = some value)
    (hoth : result = some other) : value = other :=
  some.inj (hval.symm.trans hoth)

end EdxPlatform
