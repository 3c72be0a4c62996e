import EdxPlatform.Commerce.Orders

/-!
# What the calls leave as it was

Calls that fill or change a cart write statuses only as those of the order.  They
never touch what is recorded of the payments.
-/

namespace EdxPlatform.Shoppingcart

namespace Shop

def statusOf (shop : Shop) (order : Int) : Option Status := (shop.orders.lookup order).map Order.status

/-- Orders are kept under their ids, items under distinct ones that were given out,
and every item belongs to an order. -/
structure Linked (shop : Shop) : Prop where
  keyed : ∀ id order, shop.orders.lookup id = some order → order.id = id
  owned : ∀ item ∈ shop.items, item.order ∈ shop.orders
  given : ∀ item ∈ shop.items, item.id < shop.nextItem
  distinct : (shop.items.map OrderItem.id).Nodup

/-- The item is one that was there, with its payments, and its status is the old one
or that of the order. -/
structure FromItem (shop : Shop) (item old : OrderItem) : Prop where
  id : item.id = old.id
  order : item.order = old.order
  fulfilledBy : item.fulfilledBy = old.fulfilledBy
  status : item.status = old.status ∨ shop.statusOf old.order = some item.status

/-- A change of items that agrees with the statuses of the orders. -/
structure Edited (shop after : Shop) : Prop where
  linked : after.Linked
  nextItem : shop.nextItem ≤ after.nextItem
  statusOf : ∀ order ∈ shop.orders, after.statusOf order = shop.statusOf order
  items : ∀ item ∈ after.items, (∃ old ∈ shop.items, shop.FromItem item old) ∨
    shop.nextItem ≤ item.id ∧ item.fulfilledBy = [] ∧ after.statusOf item.order = some item.status

variable {shop : Shop}

theorem Edited.refl (hlink : shop.Linked) : shop.Edited shop := by
  refine ⟨hlink, le_rfl, fun _ _ => rfl, fun item hitem => .inl ⟨item, hitem, ?_⟩⟩
  exact ⟨rfl, rfl, rfl, .inl rfl⟩

theorem mem_orders_of_statusOf {order : Int} {status : Status}
    (hstat : shop.statusOf order = some status) : order ∈ shop.orders := by
  unfold statusOf at hstat
  obtain ⟨found, hfnd, -⟩ := map_eq_some_iff.mp hstat
  exact mem_of_lookup hfnd

theorem exists_statusOf {order : Int} (hmem : order ∈ shop.orders) : ∃ status, shop.statusOf order = some status := by
  obtain ⟨found, hfnd⟩ := mem_iff_lookup.mp hmem
  exact ⟨found.status, by rw [statusOf, hfnd]; rfl⟩

variable {after : Shop}

theorem Edited.mem_orders (hed : shop.Edited after) {order : Int}
    (hmem : order ∈ shop.orders) : order ∈ after.orders := by
  obtain ⟨status, hstat⟩ := exists_statusOf hmem
  exact mem_orders_of_statusOf ((hed.statusOf order hmem).trans hstat)

theorem Edited.trans {middle : Shop} (hlink : shop.Linked)
    (hfst : shop.Edited middle) (hsec : middle.Edited after) : shop.Edited after := by
  refine ⟨hsec.linked, hfst.nextItem.trans hsec.nextItem, fun order hmem => ?_, fun item hitem => ?_⟩
  · rw [hsec.statusOf order (hfst.mem_orders hmem), hfst.statusOf order hmem]
  · rcases hsec.items item hitem with ⟨between, hbet, hfrom⟩ | ⟨hnew, hunp, hstat⟩
    · rcases hfst.items between hbet with ⟨old, hold, hbef⟩ | ⟨hnew, hunp, hstat⟩
      · have howned := hlink.owned old hold
        refine .inl ⟨old, hold, hfrom.id.trans hbef.id, hfrom.order.trans hbef.order,
          hfrom.fulfilledBy.trans hbef.fulfilledBy, ?_⟩
        rcases hfrom.status with hsame | hord
        · rw [hsame]
          exact hbef.status
        · rw [hbef.order, hfst.statusOf old.order howned] at hord
          exact .inr hord
      · refine .inr ⟨hnew.trans hfrom.id.ge, hfrom.fulfilledBy.trans hunp, ?_⟩
        have hmem := mem_orders_of_statusOf hstat
        rw [hfrom.order, hsec.statusOf between.order hmem]
        rcases hfrom.status with hsame | hord
        · rw [hstat, hsame]
        · exact hord
    · exact .inr ⟨hfst.nextItem.trans hnew, hunp, hstat⟩

theorem statusOf_saveOrder (shop : Shop) (order : Order) (other : Int) : (shop.saveOrder order).statusOf other =
      if other = order.id then some order.status else shop.statusOf other := by
  unfold statusOf saveOrder
  rw [lookup_insert]
  by_cases heq : other = order.id
  · rw [if_pos heq, if_pos heq]
    rfl
  · rw [if_neg heq, if_neg heq]

theorem linked_saveOrder (hlink : shop.Linked) (order : Order) : (shop.saveOrder order).Linked := by
  refine ⟨fun id found hfnd => ?_, fun item hitem => ?_, hlink.given, hlink.distinct⟩
  · unfold saveOrder at hfnd
    rw [lookup_insert] at hfnd
    split at hfnd
    · next heq =>
      obtain rfl := some.inj hfnd
      exact heq.symm
    · exact hlink.keyed id found hfnd
  · exact mem_insert _ |>.mpr (.inr (hlink.owned item hitem))

variable {order : Order}

theorem saveOrder_edited (hlink : shop.Linked)
    (hstat : shop.statusOf order.id = some order.status) : shop.Edited (shop.saveOrder order) := by
  refine ⟨linked_saveOrder hlink order, le_rfl, fun other _ => ?_, fun item hitem => ?_⟩
  · rw [statusOf_saveOrder]
    by_cases heq : other = order.id
    · rw [if_pos heq, heq, hstat]
    · rw [if_neg heq]
  · exact .inl ⟨item, hitem, rfl, rfl, rfl, .inl rfl⟩

theorem saveOrder_new_edited (hlink : shop.Linked)
    (hnew : order.id ∉ shop.orders) : shop.Edited (shop.saveOrder order) := by
  refine ⟨linked_saveOrder hlink order, le_rfl, fun other hmem => ?_, fun item hitem => ?_⟩
  · rw [statusOf_saveOrder, if_neg fun heq => hnew (by rw [← heq]; exact hmem)]
  · exact .inl ⟨item, hitem, rfl, rfl, rfl, .inl rfl⟩

section

variable (hlink : shop.Linked) (hstat : shop.statusOf order.id = some order.status)
  (cls : ItemClass) (qty : Int) (unitCost : Rat) (currency : String)
include hlink hstat

theorem createItem_edited : shop.Edited (shop.createItem order cls qty unitCost currency) := by
  refine ⟨⟨hlink.keyed, ?_, ?_, ?_⟩, le_succ _, fun _ _ => rfl, ?_⟩
  · intro item hitem
    rcases mem_append.mp hitem with hold | hnew
    · exact hlink.owned item hold
    · obtain rfl := mem_singleton.mp hnew
      exact mem_orders_of_statusOf hstat
  · intro item hitem
    rcases mem_append.mp hitem with hold | hnew
    · exact (hlink.given item hold).trans (lt_succ_self _)
    · obtain rfl := mem_singleton.mp hnew
      exact lt_succ_self _
  · unfold createItem
    rw [map_append, nodup_append]
    refine ⟨hlink.distinct, nodup_singleton _, fun id hid other hoth heq => ?_⟩
    obtain ⟨item, hitem, rfl⟩ := mem_map.mp hid
    obtain rfl := mem_singleton.mp hoth
    exact absurd heq (hlink.given item hitem).ne
  · intro item hitem
    rcases mem_append.mp hitem with hold | hnew
    · exact .inl ⟨item, hold, rfl, rfl, rfl, .inl rfl⟩
    · obtain rfl := mem_singleton.mp hnew
      exact .inr ⟨le_rfl, rfl, hstat⟩

theorem createItem_saved :
    shop.Edited ((shop.saveOrder { order with currency }).createItem order cls qty unitCost currency) := by
  have hsaved : shop.Edited (shop.saveOrder { order with currency }) := saveOrder_edited hlink hstat
  refine hsaved.trans hlink (createItem_edited hsaved.linked ?_ _ _ _ _)
  rw [statusOf_saveOrder, if_pos rfl]

end

variable {change : OrderItem → OrderItem}

section

variable (hlink : shop.Linked) {select : OrderItem → Bool}
  (hchan : ∀ item, (change item).id = item.id ∧ (change item).order = item.order)
include hlink hchan

theorem linked_updateItems : (shop.updateItems select change).Linked := by
  have hids : (shop.updateItems select change).items.map OrderItem.id = shop.items.map OrderItem.id := by
    unfold updateItems
    rw [map_map]
    refine map_congr_left fun item _ => ?_
    rw [comp_apply]
    split
    · exact (hchan item).1
    · rfl
  refine ⟨hlink.keyed, fun item hitem => ?_, fun item hitem => ?_, hids ▸ hlink.distinct⟩
  · obtain ⟨old, hold, rfl⟩ := mem_map.mp hitem
    split
    · rw [(hchan old).2]
      exact hlink.owned old hold
    · exact hlink.owned old hold
  · obtain ⟨old, hold, rfl⟩ := mem_map.mp hitem
    split
    · rw [(hchan old).1]
      exact hlink.given old hold
    · exact hlink.given old hold

theorem updateItems_edited (hfrom : ∀ item, select item = true → (change item).fulfilledBy = item.fulfilledBy ∧
      ((change item).status = item.status ∨ shop.statusOf item.order = some (change item).status)) :
    shop.Edited (shop.updateItems select change) := by
  refine ⟨linked_updateItems hlink hchan, le_rfl, fun _ _ => rfl, fun item hitem => ?_⟩
  obtain ⟨old, hold, rfl⟩ := mem_map.mp hitem
  refine .inl ⟨old, hold, ?_⟩
  split
  · next hsel =>
    obtain ⟨hunp, hstat⟩ := hfrom old hsel
    exact ⟨(hchan old).1, (hchan old).2, hunp, hstat⟩
  · exact ⟨rfl, rfl, rfl, .inl rfl⟩

end

theorem deleteItems_edited (hlink : shop.Linked) (select : OrderItem → Bool) :
    shop.Edited (shop.deleteItems select) := by
  have hold : ∀ item ∈ (shop.deleteItems select).items, item ∈ shop.items := fun item hitem => (mem_filter.mp hitem).1
  refine ⟨⟨hlink.keyed, fun item hitem => hlink.owned item (hold item hitem),
    fun item hitem => hlink.given item (hold item hitem), ?_⟩, le_rfl, fun _ _ => rfl,
    fun item hitem => .inl ⟨item, hold item hitem, rfl, rfl, rfl, .inl rfl⟩⟩
  exact hlink.distinct.sublist (List.filter_sublist.map OrderItem.id)

variable {site : Site}

section

variable (hlink : shop.Linked)
include hlink

theorem addCourseItem_edited {make : String → String → ItemClass} {courseOf : ItemClass → Option String}
    (hstat : shop.statusOf order.id = some order.status) {courseId modeSlug : String} {qty : Int}
    {cost : Option Rat} {currency : Option String}
    (hadd : shop.addCourseItem site make courseOf order courseId modeSlug qty cost currency =
      .ok after) : shop.Edited after := by
  unfold addCourseItem at hadd
  split at hadd
  · cases hadd
  split at hadd
  · cases hadd
  split at hadd
  · cases hadd
  obtain ⟨-, -, hadd⟩ := bind_ok hadd
  obtain rfl := ok.inj hadd
  exact createItem_saved hlink hstat _ _ _ _

section

variable (hstat : shop.statusOf order.id = some order.status)
include hstat

theorem addCertificateItem_edited {courseId mode currency : String}
    {cost : Rat} (hadd : shop.addCertificateItem site order courseId cost mode currency = .ok after) :
    shop.Edited after := by
  unfold addCertificateItem at hadd
  obtain ⟨-, -, hadd⟩ := bind_ok hadd
  split at hadd
  · cases hadd
  dsimp only at hadd
  split at hadd
  · obtain rfl := ok.inj hadd
    exact createItem_saved hlink hstat _ _ _ _
  · obtain rfl := ok.inj hadd
    have hsaved : shop.Edited (shop.saveOrder { order with currency }) := saveOrder_edited hlink hstat
    refine hsaved.trans hlink (updateItems_edited hsaved.linked (fun _ => ⟨rfl, rfl⟩) fun item hfnd => ⟨rfl, .inr ?_⟩)
    rw [and_eq_true, and_eq_true, decide_eq_true_eq] at hfnd
    rw [hfnd.1.1, statusOf_saveOrder, if_pos rfl]
  · cases hadd

theorem addDonation_edited {donationAmount : Rat} {courseId : Option String} {currency : String}
    (hadd : shop.addDonation site order donationAmount courseId currency = .ok after) :
    shop.Edited after := by
  unfold addDonation at hadd
  obtain ⟨-, -, hadd⟩ := bind_ok hadd
  split at hadd
  · cases hadd
  · obtain rfl := ok.inj hadd
    exact createItem_edited hlink hstat _ _ _ _

end

theorem getCartForUser_edited (user : String) (newId : Int) : shop.Edited (shop.getCartForUser user newId) := by
  unfold getCartForUser
  split
  · exact Edited.refl hlink
  split
  · exact Edited.refl hlink
  · next hnew => exact saveOrder_new_edited hlink hnew

theorem Linked.statusOf_lookup {id : Int} (hfnd : shop.orders.lookup id = some order) :
    shop.statusOf order.id = some order.status := by
  rw [hlink.keyed id order hfnd, statusOf, hfnd]
  rfl

theorem replaceItem_edited (hstat : shop.statusOf order.id = some order.status) {item : OrderItem}
    (hrep : shop.replaceItem site order item = .ok after) : shop.Edited after := by
  have hpric : ∀ added, shop.Edited added → shop.Edited (added.updateItems
      (·.id = shop.nextItem) fun new => { new with unitCost := item.unitCost }) :=
    fun added hed => hed.trans hlink (updateItems_edited hed.linked (fun _ => ⟨rfl, rfl⟩) fun _ _ => ⟨rfl, .inl rfl⟩)
  unfold replaceItem at hrep
  dsimp only at hrep
  split at hrep
  · obtain ⟨added, hadded, hrep⟩ := bind_ok hrep
    obtain rfl := ok.inj hrep
    exact hpric added (addCourseItem_edited hlink hstat hadded)
  · obtain ⟨added, hadded, hrep⟩ := bind_ok hrep
    obtain rfl := ok.inj hrep
    exact hpric added (addCourseItem_edited hlink hstat hadded)
  · obtain rfl := ok.inj hrep
    exact hpric shop (Edited.refl hlink)

end

theorem foldlM_edited {edit : Shop → OrderItem → Except ShopError Shop}
    (hedit : ∀ shop item after, shop.Linked → edit shop item = .ok after → shop.Edited after)
    {items : List OrderItem} (hlink : shop.Linked)
    (hfold : items.foldlM edit shop = .ok after) : shop.Edited after := by
  induction items generalizing shop with
  | nil =>
    obtain rfl := ok.inj hfold
    exact Edited.refl hlink
  | cons item items ih =>
    rw [foldlM_cons] at hfold
    obtain ⟨next, hnxt, hfold⟩ := bind_ok hfold
    have hed := hedit shop item next hlink hnxt
    exact hed.trans hlink (ih hed.linked hfold)

theorem updateOrderType_edited (hlink : shop.Linked) {order : Int}
    (hupd : shop.updateOrderType site order = .ok after) : shop.Edited after := by
  unfold updateOrderType at hupd
  obtain ⟨replaced, hfold, hupd⟩ := bind_ok hupd
  have hrepd : shop.Edited replaced := by
    refine foldlM_edited (fun shop item after hlink hrep => ?_) hlink hfold
    split at hrep
    · cases hrep
    · next found hfnd => exact replaceItem_edited hlink (hlink.statusOf_lookup hfnd) hrep
  dsimp only at hupd
  split at hupd
  · cases hupd
  · next found hfnd =>
    obtain rfl := ok.inj hupd
    have hdel := deleteItems_edited hrepd.linked fun item =>
      ((shop.orderitemSet order).filter (Shop.replaced (shop.isBusiness order))).any (·.id = item.id)
    have hstat := hdel.linked.statusOf_lookup hfnd
    exact (hrepd.trans hlink hdel).trans hlink (saveOrder_edited hdel.linked hstat)

theorem updateUserCart_edited (hlink : shop.Linked) {itemId : Nat} {qty : Int}
    (hupd : shop.updateUserCart site itemId qty = .ok after) : shop.Edited after := by
  unfold updateUserCart at hupd
  split at hupd
  · split at hupd
    · obtain rfl := ok.inj hupd
      exact Edited.refl hlink
    · have hchang : shop.Edited (shop.updateItems (·.id = itemId) fun item => { item with qty }) :=
        updateItems_edited hlink (fun _ => ⟨rfl, rfl⟩) fun _ _ => ⟨rfl, .inl rfl⟩
      exact hchang.trans hlink (updateOrderType_edited hchang.linked hupd)
  · obtain rfl := ok.inj hupd
    exact Edited.refl hlink

theorem removeCartItemFromOrder_edited (hlink : shop.Linked) {itemId : Nat}
    (hrem : shop.removeCartItemFromOrder itemId = .ok after) : shop.Edited after := by
  unfold removeCartItemFromOrder at hrem
  split at hrem
  · cases hrem
  split at hrem
  · cases hrem
  split at hrem
  · obtain rfl := ok.inj hrem
    exact deleteItems_edited hlink _
  · obtain rfl := ok.inj hrem
    exact Edited.refl hlink

end Shop

end EdxPlatform.Shoppingcart
