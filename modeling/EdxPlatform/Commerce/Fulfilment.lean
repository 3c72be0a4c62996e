import EdxPlatform.Commerce.Callbacks

/-!
# Items fulfilled by signed messages

A message may be delivered again at any time.  An order that is purchased ignores
it; an order that was refunded since does not.
-/

namespace EdxPlatform.Shoppingcart

open CyberSource (Params signedText)

def OrderItem.payments (item : OrderItem) : List (List Char) := item.fulfilledBy.map signedText

namespace Shop

def FulfilledOnce (shop : Shop) : Prop := ∀ item ∈ shop.items, item.payments.Nodup

instance : DecidablePred FulfilledOnce := fun shop =>
  inferInstanceAs (Decidable (∀ item ∈ shop.items, item.payments.Nodup))

def PaidOrders (shop : Shop) : Prop := ∀ item ∈ shop.items, item.fulfilledBy ≠ [] →
  shop.statusOf item.order = some .purchased ∨ shop.statusOf item.order = some .refunded

/-- What the fulfilment of items rests on. -/
structure Accounted (shop : Shop) : Prop where
  linked : shop.Linked
  paid : shop.PaidOrders
  once : shop.FulfilledOnce

variable {after : Shop}

theorem Accounted.edited {shop : Shop} (hacct : shop.Accounted) (hedit : shop.Edited after) : after.Accounted := by
  refine ⟨hedit.linked, fun item hitem hpaid => ?_, fun item hitem => ?_⟩
  · rcases hedit.items item hitem with ⟨old, hold, hfrom⟩ | ⟨-, hunp, -⟩
    · rw [hfrom.order, hedit.statusOf old.order (hacct.linked.owned old hold)]
      exact hacct.paid old hold (hfrom.fulfilledBy ▸ hpaid)
    · exact absurd hunp hpaid
  · rcases hedit.items item hitem with ⟨old, hold, hfrom⟩ | ⟨-, hunp, -⟩
    · rw [OrderItem.payments, hfrom.fulfilledBy]
      exact hacct.once old hold
    · rw [OrderItem.payments, hunp]
      exact nodup_nil

variable {order : Order}

theorem Accounted.saveOrder {shop : Shop} (hacct : shop.Accounted)
    (hsaved : order.status = .purchased ∨ order.status = .refunded ∨
      shop.statusOf order.id ≠ some .purchased ∧ shop.statusOf order.id ≠ some .refunded) :
    (shop.saveOrder order).Accounted := by
  refine ⟨linked_saveOrder hacct.linked order, fun item hitem hpaid => ?_, hacct.once⟩
  have hbef := hacct.paid item hitem hpaid
  rw [statusOf_saveOrder]
  by_cases heq : item.order = order.id
  · rw [if_pos heq]
    rw [heq] at hbef
    rcases hsaved with hpur | href | ⟨hpur, href⟩
    · exact .inl (congrArg some hpur)
    · exact .inr (congrArg some href)
    · exact absurd hbef (not_or.mpr ⟨hpur, href⟩)
  · rw [if_neg heq]
    exact hbef

theorem Accounted.updateItems {shop : Shop} (hacct : shop.Accounted)
    {select : OrderItem → Bool} {change : OrderItem → OrderItem}
    (hchan : ∀ item, (change item).id = item.id ∧ (change item).order = item.order)
    (hsame : ∀ item, (change item).fulfilledBy = item.fulfilledBy) :
    (shop.updateItems select change).Accounted := by
  refine ⟨linked_updateItems hacct.linked hchan, fun item hitem => ?_, fun item hitem => ?_⟩
  · obtain ⟨old, hold, rfl⟩ := mem_map.mp hitem
    split
    · rw [hsame, (hchan old).2]
      exact hacct.paid old hold
    · exact hacct.paid old hold
  · obtain ⟨old, hold, rfl⟩ := mem_map.mp hitem
    split
    · rw [OrderItem.payments, hsame]
      exact hacct.once old hold
    · exact hacct.once old hold

/-- The order has no item that a message with the same signed text has fulfilled, or it
is not refunded. -/
def Repayable (shop : Shop) (order : Order) (params : Params) : Prop :=
  order.status = .refunded → ∀ item ∈ shop.items, item.order = order.id → signedText params ∉ item.payments

instance (shop : Shop) (order : Order) (params : Params) : Decidable (shop.Repayable order params) :=
  inferInstanceAs (Decidable (order.status = .refunded → ∀ item ∈ shop.items,
    item.order = order.id → signedText params ∉ item.payments))

theorem purchase_accounted {site : Site} {shop : Shop} (hacct : shop.Accounted)
    (hstat : shop.statusOf order.id = some order.status) {params : Params}
    (hrep : shop.Repayable order params)
    (hpurc : shop.purchase site order params = .ok after) : after.Accounted := by
  rcases purchase_cases hacct.linked hpurc with ⟨-, rfl⟩ | ⟨hnot, ready, hrdy, rfl⟩
  · exact hacct
  have hmrk : (shop.saveOrder { order with status := .purchased }).Accounted := hacct.saveOrder (.inl rfl)
  have hedit := hmrk.edited hrdy
  have huns : ∀ item ∈ shop.items, item.order = order.id → signedText params ∉ item.payments := by
    intro item hitem hord hseen
    have hpaid := hacct.paid item hitem fun hnil => by
      rw [OrderItem.payments, hnil] at hseen
      cases hseen
    rw [hord, hstat] at hpaid
    rcases hpaid with hpur | href
    · exact hnot (some.inj hpur)
    · exact hrep (some.inj href) item hitem hord hseen
  have hrdy_status : ready.statusOf order.id = some .purchased := by
    have hsaved := statusOf_saveOrder shop { order with status := .purchased } order.id
    rw [if_pos rfl] at hsaved
    rw [hrdy.statusOf order.id (mem_orders_of_statusOf hsaved), hsaved]
  refine ⟨linked_updateItems hedit.linked fun _ => ⟨rfl, rfl⟩, fun item hitem hpaid => ?_, fun item hitem => ?_⟩
  · obtain ⟨old, hold, rfl⟩ := mem_map.mp hitem
    split at hpaid
    · next hord =>
      rw [if_pos hord]
      refine .inl ?_
      rw [← hrdy_status, ← of_decide_eq_true hord]
      rfl
    · next hord =>
      rw [if_neg hord]
      exact hedit.paid old hold hpaid
  · obtain ⟨old, hold, rfl⟩ := mem_map.mp hitem
    split
    · next hord =>
      refine nodup_cons.mpr ⟨?_, hedit.once old hold⟩
      rcases hrdy.items old hold with ⟨first, hfst, hfrom⟩ | ⟨-, hunp, -⟩
      · have hsame : old.payments = first.payments := congrArg (·.map signedText) hfrom.fulfilledBy
        rw [← hfrom.order.symm.trans (of_decide_eq_true hord)] at huns
        exact fun hseen => huns first hfst rfl (hsame ▸ hseen)
      · intro hseen
        rw [hunp] at hseen
        cases hseen
    · exact hedit.once old hold

/-- No message is accepted for a refunded order of which it has fulfilled an item before. -/
def NotReplayed (processor : Processor) (shop : Shop) : Site × Call → Prop
  | (_, .purchase id params) => ∀ order, shop.orders.lookup id = some order → shop.Repayable order params
  | (_, .processPostpayCallback params) => ∀ order,
    shop.readMessage processor params = .ok (order, true) → shop.Repayable order params
  | _ => True

instance (processor : Processor) (shop : Shop) (call : Site × Call) : Decidable (NotReplayed processor shop call) :=
  match call with
  | (_, .purchase id params) =>
    match hfound : shop.orders.lookup id with
    | none => .isTrue fun order hlookup => by rw [hfound] at hlookup; cases hlookup
    | some order => decidable_of_iff (shop.Repayable order params)
        ⟨fun h found hlookup => Option.some.inj (hfound.symm.trans hlookup) ▸ h, fun h => h order hfound⟩
  | (_, .processPostpayCallback params) =>
    match hread : shop.readMessage processor params with
    | .ok (order, true) => decidable_of_iff (shop.Repayable order params) ⟨fun h found hfound =>
          (Prod.mk.inj (Except.ok.inj (hread.symm.trans hfound))).1 ▸ h, fun h => h order hread⟩
    | .ok (_, false) | .error _ => .isTrue fun order hfound => by rw [hread] at hfound; cases hfound
  | (_, .getCartForUser ..) | (_, .addPaidCourseRegistration ..) | (_, .addCourseRegCodeItem ..)
  | (_, .addCertificateItem ..) | (_, .addDonation ..) | (_, .updateUserCart ..)
  | (_, .updateOrderType ..) | (_, .removeCartItemFromOrder ..) | (_, .clear ..)
  | (_, .startPurchase ..) | (_, .refund ..) | (_, .refundCertCallback ..) | (_, .retire ..) => .isTrue trivial

variable {processor : Processor} {site : Site} {shop : Shop}

section

variable (hacct : shop.Accounted) (hstat : shop.statusOf order.id = some order.status)
include hacct hstat

theorem startPurchase_accounted : (shop.startPurchase order).Accounted := by
  unfold startPurchase
  split
  · next hcart =>
    rw [hcart] at hstat
    have hsaved : (shop.saveOrder { order with status := .paying }).Accounted :=
      hacct.saveOrder (.inr (.inr (by rw [hstat]; simp)))
    exact hsaved.updateItems (fun _ => ⟨rfl, rfl⟩) fun _ => rfl
  · exact hacct

theorem retire_accounted (hret : shop.retire order = .ok after) : after.Accounted := by
  rcases retire_cases hret with rfl | ⟨retired, hmap, rfl⟩
  · exact hacct
  · have hunp : order.status ≠ .purchased ∧ order.status ≠ .refunded := by
      constructor
      · intro heq
        rw [heq] at hmap
        cases hmap
      · intro heq
        rw [heq] at hmap
        cases hmap
    have hsaved : (shop.saveOrder { order with status := retired }).Accounted :=
      hacct.saveOrder (.inr (.inr (by rw [hstat]; simpa using hunp)))
    exact hsaved.updateItems (fun _ => ⟨rfl, rfl⟩) fun _ => rfl

end

theorem perform_accounted (hacct : shop.Accounted) {call : Call} (hcall : shop.NotReplayed processor (site, call))
    (hperf : shop.perform processor site call = .ok after) : after.Accounted := by
  have hlink := hacct.linked
  cases hmoves : call.movesOrder with
  | false => exact hacct.edited (perform_edited hlink hmoves hperf)
  | true =>
    cases call with
    | startPurchase id =>
      obtain ⟨order, hget, hst⟩ := bind_ok hperf
      obtain rfl := ok.inj hst
      exact startPurchase_accounted hacct (getOrder_status hlink hget)
    | purchase id params =>
      obtain ⟨order, hget, hpurc⟩ := bind_ok hperf
      exact purchase_accounted hacct (getOrder_status hlink hget) (hcall order (getOrder_ok hget)) hpurc
    | processPostpayCallback params =>
      obtain ⟨result, hcb, hres⟩ := bind_ok hperf
      obtain rfl := ok.inj hres
      rcases processPostpayCallback_cases hcb with hsame | ⟨order, hread, hpurc⟩
      · rw [hsame]
        exact hacct
      · obtain ⟨id, hfnd⟩ := readMessage_order hread
        exact purchase_accounted hacct (hlink.statusOf_lookup hfnd) (hcall order hread) hpurc
    | refund id =>
      obtain ⟨order, -, hrefu⟩ := bind_ok hperf
      obtain rfl := ok.inj hrefu
      exact hacct.saveOrder (.inr (.inl rfl))
    | refundCertCallback user courseId =>
      rcases refundCertCallback_cases hperf with ⟨-, rfl⟩ | ⟨targetCert, order, -, -, rfl⟩
      · exact hacct
      · refine Accounted.saveOrder ?_ (.inr (.inl rfl))
        exact hacct.updateItems (fun _ => ⟨rfl, rfl⟩) fun _ => rfl
    | retire id =>
      obtain ⟨order, hget, hret⟩ := bind_ok hperf
      exact retire_accounted hacct (getOrder_status hlink hget) hret
    | getCartForUser | addPaidCourseRegistration | addCourseRegCodeItem | addCertificateItem
    | addDonation | updateUserCart | updateOrderType | removeCartItemFromOrder | clear => cases hmoves

theorem step_accounted (shop : Shop) (call : Site × Call) (hacct : shop.Accounted)
    (hcall : shop.NotReplayed processor call) : (shop.step processor call).Accounted := by
  unfold step
  split
  · next after hperf => exact perform_accounted hacct hcall hperf
  · exact hacct

theorem accounted_empty : ({} : Shop).Accounted :=
  ⟨linked_empty, fun _ hitem => absurd hitem not_mem_nil, fun _ hitem => absurd hitem not_mem_nil⟩

/-- In a run in which no message is accepted for a refunded order that it has fulfilled
before, no item is ever fulfilled twice by the same signed message. -/
theorem always_fulfilledOnce {calls : List (Site × Call)}
    (hcalls : Each (step processor) (NotReplayed processor) {} calls) :
    Always (step processor) FulfilledOnce {} calls :=
  (always_of_each step_accounted accounted_empty hcalls).imp fun _ haccounted => haccounted.once

def annaPays : Params :=
  Dict.ofList [("req_reference_number", "1"), ("req_currency", "usd"), ("decision", "ACCEPT"), ("auth_amount", "40"),
    ("signed_field_names", "req_reference_number,req_currency,decision,auth_amount"),
    ("signature", "req_reference_number=1,req_currency=usd,decision=ACCEPT,auth_amount=40")]

/-- Anna pays a certificate, and the message is sent twice before she leaves the course. -/
def annaPaysOnce : List (Site × Call) :=
  [.getCartForUser "anna" 1, .addCertificateItem 1 "algebra" 40 "verified" "usd",
    .startPurchase 1, .processPostpayCallback annaPays, .processPostpayCallback annaPays,
    .refundCertCallback "anna" "algebra"].map (openSite, ·)

theorem annaPaysOnce_fulfilledOnce : Always (step plainProcessor) FulfilledOnce {} annaPaysOnce :=
  always_fulfilledOnce (by decide +kernel)

/-- Anna pays a certificate, leaves the course and has the message sent again. -/
def annaPaysAgain : List (Site × Call) :=
  [.getCartForUser "anna" 1, .addCertificateItem 1 "algebra" 40 "verified" "usd",
    .startPurchase 1, .processPostpayCallback annaPays, .refundCertCallback "anna" "algebra",
    .processPostpayCallback annaPays].map (openSite, ·)

theorem annaPaysAgain_fulfilled_twice : ¬ Always (step plainProcessor) FulfilledOnce {} annaPaysAgain := by
  decide +kernel

end Shop

end EdxPlatform.Shoppingcart
