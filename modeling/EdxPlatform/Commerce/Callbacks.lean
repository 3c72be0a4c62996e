import EdxPlatform.Commerce.OrderRules
import EdxPlatform.Lib.Runs

/-!
# Calls to the shop

The answers of the payment processor and all other calls that write orders or
items.  A call that raises is rolled back with its request.
-/

namespace EdxPlatform.Shoppingcart

open CyberSource

open CyberSource (Params)

/-- How messages of the payment processor are read; `lower` is `str.lower`. -/
structure Processor where
  processorHash : String → String
  conversions : Conversions
  lower : String → String

inductive CallbackError where
  | verification (exception : ProcessorException)
  | unknownOrder
  | wrongAmount (order : Int)
  deriving DecidableEq, Repr

/-- The dictionary returned to the view. -/
inductive CallbackResult where
  | success (order : Int)
  | declined (order : Int)
  | error (exception : CallbackError)
  deriving DecidableEq, Repr

variable (processor : Processor) (site : Site) (shop : Shop)

namespace Shop

/-- `_payment_accepted`: the order, and whether its payment is accepted. -/
def paymentAccepted (valid : ValidParams) : Except CallbackError (Order × Bool) :=
  match shop.orders.lookup valid.reqReferenceNumber with
  | none => .error .unknownOrder
  | some order =>
    if valid.decision = "ACCEPT" then
      if valid.authAmount = shop.totalCost order ∧
          processor.lower valid.reqCurrency = processor.lower order.currency then .ok (order, true)
      else .error (.wrongAmount order.id)
    else .ok (order, false)

def readMessage (params : Params) : Except CallbackError (Order × Bool) :=
  match verifySignatures processor.processorHash processor.conversions params with
  | .error exception => .error (.verification exception)
  | .ok valid => shop.paymentAccepted processor valid

/-- `process_postpay_callback`. -/
def processPostpayCallback (params : Params) : Except ShopError (CallbackResult × Shop) :=
  match shop.readMessage processor params with
  | .error exception => .ok (.error exception, shop)
  | .ok (order, false) => .ok (.declined order.id, shop)
  | .ok (order, true) => do
    let shop ← shop.purchase site order params
    return (.success order.id, shop)

def getOrder (order : Int) : Except ShopError Order :=
  match shop.orders.lookup order with
  | none => .error .doesNotExist
  | some order => .ok order

end Shop

inductive Call where
  | getCartForUser (user : String) (newId : Int)
  | addPaidCourseRegistration (order : Int) (courseId modeSlug : String) (cost : Option Rat) (currency : Option String)
  | addCourseRegCodeItem (order : Int) (courseId : String) (qty : Int) (modeSlug : String)
      (cost : Option Rat) (currency : Option String)
  | addCertificateItem (order : Int) (courseId : String) (cost : Rat) (mode currency : String)
  | addDonation (order : Int) (donationAmount : Rat) (courseId : Option String) (currency : String)
  | updateUserCart (itemId : Nat) (qty : Int)
  | updateOrderType (order : Int)
  | removeCartItemFromOrder (itemId : Nat)
  | clear (order : Int)
  | startPurchase (order : Int)
  | purchase (order : Int) (params : Params)
  | processPostpayCallback (params : Params)
  | refund (order : Int)
  | refundCertCallback (user courseId : String)
  | retire (order : Int)

def Call.movesOrder : Call → Bool
  | .startPurchase _ | .purchase _ _ | .processPostpayCallback _ | .refund _
  | .refundCertCallback _ _ | .retire _ => true
  | _ => false

namespace Shop

def perform : Call → Except ShopError Shop
  | .getCartForUser user newId => .ok (shop.getCartForUser user newId)
  | .addPaidCourseRegistration order courseId modeSlug cost currency => do
    shop.addPaidCourseRegistration site (← shop.getOrder order) courseId modeSlug cost currency
  | .addCourseRegCodeItem order courseId qty modeSlug cost currency => do
    shop.addCourseRegCodeItem site (← shop.getOrder order) courseId qty modeSlug cost currency
  | .addCertificateItem order courseId cost mode currency => do
    shop.addCertificateItem site (← shop.getOrder order) courseId cost mode currency
  | .addDonation order donationAmount courseId currency => do
    shop.addDonation site (← shop.getOrder order) donationAmount courseId currency
  | .updateUserCart itemId qty => shop.updateUserCart site itemId qty
  | .updateOrderType order => shop.updateOrderType site order
  | .removeCartItemFromOrder itemId => shop.removeCartItemFromOrder itemId
  | .clear order => .ok (shop.clear order)
  | .startPurchase order => do return shop.startPurchase (← shop.getOrder order)
  | .purchase order params => do shop.purchase site (← shop.getOrder order) params
  | .processPostpayCallback params => do
    let result ← shop.processPostpayCallback processor site params
    return result.2
  | .refund order => do return shop.refund (← shop.getOrder order)
  | .refundCertCallback user courseId => shop.refundCertCallback user courseId
  | .retire order => do shop.retire (← shop.getOrder order)

def step (call : Site × Call) : Shop :=
  match shop.perform processor call.1 call.2 with
  | .ok after => after
  | .error _ => shop

variable {processor : Processor} {site : Site} {shop : Shop} {order : Order}

theorem getOrder_ok {id : Int} (hget : shop.getOrder id = .ok order) : shop.orders.lookup id = some order := by
  unfold getOrder at hget
  split at hget
  · cases hget
  · next found hfnd =>
    obtain rfl := ok.inj hget
    exact hfnd

theorem getOrder_status {id : Int} (hlink : shop.Linked)
    (hget : shop.getOrder id = .ok order) : shop.statusOf order.id = some order.status :=
  hlink.statusOf_lookup (getOrder_ok hget)

variable {after : Shop}

theorem perform_edited (hlink : shop.Linked) {call : Call} (hcall : call.movesOrder = false)
    (hperf : shop.perform processor site call = .ok after) :
    shop.Edited after := by
  cases call with
  | getCartForUser user newId =>
    obtain rfl := ok.inj hperf
    exact getCartForUser_edited hlink user newId
  | addPaidCourseRegistration order courseId modeSlug cost currency =>
    obtain ⟨found, hget, hadd⟩ := bind_ok hperf
    exact addCourseItem_edited hlink (getOrder_status hlink hget) hadd
  | addCourseRegCodeItem order courseId qty modeSlug cost currency =>
    obtain ⟨found, hget, hadd⟩ := bind_ok hperf
    exact addCourseItem_edited hlink (getOrder_status hlink hget) hadd
  | addCertificateItem order courseId cost mode currency =>
    obtain ⟨found, hget, hadd⟩ := bind_ok hperf
    exact addCertificateItem_edited hlink (getOrder_status hlink hget) hadd
  | addDonation order donationAmount courseId currency =>
    obtain ⟨found, hget, hadd⟩ := bind_ok hperf
    exact addDonation_edited hlink (getOrder_status hlink hget) hadd
  | updateUserCart itemId qty => exact updateUserCart_edited hlink hperf
  | updateOrderType order => exact updateOrderType_edited hlink hperf
  | removeCartItemFromOrder itemId => exact removeCartItemFromOrder_edited hlink hperf
  | clear order =>
    obtain rfl := ok.inj hperf
    exact deleteItems_edited hlink _
  | startPurchase _ | purchase _ _ | processPostpayCallback _ | refund _ | refundCertCallback _ _
  | retire _ => cases hcall

variable {params : Params}

/-- A purchase does nothing, or edits the order once it is marked and then marks and
fulfils all items that the order has. -/
theorem purchase_cases (hlink : shop.Linked) (hpurc : shop.purchase site order params = .ok after) :
    (order.status = .purchased ∧ after = shop) ∨
    (order.status ≠ .purchased ∧ ∃ ready, (shop.saveOrder { order with status := .purchased }).Edited ready ∧
      after = ready.updateItems (·.order = order.id) fun item =>
        { item with status := .purchased, fulfilledBy := params :: item.fulfilledBy }) := by
  have hsaved := linked_saveOrder hlink { order with status := .purchased }
  have hful : ∀ ready, (if (orderitemSet ready order.id).any (callbackRaises site) = true then
      .error ShopError.purchasedCallback
      else pure (updateItems ready (·.order = order.id) fun item =>
        { item with status := .purchased, fulfilledBy := params :: item.fulfilledBy })) =
      Except.ok after → after = updateItems ready (·.order = order.id) fun item =>
        { item with status := .purchased, fulfilledBy := params :: item.fulfilledBy } := by
    intro ready hrdy
    split at hrdy
    · cases hrdy
    · exact (ok.inj hrdy).symm
  unfold purchase at hpurc
  split at hpurc
  · next hpur => exact .inl ⟨hpur, (ok.inj hpurc).symm⟩
  · next hpur =>
    refine .inr ⟨hpur, ?_⟩
    dsimp only at hpurc
    split at hpurc
    · obtain ⟨ready, hrdy, hpurc⟩ := bind_ok hpurc
      exact ⟨ready, updateOrderType_edited hsaved hrdy, hful ready hpurc⟩
    · obtain ⟨ready, hrdy, hpurc⟩ := bind_ok hpurc
      obtain rfl := ok.inj hrdy
      exact ⟨_, Edited.refl hsaved, hful _ hpurc⟩

theorem retire_cases (hret : shop.retire order = .ok after) :
    after = shop ∨ ∃ retired, orderStatusMap order.status = some retired ∧
      after = (shop.saveOrder { order with status := retired }).updateItems (·.order = order.id)
        fun item => { item with status := retired } := by
  unfold retire at hret
  split at hret
  · exact .inl (ok.inj hret).symm
  split at hret
  · cases hret
  · next retired hmap =>
    split at hret
    · cases hret
    · exact .inr ⟨retired, hmap, (ok.inj hret).symm⟩

theorem refundCertCallback_cases {user courseId : String} (href : shop.refundCertCallback user courseId = .ok after) :
    (shop.items.find? (isTargetCert user courseId) = none ∧ after = shop) ∨
    ∃ targetCert order, shop.items.find? (isTargetCert user courseId) = some targetCert ∧
      shop.orders.lookup targetCert.order = some order ∧
      after = (shop.updateItems (·.id = targetCert.id) fun item =>
        { item with status := .refunded }).refund order := by
  unfold refundCertCallback at href
  split at href
  · next hnone => exact .inl ⟨hnone, (ok.inj href).symm⟩
  · next targetCert htgt =>
    split at href
    · cases href
    · next order hord => exact .inr ⟨targetCert, order, htgt, hord, (ok.inj href).symm⟩

theorem processPostpayCallback_cases {result : CallbackResult × Shop}
    (hcb : shop.processPostpayCallback processor site params = .ok result) :
    result.2 = shop ∨ ∃ order, shop.readMessage processor params = .ok (order, true) ∧
      shop.purchase site order params = .ok result.2 := by
  unfold processPostpayCallback at hcb
  split at hcb
  · rw [← ok.inj hcb]
    exact .inl rfl
  · rw [← ok.inj hcb]
    exact .inl rfl
  · next order hread =>
    obtain ⟨after, hpurc, hcb⟩ := bind_ok hcb
    rw [← ok.inj hcb]
    exact .inr ⟨order, hread, hpurc⟩

theorem readMessage_order {accepted : Bool} (hread : shop.readMessage processor params = .ok (order, accepted)) :
    ∃ id, shop.orders.lookup id = some order := by
  unfold readMessage at hread
  split at hread
  · cases hread
  · next valid hvfy =>
    unfold paymentAccepted at hread
    split at hread
    · cases hread
    · next found hfnd =>
      refine ⟨valid.reqReferenceNumber, ?_⟩
      split at hread
      · split at hread
        · obtain ⟨rfl, -⟩ := Prod.mk.inj (ok.inj hread)
          exact hfnd
        · cases hread
      · obtain ⟨rfl, -⟩ := Prod.mk.inj (ok.inj hread)
        exact hfnd

section

variable (hlink : shop.Linked)
include hlink

theorem linked_startPurchase (order : Order) : (shop.startPurchase order).Linked := by
  unfold startPurchase
  split
  · exact linked_updateItems (linked_saveOrder hlink _) fun _ => ⟨rfl, rfl⟩
  · exact hlink

theorem linked_purchase (hpurc : shop.purchase site order params = .ok after) : after.Linked := by
  rcases purchase_cases hlink hpurc with ⟨-, rfl⟩ | ⟨-, ready, hrdy, rfl⟩
  · exact hlink
  · exact linked_updateItems hrdy.linked fun _ => ⟨rfl, rfl⟩

theorem perform_linked {call : Call} (hperf : shop.perform processor site call = .ok after) : after.Linked := by
  cases hcall : call.movesOrder with
  | false => exact (perform_edited hlink hcall hperf).linked
  | true =>
    cases call with
    | startPurchase order =>
      obtain ⟨found, -, hst⟩ := bind_ok hperf
      obtain rfl := ok.inj hst
      exact linked_startPurchase hlink found
    | purchase order params =>
      obtain ⟨found, -, hpurc⟩ := bind_ok hperf
      exact linked_purchase hlink hpurc
    | processPostpayCallback params =>
      obtain ⟨result, hcb, hres⟩ := bind_ok hperf
      obtain rfl := ok.inj hres
      rcases processPostpayCallback_cases hcb with hsame | ⟨order, -, hpurc⟩
      · rw [hsame]
        exact hlink
      · exact linked_purchase hlink hpurc
    | refund order =>
      obtain ⟨found, -, href⟩ := bind_ok hperf
      obtain rfl := ok.inj href
      exact linked_saveOrder hlink _
    | refundCertCallback user courseId =>
      rcases refundCertCallback_cases hperf with ⟨-, rfl⟩ | ⟨targetCert, order, -, -, rfl⟩
      · exact hlink
      · refine linked_saveOrder ?_ _
        exact linked_updateItems hlink fun _ => ⟨rfl, rfl⟩
    | retire order =>
      obtain ⟨found, -, hret⟩ := bind_ok hperf
      rcases retire_cases hret with rfl | ⟨retired, -, rfl⟩
      · exact hlink
      · exact linked_updateItems (linked_saveOrder hlink _) fun _ => ⟨rfl, rfl⟩
    | getCartForUser | addPaidCourseRegistration | addCourseRegCodeItem | addCertificateItem
    | addDonation | updateUserCart | updateOrderType | removeCartItemFromOrder | clear => cases hcall

theorem step_linked (call : Site × Call) : (shop.step processor call).Linked := by
  unfold step
  split
  · next after hperf => exact perform_linked hlink hperf
  · exact hlink

end

theorem linked_empty : ({} : Shop).Linked := by
  refine ⟨fun id order hfnd => ?_, ?_, ?_, nodup_nil⟩
  · cases hfnd
  · exact fun item hitem => nomatch hitem
  · exact fun item hitem => nomatch hitem

def openSite : Site where
  hasCourse _ := true
  isEnrolled _ _ := false
  courseMode _ mode := ⟨mode, 0, "usd"⟩
  certificateModes _ := ["verified"]
  courseEnrollment _ course := course.length
  fulfilmentFails _ := false

def plainProcessor : Processor where
  processorHash text := text
  conversions := ⟨fun text => if text = "1" then some 1 else none, fun text => if text = "40" then some 40 else none⟩
  lower := String.toLower

end Shop

end EdxPlatform.Shoppingcart
