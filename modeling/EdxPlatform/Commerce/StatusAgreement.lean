import EdxPlatform.Commerce.Callbacks

/-!
# The status of an item and that of its order

The comment of the model says that they should be the same.  All calls keep them so
but for the refund, which marks one item of the order and then the whole order.
-/

namespace EdxPlatform.Shoppingcart

namespace Shop

def AgreeOn (kept : Int → Prop) (shop : Shop) : Prop :=
  ∀ item ∈ shop.items, kept item.order → shop.statusOf item.order = some item.status

/-- `status should always be = order.status`. -/
def StatusesAgree (shop : Shop) : Prop := ∀ item ∈ shop.items, shop.statusOf item.order = some item.status

instance : DecidablePred StatusesAgree := fun shop =>
  inferInstanceAs (Decidable (∀ item ∈ shop.items, shop.statusOf item.order = some item.status))

variable {shop : Shop}

theorem AgreeOn.all (hagree : shop.AgreeOn fun _ => True) : shop.StatusesAgree :=
  fun item hitem => hagree item hitem trivial

theorem StatusesAgree.on (hagree : shop.StatusesAgree) (kept : Int → Prop) :
    shop.AgreeOn kept := fun item hitem _ => hagree item hitem

variable {after : Shop}

theorem AgreeOn.edited {kept : Int → Prop} (hlink : shop.Linked)
    (hagree : shop.AgreeOn kept) (hedit : shop.Edited after) : after.AgreeOn kept := by
  intro item hitem hkept
  rcases hedit.items item hitem with ⟨old, hold, hfrom⟩ | ⟨-, -, hstat⟩
  · rw [hfrom.order, hedit.statusOf old.order (hlink.owned old hold)]
    rcases hfrom.status with hsame | hord
    · rw [hsame]
      exact hagree old hold (hfrom.order ▸ hkept)
    · exact hord
  · exact hstat

theorem AgreeOn.saveOrder (hagree : shop.StatusesAgree) (order : Order) :
    (shop.saveOrder order).AgreeOn (· ≠ order.id) := by
  intro item hitem hkept
  rw [statusOf_saveOrder, if_neg hkept]
  exact hagree item hitem

theorem AgreeOn.updateItems {id : Int} {status : Status}
    (hagree : shop.AgreeOn (· ≠ id)) (hstat : shop.statusOf id = some status)
    {change : OrderItem → OrderItem}
    (hchange : ∀ item, (change item).order = item.order ∧ (change item).status = status) :
    (shop.updateItems (·.order = id) change).StatusesAgree := by
  intro item hitem
  obtain ⟨old, hold, rfl⟩ := mem_map.mp hitem
  split
  · next hord =>
    rw [(hchange old).1, (hchange old).2, of_decide_eq_true hord]
    exact hstat
  · next hord => exact hagree old hold fun heq => hord (decide_eq_true heq)

theorem startPurchase_agree (hagree : shop.StatusesAgree) (order : Order) :
    (shop.startPurchase order).StatusesAgree := by
  unfold startPurchase
  split
  · refine (AgreeOn.saveOrder hagree _).updateItems ?_ fun _ => ⟨rfl, rfl⟩
    rw [statusOf_saveOrder, if_pos rfl]
  · exact hagree

variable {order : Order}

theorem purchase_agree {site : Site} (hlink : shop.Linked) (hagree : shop.StatusesAgree) {params : CyberSource.Params}
    (hpurc : shop.purchase site order params = .ok after) : after.StatusesAgree := by
  rcases purchase_cases hlink hpurc with ⟨-, rfl⟩ | ⟨-, ready, hrdy, rfl⟩
  · exact hagree
  · have hmrk : shop.saveOrder { order with status := .purchased } |>.AgreeOn (· ≠ order.id) :=
      AgreeOn.saveOrder hagree _
    refine (hmrk.edited (linked_saveOrder hlink _) hrdy).updateItems ?_ fun _ => ⟨rfl, rfl⟩
    have hstat := statusOf_saveOrder shop { order with status := .purchased } order.id
    rw [if_pos rfl] at hstat
    rw [hrdy.statusOf order.id (mem_orders_of_statusOf hstat), hstat]

theorem retire_agree (hagree : shop.StatusesAgree) (hret : shop.retire order = .ok after) : after.StatusesAgree := by
  rcases retire_cases hret with rfl | ⟨retired, -, rfl⟩
  · exact hagree
  · refine (AgreeOn.saveOrder hagree { order with status := retired }).updateItems ?_ fun _ => ⟨rfl, rfl⟩
    rw [statusOf_saveOrder, if_pos rfl]

theorem refund_agree_iff (hagree : shop.AgreeOn (· ≠ order.id)) : (shop.refund order).StatusesAgree ↔
      ∀ item ∈ shop.items, item.order = order.id → item.status = .refunded := by
  have hstat : ∀ id, (shop.refund order).statusOf id = if id = order.id then some .refunded else shop.statusOf id :=
    statusOf_saveOrder shop { order with status := .refunded }
  constructor
  · intro haft item hitem hord
    have hsame := haft item hitem
    rw [hstat, if_pos hord] at hsame
    exact (some.inj hsame).symm
  · intro href item hitem
    by_cases hord : item.order = order.id
    · rw [hstat, if_pos hord, href item hitem hord]
    · rw [hstat, if_neg hord]
      exact hagree item hitem hord

theorem refundCertCallback_agree_iff (hlink : shop.Linked)
    (hagree : shop.StatusesAgree) {user courseId : String} {targetCert : OrderItem}
    (htgt : shop.items.find? (isTargetCert user courseId) = some targetCert)
    (hord : shop.orders.lookup targetCert.order = some order) :
    ((shop.updateItems (·.id = targetCert.id) fun item =>
      { item with status := .refunded }).refund order).StatusesAgree ↔
      ∀ item ∈ shop.items, item.order = targetCert.order → item.id = targetCert.id := by
  have hid := hlink.keyed _ order hord
  have hmem := mem_of_find?_eq_some htgt
  have hpur : targetCert.status = .purchased := by
    have hcert := find?_some htgt
    unfold isTargetCert at hcert
    rw [and_eq_true, and_eq_true] at hcert
    exact of_decide_eq_true hcert.1.2
  have hkept : AgreeOn (· ≠ order.id) (shop.updateItems (·.id = targetCert.id) fun item =>
      { item with status := .refunded }) := by
    intro item hitem hoth
    obtain ⟨old, hold, rfl⟩ := mem_map.mp hitem
    have hne : old.id ≠ targetCert.id := by
      intro heq
      have hsame := inj_on_of_nodup_map hlink.distinct hold hmem heq
      rw [if_pos (decide_eq_true heq), hsame, hid] at hoth
      exact hoth rfl
    rw [if_neg fun heq => hne (of_decide_eq_true heq)] at hoth ⊢
    exact hagree old hold
  rw [refund_agree_iff hkept, hid]
  constructor
  · intro href item hitem hsame
    by_contra hne
    have hchan := href item (mem_map.mpr ⟨item, hitem, if_neg fun heq => hne (of_decide_eq_true heq)⟩) hsame
    have hstat := (hagree item hitem).symm.trans (hsame ▸ hagree targetCert hmem)
    rw [some.inj hstat, hpur] at hchan
    cases hchan
  · intro honly item hitem hsame
    obtain ⟨old, hold, rfl⟩ := mem_map.mp hitem
    split
    · rfl
    · next hne =>
      rw [if_neg hne] at hsame
      exact absurd (decide_eq_true (honly old hold hsame)) hne

def RefundsWhole (shop : Shop) : Site × Call → Prop
  | (_, .refund order) => ∀ item ∈ shop.items, item.order = order → item.status = .refunded
  | (_, .refundCertCallback user courseId) =>
    ∀ targetCert, shop.items.find? (isTargetCert user courseId) = some targetCert →
      ∀ item ∈ shop.items, item.order = targetCert.order → item.id = targetCert.id
  | _ => True

variable {processor : Processor} {site : Site}

section

variable (hlink : shop.Linked) (hagree : shop.StatusesAgree)
include hlink hagree

theorem refund_step_agree_iff (id : Int) : (shop.step processor (site, .refund id)).StatusesAgree ↔
      ∀ item ∈ shop.items, item.order = id → item.status = .refunded := by
  cases hget : shop.getOrder id with
  | error err =>
    have hstep : shop.step processor (site, .refund id) = shop := by
      simp [step, perform, hget]
    rw [hstep]
    refine iff_of_true hagree fun item hitem hord => ?_
    obtain ⟨order, hfnd⟩ := mem_iff_lookup.mp (hlink.owned item hitem)
    rw [hord] at hfnd
    simp [getOrder, hfnd] at hget
  | ok order =>
    have hstep : shop.step processor (site, .refund id) = shop.refund order := by
      simp [step, perform, hget]
    rw [hstep, refund_agree_iff (hagree.on _), hlink.keyed id order (getOrder_ok hget)]

theorem refundCertCallback_step_agree_iff (user courseId : String) :
    (shop.step processor (site, .refundCertCallback user courseId)).StatusesAgree ↔
      ∀ targetCert, shop.items.find? (isTargetCert user courseId) = some targetCert →
        ∀ item ∈ shop.items, item.order = targetCert.order → item.id = targetCert.id := by
  cases htgt : shop.items.find? (isTargetCert user courseId) with
  | none =>
    have hstep : shop.step processor (site, .refundCertCallback user courseId) = shop := by
      simp [step, perform, refundCertCallback, htgt]
    rw [hstep]
    exact iff_of_true hagree fun targetCert hnone => by cases hnone
  | some targetCert =>
    obtain ⟨order, hord⟩ := mem_iff_lookup.mp (hlink.owned targetCert (mem_of_find?_eq_some htgt))
    have hstep : shop.step processor (site, .refundCertCallback user courseId) =
        (shop.updateItems (·.id = targetCert.id) fun item =>
          { item with status := .refunded }).refund order := by
      simp [step, perform, refundCertCallback, htgt, hord]
    rw [hstep, refundCertCallback_agree_iff hlink hagree htgt hord]
    constructor
    · intro honly found hfnd
      obtain rfl := some.inj hfnd
      exact honly
    · exact fun honly => honly targetCert rfl

theorem perform_agree {call : Call} (hrefu : ∀ order, call ≠ .refund order)
    (hcert : ∀ user courseId, call ≠ .refundCertCallback user courseId)
    (hperf : shop.perform processor site call = .ok after) : after.StatusesAgree := by
  cases hcall : call.movesOrder with
  | false =>
    have hedit := perform_edited hlink hcall hperf
    exact ((hagree.on _).edited hlink hedit).all
  | true =>
    cases call with
    | startPurchase order =>
      obtain ⟨found, -, hst⟩ := bind_ok hperf
      obtain rfl := ok.inj hst
      exact startPurchase_agree hagree found
    | purchase order params =>
      obtain ⟨found, -, hpurc⟩ := bind_ok hperf
      exact purchase_agree hlink hagree hpurc
    | processPostpayCallback params =>
      obtain ⟨result, hcb, hres⟩ := bind_ok hperf
      obtain rfl := ok.inj hres
      rcases processPostpayCallback_cases hcb with hsame | ⟨order, -, hpurc⟩
      · rw [hsame]
        exact hagree
      · exact purchase_agree hlink hagree hpurc
    | refund order => exact absurd rfl (hrefu order)
    | refundCertCallback user courseId => exact absurd rfl (hcert user courseId)
    | retire order =>
      obtain ⟨found, -, hret⟩ := bind_ok hperf
      exact retire_agree hagree hret
    | getCartForUser | addPaidCourseRegistration | addCourseRegCodeItem | addCertificateItem
    | addDonation | updateUserCart | updateOrderType | removeCartItemFromOrder | clear => cases hcall

end

theorem step_agree_iff (shop : Shop) (call : Site × Call) (hlink : shop.Linked) (hagree : shop.StatusesAgree) :
    (shop.step processor call).StatusesAgree ↔ shop.RefundsWhole call := by
  obtain ⟨site, call⟩ := call
  have hoth : (∀ order, call ≠ .refund order) → (∀ user courseId, call ≠ .refundCertCallback user courseId) →
      (shop.step processor (site, call)).StatusesAgree := by
    intro hrefu hcert
    unfold step
    split
    · next after hperf => exact perform_agree hlink hagree hrefu hcert hperf
    · exact hagree
  cases call with
  | refund id => exact refund_step_agree_iff hlink hagree id
  | refundCertCallback user courseId => exact refundCertCallback_step_agree_iff hlink hagree user courseId
  | _ => exact iff_of_true (hoth (by simp) (by simp)) trivial

/-- In every run of calls, every item has the status of its order throughout exactly
when every refund leaves no item of its order behind. -/
theorem statuses_always_agree_iff (processor : Processor) (calls : List (Site × Call)) :
    Always (step processor) StatusesAgree {} calls ↔ Each (step processor) RefundsWhole {} calls :=
  always_iff_each_of_invariant (fun _ call hlinked => step_linked hlinked call) step_agree_iff
    linked_empty (fun _ hitem => nomatch hitem) calls

def annaGivesOneBack : List (Site × Call) :=
  [.getCartForUser "anna" 1, .addCertificateItem 1 "algebra" 40 "verified" "usd",
    .addCertificateItem 1 "logic" 40 "verified" "usd", .startPurchase 1, .purchase 1 ∅,
    .refundCertCallback "anna" "logic"].map (openSite, ·)

theorem annaGivesOneBack_disagrees : ¬ Always (step plainProcessor) StatusesAgree {} annaGivesOneBack := by
  decide +kernel

end Shop

end EdxPlatform.Shoppingcart
