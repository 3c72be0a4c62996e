import Mathlib.Data.Int.Log
import Mathlib.Data.Rat.Floor
import EdxPlatform.Commerce.CodeRedemption
import EdxPlatform.Commerce.OrderTypes

/-!
# Coupons in the cart

A coupon is applied to an item of its course by a row of `CouponRedemption` and by a lower price of the item.  The two
are written, copied and deleted by different requests.
-/

namespace EdxPlatform.Shoppingcart

open CartItem

def roundHalfEven (value : Rat) : Int :=
  let rest := value - ⌊value⌋
  if rest < 1 / 2 then ⌊value⌋
  else if 1 / 2 < rest then ⌊value⌋ + 1
  else if ⌊value⌋ % 2 = 0 then ⌊value⌋
  else ⌊value⌋ + 1

def quantize (unit value : Rat) : Rat := roundHalfEven (value / unit) * unit

def double (value : Rat) : Rat := quantize ((2 : Rat) ^ (Int.log 2 |value| - 52)) value

/-- The nearest number of 28 decimal digits, as the context of `Decimal` has it. -/
def decimal (value : Rat) : Rat := quantize ((10 : Rat) ^ (Int.log 10 |value| - 27)) value

/-- `get_discount_price` -/
def getDiscountPrice (percentageDiscount : Int) (value : Rat) : Rat :=
  let discount := quantize (1 / 100) (decimal (double (percentageDiscount / 100) * value))
  decimal (value - discount)

theorem quantize_zero (unit : Rat) : quantize unit 0 = 0 := by
  rw [quantize, zero_div, roundHalfEven]
  simp

theorem getDiscountPrice_zero (percentageDiscount : Int) : getDiscountPrice percentageDiscount 0 = 0 := by
  rw [getDiscountPrice, mul_zero, decimal, decimal, quantize_zero, quantize_zero, sub_zero, quantize_zero]

/-! ## The requests -/

structure Coupon where
  code : String
  courseId : String
  percentageDiscount : Int
  expirationDate : Option Int := none

def Coupon.unexpired (coupon : Coupon) (now : Int) : Bool := coupon.expirationDate.all fun date => now < date

/-- What a request finds: the time, the rest of the platform, and the ids of the active coupons in the order of the
table.  Two active coupons do not have the same code and course. -/
structure Moment (coupons : Nat → Coupon) where
  site : Site
  now : Int
  active : List Nat
  nodup : active.Nodup
  unique : ∀ first ∈ active, ∀ second ∈ active, (coupons first).code = (coupons second).code →
    (coupons first).courseId = (coupons second).courseId → first = second

variable {coupons : Nat → Coupon} (moment : Moment coupons)

namespace Moment

def isValid (coupon : Nat) : Bool := moment.active.contains coupon && (coupons coupon).unexpired moment.now

/-- The coupons that `use_code` finds for a code. -/
def couponsOfCode (code : String) : List Nat :=
  moment.active.filter fun coupon => (coupons coupon).code = code && (coupons coupon).unexpired moment.now

/-- The coupon that `add_course_to_cart` finds, by code and course. -/
def activeCoupon (code courseId : String) : Option Nat :=
  moment.active.find? fun coupon => (coupons coupon).code = code && (coupons coupon).courseId = courseId

end Moment

namespace Cart

variable (cart : Cart)

def allowsCoupon (coupons : Nat → Coupon) (coupon : Nat) : Bool :=
  cart.redemptions.all fun redemption =>
    !((coupons redemption.coupon).code ≠ (coupons coupon).code || redemption.coupon = coupon)

/-- `add_coupon_redemption`: the first item of the course gets the discount; none for
`MultipleCouponsNotAllowedException`. -/
def addCouponRedemption (coupon : Nat) : Option Cart :=
  if !cart.allowsCoupon coupons coupon then none
  else
    match cart.items.find? fun item => item.cls.courseId = some (coupons coupon).courseId with
    | none => some cart
    | some found =>
      let redeemed : Cart := { cart with redemptions := cart.redemptions ++ [⟨coupon, moment.isValid coupon⟩] }
      some (redeemed.updateItems (·.id = found.id) fun item =>
        { item with
          listPrice := some item.unitCost
          unitCost := getDiscountPrice (coupons coupon).percentageDiscount item.unitCost })

/-- `add_course_to_cart` -/
def addCourseToCart (courseId : String) : Cart :=
  match cart.addPaidCourseRegistration moment.site courseId Shop.defaultModeSlug none none with
  | .error _ => cart
  | .ok cart =>
    match cart.redemptions.findSome? fun redemption =>
        moment.activeCoupon (coupons redemption.coupon).code courseId with
    | none => cart
    | some coupon => (cart.addCouponRedemption moment coupon).getD cart

/-- `use_coupon_code`, which stops at the first coupon that is not allowed. -/
def useCouponCode : Cart → List Nat → Cart
  | cart, [] => cart
  | cart, coupon :: rest =>
    match cart.addCouponRedemption moment coupon with
    | none => cart
    | some cart => useCouponCode cart rest

/-- `use_code`; a code that is no coupon's leads to the page for registration codes and changes nothing here. -/
def useCode (code : String) : Cart := cart.useCouponCode moment (moment.couponsOfCode code)

/-- `reset_cart_items_prices` -/
def resetCartItemsPrices : Cart :=
  cart.updateItems isDiscounted fun item => { item with unitCost := item.listPrice.getD item.unitCost }

/-- `reset_code_redemption` -/
def resetCodeRedemption : Cart := { cart.resetCartItemsPrices with redemptions := [] }

def redemptionsFor (coupons : Nat → Coupon) (item : CartItem) : List CouponRedemption :=
  cart.redemptions.filter fun redemption => item.cls.courseId = some (coupons redemption.coupon).courseId

/-- `remove_cart_item_from_order`; none for the `MultipleObjectsReturned` of several redemptions. -/
def removeCartItem (coupons : Nat → Coupon) (item : CartItem) : Cart × Option ShopError :=
  let deleted := cart.deleteItems (·.id = item.id)
  match cart.redemptionsFor coupons item with
  | [] => (deleted, none)
  | [found] => ({ deleted with redemptions := cart.redemptions.filter (· ≠ found) }, none)
  | _ => (deleted, some .multipleObjectsReturned)

/-- `remove_item` -/
def removeItem (itemId : Nat) : Cart :=
  match cart.items.find? (·.id = itemId) with
  | none => cart
  | some item =>
    match cart.removeCartItem coupons item with
    | (cart, some _) => cart
    | (cart, none) => (cart.updateOrderType moment.site).1

/-- `update_user_cart` -/
def updateUserCart (site : Site) (itemId : Nat) (qty : Int) : Cart :=
  if 1 ≤ qty ∧ qty ≤ 1000 ∧ (cart.items.any (·.id = itemId)) then
    ((cart.updateItems (·.id = itemId) fun item => { item with qty }).updateOrderType site).1
  else cart

end Cart

/-- A request of the user. -/
inductive CartRequest where
  | addCourseToCart (courseId : String)
  | useCode (code : String)
  | resetCodeRedemption
  | removeItem (itemId : Nat)
  | updateUserCart (itemId : Nat) (qty : Int)

def Cart.step {coupons : Nat → Coupon} (cart : Cart) : Moment coupons × CartRequest → Cart
  | (moment, .addCourseToCart courseId) => cart.addCourseToCart moment courseId
  | (moment, .useCode code) => cart.useCode moment code
  | (_, .resetCodeRedemption) => cart.resetCodeRedemption
  | (moment, .removeItem itemId) => cart.removeItem moment itemId
  | (moment, .updateUserCart itemId qty) => cart.updateUserCart moment.site itemId qty

namespace Cart

section Prices

variable (coupons : Nat → Coupon) (cart : Cart)

/-- The price of an item is its list price, discounted once if its course has a redemption. -/
def DiscountedOnce (item : CartItem) : Prop :=
  ∃ price, item.listPrice = some price ∧ match cart.redemptionsFor coupons item with
    | [] => item.unitCost = price
    | [redemption] => item.unitCost = getDiscountPrice (coupons redemption.coupon).percentageDiscount price
    | _ => False

/-- What the claim says of every cart. -/
structure PricesRight : Prop where
  discountedOnce : ∀ item ∈ cart.items, cart.DiscountedOnce coupons item
  wereValid : ∀ redemption ∈ cart.redemptions, redemption.wasValid = true
  resets : ∀ item ∈ cart.resetCodeRedemption.items, item.unitCost = item.addedPrice

def Redeemed (courseId : String) : Prop :=
  ∃ redemption ∈ cart.redemptions, (coupons redemption.coupon).courseId = courseId

def OneItem (courseId : String) : Prop :=
  ∀ first ∈ cart.items, ∀ second ∈ cart.items, first.cls.courseId = some courseId →
    second.cls.courseId = some courseId → first.id = second.id

def Admits (site : Site) (courseId : String) : Prop :=
  site.hasCourse courseId = true ∧ (∀ item ∈ cart.items, item.cls.registrationCourse ≠ some courseId) ∧
    site.isEnrolled cart.user courseId = false ∧
    (cart.items = [] ∨ cart.currency = (site.courseMode courseId Shop.defaultModeSlug).currency)

/-- A course that is added has no redemption, and a coupon that is then applied to it has not expired and finds no
other item of the course.  A code is applied to courses without redemption and with one item.  An item that is removed
does not leave another one of its course without the redemption. -/
def KeepsPrices : Moment coupons × CartRequest → Prop
  | (moment, .addCourseToCart courseId) => cart.Admits moment.site courseId → ¬ cart.Redeemed coupons courseId ∧
        ∀ redemption ∈ cart.redemptions, ∀ coupon ∈ moment.activeCoupon (coupons redemption.coupon).code courseId,
          cart.allowsCoupon coupons coupon = true → (coupons coupon).unexpired moment.now = true ∧
            ∀ item ∈ cart.items, item.cls.courseId ≠ some courseId
  | (moment, .useCode code) =>
    ∀ coupon ∈ (moment.couponsOfCode code).takeWhile (cart.allowsCoupon coupons),
      ∀ item ∈ cart.items, item.cls.courseId = some (coupons coupon).courseId →
        ¬ cart.Redeemed coupons (coupons coupon).courseId ∧ cart.OneItem (coupons coupon).courseId
  | (_, .removeItem itemId) =>
    ∀ item ∈ cart.items, item.id = itemId → ∀ courseId ∈ item.cls.courseId,
      cart.Redeemed coupons courseId → cart.OneItem courseId
  | _ => True

end Prices

section InStep

variable {cart after : Cart} {moment : Moment coupons}

/-- The item has the price at which it was added as list price, and its price follows the redemptions. -/
def Priced (coupons : Nat → Coupon) (redemptions : List CouponRedemption) (item : CartItem) : Prop :=
  item.listPrice = some item.addedPrice ∧ match redemptions with
    | [] => item.unitCost = item.addedPrice
    | [redemption] => item.unitCost = getDiscountPrice (coupons redemption.coupon).percentageDiscount item.addedPrice
    | _ => False

/-- The prices are in step with the redemptions, all of which are by coupons that were valid. -/
structure InStep (coupons : Nat → Coupon) (cart : Cart) : Prop where
  priced : ∀ item ∈ cart.items, Priced coupons (cart.redemptionsFor coupons item) item
  valid : ∀ redemption ∈ cart.redemptions, redemption.wasValid = true

variable {item : CartItem} {redemptions : List CouponRedemption}

theorem Priced.listPrice_zero
    (hpric : Priced coupons redemptions item) (hzero : item.addedPrice = 0) : item.unitCost = 0 := by
  obtain ⟨-, hunit⟩ := hpric
  rw [hzero] at hunit
  match redemptions, hunit with
  | [], hunit => exact hunit
  | [redemption], hunit => exact hunit.trans (getDiscountPrice_zero _)

theorem Priced.reset (hpric : Priced coupons redemptions item) :
    (changeItem isDiscounted (fun item => { item with unitCost := item.listPrice.getD item.unitCost })
      item).unitCost = item.addedPrice := by
  rw [changeItem]
  split_ifs with hdis
  · change item.listPrice.getD item.unitCost = item.addedPrice
    rw [hpric.1, getD_some]
  · rw [isDiscounted, hpric.1] at hdis
    by_cases hzero : item.addedPrice = 0
    · rw [hpric.listPrice_zero hzero, hzero]
    · simp [hzero] at hdis
      exact hdis.symm

theorem InStep.pricesRight (hstep : cart.InStep coupons) : cart.PricesRight coupons := by
  refine ⟨fun item hitem => ⟨item.addedPrice, hstep.priced item hitem⟩, hstep.valid, fun item hitem => ?_⟩
  obtain ⟨old, hold, rfl⟩ := mem_map.mp hitem
  rw [(hstep.priced old hold).reset, changeItem]
  split_ifs <;> rfl

theorem InStep.resetCodeRedemption (hstep : cart.InStep coupons) : cart.resetCodeRedemption.InStep coupons := by
  refine ⟨fun item hitem => ?_, by simp [Cart.resetCodeRedemption]⟩
  obtain ⟨old, hold, rfl⟩ := mem_map.mp hitem
  refine ⟨?_, ?_⟩
  · rw [changeItem]
    split_ifs <;> exact (hstep.priced old hold).1
  · change (changeItem _ _ old).unitCost = (changeItem _ _ old).addedPrice
    rw [(hstep.priced old hold).reset, changeItem]
    split_ifs <;> rfl

def SamePrices (old new : CartItem) : Prop :=
  new.cls.courseId = old.cls.courseId ∧ new.unitCost = old.unitCost ∧ new.listPrice = old.listPrice ∧
    new.addedPrice = old.addedPrice

theorem Priced.same {old new : CartItem}
    (hpric : Priced coupons redemptions old) (hsame : SamePrices old new) : Priced coupons redemptions new := by
  obtain ⟨-, hunit, hlist, hadded⟩ := hsame
  obtain ⟨hprice, hcost⟩ := hpric
  refine ⟨by rw [hlist, hadded, hprice], ?_⟩
  rw [hunit, hadded]
  exact hcost

/-- The redemptions are the same, and each item has the course and the prices of one before. -/
structure CopiesPrices (cart after : Cart) : Prop where
  redemptions : after.redemptions = cart.redemptions
  items : ∀ new ∈ after.items, ∃ old ∈ cart.items, SamePrices old new

theorem CopiesPrices.refl (cart : Cart) : CopiesPrices cart cart :=
  ⟨rfl, fun item hitem => ⟨item, hitem, rfl, rfl, rfl, rfl⟩⟩

theorem CopiesPrices.trans {middle : Cart} (hfst : CopiesPrices cart middle) (hsec : CopiesPrices middle after) :
    CopiesPrices cart after := by
  refine ⟨hsec.redemptions.trans hfst.redemptions, fun new hnew => ?_⟩
  obtain ⟨item, hitem, hcrs, hunit, hlist, hadded⟩ := hsec.items new hnew
  obtain ⟨old, hold, hcrs', hunit', hlist', hadded'⟩ := hfst.items item hitem
  exact ⟨old, hold, hcrs.trans hcrs', hunit.trans hunit', hlist.trans hlist', hadded.trans hadded'⟩

theorem InStep.copies (hstep : cart.InStep coupons) (hcop : CopiesPrices cart after) : after.InStep coupons := by
  refine ⟨fun new hnew => ?_, hcop.redemptions ▸ hstep.valid⟩
  obtain ⟨old, hold, hsame⟩ := hcop.items new hnew
  have hfor : after.redemptionsFor coupons new = cart.redemptionsFor coupons old := by
    rw [redemptionsFor, redemptionsFor, hcop.redemptions, hsame.1]
  rw [hfor]
  exact (hstep.priced old hold).same hsame

variable {courseId : String} {isBusiness : Bool}

theorem courseId_of_oldCourse
    (hcrs : item.oldCourse isBusiness = some courseId) : item.cls.courseId = some courseId := by
  obtain ⟨mode, hmode⟩ := courseMode_of_wantedCourse hcrs
  cases hcls : item.cls <;> rw [hcls] at hmode <;> cases hmode <;> rfl

theorem courseId_wanted (isBusiness : Bool) (courseId mode : String) :
    (ItemClass.wanted isBusiness courseId mode).courseId = some courseId := by
  cases isBusiness <;> rfl

theorem replaceItem_copies {site : Site} (hitem : item ∈ cart.items)
    (hsome : (item.oldCourse isBusiness).isSome) (haft : cart.replaceItem site item = .ok after) :
    CopiesPrices cart after ∧ cart.items ⊆ after.items := by
  obtain ⟨courseId, hcrs⟩ := isSome_iff_exists.mp hsome
  by_cases href : cart.Refuses site isBusiness courseId
  · obtain ⟨error, herror⟩ := replaceItem_refused hcrs (ne_nil_of_mem hitem) href
    rw [herror] at haft
    cases haft
  · rw [replaceItem_accepted hcrs href] at haft
    cases haft
    refine ⟨⟨rfl, fun new hnew => ?_⟩, List.subset_append_left _ _⟩
    rcases mem_append.mp hnew with hold | hnew
    · exact ⟨new, hold, rfl, rfl, rfl, rfl⟩
    · rw [mem_singleton.mp hnew]
      refine ⟨item, hitem, ?_, rfl, rfl, rfl⟩
      rw [courseId_of_oldCourse hcrs]
      exact courseId_wanted isBusiness courseId _

theorem replaceItems_copies {site : Site} (items : List CartItem) (cart : Cart)
    (hitems : items ⊆ cart.items) (hsome : ∀ item ∈ items, (item.oldCourse isBusiness).isSome) :
    CopiesPrices cart (cart.replaceItems site items).1 := by
  induction items generalizing cart with
  | nil => exact CopiesPrices.refl cart
  | cons item items ih =>
    rw [replaceItems]
    cases haft : cart.replaceItem site item with
    | error error => exact CopiesPrices.refl cart
    | ok after =>
      obtain ⟨hcop, hsub⟩ := replaceItem_copies (hitems mem_cons_self) (hsome item mem_cons_self) haft
      exact hcop.trans (ih after (fun other hoth => hsub (hitems (mem_cons_of_mem _ hoth)))
        (forall_mem_cons.mp hsome).2)

theorem copiesPrices_deleteItems (cart : Cart) (select : CartItem → Bool) :
    CopiesPrices cart (cart.deleteItems select) :=
  ⟨rfl, fun item hitem => ⟨item, mem_of_mem_filter hitem, rfl, rfl, rfl, rfl⟩⟩

theorem updateOrderType_copies (site : Site) (cart : Cart) : CopiesPrices cart (cart.updateOrderType site).1 := by
  have hcop : CopiesPrices cart (cart.replaceItems site cart.outdated).1 :=
    replaceItems_copies cart.outdated cart (List.filter_subset_self _) (oldCourses_isSome cart)
  rw [outdated] at hcop
  rw [updateOrderType]
  cases haft : cart.replaceItems site (cart.items.filter (replaced cart.isBusiness)) with
  | mk after raised =>
    rw [haft] at hcop
    cases raised with
    | some error => exact hcop
    | none =>
      have hdel := copiesPrices_deleteItems after fun item =>
        (cart.items.filter (replaced cart.isBusiness)).any (·.id = item.id)
      exact ⟨(hcop.trans hdel).redemptions, (hcop.trans hdel).items⟩

theorem InStep.updateUserCart (hstep : cart.InStep coupons) (site : Site) (itemId : Nat) (qty : Int) :
    (cart.updateUserCart site itemId qty).InStep coupons := by
  rw [Cart.updateUserCart]
  split_ifs
  · have hqty : CopiesPrices cart (cart.updateItems (·.id = itemId) fun item => { item with qty }) := by
      refine ⟨rfl, fun new hnew => ?_⟩
      obtain ⟨old, hold, rfl⟩ := mem_map.mp hnew
      refine ⟨old, hold, ?_⟩
      rw [changeItem]
      split_ifs <;> exact ⟨rfl, rfl, rfl, rfl⟩
    exact hstep.copies (hqty.trans (updateOrderType_copies site _))
  · exact hstep

theorem redemptionsFor_eq_nil (hcrs : item.cls.courseId = some courseId)
    (hnot : ¬ cart.Redeemed coupons courseId) : cart.redemptionsFor coupons item = [] := by
  refine filter_eq_nil_iff.mpr fun redemption hmem hsame => hnot ⟨redemption, hmem, ?_⟩
  rw [hcrs] at hsame
  exact (some.inj (of_decide_eq_true hsame)).symm

theorem redemptionsFor_append {redemption : CouponRedemption}
    (hredms : after.redemptions = cart.redemptions ++ [redemption]) (item : CartItem) :
    after.redemptionsFor coupons item = cart.redemptionsFor coupons item ++
      if item.cls.courseId = some (coupons redemption.coupon).courseId then [redemption] else [] := by
  rw [redemptionsFor, hredms, filter_append, redemptionsFor]
  congr 1
  split_ifs with hcrs
  · rw [filter_cons_of_pos (by simpa using hcrs), filter_nil]
  · rw [filter_cons_of_neg (by simpa using hcrs), filter_nil]

/-- What is right before a coupon is applied to its course. -/
structure Applicable (moment : Moment coupons) (cart : Cart) (coupon : Nat) : Prop where
  valid : moment.isValid coupon = true
  item : ∀ item ∈ cart.items, item.cls.courseId = some (coupons coupon).courseId →
    ¬ cart.Redeemed coupons (coupons coupon).courseId ∧ cart.OneItem (coupons coupon).courseId

variable {coupon : Nat}

/-- A coupon that is applied where it may be keeps the prices in step, and changes the price of one item only. -/
theorem InStep.addCouponRedemption (hstep : cart.InStep coupons)
    (happl : cart.Applicable moment coupon) (haft : cart.addCouponRedemption moment coupon = some after) :
    after.InStep coupons := by
  rw [Cart.addCouponRedemption] at haft
  split_ifs at haft with hallo
  split at haft
  · cases haft
    exact hstep
  · rename_i found hfind
    cases haft
    have hfnd := mem_of_find?_eq_some hfind
    have hcrs : found.cls.courseId = some (coupons coupon).courseId := by simpa using find?_some hfind
    obtain ⟨hnot, hone⟩ := happl.item found hfnd hcrs
    refine ⟨fun item hitem => ?_, fun redemption hred => ?_⟩
    · rw [redemptionsFor_append rfl]
      obtain ⟨old, hold, rfl⟩ := mem_map.mp hitem
      obtain ⟨hlist, hunit⟩ := hstep.priced old hold
      rw [changeItem]
      by_cases hsame : old.id = found.id
      · have heq : old = found := inj_on_of_nodup_map cart.distinct hold hfnd hsame
        rw [heq, redemptionsFor_eq_nil hcrs hnot] at hunit
        rw [if_pos (decide_eq_true hsame), heq]
        change Priced coupons (cart.redemptionsFor coupons found ++ if found.cls.courseId = _ then _ else _) _
        rw [redemptionsFor_eq_nil hcrs hnot, if_pos hcrs]
        exact ⟨congrArg some hunit, congrArg (getDiscountPrice (coupons coupon).percentageDiscount) hunit⟩
      · have hoth : old.cls.courseId ≠ some (coupons coupon).courseId :=
          fun heq => hsame (hone old hold found hfnd heq hcrs)
        rw [if_neg (by simpa using hsame), if_neg hoth, append_nil]
        exact ⟨hlist, hunit⟩
    · rcases mem_append.mp hred with hold | hnew
      · exact hstep.valid redemption hold
      · rw [mem_singleton.mp hnew]
        exact happl.valid

section

variable (haft : cart.addCouponRedemption moment coupon = some after)
include haft

theorem allowsCoupon_of_some : cart.allowsCoupon coupons coupon = true := by
  by_contra hnot
  rw [Cart.addCouponRedemption, if_pos (by simpa using hnot)] at haft
  cases haft

theorem addCouponRedemption_spec :
    (∀ redemption ∈ after.redemptions, redemption ∈ cart.redemptions ∨ redemption.coupon = coupon) ∧
      cart.redemptions ⊆ after.redemptions ∧
      ∀ new ∈ after.items, ∃ old ∈ cart.items, new.id = old.id ∧ new.cls = old.cls := by
  rw [Cart.addCouponRedemption] at haft
  split_ifs at haft with hallo
  split at haft
  · cases haft
    exact ⟨fun redemption hmem => .inl hmem, List.Subset.refl _, fun item hitem => ⟨item, hitem, rfl, rfl⟩⟩
  · cases haft
    refine ⟨fun redemption hmem => ?_, List.subset_append_left _ _, fun new hnew => ?_⟩
    · rcases mem_append.mp hmem with hold | hnew
      · exact .inl hold
      · exact .inr (by rw [mem_singleton.mp hnew])
    · obtain ⟨old, hold, rfl⟩ := mem_map.mp hnew
      refine ⟨old, hold, changeItem_id _ _ _, ?_⟩
      rw [changeItem]
      split_ifs <;> rfl

end

theorem addCouponRedemption_other {other : Nat} (hne : other ≠ coupon)
    (hcode : (coupons other).code = (coupons coupon).code)
    (hcrs : (coupons other).courseId ≠ (coupons coupon).courseId)
    (haft : cart.addCouponRedemption moment coupon = some after) :
    after.allowsCoupon coupons other = cart.allowsCoupon coupons other ∧
      (cart.Applicable moment other → after.Applicable moment other) := by
  obtain ⟨hredms, hsub, hitems⟩ := addCouponRedemption_spec haft
  constructor
  · rw [eq_iff_iff, allowsCoupon, allowsCoupon, all_eq_true, all_eq_true]
    refine ⟨fun hall redemption hmem => hall redemption (hsub hmem), fun hall redemption hmem => ?_⟩
    rcases hredms redemption hmem with hold | hnew
    · exact hall redemption hold
    · simp [hnew, hcode, hne.symm]
  · refine fun happl => ⟨happl.valid, fun item hitem hite => ?_⟩
    obtain ⟨old, hold, -, hcls⟩ := hitems item hitem
    obtain ⟨hnot, hone⟩ := happl.item old hold (hcls ▸ hite)
    constructor
    · rintro ⟨redemption, hred, hsame⟩
      rcases hredms redemption hred with hold | hnew
      · exact hnot ⟨redemption, hold, hsame⟩
      · rw [hnew] at hsame
        exact hcrs hsame.symm
    · intro first hfst second hsec hfir hseco
      obtain ⟨first', hfst', hid, hcls⟩ := hitems first hfst
      obtain ⟨second', hsec', hid', hcls'⟩ := hitems second hsec
      rw [hid, hid']
      exact hone first' hfst' second' hsec' (hcls ▸ hfir) (hcls' ▸ hseco)

theorem takeWhile_eq_of_forall {α : Type} {first second : α → Bool} {values : List α}
    (hsame : ∀ value ∈ values, first value = second value) : values.takeWhile first = values.takeWhile second := by
  induction values with
  | nil => rfl
  | cons value values ih =>
    rw [forall_mem_cons] at hsame
    rw [List.takeWhile_cons, List.takeWhile_cons, hsame.1, ih hsame.2]

theorem InStep.useCouponCode (ids : List Nat) (cart : Cart) (hstep : cart.InStep coupons)
    (hdist : ids.Pairwise fun first second => second ≠ first ∧ (coupons second).code = (coupons first).code ∧
      (coupons second).courseId ≠ (coupons first).courseId)
    (happl : ∀ coupon ∈ ids.takeWhile (cart.allowsCoupon coupons), cart.Applicable moment coupon) :
    (cart.useCouponCode moment ids).InStep coupons := by
  induction ids generalizing cart with
  | nil => exact hstep
  | cons coupon ids ih =>
    rw [Cart.useCouponCode]
    cases haft : cart.addCouponRedemption moment coupon with
    | none => exact hstep
    | some after =>
      rw [List.takeWhile_cons_of_pos (allowsCoupon_of_some haft), forall_mem_cons] at happl
      obtain ⟨hoth, hdist⟩ := pairwise_cons.mp hdist
      refine ih after (hstep.addCouponRedemption happl.1 haft) hdist fun other hmem => ?_
      have hsame : ids.takeWhile (after.allowsCoupon coupons) = ids.takeWhile (cart.allowsCoupon coupons) := by
        refine takeWhile_eq_of_forall fun second hsec => ?_
        obtain ⟨hne, hcode, hcrs⟩ := hoth second hsec
        exact (addCouponRedemption_other hne hcode hcrs haft).1
      rw [hsame] at hmem
      have hids : other ∈ ids := (List.takeWhile_sublist _).subset hmem
      obtain ⟨hne, hcode, hcrs⟩ := hoth other hids
      exact (addCouponRedemption_other hne hcode hcrs haft).2 (happl.2 other hmem)

theorem InStep.useCode (hstep : cart.InStep coupons) {code : String}
    (hkeep : cart.KeepsPrices coupons (moment, .useCode code)) : (cart.useCode moment code).InStep coupons := by
  have hfnd : ∀ coupon ∈ moment.couponsOfCode code,
      coupon ∈ moment.active ∧ (coupons coupon).code = code ∧ (coupons coupon).unexpired moment.now = true := by
    intro coupon hcoup
    simpa [Moment.couponsOfCode] using hcoup
  refine InStep.useCouponCode _ cart hstep ?_ fun coupon hcoup => ⟨?_, hkeep coupon hcoup⟩
  · refine (moment.nodup.filter _).imp_of_mem fun {first second} hfst hsec hne => ?_
    obtain ⟨hact, hcode, -⟩ := hfnd first hfst
    obtain ⟨hact', hcode', -⟩ := hfnd second hsec
    refine ⟨hne.symm, hcode'.trans hcode.symm, fun hcrs => hne ?_⟩
    exact moment.unique first hact second hact' (hcode.trans hcode'.symm) hcrs.symm
  · obtain ⟨hact, -, hune⟩ := hfnd coupon ((List.takeWhile_sublist _).subset hcoup)
    rw [Moment.isValid, List.contains_iff_mem.mpr hact, hune]
    rfl

theorem addPaidCourseRegistration_ok {site : Site}
    (haft : cart.addPaidCourseRegistration site courseId Shop.defaultModeSlug none none = .ok after) :
    let mode := site.courseMode courseId Shop.defaultModeSlug
    cart.Admits site courseId ∧ after = { cart with currency := mode.currency }.createItem
      (.paidCourseRegistration courseId mode.slug) 1 mode.minPrice
        (some mode.minPrice) mode.currency mode.minPrice := by
  intro mode
  rw [addPaidCourseRegistration, addCourseItem] at haft
  split_ifs at haft with hcrs hany henr
  simp only [checkCurrency] at haft
  split_ifs at haft with hcurr
  · cases haft
  · refine ⟨⟨by simpa using hcrs, by simpa using hany, by simpa using henr, ?_⟩, ?_⟩
    · by_contra hnot
      rw [not_or] at hnot
      exact hcurr ⟨hnot.2, hnot.1⟩
    · exact (ok.inj haft).symm

section

variable (hstep : cart.InStep coupons)
include hstep

theorem InStep.createItem {currency : String} {mode : String} {price : Rat} (hnot : ¬ cart.Redeemed coupons courseId) :
    ({ cart with currency }.createItem (.paidCourseRegistration courseId mode) 1 price (some price) currency
      price).InStep coupons := by
  refine ⟨fun item hitem => ?_, hstep.valid⟩
  rcases mem_append.mp hitem with hold | hnew
  · exact hstep.priced item hold
  · rw [mem_singleton.mp hnew]
    refine ⟨rfl, ?_⟩
    change match cart.redemptionsFor coupons _ with | [] => _ | [_] => _ | _ => _
    rw [redemptionsFor_eq_nil rfl hnot]

theorem InStep.addCourseToCart (hkeep : cart.KeepsPrices coupons (moment, .addCourseToCart courseId)) :
    (cart.addCourseToCart moment courseId).InStep coupons := by
  rw [Cart.addCourseToCart]
  cases hadded : cart.addPaidCourseRegistration moment.site courseId Shop.defaultModeSlug none none with
  | error error => exact hstep
  | ok added =>
    obtain ⟨hadm, hadded⟩ := addPaidCourseRegistration_ok hadded
    obtain ⟨hnot, hcoup⟩ := hkeep hadm
    have hinStep : added.InStep coupons := hadded ▸ hstep.createItem hnot
    have hredms : added.redemptions = cart.redemptions := by
      rw [hadded]
      rfl
    dsimp only
    cases hfnd : added.redemptions.findSome? fun redemption =>
        moment.activeCoupon (coupons redemption.coupon).code courseId with
    | none => exact hinStep
    | some coupon =>
      dsimp only
      cases haft : added.addCouponRedemption moment coupon with
      | none => exact hinStep
      | some after =>
        obtain ⟨redemption, hmem, hact⟩ := List.exists_of_findSome?_eq_some hfnd
        have hallo : cart.allowsCoupon coupons coupon = true := by
          rw [allowsCoupon, ← hredms]
          exact allowsCoupon_of_some haft
        obtain ⟨hune, hoths⟩ := hcoup redemption (hredms ▸ hmem) coupon hact hallo
        have hcrs : (coupons coupon).courseId = courseId := by
          have hsame := find?_some hact
          simp only [and_eq_true, decide_eq_true_eq] at hsame
          exact hsame.2
        have hnew : ∀ item ∈ added.items, item.cls.courseId = some courseId → item.id = cart.nextItem := by
          intro item hitem hite
          rw [hadded] at hitem
          rcases mem_append.mp hitem with hold | hnew
          · exact absurd hite (hoths item hold)
          · rw [mem_singleton.mp hnew]
        refine hinStep.addCouponRedemption ⟨?_, fun item hitem hite => ⟨?_, ?_⟩⟩ haft
        · rw [Moment.isValid, List.contains_iff_mem.mpr (mem_of_find?_eq_some hact), hune]
          rfl
        · rw [hcrs, Redeemed, hredms]
          exact hnot
        · rw [hcrs]
          intro first hfst second hsec hfir hseco
          rw [hnew first hfst hfir, hnew second hsec hseco]

theorem InStep.removeCartItem (hitem : item ∈ cart.items)
    (hone : ∀ courseId ∈ item.cls.courseId, cart.Redeemed coupons courseId → cart.OneItem courseId) :
    (cart.removeCartItem coupons item).1.InStep coupons := by
  have hcop := copiesPrices_deleteItems cart fun other => other.id = item.id
  rw [Cart.removeCartItem]
  split
  · exact hstep.copies hcop
  · rename_i found hfnd
    have hmem : found ∈ cart.redemptionsFor coupons item := hfnd ▸ mem_singleton_self found
    obtain ⟨hfound, hfoun⟩ := mem_filter.mp hmem
    have hcrs : item.cls.courseId = some (coupons found.coupon).courseId := by simpa using hfoun
    refine ⟨fun other hoth => ?_, fun redemption hred => hstep.valid redemption (mem_of_mem_filter hred)⟩
    obtain ⟨hold, hne⟩ := mem_filter.mp hoth
    have hothe : other.cls.courseId ≠ some (coupons found.coupon).courseId := by
      intro heq
      have hsame := hone _ hcrs ⟨found, hfound, rfl⟩ other hold item hitem heq hcrs
      simp [hsame] at hne
    have hfor : (cart.redemptions.filter (· ≠ found)).filter
        (fun redemption => other.cls.courseId = some (coupons redemption.coupon).courseId) =
        cart.redemptionsFor coupons other := by
      rw [redemptionsFor, filter_filter]
      refine filter_congr fun redemption _ => ?_
      by_cases heq : redemption = found
      · rw [heq]
        simp [hothe]
      · simp [heq]
    change Priced coupons (List.filter _ _) other
    rw [hfor]
    exact hstep.priced other hold
  · exact hstep.copies hcop

theorem InStep.removeItem {itemId : Nat} (hkeep : cart.KeepsPrices coupons (moment, .removeItem itemId)) :
    (cart.removeItem moment itemId).InStep coupons := by
  rw [Cart.removeItem]
  cases hfnd : cart.items.find? (·.id = itemId) with
  | none => exact hstep
  | some item =>
    have hitem := mem_of_find?_eq_some hfnd
    have hid : item.id = itemId := by simpa using find?_some hfnd
    have hrem := hstep.removeCartItem hitem (hkeep item hitem hid)
    dsimp only
    cases haft : cart.removeCartItem coupons item with
    | mk after raised =>
      rw [haft] at hrem
      cases raised with
      | some error => exact hrem
      | none => exact hrem.copies (updateOrderType_copies moment.site after)

theorem InStep.step {request : Moment coupons × CartRequest}
    (hkeep : cart.KeepsPrices coupons request) : (cart.step request).InStep coupons := by
  obtain ⟨moment, request⟩ := request
  cases request with
  | addCourseToCart courseId => exact hstep.addCourseToCart hkeep
  | useCode code => exact hstep.useCode hkeep
  | resetCodeRedemption => exact hstep.resetCodeRedemption
  | removeItem itemId => exact hstep.removeItem hkeep
  | updateUserCart itemId qty => exact hstep.updateUserCart moment.site itemId qty

end

end InStep

/-- In every run from an empty cart whose requests meet the condition, the prices are right in every cart. -/
theorem always_pricesRight (coupons : Nat → Coupon) (user : String) (requests : List (Moment coupons × CartRequest))
    (hkeeps : Each Cart.step (KeepsPrices coupons) { user } requests) :
    Always Cart.step (PricesRight coupons) { user } requests := by
  have hstart : InStep coupons { user } := ⟨by simp, by simp⟩
  exact (always_of_each (fun _ _ hstep hkeeps => hstep.step hkeeps) hstart hkeeps).imp fun _ hstep => hstep.pricesRight

/-- The coupons of one code: two for the first course, and one for the second course that expires at time 5. -/
def halfPrice (coupon : Nat) : Coupon :=
  if coupon = 2 then ⟨"half", "second", 50, some 5⟩ else ⟨"half", "first", 50, none⟩

def momentOf (active : List Nat) (nodup : active.Nodup)
    (unique : ∀ first ∈ active, ∀ second ∈ active, (halfPrice first).code = (halfPrice second).code →
      (halfPrice first).courseId = (halfPrice second).courseId → first = second) : Moment halfPrice where
  site := { enrolledSite with isEnrolled := fun _ _ => false }
  now := 10
  active := active
  nodup := nodup
  unique := unique

/-- One course with its discount. -/
theorem halfPrice_always_pricesRight : Always Cart.step (PricesRight halfPrice) { user := "student" }
      [(momentOf [1] (by decide) (by decide), .addCourseToCart "first"),
        (momentOf [1] (by decide) (by decide), .useCode "half")] := by
  refine always_pricesRight halfPrice "student" _ ⟨?_, ?_, trivial⟩
  · intro _
    constructor
    · rintro ⟨redemption, hmem, -⟩
      cases hmem
    · rintro redemption hmem
      cases hmem
  · intro coupon _ item _ _
    constructor
    · rintro ⟨redemption, hmem, -⟩
      cases hmem
    · intro first hfirst second hsecond _ _
      rw [mem_singleton.mp hfirst, mem_singleton.mp hsecond]

/-- A coupon that has expired is applied to the second course when that is added, and a second coupon for the first
course discounts its price again. -/
theorem halfPrice_not_always_pricesRight : ¬ Always Cart.step (PricesRight halfPrice) { user := "student" }
        [(momentOf [1, 2] (by decide) (by decide), .addCourseToCart "first"),
          (momentOf [1, 2] (by decide) (by decide), .useCode "half"),
          (momentOf [1, 2] (by decide) (by decide), .addCourseToCart "second")] ∧
      ¬ Always Cart.step (PricesRight halfPrice) { user := "student" }
        [(momentOf [1] (by decide) (by decide), .addCourseToCart "first"),
          (momentOf [1] (by decide) (by decide), .useCode "half"),
          (momentOf [3] (by decide) (by decide), .useCode "half")] := by
  constructor
  · rintro ⟨-, -, -, hright⟩
    exact absurd (hright.wereValid ⟨2, false⟩ (by decide)) (by decide)
  · rintro ⟨-, -, -, hright⟩
    obtain ⟨price, -, hprice⟩ := hright.discountedOnce _ (mem_singleton_self _)
    exact hprice

end Cart

end EdxPlatform.Shoppingcart
