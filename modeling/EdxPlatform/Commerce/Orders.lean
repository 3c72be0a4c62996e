import Mathlib.Algebra.BigOperators.Group.List.Basic
import Mathlib.Algebra.Order.Ring.Rat
import EdxPlatform.Commerce.Signatures

/-!
# Orders of the shopping cart

Orders with their items, and the calls that change them.  The status of an item
is written next to that of its order, by other statements.
-/

namespace EdxPlatform.Shoppingcart

inductive Status where
  | cart
  | paying
  | purchased
  | refunded
  | defunctCart
  | defunctPaying
  deriving DecidableEq, Repr

/-- `ORDER_STATUS_MAP`. -/
def orderStatusMap : Status → Option Status
  | .cart => some .defunctCart
  | .paying => some .defunctPaying
  | _ => none

inductive OrderType where
  | personal
  | business
  deriving DecidableEq, Repr

/-- The subclasses of `OrderItem`. -/
inductive ItemClass where
  | paidCourseRegistration (courseId mode : String)
  | courseRegCodeItem (courseId mode : String)
  | certificateItem (courseId : String) (courseEnrollment : Nat) (mode : String)
  | donation (courseId : Option String)
  deriving DecidableEq, Repr

namespace ItemClass

def registrationCourse : ItemClass → Option String
  | .paidCourseRegistration courseId _ => some courseId
  | _ => none

def codesCourse : ItemClass → Option String
  | .courseRegCodeItem courseId _ => some courseId
  | _ => none

end ItemClass

/-- An item.  `fulfilledBy` lists the messages for which its `purchased_callback`
has run; no code reads it. -/
structure OrderItem where
  id : Nat
  order : Int
  user : String
  status : Status
  cls : ItemClass
  qty : Int
  unitCost : Rat
  currency : String
  fulfilledBy : List CyberSource.Params := []

def OrderItem.lineCost (item : OrderItem) : Rat := item.qty * item.unitCost

structure Order where
  id : Int
  user : String
  currency : String := "usd"
  status : Status := .cart
  orderType : OrderType := .personal

/-- The tables of orders and items, and the id that the next item gets. -/
structure Shop where
  orders : Dict Int Order := ∅
  items : List OrderItem := []
  nextItem : Nat := 1

inductive ShopError where
  | courseDoesNotExist
  | itemAlreadyInCart
  | alreadyEnrolledInCourse
  | invalidCartItem
  | multipleObjectsReturned
  | doesNotExist
  | purchasedCallback
  | invalidStatusToRetire
  | unexpectedOrderItemStatus
  deriving DecidableEq, Repr

structure CourseMode where
  slug : String
  minPrice : Rat
  currency : String

/-- What the rest of the platform says during a call. -/
structure Site where
  hasCourse : String → Bool
  isEnrolled : String → String → Bool
  /-- The mode of a course, or the default mode. -/
  courseMode : String → String → CourseMode
  certificateModes : String → List String
  /-- `get_or_create_enrollment` of a user in a course. -/
  courseEnrollment : String → String → Nat
  /-- Enrolling the user or making the codes fails. -/
  fulfilmentFails : OrderItem → Bool

namespace Shop

variable (site : Site) (shop : Shop)

/-- `order.orderitem_set`. -/
def orderitemSet (order : Int) : List OrderItem := shop.items.filter (·.order = order)

section

variable (order : Order)

/-- `total_cost`: only items with the order's current status count. -/
def totalCost : Rat := (((shop.orderitemSet order.id).filter (·.status = order.status)).map OrderItem.lineCost).sum

def saveOrder : Shop := { shop with orders := shop.orders.insert order.id order }

def updateItems (select : OrderItem → Bool) (change : OrderItem → OrderItem) : Shop :=
  { shop with items := shop.items.map fun item => if select item then change item else item }

def deleteItems (select : OrderItem → Bool) : Shop := { shop with items := shop.items.filter fun item => !select item }

def createItem (cls : ItemClass) (qty : Int) (unitCost : Rat) (currency : String) :
    Shop :=
  { shop with
    items := shop.items ++ [⟨shop.nextItem, order.id, order.user, order.status, cls, qty, unitCost, currency, []⟩]
    nextItem := shop.nextItem + 1 }

/-- `OrderItem.add_to_order`: an order with items has one currency. -/
def checkCurrency (currency : String) : Except ShopError Unit :=
  if order.currency ≠ currency ∧ shop.orderitemSet order.id ≠ [] then .error .invalidCartItem
  else .ok ()

/-- What `add_to_order` of a registration and of registration codes share;
`courseOf` gives the course of an item of the class. -/
def addCourseItem (make : String → String → ItemClass) (courseOf : ItemClass → Option String)
    (order : Order) (courseId modeSlug : String) (qty : Int) (cost : Option Rat)
    (currency : Option String) : Except ShopError Shop :=
  if !site.hasCourse courseId then .error .courseDoesNotExist
  else if (shop.orderitemSet order.id).any fun item => courseOf item.cls = some courseId then
    .error .itemAlreadyInCart
  else if site.isEnrolled order.user courseId then .error .alreadyEnrolledInCourse
  else do
    let mode := site.courseMode courseId modeSlug
    let cost := match cost with
      | some cost => if cost = 0 then mode.minPrice else cost
      | none => mode.minPrice
    let currency := match currency with
      | some currency => if currency.isEmpty then mode.currency else currency
      | none => mode.currency
    shop.checkCurrency order currency
    return (shop.saveOrder { order with currency }).createItem order (make courseId mode.slug) qty cost currency

/-- `PaidCourseRegistration.add_to_order`. -/
def addPaidCourseRegistration (courseId modeSlug : String) (cost : Option Rat)
    (currency : Option String) : Except ShopError Shop :=
  shop.addCourseItem site .paidCourseRegistration ItemClass.registrationCourse order courseId modeSlug 1 cost currency

/-- `CourseRegCodeItem.add_to_order`. -/
def addCourseRegCodeItem (courseId : String) (qty : Int) (modeSlug : String)
    (cost : Option Rat) (currency : Option String) : Except ShopError Shop :=
  shop.addCourseItem site .courseRegCodeItem ItemClass.codesCourse order courseId modeSlug qty cost currency

/-- `CertificateItem.add_to_order`, which updates an item that is there. -/
def addCertificateItem (courseId : String) (cost : Rat) (mode currency : String) :
    Except ShopError Shop := do
  shop.checkCurrency order currency
  if mode ∉ site.certificateModes courseId then .error .invalidCartItem
  else
    let cls := ItemClass.certificateItem courseId (site.courseEnrollment order.user courseId) mode
    let found (item : OrderItem) : Bool := item.order = order.id && item.user = order.user && item.cls = cls
    match shop.items.filter found with
    | [] => return (shop.saveOrder { order with currency }).createItem order cls 1 cost currency
    | [_] =>
      return (shop.saveOrder { order with currency }).updateItems found fun item =>
        { item with status := order.status, qty := 1, unitCost := cost, currency }
    | _ => .error .multipleObjectsReturned

/-- `Donation.add_to_order`. -/
def addDonation (donationAmount : Rat) (courseId : Option String)
    (currency : String) : Except ShopError Shop := do
  shop.checkCurrency order currency
  if courseId.any fun courseId => !site.hasCourse courseId then .error .courseDoesNotExist
  else return shop.createItem order (.donation courseId) 1 donationAmount currency

/-- `get_cart_for_user`; a new order gets an id that is not in use. -/
def getCartForUser (user : String) (newId : Int) : Shop :=
  if shop.orders.entries.any fun entry => entry.2.user = user && entry.2.status = .cart then shop
  else if newId ∈ shop.orders then shop
  else shop.saveOrder { id := newId, user }

/-- The items that `update_order_type` replaces by items of the other class. -/
def replaced (isBusiness : Bool) (item : OrderItem) : Bool :=
  match item.cls with
  | .paidCourseRegistration _ _ => isBusiness
  | .courseRegCodeItem _ _ => !isBusiness
  | _ => false

def defaultModeSlug : String := "honor"

/-- The replacement of one item, added to the order with the price of the old one. -/
def replaceItem (item : OrderItem) : Except ShopError Shop := do
  let nextItem := shop.nextItem
  let shop ← match item.cls with
    | .paidCourseRegistration courseId _ =>
      shop.addCourseRegCodeItem site order courseId item.qty defaultModeSlug none none
    | .courseRegCodeItem courseId _ => shop.addPaidCourseRegistration site order courseId defaultModeSlug none none
    | _ => .ok shop
  return shop.updateItems (·.id = nextItem) fun new => { new with unitCost := item.unitCost }

def isBusiness (order : Int) : Bool := (shop.orderitemSet order).any fun item => decide (item.qty > 1)

/-- `update_order_type`: the items of the wrong class are replaced and deleted. -/
def updateOrderType (order : Int) : Except ShopError Shop := do
  let isBusiness := shop.isBusiness order
  let itemsToDelete := (shop.orderitemSet order).filter (replaced isBusiness)
  let shop ← itemsToDelete.foldlM (fun shop item =>
    match shop.orders.lookup order with
    | none => .error .doesNotExist
    | some order => shop.replaceItem site order item) shop
  let shop := shop.deleteItems fun item => itemsToDelete.any (·.id = item.id)
  match shop.orders.lookup order with
  | none => .error .doesNotExist
  | some order => return shop.saveOrder { order with orderType := if isBusiness then .business else .personal }

/-- `update_user_cart`: a new quantity for an item in a cart. -/
def updateUserCart (itemId : Nat) (qty : Int) : Except ShopError Shop :=
  if 1 ≤ qty ∧ qty ≤ 1000 then
    match shop.items.find? fun item => item.id = itemId ∧ item.status = .cart with
    | none => .ok shop
    | some found => (shop.updateItems (·.id = itemId) fun item => { item with qty }).updateOrderType site found.order
  else .ok shop

/-- `remove_cart_item_from_order`. -/
def removeCartItemFromOrder (itemId : Nat) : Except ShopError Shop :=
  match shop.items.find? (·.id = itemId) with
  | none => .error .doesNotExist
  | some item =>
    match shop.orders.lookup item.order with
    | none => .error .doesNotExist
    | some order =>
      if order.status = .cart then
        .ok (shop.deleteItems (·.id = itemId))
      else .ok shop

/-- `clear`. -/
def clear (order : Int) : Shop := shop.deleteItems (·.order = order)

/-- `start_purchase`. -/
def startPurchase : Shop :=
  if order.status = .cart then
    (shop.saveOrder { order with status := .paying }).updateItems (·.order = order.id) fun item =>
      { item with status := .paying }
  else shop

/-- Whether the `purchased_callback` of the item raises. -/
def callbackRaises (item : OrderItem) : Bool :=
  match item.cls with
  | .paidCourseRegistration courseId _ | .courseRegCodeItem courseId _ =>
    !site.hasCourse courseId || site.fulfilmentFails item
  | .certificateItem _ _ _ => site.fulfilmentFails item
  | .donation _ => false

/-- `purchase`, for a message of the processor. -/
def purchase (params : CyberSource.Params) : Except ShopError Shop :=
  if order.status = .purchased then .ok shop
  else do
    let shop := shop.saveOrder { order with status := .purchased }
    let shop ← if order.orderType = .business then shop.updateOrderType site order.id else .ok shop
    if (shop.orderitemSet order.id).any (callbackRaises site) then .error .purchasedCallback
    else return shop.updateItems (·.order = order.id) fun item =>
      { item with status := .purchased, fulfilledBy := params :: item.fulfilledBy }

/-- `refund`: the order is marked as refunded. -/
def refund : Shop := shop.saveOrder { order with status := .refunded }

def isTargetCert (user courseId : String) (item : OrderItem) : Bool :=
  item.user = user && item.status = .purchased && match item.cls with
    | .certificateItem course _ mode => course = courseId && mode = "verified"
    | _ => false

/-- `refund_cert_callback`, for an enrolment that may be refunded: one item is
marked as refunded, and its order. -/
def refundCertCallback (user courseId : String) : Except ShopError Shop :=
  match shop.items.find? (isTargetCert user courseId) with
  | none => .ok shop
  | some targetCert =>
    match shop.orders.lookup targetCert.order with
    | none => .error .doesNotExist
    | some order =>
      .ok ((shop.updateItems (·.id = targetCert.id) fun item => { item with status := .refunded }).refund order)

/-- `retire`, of an order that went through the payment service without notice. -/
def retire : Except ShopError Shop :=
  if order.status = .defunctCart ∨ order.status = .defunctPaying then .ok shop
  else
    match orderStatusMap order.status with
    | none => .error .invalidStatusToRetire
    | some retired =>
      if (shop.orderitemSet order.id).any fun item => item.status ≠ order.status then
        .error .unexpectedOrderItemStatus
      else .ok ((shop.saveOrder { order with status := retired }).updateItems (·.order = order.id)
        fun item => { item with status := retired })

end

end Shop

end EdxPlatform.Shoppingcart
