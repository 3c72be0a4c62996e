import EdxPlatform.Commerce.Orders

/-!
# Carts with prices

One cart with its items, their list prices and the redeemed coupons.  The calls that change it may raise halfway, and
what they have written until then stays.
-/

namespace EdxPlatform.Shoppingcart

/-- An item of a cart.  `addedPrice` is the price at which its course came into the cart; no code reads it. -/
structure CartItem where
  id : Nat
  cls : ItemClass
  qty : Int
  unitCost : Rat
  listPrice : Option Rat
  currency : String
  addedPrice : Rat

namespace CartItem

def lineCost (item : CartItem) : Rat := item.qty * item.unitCost

/-- `is_discounted` -/
def isDiscounted (item : CartItem) : Bool := item.listPrice.any fun price => price ≠ 0 && price ≠ item.unitCost

end CartItem

/-- A row of `CouponRedemption` of the cart.  `wasValid` says whether the coupon was active and had not expired when it
was applied; no code reads it. -/
structure CouponRedemption where
  coupon : Nat
  wasValid : Bool
  deriving DecidableEq

/-- The order of a user with status `cart`, its items and redemptions; new items get ids that no item has. -/
@[ext]
structure Cart where
  user : String
  currency : String := "usd"
  orderType : OrderType := .personal
  items : List CartItem := []
  nextItem : Nat := 1
  redemptions : List CouponRedemption := []
  fresh : ∀ item ∈ items, item.id < nextItem := by exact List.forall_mem_nil _
  distinct : (items.map CartItem.id).Nodup := by simp

namespace Cart

variable (site : Site) (cart : Cart)

/-- `total_cost` -/
def totalCost : Rat := (cart.items.map CartItem.lineCost).sum

def createItem (cls : ItemClass) (qty : Int) (unitCost : Rat) (listPrice : Option Rat) (currency : String)
    (addedPrice : Rat) : Cart :=
  { cart with
    items := cart.items ++ [⟨cart.nextItem, cls, qty, unitCost, listPrice, currency, addedPrice⟩]
    nextItem := cart.nextItem + 1
    fresh := by
      intro item hitem
      rcases List.mem_append.mp hitem with hold | hnew
      · exact Nat.lt_succ_of_lt (cart.fresh item hold)
      · rw [List.mem_singleton.mp hnew]
        exact Nat.lt_succ_self _
    distinct := by
      rw [List.map_append, List.nodup_append]
      refine ⟨cart.distinct, nodup_singleton _, ?_⟩
      rintro _ hold _ hnew rfl
      obtain ⟨item, hitem, hid⟩ := List.mem_map.mp hold
      rw [List.mem_singleton.mp hnew] at hid
      exact Nat.ne_of_lt (cart.fresh item hitem) hid }

section

variable (select : CartItem → Bool) (change : CartItem → CartItem)

def changeItem (item : CartItem) : CartItem :=
  if select item then { change item with id := item.id } else item

@[simp]
theorem changeItem_id (select : CartItem → Bool) (change : CartItem → CartItem) (item : CartItem) :
    (changeItem select change item).id = item.id := by
  rw [changeItem]
  split <;> rfl

def updateItems : Cart :=
  { cart with
    items := cart.items.map (changeItem select change)
    fresh := by
      intro item hitem
      obtain ⟨old, hold, rfl⟩ := List.mem_map.mp hitem
      rw [changeItem_id]
      exact cart.fresh old hold
    distinct := by
      rw [List.map_map]
      exact (List.map_congr_left fun item _ => changeItem_id select change item) ▸ cart.distinct }

end

def deleteItems (select : CartItem → Bool) : Cart :=
  { cart with
    items := cart.items.filter fun item => !select item
    fresh := fun item hitem => cart.fresh item (List.mem_of_mem_filter hitem)
    distinct := cart.distinct.sublist (List.filter_sublist.map _) }

theorem updateItems_createItem (cls : ItemClass) (qty : Int) (unitCost : Rat) (listPrice : Option Rat)
    (currency : String) (addedPrice : Rat) (change : CartItem → CartItem) :
    let new := change ⟨cart.nextItem, cls, qty, unitCost, listPrice, currency, addedPrice⟩
    (cart.createItem cls qty unitCost listPrice currency addedPrice).updateItems (·.id = cart.nextItem) change =
      cart.createItem new.cls new.qty new.unitCost new.listPrice new.currency new.addedPrice := by
  intro new
  have hold : cart.items.map (changeItem (·.id = cart.nextItem) change) = cart.items := by
    refine (map_congr_left fun item hitem => ?_).trans (map_id _)
    have hne : item.id ≠ cart.nextItem := Nat.ne_of_lt (cart.fresh item hitem)
    rw [changeItem, if_neg (by simpa using hne), id]
  apply Cart.ext
  case items =>
    simp only [updateItems, createItem, map_append, map_singleton, hold]
    rw [changeItem, if_pos (by simp)]
  all_goals rfl

/-- `OrderItem.add_to_order`: an order with items has one currency. -/
def checkCurrency (currency : String) : Except ShopError Unit :=
  if cart.currency ≠ currency ∧ cart.items ≠ [] then .error .invalidCartItem else .ok ()

/-- What `add_to_order` of a registration and of registration codes share; `courseOf` gives the course of an item of
the class. -/
def addCourseItem (make : String → String → ItemClass) (courseOf : ItemClass → Option String)
    (courseId modeSlug : String) (qty : Int) (cost : Option Rat) (currency : Option String) :
    Except ShopError Cart :=
  if !site.hasCourse courseId then .error .courseDoesNotExist
  else if cart.items.any fun item => courseOf item.cls = some courseId then .error .itemAlreadyInCart
  else if site.isEnrolled cart.user courseId then .error .alreadyEnrolledInCourse
  else do
    let mode := site.courseMode courseId modeSlug
    let cost := match cost with
      | some cost => if cost = 0 then mode.minPrice else cost
      | none => mode.minPrice
    let currency := match currency with
      | some currency => if currency.isEmpty then mode.currency else currency
      | none => mode.currency
    cart.checkCurrency currency
    return { cart with currency }.createItem (make courseId mode.slug) qty cost (some cost) currency cost

/-- `PaidCourseRegistration.add_to_order` -/
def addPaidCourseRegistration (courseId modeSlug : String) (cost : Option Rat) (currency : Option String) :
    Except ShopError Cart :=
  cart.addCourseItem site .paidCourseRegistration ItemClass.registrationCourse courseId modeSlug 1 cost currency

/-- `CourseRegCodeItem.add_to_order` -/
def addCourseRegCodeItem (courseId : String) (qty : Int) (modeSlug : String) (cost : Option Rat)
    (currency : Option String) : Except ShopError Cart :=
  cart.addCourseItem site .courseRegCodeItem ItemClass.codesCourse courseId modeSlug qty cost currency

/-- The item that takes the place of another, with the prices of the old one. -/
def replaceItem (item : CartItem) : Except ShopError Cart := do
  let newId := cart.nextItem
  let cart ← match item.cls with
    | .paidCourseRegistration courseId _ =>
      cart.addCourseRegCodeItem site courseId item.qty Shop.defaultModeSlug none none
    | .courseRegCodeItem courseId _ => cart.addPaidCourseRegistration site courseId Shop.defaultModeSlug none none
    | _ => .ok cart
  return cart.updateItems (·.id = newId) fun new =>
    { new with listPrice := item.listPrice, unitCost := item.unitCost, addedPrice := item.addedPrice }

/-- The loop of `update_order_type`, with what it has raised. -/
def replaceItems : Cart → List CartItem → Cart × Option ShopError
  | cart, [] => (cart, none)
  | cart, item :: items =>
    match cart.replaceItem site item with
    | .error error => (cart, some error)
    | .ok cart => replaceItems cart items

def isBusiness : Bool := cart.items.any fun item => decide (item.qty > 1)

/-- The items that `update_order_type` replaces by items of the other class. -/
def replaced (isBusiness : Bool) (item : CartItem) : Bool :=
  match item.cls with
  | .paidCourseRegistration _ _ => isBusiness
  | .courseRegCodeItem _ _ => !isBusiness
  | _ => false

/-- `update_order_type`, with what it has raised. -/
def updateOrderType : Cart × Option ShopError :=
  let itemsToDelete := cart.items.filter (replaced cart.isBusiness)
  match cart.replaceItems site itemsToDelete with
  | (after, some error) => (after, some error)
  | (after, none) =>
    let deleted := after.deleteItems fun item => itemsToDelete.any (·.id = item.id)
    ({ deleted with orderType := if cart.isBusiness then .business else .personal }, none)

end Cart

end EdxPlatform.Shoppingcart
