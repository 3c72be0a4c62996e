import EdxPlatform.Commerce.Carts

/-!
# Changing the type of an order

When an order of one seat becomes one of several, each registration of the cart is replaced by registration codes for
the course, and back.  An item of the new class is added before the old ones are deleted.
-/

namespace EdxPlatform.Shoppingcart

open ItemClass CartItem Shop

/-- What is compared of the items of a course. -/
structure CourseLine where
  qty : Int
  unitCost : Rat
  listPrice : Option Rat
  currency : String
  mode : String
  deriving DecidableEq

def ItemClass.courseMode : ItemClass → Option (String × String)
  | .paidCourseRegistration courseId mode => some (courseId, mode)
  | .courseRegCodeItem courseId mode => some (courseId, mode)
  | _ => none

def ItemClass.wanted : Bool → String → String → ItemClass
  | true => .courseRegCodeItem
  | false => .paidCourseRegistration

/-- The course of an item of the class that an order of the type has for its courses. -/
def ItemClass.wantedCourse : Bool → ItemClass → Option String
  | true => codesCourse
  | false => registrationCourse

namespace CartItem

def line (courseId : String) (item : CartItem) : Option CourseLine :=
  match item.cls.courseMode with
  | some (course, mode) =>
    if course = courseId then some ⟨item.qty, item.unitCost, item.listPrice, item.currency, mode⟩ else none
  | none => none

/-- The course of an item of the class that an order of the type does not have. -/
def oldCourse (isBusiness : Bool) (item : CartItem) : Option String := item.cls.wantedCourse (!isBusiness)

end CartItem

namespace Cart

variable (site : Site) (cart : Cart)

def lines (courseId : String) : List CourseLine := cart.items.filterMap (CartItem.line courseId)

section

variable (isBusiness : Bool)

def HasClass : Prop :=
  ∀ item ∈ cart.items, ∀ course ∈ item.cls.courseMode, item.cls.wantedCourse isBusiness = some course.1

/-- A change of the type keeps the lines of each course and the total, gives all courses the class for the type and
changes nothing when it is made again; one that raises leaves the items and the total. -/
def ChangesTypeOnly : Prop :=
  match cart.updateOrderType site with
  | (after, none) =>
    (∀ courseId, after.lines courseId = cart.lines courseId) ∧ after.totalCost = cart.totalCost ∧
      after.HasClass cart.isBusiness ∧ ∀ other : Site, after.updateOrderType other = (after, none)
  | (after, some _) => after.items = cart.items ∧ after.totalCost = cart.totalCost

def Refuses (courseId : String) : Prop :=
  site.hasCourse courseId = false ∨ (∃ item ∈ cart.items, item.cls.wantedCourse isBusiness = some courseId) ∨
    site.isEnrolled cart.user courseId = true ∨
    (site.courseMode courseId Shop.defaultModeSlug).currency ≠ cart.currency

def replacedCourses : List String := cart.items.filterMap (CartItem.oldCourse isBusiness)

/-- The item is as it would be if it had just been added in the other class. -/
def AddedAlike (item : CartItem) : Prop :=
  ∀ course ∈ item.cls.courseMode, course.2 = (site.courseMode course.1 Shop.defaultModeSlug).slug ∧
      item.currency = (site.courseMode course.1 Shop.defaultModeSlug).currency ∧
      (isBusiness = false → item.qty = 1)

end

/-- Nothing is replaced or the first replacement is refused already, or none is refused and each item has the mode,
the currency and the quantity that its replacement gets. -/
def ReplacesAlike : Prop :=
  (∀ courseId ∈ (cart.replacedCourses cart.isBusiness).head?, cart.Refuses site cart.isBusiness courseId) ∨
    (∀ courseId ∈ cart.replacedCourses cart.isBusiness, ¬ cart.Refuses site cart.isBusiness courseId) ∧
      (cart.replacedCourses cart.isBusiness).Nodup ∧
      ∀ item ∈ cart.items, replaced cart.isBusiness item = true → AddedAlike site cart.isBusiness item

variable {site : Site} {cart : Cart} {isBusiness : Bool} {courseId : String}

theorem addCourseItem_refused (href : cart.Refuses site isBusiness courseId) (hitems : cart.items ≠ [])
    (qty : Int) : ∃ error, cart.addCourseItem site (wanted isBusiness) (wantedCourse isBusiness)
      courseId defaultModeSlug qty none none = .error error := by
  rw [addCourseItem]
  rcases href with hcrs | hcart | henr | hcurr
  · exact ⟨_, by rw [hcrs]; rfl⟩
  · split_ifs with hcrs hany
    · exact ⟨_, rfl⟩
    · exact ⟨_, rfl⟩
    · refine absurd ?_ hany
      simpa using hcart
    · refine absurd ?_ hany
      simpa using hcart
  · split_ifs with hcrs hany
    · exact ⟨_, rfl⟩
    · exact ⟨_, rfl⟩
    · exact ⟨_, rfl⟩
  · split_ifs with hcrs hany
    · exact ⟨_, rfl⟩
    · exact ⟨_, rfl⟩
    · exact ⟨_, rfl⟩
    · refine ⟨.invalidCartItem, ?_⟩
      dsimp only
      rw [checkCurrency, if_pos ⟨hcurr.symm, hitems⟩]
      rfl

theorem addCourseItem_accepted (hacc : ¬ cart.Refuses site isBusiness courseId) (qty : Int) :
    let mode := site.courseMode courseId defaultModeSlug
    cart.addCourseItem site (wanted isBusiness) (wantedCourse isBusiness) courseId defaultModeSlug qty none none =
      .ok (cart.createItem (wanted isBusiness courseId mode.slug) qty mode.minPrice (some mode.minPrice)
        cart.currency mode.minPrice) := by
  intro mode
  simp only [Refuses, not_or, not_exists, not_and, not_eq_false, not_eq_true, ne_eq, not_not] at hacc
  obtain ⟨hcrs, hcart, henr, hcurr⟩ := hacc
  rw [addCourseItem, hcrs, if_neg (by simp), if_neg (by simpa using hcart), henr, if_neg (by simp)]
  dsimp only
  rw [hcurr, checkCurrency, if_neg (by simp)]
  rfl

/-- The item that takes the place of `item` has its prices, but the mode, the currency and the quantity of an item that
is added. -/
def replacement (site : Site) (isBusiness : Bool) (currency courseId : String) (id : Nat)
    (item : CartItem) : CartItem :=
  { item with
    id
    cls := wanted isBusiness courseId (site.courseMode courseId Shop.defaultModeSlug).slug
    qty := if isBusiness then item.qty else 1
    currency }

variable {item : CartItem}

theorem replaceItem_eq (cart : Cart) (hcrs : item.oldCourse isBusiness = some courseId) :
    cart.replaceItem site item = (do
      let newId := cart.nextItem
      let cart ← cart.addCourseItem site (wanted isBusiness) (wantedCourse isBusiness) courseId
        defaultModeSlug (if isBusiness then item.qty else 1) none none
      return cart.updateItems (·.id = newId) fun new =>
        { new with listPrice := item.listPrice, unitCost := item.unitCost, addedPrice := item.addedPrice }) := by
  rw [replaceItem]
  cases isBusiness with
  | true =>
    cases hcls : item.cls with
    | paidCourseRegistration course mode =>
      rw [oldCourse, hcls] at hcrs
      cases hcrs
      rfl
    | _ => simp [oldCourse, hcls, wantedCourse, registrationCourse] at hcrs
  | false =>
    cases hcls : item.cls with
    | courseRegCodeItem course mode =>
      rw [oldCourse, hcls] at hcrs
      cases hcrs
      rfl
    | _ => simp [oldCourse, hcls, wantedCourse, codesCourse] at hcrs

theorem replaceItem_refused (hcrs : item.oldCourse isBusiness = some courseId)
    (hitems : cart.items ≠ []) (href : cart.Refuses site isBusiness courseId) :
    ∃ error, cart.replaceItem site item = .error error := by
  obtain ⟨error, herror⟩ := addCourseItem_refused href hitems (if isBusiness then item.qty else 1)
  refine ⟨error, ?_⟩
  rw [replaceItem_eq cart hcrs, herror]
  rfl

def append (cart : Cart) (item : CartItem) : Cart :=
  cart.createItem item.cls item.qty item.unitCost item.listPrice item.currency item.addedPrice

theorem replaceItem_accepted (hcrs : item.oldCourse isBusiness = some courseId)
    (hacc : ¬ cart.Refuses site isBusiness courseId) :
    cart.replaceItem site item =
      .ok (append cart (replacement site isBusiness cart.currency courseId cart.nextItem item)) := by
  rw [replaceItem_eq cart hcrs, addCourseItem_accepted hacc]
  exact congrArg Except.ok (cart.updateItems_createItem _ _ _ _ _ _ _)

/-! ## The loop -/

def Accepts (site : Site) (cart : Cart) (isBusiness : Bool) (courses : List String) : Prop :=
  (∀ courseId ∈ courses, ¬ cart.Refuses site isBusiness courseId) ∧ courses.Nodup

theorem wantedCourse_wanted (isBusiness : Bool) (courseId mode : String) :
    (wanted isBusiness courseId mode).wantedCourse isBusiness = some courseId := by
  cases isBusiness <;> rfl

section

variable (cart : Cart) (item : CartItem)

theorem append_items : (append cart item).items = cart.items ++ [{ item with id := cart.nextItem }] := rfl

theorem refuses_append (first : String) :
    (append cart (replacement site isBusiness cart.currency first cart.nextItem item)).Refuses site isBusiness
      courseId ↔ cart.Refuses site isBusiness courseId ∨ first = courseId := by
  have hcart : (∃ found ∈ (append cart (replacement site isBusiness cart.currency first cart.nextItem item)).items,
      found.cls.wantedCourse isBusiness = some courseId) ↔
      (∃ found ∈ cart.items, found.cls.wantedCourse isBusiness = some courseId) ∨ first = courseId := by
    simp [append_items, or_and_right, exists_or, replacement, wantedCourse_wanted]
  rw [Refuses, Refuses, hcart]
  change _ ∨ _ ∨ site.isEnrolled cart.user courseId = true ∨
    (site.courseMode courseId defaultModeSlug).currency ≠ cart.currency ↔ _
  simp only [or_assoc, or_comm, or_left_comm]

theorem accepts_cons (first : String) (courses : List String) :
    Accepts site cart isBusiness (first :: courses) ↔ ¬ cart.Refuses site isBusiness first ∧
      Accepts site (append cart (replacement site isBusiness cart.currency first cart.nextItem item)) isBusiness
        courses := by
  rw [Accepts, Accepts, forall_mem_cons, nodup_cons]
  simp only [refuses_append, not_or]
  constructor
  · rintro ⟨⟨hfst, hrest⟩, hnotMem, hnod⟩
    exact ⟨hfst, fun courseId hmem => ⟨hrest courseId hmem, fun heq => hnotMem (heq ▸ hmem)⟩, hnod⟩
  · rintro ⟨hfst, hrest, hnod⟩
    exact ⟨⟨hfst, fun courseId hmem => (hrest courseId hmem).1⟩, fun hmem => (hrest first hmem).2 rfl, hnod⟩

end

theorem items_replaceItems (items : List CartItem) (cart : Cart)
    (hcrss : ∀ item ∈ items, (item.oldCourse isBusiness).isSome) (hitems : cart.items ≠ []) :
    cart.items <+: (cart.replaceItems site items).1.items := by
  induction items generalizing cart with
  | nil => exact List.prefix_rfl
  | cons item items ih =>
    obtain ⟨courseId, hcrs⟩ := isSome_iff_exists.mp (hcrss item mem_cons_self)
    rw [replaceItems]
    cases hadded : cart.replaceItem site item with
    | error error => exact List.prefix_rfl
    | ok added =>
      have hacc : ¬ cart.Refuses site isBusiness courseId := by
        intro href
        obtain ⟨error, herror⟩ := replaceItem_refused hcrs hitems href
        rw [herror] at hadded
        cases hadded
      rw [replaceItem_accepted hcrs hacc] at hadded
      cases hadded
      refine List.IsPrefix.trans ?_ (ih _ (forall_mem_cons.mp hcrss).2 ?_)
      · exact prefix_append _ _
      · simp [append_items]

def Replaces (site : Site) (isBusiness : Bool) (cart : Cart) (old new : CartItem) : Prop :=
  ∃ courseId, old.oldCourse isBusiness = some courseId ∧ cart.nextItem ≤ new.id ∧
    new = replacement site isBusiness cart.currency courseId new.id old

section

variable (items : List CartItem) (cart : Cart) (hcrss : ∀ item ∈ items, (item.oldCourse isBusiness).isSome)
include hcrss

theorem replaceItems_accepted (hacc : Accepts site cart isBusiness (items.filterMap (oldCourse isBusiness))) :
    ∃ after news, cart.replaceItems site items = (after, none) ∧ after.items = cart.items ++ news ∧
      List.Forall₂ (Replaces site isBusiness cart) items news ∧ after.currency = cart.currency := by
  induction items generalizing cart with
  | nil => exact ⟨cart, [], rfl, (append_nil _).symm, .nil, rfl⟩
  | cons item items ih =>
    obtain ⟨courseId, hcrs⟩ := isSome_iff_exists.mp (hcrss item mem_cons_self)
    rw [filterMap_cons_some hcrs, accepts_cons cart item] at hacc
    obtain ⟨hfst, hrest⟩ := hacc
    obtain ⟨after, news, haft, hitems, hnews, hcurr⟩ := ih _ (forall_mem_cons.mp hcrss).2 hrest
    refine ⟨after, replacement site isBusiness cart.currency courseId cart.nextItem item :: news, ?_, ?_, ?_, hcurr⟩
    · rw [replaceItems, replaceItem_accepted hcrs hfst]
      exact haft
    · rw [hitems, append_items, append_assoc]
      rfl
    · refine .cons ⟨courseId, hcrs, Nat.le_refl _, rfl⟩ (hnews.imp ?_)
      rintro old new ⟨course, hold, hid, hnew⟩
      exact ⟨course, hold, Nat.le_of_succ_le hid, hnew⟩

theorem replaceItems_refused (hitems : cart.items ≠ [])
    (href : ¬ Accepts site cart isBusiness (items.filterMap (oldCourse isBusiness))) :
    ∃ error, (cart.replaceItems site items).2 = some error := by
  induction items generalizing cart with
  | nil => exact absurd ⟨by simp, nodup_nil⟩ href
  | cons item items ih =>
    obtain ⟨courseId, hcrs⟩ := isSome_iff_exists.mp (hcrss item mem_cons_self)
    rw [filterMap_cons_some hcrs, accepts_cons cart item, not_and] at href
    rw [replaceItems]
    by_cases hfst : cart.Refuses site isBusiness courseId
    · obtain ⟨error, herror⟩ := replaceItem_refused hcrs hitems hfst
      exact ⟨error, by rw [herror]⟩
    · rw [replaceItem_accepted hcrs hfst]
      exact ih _ (forall_mem_cons.mp hcrss).2 (by simp [append_items]) (href hfst)

end

/-! ## What is left after the deletion -/

theorem replaced_eq (isBusiness : Bool) (item : CartItem) :
    replaced isBusiness item = (item.oldCourse isBusiness).isSome := by
  rw [replaced, oldCourse]
  cases item.cls <;> cases isBusiness <;> rfl

theorem filterMap_replaced (isBusiness : Bool) (items : List CartItem) :
    (items.filter (replaced isBusiness)).filterMap (oldCourse isBusiness) =
      items.filterMap (oldCourse isBusiness) := by
  rw [List.filterMap_filter]
  refine filterMap_congr fun item _ => ?_
  rw [replaced_eq]
  cases item.oldCourse isBusiness <;> rfl

def kept (cart : Cart) : List CartItem := cart.items.filter fun item => !replaced cart.isBusiness item

def outdated (cart : Cart) : List CartItem := cart.items.filter (replaced cart.isBusiness)

theorem any_outdated (hitem : item ∈ cart.items) :
    (cart.outdated.any fun old => old.id = item.id) = replaced cart.isBusiness item := by
  rw [eq_iff_iff, any_eq_true]
  constructor
  · rintro ⟨old, hold, hid⟩
    obtain ⟨hmem, hrepd⟩ := mem_filter.mp hold
    rwa [← inj_on_of_nodup_map cart.distinct hmem hitem (of_decide_eq_true hid)]
  · intro hrepd
    exact ⟨item, mem_filter.mpr ⟨hitem, hrepd⟩, decide_eq_true rfl⟩

variable {news : List CartItem}

theorem filter_outdated (hnews : ∀ new ∈ news, cart.nextItem ≤ new.id) :
    ((cart.items ++ news).filter fun item => !(cart.outdated.any fun old => old.id = item.id)) =
      cart.kept ++ news := by
  rw [filter_append]
  congr 1
  · exact filter_congr fun item hitem => by rw [any_outdated hitem]
  · refine filter_eq_self.mpr fun new hnew => ?_
    rw [not_eq_true', any_eq_false]
    intro old hold hid
    have hlt := cart.fresh old (mem_of_mem_filter hold)
    rw [of_decide_eq_true hid] at hlt
    exact absurd (hnews new hnew) (Nat.not_le_of_lt hlt)

theorem exists_left {α β : Type} {relation : α → β → Prop} {lefts : List α} {rights : List β}
    (hrel : List.Forall₂ relation lefts rights) : ∀ right ∈ rights, ∃ left ∈ lefts, relation left right := by
  induction hrel with
  | nil => simp
  | cons hhead htail ih =>
    refine forall_mem_cons.mpr ⟨⟨_, mem_cons_self, hhead⟩, fun right hrgt => ?_⟩
    obtain ⟨left, hleft, hpair⟩ := ih right hrgt
    exact ⟨left, mem_cons_of_mem _ hleft, hpair⟩

theorem oldCourses_isSome (cart : Cart) : ∀ item ∈ cart.outdated, (item.oldCourse cart.isBusiness).isSome := by
  intro item hitem
  rw [← replaced_eq]
  exact (mem_filter.mp hitem).2

theorem updateOrderType_accepted (hacc : Accepts site cart cart.isBusiness (cart.replacedCourses cart.isBusiness)) :
    ∃ after news, cart.updateOrderType site = (after, none) ∧ after.items = cart.kept ++ news ∧
      List.Forall₂ (Replaces site cart.isBusiness cart) cart.outdated news ∧
      after.orderType = if cart.isBusiness then .business else .personal := by
  rw [replacedCourses, ← filterMap_replaced] at hacc
  obtain ⟨after, news, haft, hitems, hnews, -⟩ :=
    replaceItems_accepted cart.outdated cart (oldCourses_isSome cart) hacc
  rw [outdated] at haft
  refine ⟨_, news, by rw [updateOrderType, haft], ?_, hnews, rfl⟩
  change (after.items.filter fun item => !(cart.outdated.any fun old => old.id = item.id)) = _
  rw [hitems, filter_outdated]
  intro new hnew
  obtain ⟨old, -, courseId, -, hid, -⟩ := exists_left hnews new hnew
  exact hid

theorem items_replaceItems_eq_iff (items : List CartItem) (hcrs : item.oldCourse isBusiness = some courseId)
    (hcrss : ∀ item ∈ items, (item.oldCourse isBusiness).isSome) (hitems : cart.items ≠ []) :
    (cart.replaceItems site (item :: items)).1.items = cart.items ↔ cart.Refuses site isBusiness courseId := by
  rw [replaceItems]
  by_cases href : cart.Refuses site isBusiness courseId
  · obtain ⟨error, herror⟩ := replaceItem_refused hcrs hitems href
    rw [herror]
    exact iff_of_true rfl href
  · rw [replaceItem_accepted hcrs href]
    refine iff_of_false (fun heq => ?_) href
    let added := append cart (replacement site isBusiness cart.currency courseId cart.nextItem item)
    have hlon : added.items.length ≤ (added.replaceItems site items).1.items.length :=
      (items_replaceItems items added hcrss (by simp [added, append_items])).length_le
    have hsame : (added.replaceItems site items).1.items.length = cart.items.length := congrArg List.length heq
    rw [append_items, length_append, length_singleton] at hlon
    omega

/-- If something is refused the call raises, and the items are as before exactly if it is the first. -/
theorem updateOrderType_refused (href : ¬ Accepts site cart cart.isBusiness (cart.replacedCourses cart.isBusiness)) :
    ∃ after error, cart.updateOrderType site = (after, some error) ∧ (after.items = cart.items ↔
        ∀ courseId ∈ (cart.replacedCourses cart.isBusiness).head?, cart.Refuses site cart.isBusiness courseId) := by
  rw [replacedCourses, ← filterMap_replaced] at href ⊢
  have hsome := oldCourses_isSome cart
  have hitems : cart.items ≠ [] := by
    intro hnil
    rw [hnil] at href
    exact href ⟨by simp, nodup_nil⟩
  obtain ⟨error, herror⟩ := replaceItems_refused cart.outdated cart hsome hitems href
  cases haft : cart.replaceItems site cart.outdated with
  | mk after raised =>
    rw [haft] at herror
    cases herror
    refine ⟨after, error, ?_, ?_⟩
    · rw [outdated] at haft
      rw [updateOrderType, haft]
    · change _ ↔ ∀ courseId ∈ (cart.outdated.filterMap (oldCourse cart.isBusiness)).head?, _
      cases hold : cart.outdated with
      | nil =>
        rw [hold] at haft
        cases haft
      | cons item items =>
        rw [hold] at haft hsome
        obtain ⟨courseId, hcrs⟩ := isSome_iff_exists.mp (hsome item mem_cons_self)
        have hiff : (cart.replaceItems site (item :: items)).1.items = cart.items ↔
            cart.Refuses site cart.isBusiness courseId :=
          items_replaceItems_eq_iff items hcrs (forall_mem_cons.mp hsome).2 hitems
        rw [haft] at hiff
        rw [hiff, filterMap_cons_some hcrs]
        simp

/-! ## The lines of the courses -/

theorem filterMap_eq_iff {α β γ : Type} {relation : α → β → Prop} {first : α → Option γ} {second : β → Option γ}
    (hsome : ∀ left right, relation left right → (first left).isSome = (second right).isSome) {lefts : List α}
    {rights : List β} (hrel : List.Forall₂ relation lefts rights) :
    lefts.filterMap first = rights.filterMap second ↔
      List.Forall₂ (fun left right => first left = second right) lefts rights := by
  induction hrel with
  | nil => simp
  | @cons left right lefts rights hhead htail ih =>
    have hsame := hsome left right hhead
    rw [List.forall₂_cons, ← ih]
    cases hfst : first left with
    | none =>
      rw [hfst] at hsame
      have hsec : second right = none := by simpa using hsame.symm
      rw [filterMap_cons_none hfst, filterMap_cons_none hsec, hsec]
      simp
    | some value =>
      rw [hfst] at hsame
      obtain ⟨other, hsec⟩ := isSome_iff_exists.mp hsame.symm
      rw [filterMap_cons_some hfst, filterMap_cons_some hsec, hsec, cons.injEq, Option.some.injEq]

theorem courseMode_of_wantedCourse {cls : ItemClass} (hcrs : cls.wantedCourse isBusiness = some courseId) :
    ∃ mode, cls.courseMode = some (courseId, mode) := by
  cases isBusiness with
  | true =>
    cases cls with
    | courseRegCodeItem course mode =>
      cases hcrs
      exact ⟨mode, rfl⟩
    | _ => cases hcrs
  | false =>
    cases cls with
    | paidCourseRegistration course mode =>
      cases hcrs
      exact ⟨mode, rfl⟩
    | _ => cases hcrs

theorem wantedCourse_of_courseMode (isBusiness : Bool) {mode : String}
    (hmode : item.cls.courseMode = some (courseId, mode)) :
    item.cls.wantedCourse isBusiness = some courseId ∧ item.oldCourse isBusiness = none ∨
      item.cls.wantedCourse isBusiness = none ∧ item.oldCourse isBusiness = some courseId := by
  rw [oldCourse]
  cases hcls : item.cls with
  | paidCourseRegistration course slug =>
    rw [hcls] at hmode
    cases hmode
    cases isBusiness
    · exact .inl ⟨rfl, rfl⟩
    · exact .inr ⟨rfl, rfl⟩
  | courseRegCodeItem course slug =>
    rw [hcls] at hmode
    cases hmode
    cases isBusiness
    · exact .inr ⟨rfl, rfl⟩
    · exact .inl ⟨rfl, rfl⟩
  | certificateItem course enrollment slug => rw [hcls] at hmode; cases hmode
  | donation course => rw [hcls] at hmode; cases hmode

theorem line_of_courseMode {course mode : String} (hmode : item.cls.courseMode = some (course, mode))
    (courseId : String) :
    item.line courseId = if course = courseId then
      some ⟨item.qty, item.unitCost, item.listPrice, item.currency, mode⟩ else none := by
  rw [line, hmode]

theorem courseMode_wanted (isBusiness : Bool) (courseId mode : String) :
    (wanted isBusiness courseId mode).courseMode = some (courseId, mode) := by
  cases isBusiness <;> rfl

variable {new old : CartItem}

theorem line_isSome_of_replaces (hrepl : Replaces site isBusiness cart old new) :
    (old.line courseId).isSome = (new.line courseId).isSome := by
  obtain ⟨course, hcrs, -, hnew⟩ := hrepl
  obtain ⟨mode, hmode⟩ := courseMode_of_wantedCourse hcrs
  rw [line_of_courseMode hmode, hnew, line_of_courseMode (courseMode_wanted isBusiness course _)]
  split_ifs <;> rfl

/-- All lines of a replacement are those of the old item exactly if that has what an added item gets. -/
theorem forall_line_eq_iff (hrepl : Replaces site isBusiness cart old new)
    (hacc : ∀ courseId ∈ old.oldCourse isBusiness, ¬ cart.Refuses site isBusiness courseId) :
    (∀ courseId, old.line courseId = new.line courseId) ↔ AddedAlike site isBusiness old := by
  obtain ⟨course, hcrs, -, hnew⟩ := hrepl
  obtain ⟨mode, hmode⟩ := courseMode_of_wantedCourse hcrs
  have hcurr : (site.courseMode course defaultModeSlug).currency = cart.currency := by
    by_contra hne
    exact hacc course hcrs (.inr (.inr (.inr hne)))
  have hline (courseId : String) : new.line courseId = if course = courseId then
      some ⟨if isBusiness then old.qty else 1, old.unitCost, old.listPrice, cart.currency,
        (site.courseMode course defaultModeSlug).slug⟩ else none := by
    rw [hnew, line_of_courseMode (courseMode_wanted isBusiness course _)]
    rfl
  have hall : (∀ courseId, old.line courseId = new.line courseId) ↔ old.line course = new.line course := by
    refine ⟨fun h => h course, fun heq courseId => ?_⟩
    by_cases hsame : course = courseId
    · exact hsame ▸ heq
    · rw [line_of_courseMode hmode, hline, if_neg hsame, if_neg hsame]
  rw [hall, line_of_courseMode hmode, hline, if_pos rfl, if_pos rfl, AddedAlike, hmode]
  simp only [Option.mem_some_iff, forall_eq', hcurr, Option.some.injEq, CourseLine.mk.injEq, true_and]
  cases isBusiness with
  | true => simp [and_comm]
  | false => simp [and_comm, and_left_comm, and_assoc]

theorem line_kept_of_accepted (hitem : item ∈ cart.items)
    (hkept : replaced cart.isBusiness item = false) (hacc : ¬ cart.Refuses site cart.isBusiness courseId) :
    item.line courseId = none := by
  rw [replaced_eq] at hkept
  cases hmode : item.cls.courseMode with
  | none => rw [line, hmode]
  | some found =>
    obtain ⟨course, mode⟩ := found
    rw [line_of_courseMode hmode]
    rcases wantedCourse_of_courseMode cart.isBusiness hmode with ⟨hwan, -⟩ | ⟨-, hold⟩
    · rw [if_neg]
      rintro rfl
      exact hacc (.inr (.inl ⟨item, hitem, hwan⟩))
    · rw [hold] at hkept
      cases hkept

variable {after : Cart}

theorem lines_eq_iff (hitems : after.items = cart.kept ++ news)
    (hnews : List.Forall₂ (Replaces site cart.isBusiness cart) cart.outdated news)
    (hacc : Accepts site cart cart.isBusiness (cart.replacedCourses cart.isBusiness)) (courseId : String) :
    after.lines courseId = cart.lines courseId ↔
      List.Forall₂ (fun old new => line courseId old = line courseId new) cart.outdated news := by
  have hsome : ∀ old new, Replaces site cart.isBusiness cart old new →
      (old.line courseId).isSome = (new.line courseId).isSome :=
    fun old new => line_isSome_of_replaces
  rw [← filterMap_eq_iff hsome hnews, lines, hitems, filterMap_append]
  by_cases hcrs : courseId ∈ cart.replacedCourses cart.isBusiness
  · have hkept : cart.kept.filterMap (line courseId) = [] := by
      refine List.filterMap_eq_nil_iff.mpr fun item hitem => ?_
      obtain ⟨hmem, hstays⟩ := mem_filter.mp hitem
      exact line_kept_of_accepted hmem (by simpa using hstays) (hacc.1 courseId hcrs)
    have hlines : cart.lines courseId = cart.outdated.filterMap (line courseId) := by
      rw [lines, outdated, List.filterMap_filter]
      refine filterMap_congr fun item hitem => ?_
      split_ifs with hrepd
      · rfl
      · exact line_kept_of_accepted hitem (by simpa using hrepd) (hacc.1 courseId hcrs)
    rw [hkept, hlines, nil_append, eq_comm]
  · have hold : ∀ item ∈ cart.outdated, item.line courseId = none := by
      intro item hitem
      obtain ⟨course, hfnd⟩ := isSome_iff_exists.mp (oldCourses_isSome cart item hitem)
      obtain ⟨mode, hmode⟩ := courseMode_of_wantedCourse hfnd
      rw [line_of_courseMode hmode, if_neg]
      rintro rfl
      exact hcrs (mem_filterMap.mpr ⟨item, mem_of_mem_filter hitem, hfnd⟩)
    have hlines : cart.lines courseId = cart.kept.filterMap (line courseId) := by
      rw [lines, kept, List.filterMap_filter]
      refine filterMap_congr fun item hitem => ?_
      split_ifs with hstays
      · rfl
      · exact hold item (mem_filter.mpr ⟨hitem, by simpa using hstays⟩)
    rw [hlines, List.filterMap_eq_nil_iff.mpr hold, List.append_right_eq_self, eq_comm]

variable {items : List CartItem}

theorem forall₂_line_iff (hnews : List.Forall₂ (Replaces site isBusiness cart) items news)
    (hacc : ∀ item ∈ items, ∀ courseId ∈ item.oldCourse isBusiness, ¬ cart.Refuses site isBusiness courseId) :
    (∀ courseId, List.Forall₂ (fun old new => line courseId old = line courseId new) items news) ↔
      ∀ item ∈ items, AddedAlike site isBusiness item := by
  induction hnews with
  | nil => simp
  | cons hhead htail ih =>
    rw [forall_mem_cons] at hacc ⊢
    rw [← forall_line_eq_iff hhead hacc.1, ← ih hacc.2, ← forall_and]
    simp only [List.forall₂_cons]

theorem forall_lines_iff (hitems : after.items = cart.kept ++ news)
    (hnews : List.Forall₂ (Replaces site cart.isBusiness cart) cart.outdated news)
    (hacc : Accepts site cart cart.isBusiness (cart.replacedCourses cart.isBusiness)) :
    (∀ courseId, after.lines courseId = cart.lines courseId) ↔
      ∀ item ∈ cart.items, replaced cart.isBusiness item = true → AddedAlike site cart.isBusiness item := by
  have haccd : ∀ item ∈ cart.outdated, ∀ courseId ∈ item.oldCourse cart.isBusiness,
      ¬ cart.Refuses site cart.isBusiness courseId :=
    fun item hitem courseId hcrs => hacc.1 courseId (mem_filterMap.mpr ⟨item, mem_of_mem_filter hitem, hcrs⟩)
  have hiff := forall₂_line_iff hnews haccd
  simp only [← lines_eq_iff hitems hnews hacc] at hiff
  rw [hiff, outdated]
  simp only [mem_filter, and_imp]

theorem map_lineCost_eq (hnews : List.Forall₂ (Replaces site isBusiness cart) items news)
    (halike : ∀ item ∈ items, AddedAlike site isBusiness item) :
    news.map lineCost = items.map lineCost := by
  induction hnews with
  | nil => rfl
  | @cons old new items news hhead htail ih =>
    rw [forall_mem_cons] at halike
    obtain ⟨courseId, hcrs, -, hnew⟩ := hhead
    obtain ⟨mode, hmode⟩ := courseMode_of_wantedCourse hcrs
    have hcost : new.lineCost = old.lineCost := by
      rw [hnew, lineCost, lineCost, replacement]
      cases isBusiness with
      | true => rfl
      | false => rw [(halike.1 _ hmode).2.2 rfl]; rfl
    rw [map_cons, map_cons, hcost, ih halike.2]

theorem totalCost_eq (hitems : after.items = cart.kept ++ news)
    (hcosts : news.map lineCost = cart.outdated.map lineCost) :
    after.totalCost = cart.totalCost := by
  have hperm : (cart.outdated ++ cart.kept).Perm cart.items := List.filter_append_perm _ _
  rw [totalCost, totalCost, hitems, map_append, hcosts, sum_append, add_comm, ← sum_append, ← map_append]
  exact (hperm.map _).sum_eq

section

variable (hitems : after.items = cart.kept ++ news)
  (hnews : List.Forall₂ (Replaces site cart.isBusiness cart) cart.outdated news)
include hitems hnews

theorem hasClass_of_items : after.HasClass cart.isBusiness := by
  intro item hitem course hcrs
  rw [hitems, mem_append] at hitem
  rcases hitem with hkept | hnew
  · have hstays := (mem_filter.mp hkept).2
    rw [replaced_eq] at hstays
    rcases wantedCourse_of_courseMode cart.isBusiness hcrs with ⟨hwan, -⟩ | ⟨-, hold⟩
    · exact hwan
    · rw [hold] at hstays
      cases hstays
  · obtain ⟨old, -, courseId, -, -, hreplt⟩ := exists_left hnews item hnew
    have hcls : item.cls = wanted cart.isBusiness courseId
        (site.courseMode courseId defaultModeSlug).slug := congrArg cls hreplt
    rw [hcls] at hcrs ⊢
    rw [courseMode_wanted] at hcrs
    cases hcrs
    exact wantedCourse_wanted _ _ _

theorem isBusiness_of_items : after.isBusiness = cart.isBusiness := by
  rw [isBusiness, hitems]
  cases hbus : cart.isBusiness with
  | true =>
    obtain ⟨item, hitem, hqty⟩ := any_eq_true.mp hbus
    rw [any_eq_true]
    by_cases hrepd : replaced cart.isBusiness item = true
    · obtain ⟨new, hnew, courseId, -, -, hreplt⟩ := exists_left hnews.flip item (mem_filter.mpr ⟨hitem, hrepd⟩)
      refine ⟨new, mem_append_right _ hnew, ?_⟩
      rw [hreplt, replacement, hbus]
      exact hqty
    · exact ⟨item, mem_append_left _ (mem_filter.mpr ⟨hitem, by simpa using hrepd⟩), hqty⟩
  | false =>
    have hold := any_eq_false.mp hbus
    refine any_eq_false.mpr fun item hitem => ?_
    rcases mem_append.mp hitem with hkept | hnew
    · exact hold item (mem_of_mem_filter hkept)
    · obtain ⟨old, -, courseId, -, -, hreplt⟩ := exists_left hnews item hnew
      rw [hreplt, replacement, hbus]
      simp

end

theorem updateOrderType_of_hasClass (hclass : cart.HasClass cart.isBusiness)
    (htype : cart.orderType = if cart.isBusiness then .business else .personal) (site : Site) :
    cart.updateOrderType site = (cart, none) := by
  have hnone : cart.items.filter (replaced cart.isBusiness) = [] := by
    refine filter_eq_nil_iff.mpr fun item hitem hrepd => ?_
    rw [replaced_eq] at hrepd
    obtain ⟨courseId, hold⟩ := isSome_iff_exists.mp hrepd
    obtain ⟨mode, hmode⟩ := courseMode_of_wantedCourse hold
    have hwan := hclass item hitem _ hmode
    rcases wantedCourse_of_courseMode cart.isBusiness hmode with ⟨-, hnot⟩ | ⟨hnot, -⟩
    · rw [hold] at hnot
      cases hnot
    · rw [hwan] at hnot
      cases hnot
  have hitems : cart.items.filter (fun _ => !false) = cart.items := filter_true _
  rw [updateOrderType, hnone, replaceItems, ← htype]
  refine Prod.ext (Cart.ext rfl rfl rfl ?_ rfl rfl) rfl
  exact hitems

/-- A change of the type that raises leaves the cart, and one that does not keeps all the lines of its courses, exactly
if nothing is written before the first refusal and each replaced item has the mode, the currency and the quantity that
its replacement gets. -/
theorem changesTypeOnly_iff (site : Site) (cart : Cart) : cart.ChangesTypeOnly site ↔ cart.ReplacesAlike site := by
  rw [ChangesTypeOnly, ReplacesAlike]
  by_cases haccepts : Accepts site cart cart.isBusiness (cart.replacedCourses cart.isBusiness)
  · obtain ⟨after, news, hafter, hitems, hnews, htype⟩ := updateOrderType_accepted haccepts
    have hlines := forall_lines_iff hitems hnews haccepts
    have hbusiness := isBusiness_of_items hitems hnews
    have hclass := hasClass_of_items hitems hnews
    have hagain : ∀ other : Site, after.updateOrderType other = (after, none) :=
      updateOrderType_of_hasClass (hbusiness ▸ hclass) (hbusiness ▸ htype)
    rw [hafter]
    dsimp only
    rw [hlines]
    constructor
    · rintro ⟨halike, -⟩
      exact .inr ⟨haccepts.1, haccepts.2, halike⟩
    · intro hcondition
      have halike : ∀ item ∈ cart.items, replaced cart.isBusiness item = true →
          AddedAlike site cart.isBusiness item := by
        rcases hcondition with hfirst | ⟨-, -, halike⟩
        · intro item hitem hreplaced
          obtain ⟨courseId, hold⟩ := isSome_iff_exists.mp (replaced_eq _ item ▸ hreplaced)
          have hmem : courseId ∈ cart.replacedCourses cart.isBusiness := mem_filterMap.mpr ⟨item, hitem, hold⟩
          obtain ⟨first, rest, hcourses⟩ := exists_cons_of_ne_nil (ne_nil_of_mem hmem)
          rw [hcourses] at hfirst haccepts
          exact absurd (hfirst first rfl) (haccepts.1 first mem_cons_self)
        · exact halike
      refine ⟨halike, totalCost_eq hitems (map_lineCost_eq hnews ?_), hclass, hagain⟩
      intro item hitem
      exact halike item (mem_of_mem_filter hitem) (mem_filter.mp hitem).2
  · obtain ⟨after, error, hafter, hiff⟩ := updateOrderType_refused haccepts
    rw [hafter]
    dsimp only
    rw [or_iff_left (fun h => haccepts ⟨h.1, h.2.1⟩), ← hiff]
    refine ⟨And.left, fun heq => ⟨heq, ?_⟩⟩
    rw [totalCost, heq, totalCost]

/-- A user who is enrolled in the second course; the mode of all courses is `honor`. -/
def enrolledSite : Site where
  hasCourse := fun _ => true
  isEnrolled := fun _ courseId => courseId = "second"
  courseMode := fun _ _ => ⟨"honor", 40, "usd"⟩
  certificateModes := fun _ => []
  courseEnrollment := fun _ _ => 1
  fulfilmentFails := fun _ => false

def twoCourses (mode : String) : Cart where
  user := "student"
  items := [⟨1, .paidCourseRegistration "first" mode, 1, 40, some 40, "usd", 40⟩,
    ⟨2, .paidCourseRegistration "second" mode, 2, 40, some 40, "usd", 40⟩]
  nextItem := 3
  fresh := by simp

/-- The enrollment in the second course leaves both items of the first, and a change that goes
through forgets a mode. -/
theorem twoCourses_not_changesTypeOnly : ¬ (twoCourses "honor").ChangesTypeOnly enrolledSite ∧
      ¬ (twoCourses "verified").ChangesTypeOnly { enrolledSite with isEnrolled := fun _ _ => false } := by
  constructor
  · rintro ⟨hitems, -⟩
    exact absurd (congrArg List.length hitems) (by decide)
  · rintro ⟨hlines, -⟩
    exact absurd (hlines "first") (by decide)

end Cart

end EdxPlatform.Shoppingcart
