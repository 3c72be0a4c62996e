import EdxPlatform.Lib.JsonText
import EdxPlatform.LibraryContent.Selection
import EdxPlatform.Lib.ShortNames

/-!
# Renderings and requests of library content

A rendering of a block completes the learner's selection and stores it.  A request for the blocks of the course
completes it in the same way, but stores nothing.
-/

namespace EdxPlatform.LibraryContent

open JsonText Entries

structure LibraryContentBlock where
  children : List UsageKey
  maxCount : ℤ
  mode : String
  /-- The field has only this value. -/
  mode_eq : mode = "random"

def makeUsageKey (key : BlockKey) : UsageKey := ⟨key.1, key.2⟩

def storedKey (key : BlockKey) : Document JsonAtom := .list [.atom (.string key.1), .atom (.string key.2)]

def readKey : Document JsonAtom → Option BlockKey
  | .list [.atom (.string blockType), .atom (.string blockId)] => some (blockType, blockId)
  | _ => none

def storedSelection (keys : List BlockKey) : Document JsonAtom := .list (keys.map storedKey)

/-- What is stored for a learner and a block, nothing at all if there is no row; a selection is a list of keys. -/
structure UserState where
  entries : Entries JsonAtom
  selected_stored : ∀ value, Entries.get "selected" entries = some value → ∃ keys, value = storedSelection keys

namespace UserState

/-- The field `selected`. -/
def selected (state : UserState) : List BlockKey :=
  match Entries.get "selected" state.entries with
  | some (.list elements) => elements.filterMap readKey
  | _ => []

/-- `current_state.update({'selected': keys})` -/
def setSelected (state : UserState) (keys : List BlockKey) : UserState where
  entries := Entries.set "selected" (storedSelection keys) state.entries
  selected_stored value hvalue := by
    rw [get_set_self] at hvalue
    exact ⟨keys, (Option.some.inj hvalue).symm⟩

/-- `_get_student_module`: the row, if its text looks as if keys are selected. -/
def getStudentModule (state : UserState) : Option UserState :=
  if "\"selected\": [[".toList <:+: (dumps (.dict state.entries)).toList then some state else none

end UserState

open UserState

/-- What one turn of a block comes to by chance: the draws, and the order in which `list` has the keys of a set. -/
structure Chance extends Draw BlockKey where
  listing : (keys : Finset BlockKey) → {listed : List BlockKey // listed.toFinset = keys}

variable (chance : Chance) (block : LibraryContentBlock) (state : UserState)

/-- `selected_children`, with the state that is saved. -/
def selectedChildren : Except SelectionError (UserState × Finset BlockKey) := do
  let blockKeys ← makeSelection chance.toDraw state.selected block.children block.maxCount "random"
  let selected := blockKeys.selected
  return (state.setSelected (chance.listing selected), selected)

/-- `_get_selected_child_blocks`. -/
def getSelectedChildBlocks : Except SelectionError (UserState × Finset UsageKey) := do
  let (state, selected) ← selectedChildren chance block state
  return (state, selected.image makeUsageKey)

def findSelected : Except SelectionError (List BlockKey) :=
  match state.getStudentModule with
  | none => return []
  | some module =>
    match Entries.get "selected" module.entries with
    | none => throw .keyError
    | some _ => return module.selected.filter fun key => decide (makeUsageKey key ∈ block.children)

def selectForRequest : Except SelectionError (Finset UsageKey) := do
  let selected ← findSelected block state
  let blockKeys ← makeSelection chance.toDraw selected block.children block.maxCount block.mode
  return blockKeys.selected.image makeUsageKey

/-- How a block is looked at. -/
inductive Look where
  | rendering
  | request
  deriving DecidableEq

def Look.shows : Look → Except SelectionError (UserState × Finset UsageKey)
  | .rendering => getSelectedChildBlocks chance block state
  | .request =>
    if block.children.isEmpty then return (state, ∅)
    else do
      let selected ← selectForRequest chance block state
      return (state, selected)

def showAll (block : LibraryContentBlock) : UserState → List (Look × Chance) →
    Except SelectionError (List (Finset UsageKey))
  | _, [] => return []
  | state, (look, chance) :: looks => do
    let (state, shown) ← look.shows chance block state
    return shown :: (← showAll block state looks)

/-! ## One look at a block -/

theorem readKey_storedKey (keys : List BlockKey) : (keys.map storedKey).filterMap readKey = keys := by
  rw [List.filterMap_map]
  exact List.filterMap_some

namespace UserState

def Readable (state : UserState) : Prop :=
  state.getStudentModule.isSome → (Entries.get "selected" state.entries).isSome

theorem selected_of_get {state : UserState} {keys : List BlockKey}
    (hget : Entries.get "selected" state.entries = some (storedSelection keys)) : state.selected = keys := by
  unfold selected storedSelection at *
  rw [hget]
  exact readKey_storedKey keys

section

variable (state : UserState) (keys : List BlockKey)

@[simp]
theorem selected_setSelected : (state.setSelected keys).selected = keys := selected_of_get (get_set_self _ _ _)

theorem readable_setSelected : (state.setSelected keys).Readable := by
  intro _
  unfold setSelected
  rw [get_set_self]
  rfl

end

theorem infix_entryText (key : BlockKey) (keys : List BlockKey) :
    "\"selected\": [[".toList <:+: (entryText ("selected", storedSelection (key :: keys))).toList := by
  have hkey : ∃ rest, (dumps (storedKey key)).toList = "[".toList ++ rest := by
    rw [storedKey, dumps, String.toList_append, String.toList_append, append_assoc]
    exact ⟨_, rfl⟩
  obtain ⟨rest, hrest⟩ := hkey
  obtain ⟨after, haft⟩ := prefix_commaSeparated (dumps (storedKey key)) (elementTexts (keys.map storedKey))
  have hquote : (quote "selected").toList = "\"selected\"".toList := by decide
  rw [entryText, storedSelection, map_cons, dumps, elementTexts]
  simp only [String.toList_append]
  rw [hquote, ← haft, hrest]
  refine ⟨[], rest ++ after ++ "]".toList, ?_⟩
  simp

theorem eq_of_getStudentModule {state module : UserState} (hmod : state.getStudentModule = some module) :
    state = module := by
  unfold getStudentModule at hmod
  split at hmod
  · exact some.inj hmod
  · cases hmod

theorem selected_eq_nil {state : UserState} (hmod : state.getStudentModule = none) : state.selected = [] := by
  cases hget : Entries.get "selected" state.entries with
  | none =>
    unfold selected
    rw [hget]
  | some value =>
    obtain ⟨keys, rfl⟩ := state.selected_stored value hget
    rw [selected_of_get hget]
    cases keys with
    | nil => rfl
    | cons key keys =>
      exfalso
      have htext : "\"selected\": [[".toList <:+: (dumps (.dict state.entries)).toList :=
        (infix_entryText key keys).trans (infix_dumps (mem_of_get hget))
      unfold getStudentModule at hmod
      rw [if_pos htext] at hmod
      cases hmod

end UserState

variable {block state}

theorem findSelected_of_readable (hread : state.Readable) : ∃ found, findSelected block state = .ok found ∧
      validSelected found block.children = validSelected state.selected block.children := by
  unfold findSelected
  cases hmod : state.getStudentModule with
  | none => exact ⟨[], rfl, by rw [selected_eq_nil hmod]⟩
  | some module =>
    obtain rfl := eq_of_getStudentModule hmod
    obtain ⟨value, hvl⟩ := isSome_iff_exists.mp (hread (by rw [hmod]; rfl))
    refine ⟨state.selected.filter fun key =>
      decide (makeUsageKey key ∈ block.children), by dsimp only; rw [hvl]; rfl, ?_⟩
    -- What is not a child now is not valid anyway.
    ext key
    simp only [validSelected, validBlockKeys, Finset.mem_inter, mem_toFinset, mem_filter, mem_map,
      decide_eq_true_eq, and_congr_left_iff, and_iff_left_iff_imp]
    rintro ⟨child, hch, rfl⟩ -
    exact hch

theorem findSelected_of_not_readable (hread : ¬ state.Readable) : findSelected block state = .error .keyError := by
  obtain ⟨hsome, hnone⟩ := Classical.not_imp.mp hread
  obtain ⟨module, hmod⟩ := isSome_iff_exists.mp hsome
  obtain rfl := eq_of_getStudentModule hmod
  unfold findSelected
  rw [hmod]
  dsimp only
  rw [Option.not_isSome_iff_eq_none.mp hnone]
  rfl

variable {keys : Finset BlockKey}

theorem Possible.congr {first second : List BlockKey} {children : List UsageKey} {maxCount : ℤ}
    (hval : validSelected first children = validSelected second children) :
    Possible first children maxCount keys ↔ Possible second children maxCount keys := by
  constructor
  · exact fun ⟨hcur, hcard, hkeep, hdrops⟩ => ⟨hcur, hcard, hval ▸ hkeep, hval ▸ hdrops⟩
  · exact fun ⟨hcur, hcard, hkeep, hdrops⟩ => ⟨hcur, hcard, hval.symm ▸ hkeep, hval.symm ▸ hdrops⟩

def Look.Leaves (state : UserState) (keys : Finset BlockKey) (next : UserState) : Look → Prop
  | .rendering => ∃ listed, listed.toFinset = keys ∧ next = state.setSelected listed
  | .request => next = state

theorem Look.shows_of_makeSelection (look : Look) (hlook : look = .request → state.Readable) :
    ∃ selected, validSelected selected block.children = validSelected state.selected block.children ∧
      ∀ (chance : Chance) (result : SelectionResult),
        makeSelection chance.toDraw selected block.children block.maxCount "random" = .ok result →
        ∃ next, look.shows chance block state = .ok (next, result.selected.image makeUsageKey) ∧
          look.Leaves state result.selected next := by
  cases look with
  | rendering =>
    refine ⟨state.selected, rfl, fun chance result hres => ?_⟩
    refine ⟨_, ?_, (chance.listing result.selected).1, (chance.listing result.selected).2, rfl⟩
    unfold Look.shows getSelectedChildBlocks selectedChildren
    rw [hres]
    rfl
  | request =>
    obtain ⟨found, hfnd, hval⟩ := findSelected_of_readable (hlook rfl)
    refine ⟨found, hval, fun chance result hres => ⟨state, ?_, rfl⟩⟩
    unfold Look.shows
    by_cases hemp : block.children.isEmpty
    · have hcur := (possible_of_makeSelection chance.toDraw hres).2.current
      rw [isEmpty_iff.mp hemp] at hcur ⊢
      rw [Finset.subset_empty.mp hcur]
      rfl
    · unfold selectForRequest
      rw [if_neg hemp, hfnd, block.mode_eq]
      change (makeSelection chance.toDraw found block.children block.maxCount "random" >>= _) >>= _ = _
      rw [hres]
      rfl

section

variable (hmax : 0 ≤ block.maxCount) (look : Look) (hlook : look = .request → state.Readable)
include hmax hlook

theorem Look.shows_possible (chance : Chance) :
    ∃ next keys, look.shows chance block state = .ok (next, keys.image makeUsageKey) ∧
      Possible state.selected block.children block.maxCount keys ∧ look.Leaves state keys next := by
  obtain ⟨selected, hval, hshows⟩ := look.shows_of_makeSelection hlook
  obtain ⟨result, hres, hposs, -⟩ := makeSelection_possible chance.toDraw hmax
  obtain ⟨next, hnxt, hlvs⟩ := hshows chance result hres
  exact ⟨next, result.selected, hnxt, (Possible.congr hval).mp hposs, hlvs⟩

theorem Look.exists_chance (hkeys : Possible state.selected block.children block.maxCount keys) :
    ∃ chance next, look.shows chance block state = .ok (next, keys.image makeUsageKey) ∧
      look.Leaves state keys next := by
  obtain ⟨selected, hval, hshows⟩ := look.shows_of_makeSelection hlook
  obtain ⟨draw, result, hres, rfl⟩ := exists_draw ((Possible.congr hval).mpr hkeys) hmax
  exact ⟨⟨draw, fun values => ⟨values.toList, Finset.toList_toFinset values⟩⟩, hshows _ result hres⟩

end

theorem Look.request_unreadable (hread : ¬ state.Readable) (hkids : block.children ≠ []) (chance : Chance) :
    Look.shows chance block state .request = .error .keyError := by
  unfold Look.shows selectForRequest
  rw [if_neg (by rw [isEmpty_iff]; exact hkids), findSelected_of_not_readable hread]
  rfl

theorem Look.shows_negative (hneg : block.maxCount < 0) (look : Look)
    (hlook : look = .request → block.children ≠ []) (chance : Chance) :
    look.shows chance block state = .error .keyError := by
  cases look with
  | rendering =>
    unfold Look.shows getSelectedChildBlocks selectedChildren
    rw [makeSelection_negative chance.toDraw hneg]
    rfl
  | request =>
    by_cases hread : state.Readable
    · obtain ⟨found, hfnd, -⟩ := findSelected_of_readable hread
      unfold Look.shows selectForRequest
      rw [if_neg (by rw [isEmpty_iff]; exact hlook rfl), hfnd]
      change (makeSelection chance.toDraw found block.children block.maxCount block.mode >>= _) >>= _ = _
      rw [makeSelection_negative chance.toDraw hneg]
      rfl
    · exact Look.request_unreadable hread (hlook rfl) chance

/-! ## The looks of a run -/

variable (block) in
/-- Whatever comes now shows these children. -/
structure Settled (state : UserState) (keys : Finset BlockKey) : Prop where
  readable : state.Readable
  possible : Possible state.selected block.children block.maxCount keys
  only : ∀ other, Possible state.selected block.children block.maxCount other → other = keys

theorem Look.Leaves.settled (hmax : 0 ≤ block.maxCount) {next : UserState}
    (hkeys : Possible state.selected block.children block.maxCount keys)
    (hlvs : Look.Leaves state keys next .rendering) : Settled block next keys := by
  obtain ⟨listed, hlis, rfl⟩ := hlvs
  have honly : ∀ other,
      Possible (state.setSelected listed).selected block.children block.maxCount other → other = keys := by
    intro other hoth
    rw [selected_setSelected] at hoth
    exact Possible.unique hlis hkeys.current hkeys.card_eq hmax hoth
  obtain ⟨result, -, hres, -⟩ := makeSelection_possible (Draw.towards ∅) hmax
  exact ⟨readable_setSelected state listed, honly _ hres ▸ hres, honly⟩

theorem Settled.showAll (hmax : 0 ≤ block.maxCount) (hsett : Settled block state keys) (looks : List (Look × Chance)) :
    ∃ shown, LibraryContent.showAll block state looks = .ok shown ∧ ∀ set ∈ shown, set = keys.image makeUsageKey := by
  induction looks generalizing state with
  | nil => exact ⟨[], rfl, fun set hset => nomatch hset⟩
  | cons turn looks ih =>
    obtain ⟨look, chance⟩ := turn
    obtain ⟨next, shown, hshows, hposs, hlvs⟩ := look.shows_possible hmax (fun _ => hsett.readable) chance
    obtain rfl := hsett.only shown hposs
    have hnxt : Settled block next shown := by
      cases look with
      | rendering => exact Look.Leaves.settled hmax hposs hlvs
      | request => exact hlvs ▸ hsett
    obtain ⟨rest, hrest, hall⟩ := ih hnxt
    refine ⟨shown.image makeUsageKey :: rest, ?_, ?_⟩
    · unfold LibraryContent.showAll
      rw [hshows]
      change LibraryContent.showAll block next looks >>= _ = _
      rw [hrest]
      rfl
    · exact forall_mem_cons.mpr ⟨rfl, hall⟩

section

variable (block : LibraryContentBlock) (state : UserState)

def Agrees (looks : List Look) : Prop :=
  ∀ turns : List (Look × Chance), turns.map Prod.fst = looks →
    ∃ shown set, showAll block state turns = .ok shown ∧ ∀ other ∈ shown, other = set

/-- There is nothing to choose from, or a rendering comes before anything else, or there is but one look, or chance
has no say. -/
def Consistent : List Look → Prop
  | [] => True
  | first :: rest =>
    if block.children = [] then 0 ≤ block.maxCount ∨ Look.rendering ∉ first :: rest
    else 0 ≤ block.maxCount ∧ (first = .rendering ∨
        state.Readable ∧ (rest = [] ∨ Forced state.selected block.children block.maxCount))

end

theorem consistent_cons (first : Look) (rest : List Look) : Consistent block state (first :: rest) =
    if block.children = [] then 0 ≤ block.maxCount ∨ Look.rendering ∉ first :: rest
    else 0 ≤ block.maxCount ∧ (first = .rendering ∨
      state.Readable ∧ (rest = [] ∨ Forced state.selected block.children block.maxCount)) :=
  rfl

theorem showAll_cons {look : Look} {chance : Chance} {next : UserState} {set : Finset UsageKey}
    (hshows : look.shows chance block state = .ok (next, set)) (looks : List (Look × Chance)) :
    showAll block state ((look, chance) :: looks) = (set :: ·) <$> showAll block next looks := by
  rw [showAll, hshows]
  rfl

theorem showAll_error {look : Look} {chance : Chance} {err : SelectionError}
    (hshows : look.shows chance block state = .error err) (looks : List (Look × Chance)) :
    showAll block state ((look, chance) :: looks) = .error err := by
  rw [showAll, hshows]
  rfl

theorem exists_turns (looks : List Look) : ∃ turns : List (Look × Chance), turns.map Prod.fst = looks :=
  ⟨looks.map (·, ⟨Draw.towards ∅, fun values => ⟨values.toList, Finset.toList_toFinset values⟩⟩), by
    rw [map_map]; exact map_id _⟩

theorem makeUsageKey_injective : Injective makeUsageKey := by
  rintro ⟨_, _⟩ ⟨_, _⟩ heq
  cases heq
  rfl

theorem shows_empty (hkids : block.children = []) (look : Look) (hlook : look = .rendering → 0 ≤ block.maxCount)
    (chance : Chance) : ∃ next, look.shows chance block state = .ok (next, ∅) := by
  cases look with
  | rendering =>
    obtain ⟨next, keys, hshows, hposs, -⟩ := Look.shows_possible (hlook rfl) .rendering
      (fun hreq => nomatch hreq) chance
    have hcur := hposs.current
    rw [hkids] at hcur
    rw [Finset.subset_empty.mp hcur] at hshows
    exact ⟨next, hshows⟩
  | request =>
    refine ⟨state, ?_⟩
    unfold Look.shows
    rw [hkids]
    rfl

theorem showAll_empty (hkids : block.children = []) (turns : List (Look × Chance))
    (hturns : 0 ≤ block.maxCount ∨ Look.rendering ∉ turns.map Prod.fst) :
    ∃ shown, showAll block state turns = .ok shown ∧ ∀ other ∈ shown, other = ∅ := by
  induction turns generalizing state with
  | nil => exact ⟨[], rfl, fun other hoth => nomatch hoth⟩
  | cons turn turns ih =>
    obtain ⟨look, chance⟩ := turn
    obtain ⟨next, hshows⟩ := shows_empty hkids look
      (fun heq => hturns.resolve_right fun hnot => hnot (heq ▸ mem_cons_self)) chance
    obtain ⟨shown, hshown, hall⟩ := ih (hturns.imp_right fun hnot hmem => hnot (mem_cons_of_mem _ hmem))
    refine ⟨∅ :: shown, ?_, forall_mem_cons.mpr ⟨rfl, hall⟩⟩
    rw [showAll_cons hshows, hshown]
    rfl

theorem showAll_negative (hneg : block.maxCount < 0) (turns : List (Look × Chance))
    (hren : Look.rendering ∈ turns.map Prod.fst) (shown : List (Finset UsageKey)) :
    showAll block state turns ≠ .ok shown := by
  induction turns generalizing state shown with
  | nil => cases hren
  | cons turn turns ih =>
    obtain ⟨look, chance⟩ := turn
    cases hshows : look.shows chance block state with
    | error err =>
      rw [showAll_error hshows]
      exact fun heq => nomatch heq
    | ok result =>
      obtain ⟨next, set⟩ := result
      rw [showAll_cons hshows]
      intro hrun
      rcases mem_cons.mp hren with rfl | hrest
      · rw [Look.shows_negative hneg .rendering (fun hreq => nomatch hreq)] at hshows
        cases hshows
      · cases hall : showAll block next turns with
        | error err =>
          rw [hall] at hrun
          cases hrun
        | ok rest => exact ih hrest rest hall

theorem agrees_of_consistent {looks : List Look} (hcon : Consistent block state looks) : Agrees block state looks := by
  intro turns hturns
  cases turns with
  | nil => exact ⟨[], ∅, rfl, fun other hoth => nomatch hoth⟩
  | cons turn turns =>
    obtain ⟨look, chance⟩ := turn
    obtain rfl := hturns
    rw [map_cons, consistent_cons] at hcon
    split at hcon
    · next hkids =>
        obtain ⟨shown, hshown, hall⟩ := showAll_empty hkids ((look, chance) :: turns) hcon
        exact ⟨shown, ∅, hshown, hall⟩
    · obtain ⟨hmax, hfst⟩ := hcon
      have hlook : look = .request → state.Readable := by
        rintro rfl
        rcases hfst with hren | ⟨hread, -⟩
        · cases hren
        · exact hread
      obtain ⟨next, keys, hshows, hposs, hlvs⟩ := look.shows_possible hmax hlook chance
      rcases hfst with rfl | ⟨hread, hnil | hfor⟩
      · obtain ⟨rest, hrest, hall⟩ := (hlvs.settled hmax hposs).showAll hmax turns
        refine ⟨keys.image makeUsageKey :: rest, keys.image makeUsageKey, ?_, forall_mem_cons.mpr ⟨rfl, hall⟩⟩
        rw [showAll_cons hshows, hrest]
        rfl
      · obtain rfl := map_eq_nil_iff.mp hnil
        refine ⟨[keys.image makeUsageKey], _, ?_, fun other hoth => mem_singleton.mp hoth⟩
        rw [showAll_cons hshows]
        rfl
      · have hsett : Settled block state keys := ⟨hread, hposs, fun other hoth =>
          (forced_iff hmax).mpr hfor other keys hoth hposs⟩
        obtain ⟨shown, hshown, hall⟩ := hsett.showAll hmax ((look, chance) :: turns)
        exact ⟨shown, _, hshown, hall⟩

theorem forced_of_agrees (hmax : 0 ≤ block.maxCount) (hread : state.Readable) {second : Look} {others : List Look}
    (hagr : Agrees block state (.request :: second :: others)) :
    Forced state.selected block.children block.maxCount := by
  refine (forced_iff hmax).mp fun first other hfst hoth => ?_
  obtain ⟨chance, next, hshows, rfl⟩ := Look.exists_chance hmax .request (fun _ => hread) hfst
  obtain ⟨later, after, hlat, -⟩ := Look.exists_chance hmax second (fun _ => hread) hoth
  obtain ⟨turns, rfl⟩ := exists_turns others
  obtain ⟨shown, set, hshown, hall⟩ := hagr ((.request, chance) :: (second, later) :: turns) rfl
  rw [showAll_cons hshows, showAll_cons hlat] at hshown
  cases hrest : showAll block after turns with
  | error err =>
    rw [hrest] at hshown
    cases hshown
  | ok rest =>
    rw [hrest] at hshown
    obtain rfl := ok.inj hshown
    have heq := (hall _ mem_cons_self).trans (hall _ (mem_cons_of_mem _ mem_cons_self)).symm
    exact Finset.image_injective makeUsageKey_injective heq

theorem consistent_of_agrees {looks : List Look} (hagr : Agrees block state looks) : Consistent block state looks := by
  cases looks with
  | nil => exact trivial
  | cons first rest =>
    obtain ⟨turns, hturns⟩ := exists_turns (first :: rest)
    obtain ⟨shown, -, hshown, -⟩ := hagr turns hturns
    rw [consistent_cons]
    split
    · by_contra hnot
      obtain ⟨hneg, hren⟩ := not_or.mp hnot
      rw [not_not, ← hturns] at hren
      exact showAll_negative (not_le.mp hneg) turns hren shown hshown
    · next hkids =>
        cases turns with
        | nil => cases hturns
        | cons turn turns =>
          obtain ⟨look, chance⟩ := turn
          obtain ⟨rfl, hturns⟩ := cons.inj hturns
          have hmax : 0 ≤ block.maxCount := by
            by_contra hneg
            rw [showAll_error (Look.shows_negative (not_le.mp hneg) look (fun _ => hkids) chance)] at hshown
            cases hshown
          refine ⟨hmax, ?_⟩
          cases look with
          | rendering => exact .inl rfl
          | request =>
            have hread : state.Readable := by
              by_contra hnot
              rw [showAll_error (Look.request_unreadable hnot hkids chance)] at hshown
              cases hshown
            refine .inr ⟨hread, ?_⟩
            cases rest with
            | nil => exact .inl rfl
            | cons second others => exact .inr (forced_of_agrees hmax hread hagr)

theorem agrees_iff (looks : List Look) : Agrees block state looks ↔ Consistent block state looks :=
  ⟨consistent_of_agrees, agrees_of_consistent⟩

end EdxPlatform.LibraryContent
