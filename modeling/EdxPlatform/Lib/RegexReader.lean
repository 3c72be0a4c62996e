import EdxPlatform.Lib.Regex

/-!
# A reader of regular expressions

An engine for expressions out of characters, `.`, groups, `|`, `*`, `+`, `?`, anchors and characters
behind a backslash.  It reads a pattern from left to right, with the open groups on a stack.
-/

namespace EdxPlatform.Regex

/-! ## What an expression matches -/

/-- A part of an alternative. -/
structure Item where
  /-- Whether `*`, `+` or `?` may follow. -/
  repeatable : Bool
  /-- How many characters it may take, after the text before and from the text that is left. -/
  lengths : List Char → List Char → List Nat

def sequence : List Item → List Char → List Char → List Nat
  | [], _, _ => [0]
  | item :: items, before, rest =>
    (item.lengths before rest).flatMap fun taken =>
      (sequence items (before ++ rest.take taken) (rest.drop taken)).map (taken + ·)

def branchOf (items : List Item) : Branch := fun before matched after =>
  decide (matched.length ∈ sequence items before (matched ++ after))

def starLengths (lengths : List Char → List Char → List Nat) : Nat → List Char → List Char → List Nat
  | 0, _, _ => [0]
  | fuel + 1, before, rest =>
    0 :: ((lengths before rest).filter (0 < ·)).flatMap fun taken =>
      (starLengths lengths fuel (before ++ rest.take taken) (rest.drop taken)).map (taken + ·)

namespace Item

def character (ignoreCase : Bool) (c : Char) : Item where
  repeatable := true
  lengths := fun _ rest =>
    match rest with
    | [] => []
    | d :: _ => if c = d || (ignoreCase && c.toLower = d.toLower) then [1] else []

/-- `.` -/
def any : Item where
  repeatable := true
  lengths := fun _ rest => if rest.isEmpty || rest.head? = some '\n' then [] else [1]

/-- `^` -/
def start : Item where
  repeatable := false
  lengths := fun before _ => if before.isEmpty then [0] else []

/-- `$` -/
def finish : Item where
  repeatable := false
  lengths := fun _ rest => if rest.isEmpty || rest == ['\n'] then [0] else []

def group (alternatives : List (List Item)) : Item where
  repeatable := true
  lengths := fun before rest => alternatives.flatMap fun items => sequence items before rest

def star (item : Item) : Item where
  repeatable := false
  lengths := fun before rest => starLengths item.lengths rest.length before rest

def plus (item : Item) : Item where
  repeatable := false
  lengths := sequence [item, star item]

def optional (item : Item) : Item where
  repeatable := false
  lengths := fun before rest => 0 :: item.lengths before rest

end Item

theorem branchOf_start (items : List Item) : branchOf (.start :: items) = (branchOf items).atStart := by
  funext before matched after
  cases before <;> simp [branchOf, Branch.atStart, sequence, Item.start]

theorem mem_sequence_finish {items : List Item} {before rest : List Char} {taken : Nat} :
    taken ∈ sequence (items ++ [.finish]) before rest ↔
      taken ∈ sequence items before rest ∧ (rest.drop taken = [] ∨ rest.drop taken = ['\n']) := by
  induction items generalizing before rest taken with
  | nil =>
    by_cases hend : rest = [] ∨ rest = ['\n']
    · rcases hend with rfl | rfl <;> simp +contextual [sequence, Item.finish]
    · simp only [not_or] at hend
      simp [sequence, Item.finish, hend.1, hend.2]
      rintro rfl
      rw [List.drop_zero]
      exact ⟨length_pos_iff.mpr hend.1, hend.2⟩
  | cons item items ih =>
    simp only [cons_append, sequence, mem_flatMap, mem_map, ih, List.drop_drop]
    constructor
    · rintro ⟨first, hfst, others, ⟨hoths, hend⟩, rfl⟩
      exact ⟨⟨first, hfst, others, hoths, rfl⟩, hend⟩
    · rintro ⟨⟨first, hfst, others, hoths, rfl⟩, hend⟩
      exact ⟨first, hfst, others, ⟨hoths, hend⟩, rfl⟩

theorem branchOf_finish (items : List Item) : branchOf (items ++ [.finish]) = (branchOf items).atEnd := by
  funext before matched after
  rw [eq_iff_iff]
  simp [branchOf, Branch.atEnd, mem_sequence_finish, and_comm]

/-! ## Reading a pattern -/

/-- A group that is being read: the items of its last alternative and the alternatives before it, each the
newest first. -/
structure Group where
  items : List Item := []
  earlier : List (List Item) := []

def Group.alternatives (group : Group) : List (List Item) := ((group.items :: group.earlier).map List.reverse).reverse

/-- What was read of a pattern: the open groups with the whole pattern as the last of them. -/
structure Reading where
  escaped : Bool := false
  groups : List Group := [{}]

inductive Token where
  | backslash
  | opening
  | closing
  | bar
  | item (item : Item)
  | quantifier (apply : Item → Item)

def token (ignoreCase : Bool) (c : Char) : Option Token :=
  match c with
  | '\\' => some .backslash
  | '(' => some .opening
  | ')' => some .closing
  | '|' => some .bar
  | '*' => some (.quantifier Item.star)
  | '+' => some (.quantifier Item.plus)
  | '?' => some (.quantifier Item.optional)
  | '.' => some (.item .any)
  | '^' => some (.item .start)
  | '$' => some (.item .finish)
  | '[' | '{' => none
  | c => some (.item (.character ignoreCase c))

def push (item : Item) : List Group → Option (List Group)
  | [] => none
  | group :: outer => some ({ group with items := item :: group.items } :: outer)

def Token.read (groups : List Group) : Token → Option Reading
  | .backslash => some ⟨true, groups⟩
  | .opening =>
    match groups with
    | [] => none
    | group :: outer => some ⟨false, {} :: group :: outer⟩
  | .closing =>
    match groups with
    | [] => none
    | group :: outer => (push (.group group.alternatives) outer).map (⟨false, ·⟩)
  | .bar =>
    match groups with
    | [] => none
    | group :: outer => some ⟨false, ⟨[], group.items :: group.earlier⟩ :: outer⟩
  | .item latest => (push latest groups).map (⟨false, ·⟩)
  | .quantifier apply =>
    match groups with
    | ⟨latest :: items, earlier⟩ :: outer =>
      if latest.repeatable then some ⟨false, ⟨apply latest :: items, earlier⟩ :: outer⟩ else none
    | _ => none

def Reading.step (ignoreCase : Bool) (reading : Reading) (c : Char) : Option Reading :=
  if reading.escaped then
    -- behind a backslash letters and digits have meanings of their own
    if c.isAlphanum then none else (push (.character ignoreCase c) reading.groups).map (⟨false, ·⟩)
  else (token ignoreCase c).bind (Token.read reading.groups)

def Reading.feed (ignoreCase : Bool) (reading : Reading) (pattern : List Char) : Option Reading :=
  pattern.foldlM (Reading.step ignoreCase) reading

def Reading.result (reading : Reading) : Option Group :=
  match reading with
  | ⟨false, [group]⟩ => some group
  | _ => none

def reader : Engine where
  compile := fun ignoreCase pattern =>
    ((Reading.feed ignoreCase {} pattern).bind Reading.result).map fun group => group.alternatives.map branchOf

/-! ## Reading what follows on another pattern -/

/-- Puts the items of an alternative in front of the oldest of the alternatives. -/
def appendLast (items : List Item) : List (List Item) → List (List Item)
  | [] => []
  | [last] => [last ++ items]
  | head :: next :: rest => head :: appendLast items (next :: rest)

def Group.after (group base : Group) : Group :=
  match group with
  | ⟨items, []⟩ => ⟨items ++ base.items, base.earlier⟩
  | ⟨items, next :: rest⟩ => ⟨items, appendLast base.items (next :: rest) ++ base.earlier⟩

def afterOutermost (base : Group) : List Group → List Group
  | [] => []
  | [group] => [group.after base]
  | group :: next :: outer => group :: afterOutermost base (next :: outer)

def Reading.after (reading : Reading) (base : Group) : Reading := ⟨reading.escaped, afterOutermost base reading.groups⟩

theorem appendLast_alternatives (items head : List Item) (rest : List (List Item)) :
    ((appendLast items (head :: rest)).map List.reverse).reverse =
      (((head :: rest).map List.reverse).reverse).modifyHead (items.reverse ++ ·) := by
  induction rest generalizing head with
  | nil => simp [appendLast]
  | cons next rest ih =>
    rw [appendLast, map_cons, reverse_cons, ih, map_cons (l := next :: rest), reverse_cons]
    cases hrest : ((next :: rest).map List.reverse).reverse with
    | nil => simp at hrest
    | cons first others => rfl

theorem Group.alternatives_after (group base : Group) :
    (group.after base).alternatives = (base.earlier.map List.reverse).reverse ++
      group.alternatives.modifyHead (base.items.reverse ++ ·) := by
  obtain ⟨items, earlier⟩ := group
  cases earlier with
  | nil => simp [Group.after, Group.alternatives]
  | cons next rest =>
    have happ := appendLast_alternatives base.items items (next :: rest)
    rw [appendLast] at happ
    rw [Group.after, Group.alternatives, Group.alternatives, ← happ, ← cons_append, map_append, reverse_append]

theorem push_after {item : Item} {groups groups' : List Group} (base : Group)
    (hpush : push item groups = some groups') :
    push item (afterOutermost base groups) = some (afterOutermost base groups') := by
  cases groups with
  | nil => cases hpush
  | cons group outer =>
    cases hpush
    cases outer with
    | nil =>
      obtain ⟨items, earlier⟩ := group
      cases earlier <;> rfl
    | cons next outer => rfl

variable {reading : Reading}

theorem Token.read_after {token : Token} {groups : List Group} (base : Group)
    (hread : token.read groups = some reading) :
    token.read (afterOutermost base groups) = some (reading.after base) := by
  cases token with
  | backslash =>
    cases hread
    rfl
  | item latest =>
    obtain ⟨groups', hpush, rfl⟩ := map_eq_some_iff.mp hread
    rw [Token.read, push_after base hpush]
    rfl
  | opening =>
    cases groups with
    | nil => cases hread
    | cons group outer =>
      cases hread
      cases outer <;> rfl
  | closing =>
    cases groups with
    | nil => cases hread
    | cons group outer =>
      obtain ⟨groups', hpush, rfl⟩ := map_eq_some_iff.mp hread
      cases outer with
      | nil => cases hpush
      | cons next outer =>
        rw [afterOutermost, Token.read, push_after base hpush]
        rfl
  | bar =>
    cases groups with
    | nil => cases hread
    | cons group outer =>
      cases hread
      cases outer with
      | nil =>
        obtain ⟨items, earlier⟩ := group
        cases earlier <;> rfl
      | cons next outer => rfl
  | quantifier apply =>
    rcases groups with _ | ⟨⟨_ | ⟨latest, items⟩, earlier⟩, outer⟩
    · cases hread
    · cases hread
    · simp only [Token.read, Option.ite_none_right_eq_some] at hread
      obtain ⟨hrep, ⟨rfl⟩⟩ := hread
      rcases outer with _ | ⟨next, outer⟩
      · cases earlier <;> simp [Token.read, afterOutermost, Group.after, Reading.after, hrep]
      · simp [Token.read, afterOutermost, Reading.after, hrep]

variable {ignoreCase : Bool} {reading' : Reading}

theorem Reading.step_after {c : Char} (base : Group) (hstep : reading.step ignoreCase c = some reading') :
    (reading.after base).step ignoreCase c = some (reading'.after base) := by
  obtain ⟨escaped, groups⟩ := reading
  cases escaped with
  | true =>
    simp only [Reading.step, Reading.after, if_true, Option.ite_none_left_eq_some] at hstep ⊢
    obtain ⟨hplain, hstep⟩ := hstep
    obtain ⟨groups', hpush, rfl⟩ := map_eq_some_iff.mp hstep
    exact ⟨hplain, by rw [push_after base hpush]; rfl⟩
  | false =>
    simp only [Reading.step, Reading.after, false_eq_true, if_false] at hstep ⊢
    obtain ⟨token, htoken, hread⟩ := bind_eq_some_iff.mp hstep
    rw [htoken, bind_some, Token.read_after base hread, Reading.after]

variable {pattern : List Char}

theorem Reading.feed_after (base : Group) (hfeed : reading.feed ignoreCase pattern = some reading') :
    (reading.after base).feed ignoreCase pattern = some (reading'.after base) := by
  induction pattern generalizing reading with
  | nil =>
    cases hfeed
    rfl
  | cons c pattern ih =>
    rw [Reading.feed, foldlM_cons] at hfeed
    obtain ⟨next, hstep, hrest⟩ := bind_eq_some_iff.mp hfeed
    rw [Reading.feed, foldlM_cons, Reading.step_after base hstep]
    exact ih hrest

variable {branches : List Branch}

theorem reader_compile_eq_some : reader.compile ignoreCase pattern = some branches ↔
      ∃ group, Reading.feed ignoreCase {} pattern = some ⟨false, [group]⟩ ∧
        branches = group.alternatives.map branchOf := by
  simp only [reader, map_eq_some_iff, bind_eq_some_iff]
  constructor
  · rintro ⟨group, ⟨⟨escaped, groups⟩, hfeed, hres⟩, rfl⟩
    rcases escaped with _ | _ <;> rcases groups with _ | ⟨first, _ | ⟨next, outer⟩⟩ <;> cases hres
    exact ⟨group, hfeed, rfl⟩
  · rintro ⟨group, hfeed, rfl⟩
    exact ⟨group, ⟨_, hfeed, rfl⟩, rfl⟩

variable {other : List Char}

theorem Reading.feed_append (hfeed : reading.feed ignoreCase pattern = some reading') :
    reading.feed ignoreCase (pattern ++ other) = reading'.feed ignoreCase other := by
  rw [Reading.feed, List.foldlM_append]
  change (reading.feed ignoreCase pattern >>= _) = _
  rw [hfeed]
  rfl

theorem reader_compile_alternation {others : List Branch} (hpat : reader.compile ignoreCase pattern = some branches)
    (hoth : reader.compile ignoreCase other = some others) :
    reader.compile ignoreCase (pattern ++ '|' :: other) = some (branches ++ others) := by
  obtain ⟨group, hgrp, rfl⟩ := reader_compile_eq_some.mp hpat
  obtain ⟨group', hgrp', rfl⟩ := reader_compile_eq_some.mp hoth
  let base : Group := ⟨[], group.items :: group.earlier⟩
  refine reader_compile_eq_some.mpr ⟨group'.after base, ?_, ?_⟩
  · rw [Reading.feed_append hgrp]
    exact Reading.feed_after base hgrp'
  · rw [Group.alternatives_after, map_append]
    cases group'.alternatives <;> rfl

theorem reader_compile_caret {first : Branch} {rest : List Branch}
    (hpat : reader.compile ignoreCase pattern = some (first :: rest)) :
    reader.compile ignoreCase ('^' :: pattern) = some (first.atStart :: rest) := by
  obtain ⟨group, hgrp, hbrs⟩ := reader_compile_eq_some.mp hpat
  let base : Group := ⟨[.start], []⟩
  refine reader_compile_eq_some.mpr ⟨group.after base, Reading.feed_after base hgrp, ?_⟩
  rw [Group.alternatives_after]
  cases halt : group.alternatives with
  | nil => simp [halt] at hbrs
  | cons items others =>
    rw [halt] at hbrs
    cases hbrs
    simp [base, branchOf_start]

theorem anchorEnd_concat (branches : List Branch) (last : Branch) :
    anchorEnd (branches ++ [last]) = branches ++ [last.atEnd] := by
  induction branches with
  | nil => rfl
  | cons branch rest ih =>
    cases rest with
    | nil => rfl
    | cons next rest => exact congrArg (branch :: ·) ih

theorem reader_compile_dollar (hpat : reader.compile ignoreCase pattern = some branches) :
    reader.compile ignoreCase (pattern ++ ['$']) = some (anchorEnd branches) := by
  obtain ⟨group, hgrp, rfl⟩ := reader_compile_eq_some.mp hpat
  refine reader_compile_eq_some.mpr ⟨⟨.finish :: group.items, group.earlier⟩, ?_, ?_⟩
  · rw [Reading.feed_append hgrp]
    rfl
  · simp [Group.alternatives, anchorEnd_concat, branchOf_finish]

theorem reader_readsStandard :
    reader.ReadsStandard fun pattern => ∀ ignoreCase, (reader.compile ignoreCase pattern).isSome where
  compiles := by
    intro pattern hpat ignoreCase
    obtain ⟨branches, hbrs⟩ := isSome_iff_exists.mp (hpat ignoreCase)
    obtain ⟨group, hgrp, rfl⟩ := reader_compile_eq_some.mp hbrs
    obtain ⟨first, rest, hcons⟩ := exists_cons_of_ne_nil (l := group.alternatives) (by
      simp [Group.alternatives])
    exact ⟨branchOf first, rest.map branchOf, by rw [hbrs, hcons, map_cons]⟩
  alternation := by
    intro pattern other hpat hoth ignoreCase
    obtain ⟨branches, hbrs⟩ := isSome_iff_exists.mp (hpat ignoreCase)
    obtain ⟨others, hoths⟩ := isSome_iff_exists.mp (hoth ignoreCase)
    rw [reader_compile_alternation hbrs hoths]
    rfl
  compile_alternation := fun _ _ => reader_compile_alternation
  caret := by
    intro pattern hpat ignoreCase
    obtain ⟨branches, hbrs⟩ := isSome_iff_exists.mp (hpat ignoreCase)
    obtain ⟨group, hgrp, rfl⟩ := reader_compile_eq_some.mp hbrs
    exact isSome_iff_exists.mpr ⟨_, reader_compile_eq_some.mpr ⟨_, Reading.feed_after ⟨[.start], []⟩ hgrp, rfl⟩⟩
  compile_caret := fun _ => reader_compile_caret
  compile_dollar := fun _ => reader_compile_dollar

end EdxPlatform.Regex
