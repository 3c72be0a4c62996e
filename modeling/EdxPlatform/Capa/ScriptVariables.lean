import Mathlib.Data.List.MinMax
import EdxPlatform.Capa.DisplayedChoices

/-!
# Variables of a script in a text

A text names the variables of a script by `$name`.  They are filled in one after the other, each in the text that
the earlier ones have left.  That gives what filling in all at once gives when no value brings a further `$name`
into the text.
-/

namespace EdxPlatform

/-- The variables of a script with their values as texts, in the order in which they are listed. -/
structure ScriptContext where
  entries : List (String × String)
  distinct : (entries.map Prod.fst).Nodup
  identifiers : ∀ entry ∈ entries, '$' ∉ entry.1.toList

namespace ScriptContext

variable (context : ScriptContext)

def longest : List Char → Option (String × String)
  | [] => none
  | c :: rest =>
    if c = '$' then
      (context.entries.filter fun entry => entry.1.toList.isPrefixOf rest).argmax fun entry => entry.1.length
    else none

/-- A text with the variables among `filled` filled in where they are the longest, with what is still to be
passed over of the last name. -/
def fillIn (filled : List (String × String)) : Nat → List Char → List Char
  | _, [] => []
  | skip + 1, _ :: rest => fillIn filled skip rest
  | 0, c :: rest =>
    match context.longest (c :: rest) with
    | some entry =>
      if entry ∈ filled then entry.2.toList ++ fillIn filled entry.1.toList.length rest
      else c :: fillIn filled 0 rest
    | none => c :: fillIn filled 0 rest

/-- Each `$name` of a text replaced by the value of the longest name there. -/
def substituted (text : String) : String := String.ofList (context.fillIn context.entries 0 text.toList)

def places (name : String) (text : List Char) : Nat :=
  text.tails.countP fun place => (context.longest place).map Prod.fst = some name

end ScriptContext

/-- The number of times that `$name` stands in a text. -/
def namings (name : String) (text : List Char) : Nat :=
  text.tails.countP fun place => ('$' :: name.toList).isPrefixOf place

/-! ## One variable after the other, with the places of the characters -/

/-- A character and, unless a value brought it, the rest of the original text from it on. -/
abbrev Placed := Char × Option (List Char)

def original : List Char → List Placed
  | [] => []
  | c :: rest => (c, some (c :: rest)) :: original rest

def inserted (value : String) : List Placed := value.toList.map fun c => (c, none)

/-- `text.replace(old, new)` on characters with their places. -/
def replacePlaced (old : List Char) (new : List Placed) : Nat → List Placed → List Placed
  | _, [] => []
  | skip + 1, _ :: rest => replacePlaced old new skip rest
  | 0, c :: rest =>
    if old.isPrefixOf ((c :: rest).map Prod.fst) then new ++ replacePlaced old new (old.length - 1) rest
    else c :: replacePlaced old new 0 rest

/-- The occurrences that `text.replace(old, new)` replaces. -/
def replacedIn (old : List Char) : Nat → List Placed → List (List Placed)
  | _, [] => []
  | skip + 1, _ :: rest => replacedIn old skip rest
  | 0, c :: rest =>
    if old.isPrefixOf ((c :: rest).map Prod.fst) then
      (c :: rest).take old.length :: replacedIn old (old.length - 1) rest
    else replacedIn old 0 rest

def fillOneByOne (entries : List (String × String)) (text : List Placed) : List Placed :=
  entries.foldl (fun text entry => replacePlaced ('$' :: entry.1.toList) (inserted entry.2) 0 text) text

/-- All occurrences that are replaced while the variables are filled in one by one. -/
def replacedOneByOne : List (String × String) → List Placed → List (List Placed)
  | [], _ => []
  | entry :: rest, text =>
    replacedIn ('$' :: entry.1.toList) 0 text ++
      replacedOneByOne rest (replacePlaced ('$' :: entry.1.toList) (inserted entry.2) 0 text)

/-- The order of the names in `contextualize_text`. -/
def longestFirst (entries : List (String × String)) : List (String × String) :=
  entries.mergeSort fun first second => second.1.length ≤ first.1.length

section

variable (old : List Char) (new : List Placed) (skip : Nat) (text : List Placed)

theorem map_fst_replacePlaced : (replacePlaced old new skip text).map Prod.fst =
      replaceText old (new.map Prod.fst) skip (text.map Prod.fst) := by
  induction text generalizing skip with
  | nil => cases skip <;> rfl
  | cons c rest ih =>
    cases skip with
    | succ skip => exact ih skip
    | zero =>
      rw [replacePlaced, map_cons, replaceText]
      split
      · rw [map_append, ih]
      · rw [map_cons, ih]

theorem replacePlaced_drop : replacePlaced old new skip text = replacePlaced old new 0 (text.drop skip) := by
  induction text generalizing skip with
  | nil => cases skip <;> rfl
  | cons c rest ih =>
    cases skip with
    | zero => rfl
    | succ skip => exact ih skip

end

@[simp]
theorem map_fst_original (text : List Char) : (original text).map Prod.fst = text := by
  induction text with
  | nil => rfl
  | cons c rest ih => rw [original, map_cons, ih]

@[simp]
theorem map_fst_inserted (value : String) : (inserted value).map Prod.fst = value.toList := by
  simp [inserted, comp_def]

section

variable (entries : List (String × String))

theorem map_fst_fillOneByOne (text : List Placed) : (fillOneByOne entries text).map Prod.fst = entries.foldl
      (fun text entry => replaceText ('$' :: entry.1.toList) entry.2.toList 0 text) (text.map Prod.fst) := by
  induction entries generalizing text with
  | nil => rfl
  | cons entry rest ih =>
    rw [fillOneByOne, foldl_cons, ← fillOneByOne, ih, foldl_cons, map_fst_replacePlaced, map_fst_inserted]

theorem contextualizeText_eq (text : String) : contextualizeText entries text =
      String.ofList ((fillOneByOne (longestFirst entries) (original text.toList)).map Prod.fst) := by
  rw [map_fst_fillOneByOne, map_fst_original]
  rfl

end

theorem countP_eq_iff_of_imp {α : Type} {strict loose : α → Bool} {values : List α}
    (himp : ∀ value ∈ values, strict value = true → loose value = true) :
    values.countP loose = values.countP strict ↔ ∀ value ∈ values, loose value = true → strict value = true := by
  induction values with
  | nil => simp
  | cons value rest ih =>
    rw [forall_mem_cons] at himp ⊢
    have hle := List.countP_mono_left himp.2
    rw [← ih himp.2, countP_cons, countP_cons]
    cases hstrict : strict value with
    | true => simp [himp.1 hstrict]
    | false =>
      cases hloose : loose value with
      | true => simp; omega
      | false => simp

variable {name : List Char} {text : List Placed}

/-- An occurrence is replaced where `$name` stands: names hold no dollar sign, so no two of them overlap. -/
theorem replacedIn_skip {skip : Nat} (hplain : ∀ c ∈ text.take skip, c.1 ≠ '$') :
    replacedIn ('$' :: name) skip text = replacedIn ('$' :: name) 0 text := by
  induction text generalizing skip with
  | nil => cases skip <;> rfl
  | cons c rest ih =>
    cases skip with
    | zero => rfl
    | succ skip =>
      rw [take_succ_cons, forall_mem_cons] at hplain
      have hbeg : ('$' :: name).isPrefixOf ((c :: rest).map Prod.fst) = false := by
        simp [List.isPrefixOf, hplain.1.symm]
      rw [replacedIn, ih hplain.2, replacedIn, hbeg]
      rfl

theorem take_ne_of_isPrefixOf (hname : '$' ∉ name)
    (hbeg : name <+: text.map Prod.fst) : ∀ c ∈ text.take name.length, c.1 ≠ '$' := by
  intro c hc heq
  have htake : (text.take name.length).map Prod.fst = name := by
    rw [map_take]
    exact (List.prefix_iff_eq_take.mp hbeg).symm
  rw [← htake] at hname
  exact hname (heq ▸ mem_map_of_mem hc)

theorem isPrefixOf_cons_iff {c : Placed} {rest : List Placed} :
    ('$' :: name).isPrefixOf ((c :: rest).map Prod.fst) = true ↔ c.1 = '$' ∧ name <+: rest.map Prod.fst := by
  rw [List.isPrefixOf_iff_prefix, map_cons, cons_prefix_cons, eq_comm]

theorem mem_replacedIn (hname : '$' ∉ name) {occurrence : List Placed} : occurrence ∈ replacedIn ('$' :: name) 0 text ↔
      ∃ place, place <:+ text ∧ ('$' :: name).isPrefixOf (place.map Prod.fst) = true ∧
        occurrence = place.take (name.length + 1) := by
  induction text with
  | nil => simp [replacedIn]
  | cons c rest ih =>
    have hcons : (∃ place, place <:+ c :: rest ∧ ('$' :: name).isPrefixOf (place.map Prod.fst) = true ∧
          occurrence = place.take (name.length + 1)) ↔
        (('$' :: name).isPrefixOf ((c :: rest).map Prod.fst) = true ∧
          occurrence = (c :: rest).take (name.length + 1)) ∨ occurrence ∈ replacedIn ('$' :: name) 0 rest := by
      simp only [List.suffix_cons_iff, or_and_right, exists_or, exists_eq_left, ih]
    rw [hcons, replacedIn]
    split
    · next hbeg =>
      have hskip : replacedIn ('$' :: name) name.length rest = replacedIn ('$' :: name) 0 rest :=
        replacedIn_skip (take_ne_of_isPrefixOf hname (isPrefixOf_cons_iff.mp hbeg).2)
      rw [length_cons, Nat.add_sub_cancel, hskip, mem_cons]
      simp only [hbeg, true_and]
    · next hbeg => simp only [hbeg, false_and, false_or, false_eq_true]

/-! ## The places of a name -/

/-- A text goes on at a place of the original text at which `$name` stands. -/
def IsPlace (name : List Char) : List Placed → Prop
  | (_, some place) :: _ => '$' :: name <+: place
  | _ => False

instance (name : List Char) : DecidablePred (IsPlace name) := fun text =>
  match text with
  | [] => isFalse id
  | (_, none) :: _ => isFalse id
  | (_, some place) :: _ => inferInstanceAs (Decidable ('$' :: name <+: place))

variable {tail : List Placed}

theorem suffix_original {text : List Char} (htail : tail <:+ original text) :
    ∃ place, place <:+ text ∧ tail = original place := by
  induction text with
  | nil => exact ⟨[], suffix_rfl, List.suffix_nil.mp htail⟩
  | cons c rest ih =>
    rcases List.suffix_cons_iff.mp htail with heq | hsuf
    · exact ⟨c :: rest, suffix_rfl, heq⟩
    · obtain ⟨place, hplace, heq⟩ := ih hsuf
      exact ⟨place, hplace.trans (suffix_cons c rest), heq⟩

theorem original_suffix {place text : List Char} (hplace : place <:+ text) : original place <:+ original text := by
  obtain ⟨before, rfl⟩ := hplace
  induction before with
  | nil => exact suffix_rfl
  | cons c rest ih => exact ih.trans (suffix_cons _ _)

theorem isPlace_of_within {text : List Char} (hbeg : ('$' :: name).isPrefixOf (tail.map Prod.fst) = true)
    (hwth : tail.take (name.length + 1) <:+: original text) : IsPlace name tail := by
  obtain ⟨before, after, heq⟩ := hwth
  have hsuf : tail.take (name.length + 1) ++ after <:+ original text := ⟨before, by rw [← heq, append_assoc]⟩
  obtain ⟨place, -, hplace⟩ := suffix_original hsuf
  have hchars : '$' :: name <+: place := by
    rw [← map_fst_original place, ← hplace, map_append, map_take]
    rw [List.isPrefixOf_iff_prefix, List.prefix_iff_eq_take, length_cons] at hbeg
    exact ⟨_, by rw [← hbeg]⟩
  cases tail with
  | nil => cases hbeg
  | cons c rest =>
    cases place with
    | nil => cases hplace
    | cons d place =>
      injection hplace with hhead
      rw [hhead]
      exact hchars

namespace ScriptContext

variable {context : ScriptContext} {filled : List (String × String)} {c : Char} {rest : List Char}

theorem longest_of_ne (hne : c ≠ '$') : context.longest (c :: rest) = none :=
  if_neg hne

variable {entry : String × String} {text : List Char}

theorem longest_eq_some (hlong : context.longest text = some entry) :
    entry ∈ context.entries ∧ '$' :: entry.1.toList <+: text ∧
      ∀ other ∈ context.entries, '$' :: other.1.toList <+: text → other.1.length ≤ entry.1.length := by
  cases text with
  | nil => cases hlong
  | cons c rest =>
    rw [longest] at hlong
    split at hlong
    · next hc =>
      subst hc
      have hmem := mem_filter.mp (List.argmax_mem hlong)
      refine ⟨hmem.1, ?_, fun other hoth hbeg => ?_⟩
      · exact cons_prefix_cons.mpr ⟨rfl, List.isPrefixOf_iff_prefix.mp hmem.2⟩
      · refine List.le_of_mem_argmax (f := fun entry : String × String => entry.1.length) ?_ hlong
        exact mem_filter.mpr ⟨hoth, List.isPrefixOf_iff_prefix.mpr (cons_prefix_cons.mp hbeg).2⟩
    · cases hlong

theorem longest_isSome (hent : entry ∈ context.entries)
    (hbeg : '$' :: entry.1.toList <+: text) : ∃ other, context.longest text = some other := by
  cases text with
  | nil => cases List.prefix_nil.mp hbeg
  | cons c rest =>
    obtain ⟨rfl, hname⟩ := cons_prefix_cons.mp hbeg
    rw [longest, if_pos rfl]
    refine ne_none_iff_exists'.mp fun hnone => ?_
    rw [List.argmax_eq_none, filter_eq_nil_iff] at hnone
    exact hnone entry hent (List.isPrefixOf_iff_prefix.mpr hname)

variable {first second : String × String}

section

variable (hfst : first ∈ context.entries) (hsec : second ∈ context.entries)
include hfst hsec

theorem eq_of_fst_eq (heq : first.1 = second.1) : first = second := inj_on_of_nodup_map context.distinct hfst hsec heq

theorem eq_of_begins (hfir : '$' :: first.1.toList <+: text)
    (hseco : '$' :: second.1.toList <+: text) (hlen : first.1.length = second.1.length) :
    first = second := by
  have hchars : ('$' :: first.1.toList).length = ('$' :: second.1.toList).length := by
    rw [length_cons, length_cons, String.length_toList, String.length_toList, hlen]
  have hbeg := List.prefix_of_prefix_length_le hfir hseco (Nat.le_of_eq hchars)
  injection hbeg.eq_of_length hchars with _ hchars
  exact eq_of_fst_eq hfst hsec (String.toList_injective hchars)

end

/-! ## Filling in with places -/

/-- `fillIn` on characters with their places. -/
def fillPlaced (context : ScriptContext) (filled : List (String × String)) : Nat → List Char → List Placed
  | _, [] => []
  | skip + 1, _ :: rest => fillPlaced context filled skip rest
  | 0, c :: rest =>
    match context.longest (c :: rest) with
    | some entry =>
      if entry ∈ filled then inserted entry.2 ++ fillPlaced context filled entry.1.toList.length rest
      else (c, some (c :: rest)) :: fillPlaced context filled 0 rest
    | none => (c, some (c :: rest)) :: fillPlaced context filled 0 rest

theorem map_fst_fillPlaced (skip : Nat) (text : List Char) :
    (context.fillPlaced filled skip text).map Prod.fst = context.fillIn filled skip text := by
  induction text generalizing skip with
  | nil => cases skip <;> rfl
  | cons c rest ih =>
    cases skip with
    | succ skip => exact ih skip
    | zero =>
      rw [fillPlaced, fillIn]
      split
      · split
        · rw [map_append, map_fst_inserted, ih]
        · rw [map_cons, ih]
      · rw [map_cons, ih]

theorem fillPlaced_drop (skip : Nat) (text : List Char) :
    context.fillPlaced filled skip text = context.fillPlaced filled 0 (text.drop skip) := by
  induction text generalizing skip with
  | nil => cases skip <;> rfl
  | cons c rest ih =>
    cases skip with
    | zero => rfl
    | succ skip => exact ih skip

theorem fillPlaced_of_unfilled (hunfl : ∀ entry, context.longest (c :: rest) = some entry → entry ∉ filled) :
    context.fillPlaced filled 0 (c :: rest) = (c, some (c :: rest)) :: context.fillPlaced filled 0 rest := by
  rw [fillPlaced]
  split
  · next entry hlong => rw [if_neg (hunfl entry hlong)]
  · rfl

theorem fillPlaced_of_filled (hlong : context.longest (c :: rest) = some entry) (hfil : entry ∈ filled) :
    context.fillPlaced filled 0 (c :: rest) =
      inserted entry.2 ++ context.fillPlaced filled entry.1.toList.length rest := by
  rw [fillPlaced, hlong]
  exact if_pos hfil

variable {name : List Char}

theorem fillPlaced_of_plain (hname : '$' ∉ name) : context.fillPlaced filled 0 (name ++ rest) =
      (original (name ++ rest)).take name.length ++ context.fillPlaced filled 0 rest := by
  induction name with
  | nil => rfl
  | cons c name ih =>
    rw [mem_cons, not_or] at hname
    have hlong : context.longest (c :: (name ++ rest)) = none := longest_of_ne (Ne.symm hname.1)
    rw [cons_append, fillPlaced_of_unfilled (by simp [hlong]), ih hname.2, original, length_cons,
      take_succ_cons, cons_append]

theorem length_take_original (name rest : List Char) :
    ((original (name ++ rest)).take name.length).length = name.length := by
  rw [← length_map Prod.fst, map_take, map_fst_original, List.take_left]

theorem drop_fillPlaced (hname : '$' ∉ name) :
    (context.fillPlaced filled 0 (name ++ rest)).drop name.length = context.fillPlaced filled 0 rest := by
  rw [fillPlaced_of_plain hname, List.drop_left' (length_take_original name rest)]

theorem suffix_fillPlaced {skip : Nat} {place : List Char} {tail : List Placed}
    (hsuf : (c, some place) :: tail <:+ context.fillPlaced filled skip text) :
    ∃ rest, place = c :: rest ∧ place <:+ text ∧ tail = context.fillPlaced filled 0 rest ∧
      ∀ entry, context.longest place = some entry → entry ∉ filled := by
  induction text generalizing skip with
  | nil => cases skip <;> simp [fillPlaced] at hsuf
  | cons d rest ih =>
    have hlat {skip : Nat} (hsuf : (c, some place) :: tail <:+ context.fillPlaced filled skip rest) :
        ∃ later, place = c :: later ∧ place <:+ d :: rest ∧ tail = context.fillPlaced filled 0 later ∧
          ∀ entry, context.longest place = some entry → entry ∉ filled := by
      obtain ⟨later, hplace, hrest, htail⟩ := ih hsuf
      exact ⟨later, hplace, hrest.trans (suffix_cons d rest), htail⟩
    cases skip with
    | succ skip => exact hlat hsuf
    | zero =>
      by_cases hfil : ∃ entry, context.longest (d :: rest) = some entry ∧ entry ∈ filled
      · obtain ⟨entry, hlong, hent⟩ := hfil
        rw [fillPlaced_of_filled hlong hent, inserted] at hsuf
        -- the characters of the value are not at a place of the text
        generalize entry.2.toList = value at hsuf
        induction value with
        | nil => exact hlat hsuf
        | cons v value ihv =>
          rcases List.suffix_cons_iff.mp hsuf with heq | hsuf
          · injection heq with hhead
            injection hhead with _ hplace
            cases hplace
          · exact ihv hsuf
      · have hunfl : ∀ entry, context.longest (d :: rest) = some entry → entry ∉ filled :=
          fun entry hlong hent => hfil ⟨entry, hlong, hent⟩
        rw [fillPlaced_of_unfilled hunfl] at hsuf
        rcases List.suffix_cons_iff.mp hsuf with heq | hsuf
        · injection heq with hhead htail
          injection hhead with hc hplace
          injection hplace with hplace
          subst hc hplace htail
          exact ⟨rest, rfl, suffix_rfl, rfl, hunfl⟩
        · exact hlat hsuf

theorem within_of_isPlace (hname : '$' ∉ name) {tail : List Placed}
    (htail : tail <:+ context.fillPlaced filled 0 text) (hplace : IsPlace name tail) :
    ('$' :: name).isPrefixOf (tail.map Prod.fst) = true ∧ tail.take (name.length + 1) <:+: original text := by
  match tail with
  | [] => cases hplace
  | (_, none) :: _ => cases hplace
  | (c, some place) :: tail =>
    obtain ⟨rest, rfl, hrest, rfl, -⟩ := suffix_fillPlaced htail
    obtain ⟨rfl, after, rfl⟩ := cons_prefix_cons.mp hplace
    have htake : (original (name ++ after)).take name.length ++ context.fillPlaced filled 0 after =
        context.fillPlaced filled 0 (name ++ after) := (fillPlaced_of_plain hname).symm
    constructor
    · rw [isPrefixOf_cons_iff, ← htake, map_append, map_take, map_fst_original, List.take_left' rfl]
      exact ⟨rfl, prefix_append _ _⟩
    · rw [take_succ_cons, ← htake, List.take_left' (length_take_original name after)]
      have hwth : (original ('$' :: (name ++ after))).take (name.length + 1) <:+: original text :=
        (List.IsPrefix.isInfix ⟨_, take_append_drop _ _⟩).trans (original_suffix hrest).isInfix
      exact hwth

/-! ## One variable -/

theorem places_cons (name : String) (c : Char) (rest : List Char) : context.places name (c :: rest) =
    context.places name rest + if (context.longest (c :: rest)).map Prod.fst = some name then 1 else 0 := by
  rw [places, List.tails_cons, countP_cons, ← places]
  simp only [decide_eq_true_eq]

theorem countP_isPlace_inserted (name : List Char) (value : String) (rest : List Placed) :
    (inserted value ++ rest).tails.countP (IsPlace name) = rest.tails.countP (IsPlace name) := by
  rw [inserted]
  induction value.toList with
  | nil => rfl
  | cons c value ih =>
    have hhead : ¬ IsPlace name ((c, none) :: (value.map (fun c => (c, none)) ++ rest)) := id
    rw [map_cons, cons_append, List.tails_cons, List.countP_cons_of_neg (by simpa using hhead), ih]

theorem replacePlaced_inserted {new : List Placed} {value : String} {rest : List Placed}
    (hplac : ∀ tail, tail <:+ inserted value ++ rest →
      ('$' :: name).isPrefixOf (tail.map Prod.fst) = true → IsPlace name tail) :
    replacePlaced ('$' :: name) new 0 (inserted value ++ rest) =
      inserted value ++ replacePlaced ('$' :: name) new 0 rest := by
  rw [inserted] at hplac ⊢
  generalize value.toList = value at hplac ⊢
  induction value with
  | nil => rfl
  | cons c value ih =>
    have hno : ('$' :: name).isPrefixOf
        (((c, none) :: (value.map (fun c => ((c, none) : Placed)) ++ rest)).map Prod.fst) = false :=
      eq_false_iff.mpr fun hbeg => hplac _ suffix_rfl hbeg
    rw [map_cons, cons_append, replacePlaced, hno, if_neg false_ne_true, cons_append,
      ih fun tail htail => hplac tail (htail.trans (suffix_cons _ _))]

theorem plain_of_begins (hent : entry ∈ context.entries) (hbeg : '$' :: entry.1.toList <+: c :: rest) :
    '$' ∉ rest.take entry.1.toList.length := by
  rw [← List.prefix_iff_eq_take.mp (cons_prefix_cons.mp hbeg).2]
  exact context.identifiers entry hent

section Turn

variable {entry : String × String} (hent : entry ∈ context.entries) (hturn : entry ∉ filled)
  (hlon : ∀ other ∈ context.entries, entry.1.length < other.1.length → other ∈ filled)

include hent hlon

variable {text : List Char}

theorem longest_of_unfilled (hbeg : '$' :: entry.1.toList <+: text)
    (hunfl : ∀ other, context.longest text = some other → other ∉ filled) :
    context.longest text = some entry := by
  obtain ⟨other, hlong⟩ := longest_isSome hent hbeg
  obtain ⟨hoth, hothe, hmax⟩ := longest_eq_some hlong
  have hle : other.1.length ≤ entry.1.length := by
    by_contra hlt
    exact hunfl other hlong (hlon other hoth (Nat.lt_of_not_le hlt))
  rw [hlong, eq_of_begins hoth hent hothe hbeg (Nat.le_antisymm hle (hmax entry hent hbeg))]

include hturn

theorem countP_isPlace {skip : Nat} (hplain : '$' ∉ text.take skip) :
    (context.fillPlaced filled skip text).tails.countP (IsPlace entry.1.toList) = context.places entry.1 text := by
  induction text generalizing skip with
  | nil => cases skip <;> rfl
  | cons c rest ih =>
    rw [places_cons]
    cases skip with
    | succ skip =>
      rw [take_succ_cons, mem_cons, not_or] at hplain
      have hlong : context.longest (c :: rest) = none := longest_of_ne (Ne.symm hplain.1)
      rw [fillPlaced, ih hplain.2, hlong]
      rfl
    | zero =>
      by_cases hfil : ∃ other, context.longest (c :: rest) = some other ∧ other ∈ filled
      · obtain ⟨other, hlong, hoth⟩ := hfil
        obtain ⟨hmem, hbeg, -⟩ := longest_eq_some hlong
        have hne : other.1 ≠ entry.1 := fun heq => hturn (eq_of_fst_eq hmem hent heq ▸ hoth)
        rw [fillPlaced_of_filled hlong hoth, countP_isPlace_inserted, ih (plain_of_begins hmem hbeg),
          hlong, map_some, if_neg (by simpa using hne), Nat.add_zero]
      · have hunfl : ∀ other, context.longest (c :: rest) = some other → other ∉ filled :=
          fun other hlong hoth => hfil ⟨other, hlong, hoth⟩
        have hhead : IsPlace entry.1.toList ((c, some (c :: rest)) :: context.fillPlaced filled 0 rest) ↔
            (context.longest (c :: rest)).map Prod.fst = some entry.1 := by
          constructor
          · intro hplace
            rw [longest_of_unfilled hent hlon hplace hunfl, map_some]
          · intro hname
            obtain ⟨other, hlong, heq⟩ := map_eq_some_iff.mp hname
            obtain ⟨hmem, hbeg, -⟩ := longest_eq_some hlong
            exact heq ▸ hbeg
        rw [fillPlaced_of_unfilled hunfl, List.tails_cons, countP_cons, ih (by simp)]
        simp only [decide_eq_true_eq, hhead]

omit hturn in
theorem replacePlaced_fillPlaced {skip : Nat} (hplac : ∀ tail, tail <:+ context.fillPlaced filled skip text →
      ('$' :: entry.1.toList).isPrefixOf (tail.map Prod.fst) = true → IsPlace entry.1.toList tail) :
    replacePlaced ('$' :: entry.1.toList) (inserted entry.2) 0 (context.fillPlaced filled skip text) =
      context.fillPlaced (filled ++ [entry]) skip text := by
  induction text generalizing skip with
  | nil => cases skip <;> rfl
  | cons c rest ih =>
    cases skip with
    | succ skip => exact ih hplac
    | zero =>
      by_cases hfil : ∃ other, context.longest (c :: rest) = some other ∧ other ∈ filled
      · obtain ⟨other, hlong, hoth⟩ := hfil
        rw [fillPlaced_of_filled hlong hoth] at hplac ⊢
        rw [fillPlaced_of_filled hlong (mem_append_left _ hoth), replacePlaced_inserted hplac,
          ih fun tail htail => hplac tail (htail.trans (List.suffix_append _ _))]
      · have hunfl : ∀ other, context.longest (c :: rest) = some other → other ∉ filled :=
          fun other hlong hoth => hfil ⟨other, hlong, hoth⟩
        rw [fillPlaced_of_unfilled hunfl] at hplac ⊢
        have hlat : ∀ tail, tail <:+ context.fillPlaced filled 0 rest →
            ('$' :: entry.1.toList).isPrefixOf (tail.map Prod.fst) = true → IsPlace entry.1.toList tail :=
          fun tail htail => hplac tail (htail.trans (suffix_cons _ _))
        by_cases hlong : context.longest (c :: rest) = some entry
        · obtain ⟨-, hbeg, -⟩ := longest_eq_some hlong
          obtain ⟨rfl, after, rfl⟩ := cons_prefix_cons.mp hbeg
          have hplain := context.identifiers entry hent
          have haft : ∀ tail, tail <:+ context.fillPlaced filled 0 after →
              ('$' :: entry.1.toList).isPrefixOf (tail.map Prod.fst) = true → IsPlace entry.1.toList tail := by
            intro tail htail
            rw [← drop_fillPlaced hplain] at htail
            exact hlat tail (htail.trans (List.drop_suffix _ _))
          have hhead := (within_of_isPlace hplain (suffix_rfl (l := context.fillPlaced filled 0 _))
            (by rw [fillPlaced_of_unfilled hunfl]; exact hbeg)).1
          rw [fillPlaced_of_unfilled hunfl] at hhead
          have hlen : ∀ tail, tail <:+ context.fillPlaced filled entry.1.toList.length (entry.1.toList ++ after) →
              ('$' :: entry.1.toList).isPrefixOf (tail.map Prod.fst) = true → IsPlace entry.1.toList tail := by
            rwa [fillPlaced_drop, drop_left]
          have hrest := ih hlen
          rw [fillPlaced_of_filled hlong (by simp), replacePlaced, if_pos hhead, length_cons,
            Nat.add_sub_cancel, replacePlaced_drop, drop_fillPlaced hplain, ← hrest,
            fillPlaced_drop entry.1.toList.length, drop_left]
        · have hno : ('$' :: entry.1.toList).isPrefixOf
              (((c, some (c :: rest)) :: context.fillPlaced filled 0 rest).map Prod.fst) = false := by
            rw [eq_false_iff]
            intro hbeg
            exact hlong (longest_of_unfilled hent hlon (hplac _ suffix_rfl hbeg) hunfl)
          rw [replacePlaced, hno, if_neg false_ne_true, ih hlat, fillPlaced_of_unfilled]
          intro other hoth hmem
          rcases mem_append.mp hmem with hmem | hmem
          · exact hunfl other hoth hmem
          · exact hlong (mem_singleton.mp hmem ▸ hoth)

omit hturn hlon in
theorem replacedIn_within_iff (text : List Char) :
    (∀ occurrence ∈ replacedIn ('$' :: entry.1.toList) 0 (context.fillPlaced filled 0 text),
        occurrence <:+: original text) ↔
      ∀ tail, tail <:+ context.fillPlaced filled 0 text →
        ('$' :: entry.1.toList).isPrefixOf (tail.map Prod.fst) = true → IsPlace entry.1.toList tail := by
  have hplain := context.identifiers entry hent
  constructor
  · intro hwth tail htail hbeg
    exact isPlace_of_within hbeg (hwth _ ((mem_replacedIn hplain).mpr ⟨tail, htail, hbeg, rfl⟩))
  · intro hplac occurrence hmem
    obtain ⟨tail, htail, hbeg, rfl⟩ := (mem_replacedIn hplain).mp hmem
    exact (within_of_isPlace hplain htail (hplac tail htail hbeg)).2

theorem namings_eq_iff (text : List Char) :
    namings entry.1 (context.fillIn filled 0 text) = context.places entry.1 text ↔
      ∀ tail, tail <:+ context.fillPlaced filled 0 text →
        ('$' :: entry.1.toList).isPrefixOf (tail.map Prod.fst) = true → IsPlace entry.1.toList tail := by
  have hnam : namings entry.1 (context.fillIn filled 0 text) =
      (context.fillPlaced filled 0 text).tails.countP fun tail =>
        ('$' :: entry.1.toList).isPrefixOf (tail.map Prod.fst) := by
    rw [namings, ← map_fst_fillPlaced, List.map_tails, List.countP_map]
    rfl
  have hplain : '$' ∉ text.take 0 := by simp
  rw [hnam, ← countP_isPlace hent hturn hlon hplain, countP_eq_iff_of_imp]
  · simp only [List.mem_tails, decide_eq_true_eq]
  · intro tail htail hplace
    rw [List.mem_tails] at htail
    exact (within_of_isPlace (context.identifiers entry hent) htail (of_decide_eq_true hplace)).1

end Turn

/-! ## All turns -/

theorem fillPlaced_nil (text : List Char) : context.fillPlaced [] 0 text = original text := by
  induction text with
  | nil => rfl
  | cons c rest ih => rw [fillPlaced_of_unfilled (by simp), ih, original]

theorem fillIn_congr {filled others : List (String × String)}
    (hsame : ∀ entry, entry ∈ filled ↔ entry ∈ others) (skip : Nat) (text : List Char) :
    context.fillIn filled skip text = context.fillIn others skip text := by
  induction text generalizing skip with
  | nil => cases skip <;> rfl
  | cons c rest ih =>
    cases skip with
    | succ skip => exact ih skip
    | zero =>
      rw [fillIn, fillIn]
      simp only [hsame, ih]

/-- The variables in an order with the longest names first. -/
structure Turns (context : ScriptContext) (order : List (String × String)) : Prop where
  perm : order.Perm context.entries
  sorted : order.Pairwise fun first second => second.1.length ≤ first.1.length

variable {order : List (String × String)}

theorem turns_longestFirst (hperm : order.Perm context.entries) : context.Turns (longestFirst order) := by
  refine ⟨(List.mergeSort_perm _ _).trans hperm, ?_⟩
  have hsort : (longestFirst order).Pairwise fun first second => decide (second.1.length ≤ first.1.length) = true :=
    List.pairwise_mergeSort (fun first second third => by simp only [decide_eq_true_eq]; omega)
      (fun first second => by simp only [or_eq_true, decide_eq_true_eq]; omega) order
  exact hsort.imp of_decide_eq_true

theorem longestFirst_of_turns (hturns : context.Turns order) : longestFirst order = order :=
  List.mergeSort_of_pairwise (hturns.sorted.imp decide_eq_true)

namespace Turns

variable {before after : List (String × String)} {entry : String × String}
  (hturns : context.Turns (before ++ entry :: after))

include hturns

theorem mem_entries : entry ∈ context.entries := hturns.perm.mem_iff.mp (by simp)

theorem notMem_before : entry ∉ before := by
  have hnod := (hturns.perm.nodup_iff.mpr context.distinct.of_map)
  intro hmem
  exact (nodup_append.mp hnod).2.2 entry hmem entry (by simp) rfl

theorem mem_before_of_lt {other : String × String} (hoth : other ∈ context.entries)
    (hlt : entry.1.length < other.1.length) : other ∈ before := by
  rcases mem_append.mp (hturns.perm.mem_iff.mpr hoth) with hmem | hmem
  · exact hmem
  · have hsort := (pairwise_append.mp hturns.sorted).2.1
    rcases mem_cons.mp hmem with rfl | hmem
    · omega
    · exact absurd ((pairwise_cons.mp hsort).1 other hmem) (by omega)

end Turns

/-- The turns that are left replace only occurrences of the original text just when each name stands only where it
is the longest, and then they fill in the names at those places. -/
theorem replacedOneByOne_iff (left : List (String × String)) (text : List Char) (done : List (String × String))
    (hturns : context.Turns (done ++ left)) :
    ((∀ occurrence ∈ replacedOneByOne left (context.fillPlaced done 0 text), occurrence <:+: original text) ↔
        ∀ before entry after, left = before ++ entry :: after →
          namings entry.1 (context.fillIn (done ++ before) 0 text) = context.places entry.1 text) ∧
      ((∀ occurrence ∈ replacedOneByOne left (context.fillPlaced done 0 text), occurrence <:+: original text) →
        fillOneByOne left (context.fillPlaced done 0 text) = context.fillPlaced (done ++ left) 0 text) := by
  induction left generalizing done with
  | nil => simp [replacedOneByOne, fillOneByOne]
  | cons entry left ih =>
    have hent := hturns.mem_entries
    have hnotMem := hturns.notMem_before
    have hlon : ∀ other ∈ context.entries, entry.1.length < other.1.length → other ∈ done :=
      fun other => hturns.mem_before_of_lt
    have hassoc : done ++ entry :: left = done ++ [entry] ++ left := by simp
    have hnow := (replacedIn_within_iff hent text).trans (namings_eq_iff hent hnotMem hlon text).symm
    have hstep : (∀ occurrence ∈ replacedIn ('$' :: entry.1.toList) 0 (context.fillPlaced done 0 text),
          occurrence <:+: original text) →
        replacePlaced ('$' :: entry.1.toList) (inserted entry.2) 0 (context.fillPlaced done 0 text) =
          context.fillPlaced (done ++ [entry]) 0 text :=
      fun hwth => replacePlaced_fillPlaced hent hlon ((replacedIn_within_iff hent text).mp hwth)
    obtain ⟨hiff, hfill⟩ := ih (done ++ [entry]) (hassoc ▸ hturns)
    rw [replacedOneByOne, forall_mem_append]
    refine ⟨⟨fun ⟨hwth, hlat⟩ => ?_, fun hcoun => ?_⟩, fun ⟨hwth, hlat⟩ => ?_⟩
    · rw [hstep hwth] at hlat
      intro before turn after heq
      cases before with
      | nil =>
        injection heq with hturn
        rw [← hturn, append_nil]
        exact hnow.mp hwth
      | cons first before =>
        injection heq with hfst heq
        subst hfst
        have hcnt := hiff.mp hlat before turn after heq
        rwa [append_assoc] at hcnt
    · have hwth := hnow.mpr (by simpa using hcoun [] entry left rfl)
      refine ⟨hwth, ?_⟩
      rw [hstep hwth]
      refine hiff.mpr fun before turn after heq => ?_
      rw [append_assoc]
      exact hcoun (entry :: before) turn after (heq ▸ rfl)
    · rw [hstep hwth] at hlat
      rw [fillOneByOne, foldl_cons, ← fillOneByOne, hstep hwth, hfill hlat, hassoc]

theorem replacedOneByOne_original (text : List Char) (hturns : context.Turns order) :
    ((∀ occurrence ∈ replacedOneByOne order (original text), occurrence <:+: original text) ↔
        ∀ before entry after, order = before ++ entry :: after →
          namings entry.1 (context.fillIn before 0 text) = context.places entry.1 text) ∧
      ((∀ occurrence ∈ replacedOneByOne order (original text), occurrence <:+: original text) →
        (fillOneByOne order (original text)).map Prod.fst = context.fillIn order 0 text) := by
  obtain ⟨hiff, hfill⟩ := replacedOneByOne_iff order text [] hturns
  rw [fillPlaced_nil] at hiff hfill
  exact ⟨hiff, fun hwth => by rw [hfill hwth, map_fst_fillPlaced, nil_append]⟩

variable (context)

/-- Whatever order the variables are listed in, each `$name` of the text is replaced by the value of the longest
name there, and each occurrence that is replaced is one of the original text. -/
def SubstitutesOnce (text : String) : Prop :=
  ∀ order, order.Perm context.entries → contextualizeText order text = context.substituted text ∧
      ∀ occurrence ∈ replacedOneByOne (longestFirst order) (original text.toList), occurrence <:+: original text.toList

/-- With the values of the names before it filled in, the text has no more of a `$name` than it has places at which
the name is the longest. -/
def BringsNoName (text : String) : Prop :=
  ∀ before entry after, context.Turns (before ++ entry :: after) →
    namings entry.1 (context.fillIn before 0 text.toList) = context.places entry.1 text.toList

theorem contextualizeText_substitutesOnce_iff (text : String) :
    context.SubstitutesOnce text ↔ context.BringsNoName text := by
  constructor
  · intro honce before entry after hturns
    have hwithin := (honce _ hturns.perm).2
    rw [longestFirst_of_turns hturns] at hwithin
    exact (replacedOneByOne_original _ hturns).1.mp hwithin before entry after rfl
  · intro hbrings order hperm
    have hturns := turns_longestFirst hperm
    obtain ⟨hiff, hfill⟩ := replacedOneByOne_original text.toList hturns
    have hwithin := hiff.mpr fun before entry after heq => hbrings before entry after (heq ▸ hturns)
    refine ⟨?_, hwithin⟩
    rw [contextualizeText_eq, hfill hwithin, substituted]
    exact congrArg String.ofList (fillIn_congr (fun entry => hturns.perm.mem_iff) 0 _)

def namingValue : ScriptContext where
  entries := [("a", "$b"), ("b", "1")]
  distinct := by decide
  identifiers := by decide

/-- The value of the first variable is read again for the second, or not, as the variables are listed. -/
theorem namingValue_not_substitutesOnce : contextualizeText namingValue.entries "$a" = "1" ∧
      contextualizeText namingValue.entries.reverse "$a" = "$b" ∧
      ¬ namingValue.SubstitutesOnce "$a" := by
  have hlisted : contextualizeText namingValue.entries "$a" = "1" := by
    rw [contextualizeText, List.mergeSort_of_pairwise (by decide)]
    decide
  have hreversed : contextualizeText namingValue.entries.reverse "$a" = "$b" := by
    rw [contextualizeText, List.mergeSort_of_pairwise (by decide)]
    decide
  refine ⟨hlisted, hreversed, fun honce => ?_⟩
  have hvalue := (honce _ (List.reverse_perm _)).1
  rw [← (honce _ (List.Perm.refl _)).1, hlisted, hreversed] at hvalue
  exact absurd hvalue (by decide)

end ScriptContext

end EdxPlatform
