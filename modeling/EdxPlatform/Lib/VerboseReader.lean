import EdxPlatform.Lib.GroupedRegex
import Mathlib.Data.List.Chain

/-!
# Reading verbose patterns

The reader of patterns with the flag `re.VERBOSE`: white space and comments are skipped.  It reads characters,
`.`, classes without ranges, `*`, `+`, `?`, named groups, references to them and characters behind a backslash.
-/

namespace EdxPlatform.GroupedRegex

/-! ## The reader -/

/-- An expression with its quantifier, which may be lazy. -/
structure Item where
  body : Expr
  quantifier : Option (Quantifier × Bool) := none
  deriving DecidableEq

namespace Item

def expr (item : Item) : Expr :=
  match item.quantifier with
  | none => item.body
  | some (quantifier, lazy) => .repeated quantifier lazy item.body

/-- A quantifier behind an item.  A `?` behind a quantifier makes it lazy; two quantifiers are an error. -/
def quantify (quantifier : Quantifier) (item : Item) : Option Item :=
  match item.quantifier, quantifier with
  | none, quantifier => some { item with quantifier := some (quantifier, false) }
  | some (earlier, false), .optional => some { item with quantifier := some (earlier, true) }
  | some _, _ => none

end Item

/-- A group that is being read, its items the latest first.  The pattern as a whole has no name. -/
structure OpenGroup where
  name : List Char := []
  items : List Item := []
  deriving DecidableEq

def OpenGroup.expr (group : OpenGroup) : Expr := sequence (group.items.reverse.map Item.expr)

/-- What is being read: behind a bracket, what was read since. -/
inductive Mode where
  | plain
  | escaped
  | comment
  | header (read : List Char)
  | charClass (read : List Char)
  deriving DecidableEq

/-- What was read of a pattern, with the innermost of the open groups in front. -/
structure Reading where
  mode : Mode := .plain
  groups : List OpenGroup := [{}]
  deriving DecidableEq

/-- What a character adds to what was read. -/
inductive Token where
  | turn (mode : Mode)
  | item (body : Expr)
  | quantify (quantifier : Quantifier)
  | opening (name : List Char)
  | closing

def whitespace : List Char := [' ', '\t', '\n', '\r', '\x0b', '\x0c']

def plainToken (c : Char) : Option Token :=
  match c with
  | '#' => some (.turn .comment)
  | '\\' => some (.turn .escaped)
  | '(' => some (.turn (.header []))
  | ')' => some .closing
  | '[' => some (.turn (.charClass []))
  | '.' => some (.item (.one .any))
  | '*' => some (.quantify .star)
  | '+' => some (.quantify .plus)
  | '?' => some (.quantify .optional)
  | '^' | '$' | '|' | '\x7b' => none
  | c => if c ∈ whitespace then some (.turn .plain) else some (.item (.one (.char c)))

/-- Behind `(`: the verbose flag, a reference or the name of a group. -/
def headerToken (read : List Char) (c : Char) : Option Token :=
  match c, read with
  | ')', ['?', 'x'] => some (.turn .plain)
  | ')', '?' :: 'P' :: '=' :: name => some (.item (.same name))
  | '>', '?' :: 'P' :: '<' :: name => some (.opening name)
  | ')', _ => none
  | '>', _ => none
  | c, read => some (.turn (.header (read ++ [c])))

/-- Behind `[`, without ranges and escapes. -/
def classToken (read : List Char) (c : Char) : Option Token :=
  match c, read with
  | ']', [] => none
  | ']', ['^'] => none
  | ']', '^' :: chars => some (.item (.one (.outside chars)))
  | ']', chars => some (.item (.one (.among chars)))
  | '-', _ => none
  | '\\', _ => none
  | c, read => some (.turn (.charClass (read ++ [c])))

def Mode.token (mode : Mode) (c : Char) : Option Token :=
  match mode with
  | .plain => plainToken c
  -- letters and digits behind a backslash have meanings of their own
  | .escaped => if c.isAlphanum then none else some (.item (.one (.char c)))
  | .comment => some (.turn (if c = '\n' then .plain else .comment))
  | .header read => headerToken read c
  | .charClass read => classToken read c

def push (item : Item) : List OpenGroup → Option Reading
  | [] => none
  | group :: outer => some ⟨.plain, { group with items := item :: group.items } :: outer⟩

def Token.read (groups : List OpenGroup) : Token → Option Reading
  | .turn mode => some ⟨mode, groups⟩
  | .item body => push { body } groups
  | .quantify quantifier =>
    match groups with
    | ⟨name, latest :: items⟩ :: outer =>
      (latest.quantify quantifier).map fun latest => ⟨.plain, ⟨name, latest :: items⟩ :: outer⟩
    | _ => none
  | .opening name =>
    match groups with
    | [] => none
    | group :: outer => some ⟨.plain, { name } :: group :: outer⟩
  | .closing =>
    match groups with
    | [] => none
    | inner :: outer => push { body := .group inner.name inner.expr } outer

def Reading.step (reading : Reading) (c : Char) : Option Reading :=
  (reading.mode.token c).bind (Token.read reading.groups)

def Reading.feed (reading : Reading) (pattern : List Char) : Option Reading := pattern.foldlM Reading.step reading

def Reading.result (reading : Reading) : Option Expr :=
  match reading with
  | ⟨.plain, [group]⟩ => some group.expr
  | ⟨.comment, [group]⟩ => some group.expr
  | _ => none

/-- `re.compile` of a verbose pattern. -/
def compile (pattern : List Char) : Option Expr := (Reading.feed {} pattern).bind Reading.result

theorem Reading.feed_cons {reading reading' : Reading} {c : Char} (pattern : List Char)
    (hstep : reading.step c = some reading') : reading.feed (c :: pattern) = reading'.feed pattern := by
  rw [Reading.feed, foldlM_cons, hstep]
  rfl

variable {pattern : List Char}

theorem Reading.feed_append {reading reading' : Reading} (other : List Char)
    (hfeed : reading.feed pattern = some reading') :
    reading.feed (pattern ++ other) = reading'.feed other := by
  rw [Reading.feed, List.foldlM_append, ← Reading.feed, hfeed]
  rfl

def onto (before : List Item) : List OpenGroup → List OpenGroup
  | [] => []
  | [group] => [{ group with items := group.items ++ before }]
  | group :: next :: outer => group :: onto before (next :: outer)

def Reading.onto (before : List Item) (reading : Reading) : Reading :=
  ⟨reading.mode, GroupedRegex.onto before reading.groups⟩

variable {before : List Item} {groups : List OpenGroup} {reading reading' : Reading} {c : Char}

theorem push_onto {item : Item} (hpush : push item groups = some reading) :
    push item (onto before groups) = some (reading.onto before) := by
  rcases groups with _ | ⟨group, _ | ⟨next, outer⟩⟩ <;> cases hpush <;> rfl

theorem Token.read_onto {token : Token} (hread : token.read groups = some reading) :
    token.read (onto before groups) = some (reading.onto before) := by
  cases token with
  | turn mode =>
    cases hread
    rfl
  | item body => exact push_onto hread
  | quantify quantifier =>
    rcases groups with _ | ⟨⟨name, _ | ⟨item, items⟩⟩, outer⟩
    · cases hread
    · cases hread
    · obtain ⟨quantified, hquan, rfl⟩ := map_eq_some_iff.mp hread
      cases outer <;> simp [onto, Token.read, hquan, Reading.onto]
  | opening name =>
    cases groups with
    | nil => cases hread
    | cons group outer =>
      cases hread
      cases outer <;> rfl
  | closing =>
    rcases groups with _ | ⟨group, _ | ⟨next, outer⟩⟩
    · cases hread
    · cases hread
    · have hpush : push { body := .group group.name group.expr } (next :: outer) = some reading := hread
      exact push_onto hpush

theorem Reading.step_onto (hstep : reading.step c = some reading') :
    (reading.onto before).step c = some (reading'.onto before) := by
  obtain ⟨token, htoken, hread⟩ := bind_eq_some_iff.mp hstep
  exact bind_eq_some_iff.mpr ⟨token, htoken, Token.read_onto hread⟩

theorem Reading.feed_onto (before : List Item) (hfeed : reading.feed pattern = some reading') :
    (reading.onto before).feed pattern = some (reading'.onto before) := by
  induction pattern generalizing reading with
  | nil =>
    cases hfeed
    rfl
  | cons c pattern ih =>
    rw [Reading.feed, foldlM_cons] at hfeed
    obtain ⟨next, hstep, hrest⟩ := bind_eq_some_iff.mp hfeed
    rw [Reading.feed_cons pattern (Reading.step_onto hstep)]
    exact ih hrest

/-! ## Text in a pattern -/

def special : List Char := ['#', '\\', '(', ')', '[', '.', '*', '+', '?', '^', '$', '|', '\x7b'] ++ whitespace

theorem plainToken_ordinary {c : Char} (hc : c ∉ special) : plainToken c = some (.item (.one (.char c))) := by
  simp only [special, mem_append, mem_cons, not_or] at hc
  rw [plainToken.eq_14, if_neg hc.2] <;> simp_all

def charSet (c : Char) : CharSet := if c = '.' then .any else .char c

/-- What a text is read as in a pattern: a `+` repeats the character in front of it. -/
def spliced : List Char → List Item
  | [] => []
  | [c] => [{ body := .one (charSet c) }]
  | c :: d :: rest =>
    if d = '+' then { body := .one (charSet c), quantifier := some (.plus, false) } :: spliced rest
    else { body := .one (charSet c) } :: spliced (d :: rest)

/-- No `+` comes first or behind another one, and other characters with a meaning than `.` do not occur. -/
structure Spliceable (text : List Char) : Prop where
  plus : List.IsChain (fun c d => c = '+' → d ≠ '+') ('+' :: text)
  chars : ∀ c ∈ text, c ∉ special ∨ c = '.' ∨ c = '+'

theorem plainToken_charSet {c : Char} (hc : c ∉ special ∨ c = '.') :
    plainToken c = some (.item (.one (charSet c))) := by
  rcases hc with hc | rfl
  · have hdot : c ≠ '.' := fun heq => hc (heq ▸ by decide)
    rw [plainToken_ordinary hc, charSet, if_neg hdot]
  · rfl

namespace Spliceable

theorem of_plain {text : List Char} (htext : ∀ c ∈ text, c ∉ special ∨ c = '.') : Spliceable text where
  plus := by
    have hplus : ∀ c ∈ text, c ≠ '+' := by
      rintro c hc rfl
      exact (htext '+' hc).elim (fun hspec => hspec (by decide)) (fun heq => by cases heq)
    exact List.Pairwise.isChain (pairwise_cons.mpr
      ⟨fun d hd _ => hplus d hd, List.pairwise_of_forall_mem_list fun _ _ d hd _ => hplus d hd⟩)
  chars := fun c hc => (htext c hc).imp_right .inl

section

variable {front back : List Char} (hfront : Spliceable front)
include hfront

theorem append (hback : Spliceable back) : Spliceable (front ++ back) where
  plus := by
    rw [← cons_append]
    refine List.isChain_append.mpr ⟨hfront.plus, hback.plus.tail, fun c _ d hd _ => ?_⟩
    exact (List.isChain_cons.mp hback.plus).1 d hd rfl
  chars := fun c hc => (mem_append.mp hc).elim (hfront.chars c) (hback.chars c)

theorem append_plus (hne : front ≠ [])
    (hlast : front.getLast? ≠ some '+') (hback : Spliceable back) : Spliceable (front ++ '+' :: back) where
  plus := by
    rw [← cons_append]
    refine List.isChain_append.mpr ⟨hfront.plus, hback.plus, ?_⟩
    rintro c hc d - rfl
    obtain ⟨e, tail, rfl⟩ := exists_cons_of_ne_nil hne
    exact absurd (List.getLast?_cons_cons ▸ hc) hlast
  chars := fun c hc => by
    rcases mem_append.mp hc with hc | hc
    · exact hfront.chars c hc
    · rcases mem_cons.mp hc with rfl | hc
      · exact .inr (.inr rfl)
      · exact hback.chars c hc

end

theorem head {c : Char} {rest : List Char} (htext : Spliceable (c :: rest)) : c ∉ special ∨ c = '.' := by
  rcases htext.chars c mem_cons_self with hc | hc | rfl
  · exact .inl hc
  · exact .inr hc
  · exact absurd rfl ((List.isChain_cons_cons.mp htext.plus).1 rfl)

theorem tail {c d : Char} {rest : List Char} (htext : Spliceable (c :: d :: rest)) :
    if d = '+' then Spliceable rest else Spliceable (d :: rest) := by
  have hchain := (List.isChain_cons_cons.mp htext.plus).2
  have hchars := (forall_mem_cons.mp htext.chars).2
  split
  · next hplus => exact ⟨hplus ▸ (List.isChain_cons_cons.mp hchain).2, (forall_mem_cons.mp hchars).2⟩
  · next hplus => exact ⟨List.isChain_cons_cons.mpr ⟨fun _ => hplus, (List.isChain_cons_cons.mp hchain).2⟩, hchars⟩

end Spliceable

variable {text : List Char}

theorem feed_spliced (htext : Spliceable text) (name : List Char) (items : List Item) (outer : List OpenGroup) :
    Reading.feed ⟨.plain, ⟨name, items⟩ :: outer⟩ text =
      some ⟨.plain, ⟨name, (spliced text).reverse ++ items⟩ :: outer⟩ := by
  have hstep : ∀ {c : Char} {rest : List Char} (items : List Item), Spliceable (c :: rest) →
      Reading.step ⟨.plain, ⟨name, items⟩ :: outer⟩ c =
        some ⟨.plain, ⟨name, { body := .one (charSet c) } :: items⟩ :: outer⟩ := by
    intro c rest items hsplic
    rw [Reading.step, Mode.token, plainToken_charSet hsplic.head]
    rfl
  induction text using spliced.induct generalizing items with
  | case1 => rfl
  | case2 c => rw [Reading.feed_cons [] (hstep items htext)]; rfl
  | case3 c rest ih =>
    have hrest : Spliceable rest := htext.tail
    have hplus : Reading.step ⟨.plain, ⟨name, { body := .one (charSet c) } :: items⟩ :: outer⟩ '+' =
        some ⟨.plain, ⟨name, { body := .one (charSet c), quantifier := some (.plus, false) } :: items⟩ :: outer⟩ :=
      rfl
    rw [Reading.feed_cons _ (hstep items htext), Reading.feed_cons _ hplus, ih hrest, spliced, if_pos rfl,
      reverse_cons, append_assoc]
    rfl
  | case4 c d rest hplus ih =>
    have hrest : Spliceable (d :: rest) := by simpa only [if_neg hplus] using htext.tail
    rw [Reading.feed_cons _ (hstep items htext), ih hrest, spliced, if_neg hplus, reverse_cons, append_assoc]
    rfl

/-! ## Matching text -/

def Accepts (c d : Char) : Prop := d = c ∨ (c = '.' ∧ d ≠ '\n')

/-- What a text matches as a pattern. -/
inductive Spells : List Char → List Char → Prop
  | nil : Spells [] []
  | char {c d : Char} {rest read : List Char} (hplus : rest.head? ≠ some '+') (hc : Accepts c d)
      (hrest : Spells rest read) : Spells (c :: rest) (d :: read)
  | plus {c : Char} {taken rest read : List Char} (hne : taken ≠ []) (htaken : ∀ d ∈ taken, Accepts c d)
      (hrest : Spells rest read) : Spells (c :: '+' :: rest) (taken ++ read)

theorem accepts_charSet {c d : Char} : (charSet c).accepts d = true ↔ Accepts c d := by
  rw [charSet, Accepts]
  split
  · next hdot =>
      subst hdot
      simp only [CharSet.accepts, bne_iff_ne, ne_eq, true_and]
      exact ⟨.inr, fun hacc => hacc.elim (fun heq => heq ▸ by decide) id⟩
  · next hdot => simp [CharSet.accepts, hdot]

variable {read : List Char}

theorem spells_char {c : Char} {rest : List Char} (hplus : rest.head? ≠ some '+') :
    Spells (c :: rest) read ↔ ∃ d tail, read = d :: tail ∧ Accepts c d ∧ Spells rest tail := by
  constructor
  · intro hread
    cases hread with
    | char _ hc hrest => exact ⟨_, _, rfl, hc, hrest⟩
    | plus => exact absurd rfl hplus
  · rintro ⟨d, tail, rfl, hc, hrest⟩
    exact .char hplus hc hrest

theorem spells_plus {c : Char} {rest : List Char} : Spells (c :: '+' :: rest) read ↔
    ∃ taken tail, taken ≠ [] ∧ read = taken ++ tail ∧ (∀ d ∈ taken, Accepts c d) ∧ Spells rest tail := by
  constructor
  · intro hread
    cases hread with
    | char hplus => exact absurd rfl hplus
    | plus hne htaken hrest => exact ⟨_, _, hne, rfl, htaken, hrest⟩
  · rintro ⟨taken, tail, hne, rfl, htaken, hrest⟩
    exact .plus hne htaken hrest

variable {groups groups' : List (List Char × List Char)} {given rest : List Char}

theorem mem_run_char {c : Char} {parts : List Expr} :
    (⟨groups', rest⟩ : Progress) ∈ run (sequence (.one (charSet c) :: parts)) ⟨groups, given⟩ ↔
      ∃ d tail, given = d :: tail ∧ Accepts c d ∧
        (⟨groups', rest⟩ : Progress) ∈ run (sequence parts) ⟨groups, tail⟩ := by
  rw [mem_run_sequence_cons]
  constructor
  · rintro ⟨⟨between, middle⟩, hmid, hlat⟩
    obtain ⟨rfl, d, hd, rfl⟩ := mem_run_one.mp hmid
    exact ⟨d, middle, rfl, accepts_charSet.mp hd, hlat⟩
  · rintro ⟨d, tail, rfl, hd, hlat⟩
    exact ⟨⟨groups, tail⟩, mem_run_one.mpr ⟨rfl, d, accepts_charSet.mpr hd, rfl⟩, hlat⟩

theorem mem_run_char_plus {c : Char} {parts : List Expr} : (⟨groups', rest⟩ : Progress) ∈
        run (sequence (.repeated .plus false (.one (charSet c)) :: parts)) ⟨groups, given⟩ ↔
      ∃ taken tail, taken ≠ [] ∧ given = taken ++ tail ∧ (∀ d ∈ taken, Accepts c d) ∧
        (⟨groups', rest⟩ : Progress) ∈ run (sequence parts) ⟨groups, tail⟩ := by
  rw [mem_run_sequence_cons]
  constructor
  · rintro ⟨⟨between, middle⟩, hmid, hlat⟩
    obtain ⟨rfl, taken, hne, rfl, htaken⟩ := mem_run_plus.mp hmid
    exact ⟨taken, middle, hne, rfl, fun d hd => accepts_charSet.mp (htaken d hd), hlat⟩
  · rintro ⟨taken, tail, hne, rfl, htaken, hlat⟩
    refine ⟨⟨groups, tail⟩, mem_run_plus.mpr ⟨rfl, taken, hne, rfl, ?_⟩, hlat⟩
    exact fun d hd => accepts_charSet.mpr (htaken d hd)

theorem mem_run_spliced_nil : (⟨groups', rest⟩ : Progress) ∈
      run (sequence ((spliced []).map Item.expr)) ⟨groups, given⟩ ↔
    groups' = groups ∧ ∃ read, given = read ++ rest ∧ Spells [] read := by
  rw [spliced, map_nil, sequence, List.foldr_nil, run, mem_singleton, Progress.mk.injEq]
  refine and_congr_right fun _ => ⟨fun hrest => ⟨[], hrest.symm, .nil⟩, ?_⟩
  rintro ⟨read, rfl, hread⟩
  cases hread
  rfl

theorem mem_run_spliced_char {c : Char} (hplus : text.head? ≠ some '+')
    (ih : ∀ given, (⟨groups', rest⟩ : Progress) ∈ run (sequence ((spliced text).map Item.expr)) ⟨groups, given⟩ ↔
      groups' = groups ∧ ∃ read, given = read ++ rest ∧ Spells text read) :
    (⟨groups', rest⟩ : Progress) ∈ run (sequence (.one (charSet c) :: (spliced text).map Item.expr)) ⟨groups, given⟩ ↔
      groups' = groups ∧ ∃ read, given = read ++ rest ∧ Spells (c :: text) read := by
  rw [mem_run_char]
  constructor
  · rintro ⟨d, tail, rfl, hd, hlat⟩
    obtain ⟨hgrps, read, rfl, hread⟩ := (ih tail).mp hlat
    exact ⟨hgrps, d :: read, rfl, .char hplus hd hread⟩
  · rintro ⟨hgrps, read, rfl, hread⟩
    obtain ⟨d, tail, rfl, hd, hrest⟩ := (spells_char hplus).mp hread
    exact ⟨d, tail ++ rest, rfl, hd, (ih _).mpr ⟨hgrps, tail, rfl, hrest⟩⟩

theorem mem_run_spliced :
    (⟨groups', rest⟩ : Progress) ∈ run (sequence ((spliced text).map Item.expr)) ⟨groups, given⟩ ↔
      groups' = groups ∧ ∃ read, given = read ++ rest ∧ Spells text read := by
  induction text using spliced.induct generalizing given with
  | case1 => exact mem_run_spliced_nil
  | case2 c => exact mem_run_spliced_char (by simp) fun _ => mem_run_spliced_nil
  | case3 c more ih =>
    rw [spliced, if_pos rfl, map_cons, Item.expr, mem_run_char_plus]
    constructor
    · rintro ⟨taken, tail, hne, rfl, htaken, hlat⟩
      obtain ⟨hgrps, read, rfl, hread⟩ := ih.mp hlat
      exact ⟨hgrps, taken ++ read, (append_assoc _ _ _).symm, .plus hne htaken hread⟩
    · rintro ⟨hgrps, read, rfl, hread⟩
      obtain ⟨taken, tail, hne, rfl, htaken, hrest⟩ := spells_plus.mp hread
      exact ⟨taken, tail ++ rest, hne, append_assoc _ _ _, htaken, ih.mpr ⟨hgrps, tail, rfl, hrest⟩⟩
  | case4 c d more hplus ih =>
    rw [spliced, if_neg hplus, map_cons]
    exact mem_run_spliced_char (by simpa using hplus) fun given => ih

theorem run_charSet (c : Char) (groups : List (List Char × List Char)) (tail : List Char) :
    run (.one (charSet c)) ⟨groups, c :: tail⟩ = [⟨groups, tail⟩] := by
  have hc : (charSet c).accepts c = true := accepts_charSet.mpr (.inl rfl)
  exact if_pos hc

theorem run_spliced (hplus : '+' ∉ text) (groups : List (List Char × List Char)) (rest : List Char) :
    run (sequence ((spliced text).map Item.expr)) ⟨groups, text ++ rest⟩ = [⟨groups, rest⟩] := by
  have hchar : ∀ (c : Char) (parts : List Expr) (tail : List Char),
      run (sequence (.one (charSet c) :: parts)) ⟨groups, c :: tail⟩ = run (sequence parts) ⟨groups, tail⟩ := by
    intro c parts tail
    change (run (.one (charSet c)) ⟨groups, c :: tail⟩).flatMap (run (sequence parts)) = _
    rw [run_charSet, flatMap_singleton]
  induction text using spliced.induct with
  | case1 => rfl
  | case2 c => exact hchar c [] rest
  | case3 c more ih => simp at hplus
  | case4 c d more hd ih =>
    rw [spliced, if_neg hd, map_cons, cons_append]
    exact (hchar c _ _).trans (ih fun hmem => hplus (mem_cons_of_mem c hmem))

end EdxPlatform.GroupedRegex
