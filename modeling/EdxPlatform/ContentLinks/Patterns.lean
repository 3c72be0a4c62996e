import EdxPlatform.ContentLinks.Rewriting

/-!
# The patterns for the links of a course

What the spliced patterns are read as, and where they match.
-/

namespace EdxPlatform.ContentLinks

open GroupedRegex Rewriting Progress Reading CharSet KeyForm

section

variable {old new front back text : Text}

theorem replaceFrom_skip (skip : Nat) : replaceFrom old new skip text = replaceFrom old new 0 (text.drop skip) := by
  induction text generalizing skip with
  | nil => cases skip <;> rfl
  | cons c rest ih =>
    cases skip with
    | zero => rfl
    | succ skip => exact ih skip

theorem replace_absent (habs : ∀ front back, text ≠ front ++ old ++ back) : replace old new text = text := by
  induction text with
  | nil => rfl
  | cons c rest ih =>
    have hpre : ¬ old <+: c :: rest := by
      rintro ⟨back, hback⟩
      exact habs [] back hback.symm
    have hrest := ih fun front back heq => habs (c :: front) back (congrArg (c :: ·) heq)
    rw [replace, replaceFrom, if_neg hpre, ← replace, hrest]

theorem replace_once (hold : old ≠ []) (honce : Once old (front ++ old ++ back)) :
    replace old new (front ++ old ++ back) = front ++ new ++ back := by
  induction front with
  | nil =>
    obtain ⟨c, tail, rfl⟩ := exists_cons_of_ne_nil hold
    have habs : ∀ front back', back ≠ front ++ (c :: tail) ++ back' := by
      rintro front back' rfl
      have hnil := honce [] (front ++ (c :: tail) ++ back') (c :: tail ++ front) back' rfl (by simp)
      cases hnil
    have hpre : c :: tail <+: c :: (tail ++ back) := prefix_append (c :: tail) back
    calc replace (c :: tail) new ([] ++ (c :: tail) ++ back)
        = new ++ replaceFrom (c :: tail) new tail.length (tail ++ back) := by
          rw [nil_append, cons_append, replace, replaceFrom, if_pos hpre, length_cons, Nat.add_sub_cancel]
      _ = new ++ replace (c :: tail) new back := by rw [replaceFrom_skip, drop_left, replace]
      _ = [] ++ new ++ back := by rw [replace_absent habs, nil_append]
  | cons c front ih =>
    have hpre : ¬ old <+: c :: (front ++ old ++ back) := by
      rintro ⟨back', hback⟩
      cases honce (c :: front) back [] back' rfl hback.symm
    have hrest : Once old (front ++ old ++ back) := by
      intro front' back' other back'' hfront hoth
      exact (cons.inj (honce (c :: front') back' (c :: other) back''
        (congrArg (c :: ·) hfront) (congrArg (c :: ·) hoth))).2
    calc replace old new (c :: front ++ old ++ back)
        = c :: replace old new (front ++ old ++ back) := if_neg hpre
      _ = c :: front ++ new ++ back := by rw [ih hrest]; rfl

end

section

variable {CourseKey : Type} {keys : OpaqueKeys CourseKey} {form : CourseKey → KeyForm}
  {placeholderId categoryId : Text} {source : CourseKey}

section

variable (hkeys : keys.Documented form) (hfresh : Fresh keys placeholderId categoryId source)
include hkeys hfresh

theorem assetBlockPattern_eq :
    assetBlockPattern keys placeholderId source = (form source).assetFront "asset".toList ++ blockIdPattern := by
  have hfront := hkeys.makeAssetKey source "asset".toList placeholderId
  have honce := hfresh.asset
  rw [hfront, ← append_nil (_ ++ placeholderId)] at honce
  rw [assetBlockPattern, hfront, ← append_nil (_ ++ placeholderId), replace_once hfresh.nonempty honce, append_nil]

theorem usageBlockPattern_eq : usageBlockPattern keys placeholderId ("cat_".toList ++ categoryId) source =
      (form source).usageFront ++ categoryPattern ++ (form source).usageMiddle ++ blockIdPattern := by
  have hcat := hfresh.category
  have hblk := hfresh.block
  rw [hkeys.makeUsageKey, append_assoc (_ ++ _)] at hcat
  rw [hkeys.makeUsageKey, ← append_nil (_ ++ placeholderId)] at hblk
  rw [usageBlockPattern, hkeys.makeUsageKey, append_assoc (_ ++ _),
    replace_once (by simp) hcat, ← append_assoc, ← append_nil (_ ++ placeholderId),
    replace_once hfresh.nonempty hblk, append_nil]

end

end

/-! ## The keys in the patterns -/

section

variable {c : Char} (hc : IsKeyChar c)
include hc

theorem IsKeyChar.plain : c ∉ special ∨ c = '.' := hc.symm.imp_left And.left

theorem IsKeyChar.ne_plus : c ≠ '+' := by
  rintro rfl
  exact hc.elim (fun heq => by cases heq) fun hplus => hplus.1 (by decide)

theorem IsKeyChar.unmarked : c ∉ marks := by
  rcases hc with rfl | ⟨hspec, hsin, hdoub⟩
  · decide
  · have hbac : c ≠ '\\' := fun heq => hspec (heq ▸ by decide)
    simp [marks, hsin, hdoub, hbac]

end

def KeyChars (text : Text) : Prop := ∀ c ∈ text, IsKeyChar c

theorem KeyChars.append {front back : Text} (hfront : KeyChars front) (hback : KeyChars back) :
    KeyChars (front ++ back) :=
  forall_mem_append.mpr ⟨hfront, hback⟩

theorem KeyChars.no_plus {text : Text} (htext : KeyChars text) : '+' ∉ text :=
  fun hmem => (htext '+' hmem).ne_plus rfl

/-- A text of which keys are made. -/
structure KeyText (text : Text) : Prop where
  spliceable : Spliceable text
  unmarked : ∀ c ∈ text, c ∉ marks

/-- A text that may be followed by a `+`. -/
structure Joinable (text : Text) : Prop extends KeyText text where
  ne_nil : text ≠ []
  last : text.getLast? ≠ some '+'

namespace KeyText

variable {front back text : Text}

theorem of_chars (htext : KeyChars text) : KeyText text where
  spliceable := Spliceable.of_plain fun c hc => (htext c hc).plain
  unmarked := fun c hc => (htext c hc).unmarked

theorem append (hfront : KeyText front) (hback : KeyText back) : KeyText (front ++ back) where
  spliceable := hfront.spliceable.append hback.spliceable
  unmarked := forall_mem_append.mpr ⟨hfront.unmarked, hback.unmarked⟩

theorem prepend (hfront : KeyText front) (htext : Joinable text) : Joinable (front ++ text) where
  toKeyText := hfront.append htext.toKeyText
  ne_nil := List.append_ne_nil_of_right_ne_nil front htext.ne_nil
  last := by
    rw [getLast?_append_of_ne_nil front htext.ne_nil]
    exact htext.last

end KeyText

namespace Joinable

variable {text : Text}

theorem of_chars (hne : text ≠ []) (htext : KeyChars text) : Joinable text where
  toKeyText := .of_chars htext
  ne_nil := hne
  last := fun hlast => (htext '+' (List.mem_of_getLast? hlast)).ne_plus rfl

theorem plus (htext : Joinable text) {back : Text} (hback : KeyText back) : KeyText (text ++ '+' :: back) where
  spliceable := htext.spliceable.append_plus htext.ne_nil htext.last hback.spliceable
  unmarked := forall_mem_append.mpr ⟨htext.unmarked, forall_mem_cons.mpr ⟨by decide, hback.unmarked⟩⟩

theorem joined {parts : List Text} (hne : parts ≠ [])
    (hparts : ∀ part ∈ parts, part ≠ [] ∧ ∀ c ∈ part, IsKeyChar c) : Joinable (KeyForm.joined parts) := by
  induction parts with
  | nil => exact absurd rfl hne
  | cons part more ih =>
    obtain ⟨⟨hpartNe, hpart⟩, hmore⟩ := forall_mem_cons.mp hparts
    have hfst := of_chars hpartNe hpart
    cases more with
    | nil => rwa [KeyForm.joined, List.intercalate_singleton]
    | cons next more =>
      have hrest := ih (cons_ne_nil next more) hmore
      rw [KeyForm.joined, List.intercalate_cons_cons, append_assoc, ← KeyForm.joined]
      refine ⟨hfst.plus hrest.toKeyText, append_ne_nil_of_left_ne_nil hpartNe _, ?_⟩
      rw [getLast?_append_of_ne_nil part (by simp), getLast?_append_of_ne_nil _ hrest.ne_nil]
      exact hrest.last

end Joinable

namespace KeyForm

def jumpFront (form : KeyForm) : Text := "/courses/".toList ++ form.unicode ++ "/jump_to/".toList ++ form.usageFront

theorem slash_keyChars : KeyChars "/".toList := by simp [KeyChars, IsKeyChar, special, whitespace]

theorem asset_keyChars : KeyChars "asset".toList := by simp [KeyChars, IsKeyChar, special, whitespace]

variable {form : KeyForm} {org course run : Text} {revision : List Text}

section

variable (hform : (slashSeparated org course run).WellFormed)
include hform

theorem WellFormed.slash_parts : KeyChars org ∧ KeyChars course ∧ KeyChars run := by
  simp only [WellFormed, forall_mem_append] at hform
  exact ⟨hform.1.1, hform.1.2, hform.2⟩

theorem WellFormed.slash_unicode : KeyChars (slashSeparated org course run).unicode := by
  obtain ⟨horg, hcrs, hrun⟩ := hform.slash_parts
  exact (((horg.append slash_keyChars).append hcrs).append slash_keyChars).append hrun

theorem WellFormed.slash_usageFront : KeyChars (slashSeparated org course run).usageFront := by
  obtain ⟨horg, hcrs, -⟩ := hform.slash_parts
  have htag : KeyChars "i4x://".toList := by simp [KeyChars, IsKeyChar, special, whitespace]
  exact (((htag.append horg).append slash_keyChars).append hcrs).append slash_keyChars

theorem WellFormed.slash_jumpFront : KeyChars (slashSeparated org course run).jumpFront := by
  have hcrss : KeyChars "/courses/".toList := by simp [KeyChars, IsKeyChar, special, whitespace]
  have hjump : KeyChars "/jump_to/".toList := by simp [KeyChars, IsKeyChar, special, whitespace]
  exact ((hcrss.append hform.slash_unicode).append hjump).append hform.slash_usageFront

theorem WellFormed.slash_assetFront :
    KeyChars ((slashSeparated org course run).assetFront "asset".toList) := by
  obtain ⟨horg, hcrs, -⟩ := hform.slash_parts
  have htag : KeyChars "/c4x/".toList := by simp [KeyChars, IsKeyChar, special, whitespace]
  exact (((((htag.append horg).append slash_keyChars).append hcrs).append slash_keyChars).append
    asset_keyChars).append slash_keyChars

end

theorem WellFormed.joinable (hform : (courseV1 org course run revision).WellFormed) :
    Joinable (joined (org :: course :: run :: revision)) :=
  .joined (cons_ne_nil _ _) hform

section

variable (hform : form.WellFormed)
include hform

theorem WellFormed.unicode : KeyText form.unicode := by
  cases form with
  | slashSeparated org course run => exact .of_chars hform.slash_unicode
  | courseV1 org course run revision =>
    have htag : KeyText "course-v1:".toList := .of_chars (by simp [KeyChars, IsKeyChar, special, whitespace])
    exact htag.append hform.joinable.toKeyText

theorem WellFormed.usageFront : KeyText form.usageFront := by
  cases form with
  | slashSeparated org course run => exact .of_chars hform.slash_usageFront
  | courseV1 org course run revision =>
    have htag : KeyText "block-v1:".toList := .of_chars (by simp [KeyChars, IsKeyChar, special, whitespace])
    have htype : KeyText "type@".toList := .of_chars (by simp [KeyChars, IsKeyChar, special, whitespace])
    exact (htag.prepend hform.joinable).plus htype

theorem WellFormed.jumpFront : KeyText form.jumpFront := by
  have hcrss : KeyText "/courses/".toList := .of_chars (by simp [KeyChars, IsKeyChar, special, whitespace])
  have hjump : KeyText "/jump_to/".toList := .of_chars (by simp [KeyChars, IsKeyChar, special, whitespace])
  exact ((hcrss.append hform.unicode).append hjump).append hform.usageFront

theorem WellFormed.assetFront : KeyText (form.assetFront "asset".toList) := by
  cases form with
  | slashSeparated org course run => exact .of_chars hform.slash_assetFront
  | courseV1 org course run revision =>
    have htag : KeyText "asset-v1:".toList := .of_chars (by simp [KeyChars, IsKeyChar, special, whitespace])
    have htype : KeyText "type@".toList := .of_chars (by simp [KeyChars, IsKeyChar, special, whitespace])
    have hblk : KeyText "block@".toList := .of_chars (by simp [KeyChars, IsKeyChar, special, whitespace])
    have hasset : Joinable "asset".toList := .of_chars (by simp) asset_keyChars
    exact (((htag.prepend hform.joinable).plus htype).prepend hasset).plus hblk

end

end KeyForm

/-! ## Reading the patterns -/

def quoteExpr : Expr :=
  .group "quote".toList (sequence [.repeated .optional false (.one (.char '\\')), .one (.among ['\'', '"'])])

def categoryExpr : Expr :=
  .group "category".toList (sequence [.repeated .plus false (.one (.outside ['/', '+', '@']))])

def blockIdExpr : Expr := .group "block_id".toList (sequence [.repeated .star true (.one .any)])

def sameQuote : Expr := .same "quote".toList

def ReadsAs (pattern : Text) (items : List Item) : Prop :=
  ∀ before, Reading.feed ⟨.plain, [⟨[], before⟩]⟩ pattern = some ⟨.plain, [⟨[], items.reverse ++ before⟩]⟩

namespace ReadsAs

theorem append {pattern other : Text} {items others : List Item} (hpat : ReadsAs pattern items)
    (hoth : ReadsAs other others) : ReadsAs (pattern ++ other) (items ++ others) := by
  intro before
  rw [feed_append other (hpat before), hoth, reverse_append, append_assoc]

theorem spliced {text : Text} (htext : Spliceable text) : ReadsAs text (GroupedRegex.spliced text) :=
  fun before => feed_spliced htext [] before []

theorem of_read {pattern : Text} {items : List Item}
    (hread : feed {} pattern = some ⟨.plain, [⟨[], items.reverse⟩]⟩) : ReadsAs pattern items :=
  fun before => feed_onto before hread

theorem feed_parts : feed {} openingQuotes = some ⟨.plain, [⟨[], [{ body := quoteExpr }]⟩]⟩ ∧
      feed {} blockIdPattern = some ⟨.plain, [⟨[], [{ body := blockIdExpr }]⟩]⟩ ∧
      feed {} categoryPattern = some ⟨.plain, [⟨[], [{ body := categoryExpr }]⟩]⟩ ∧
      feed {} closingQuote = some ⟨.plain, [⟨[], [{ body := sameQuote }]⟩]⟩ := by
  decide +kernel

theorem blockId : ReadsAs blockIdPattern [{ body := blockIdExpr }] := of_read feed_parts.2.1

theorem category : ReadsAs categoryPattern [{ body := categoryExpr }] := of_read feed_parts.2.2.1

theorem categories : ReadsAs (categoryPattern ++ ['+'])
    [{ body := categoryExpr, quantifier := some (.plus, false) }] := by
  intro before
  rw [feed_append ['+'] (category before)]
  rfl

theorem closingQuote : ReadsAs closingQuote [{ body := sameQuote }] := of_read feed_parts.2.2.2

end ReadsAs

theorem compile_prefixOnly {pattern : Text} {items : List Item} (hpat : ReadsAs pattern items) :
    compile (prefixOnlyUrlReplaceRegex pattern) =
      some (sequence (quoteExpr :: (items.map Item.expr ++ [sameQuote]))) := by
  have hread := hpat.append ReadsAs.closingQuote [{ body := quoteExpr }]
  rw [compile, prefixOnlyUrlReplaceRegex, append_assoc, feed_append _ ReadsAs.feed_parts.1, hread]
  simp [result, OpenGroup.expr, Item.expr]

/-! ## Where the parts of the patterns match -/

section

variable {groups groups' : List (Text × Text)} {text rest quote name category : Text}

theorem mem_quotes : quote ∈ quotes ↔ quote = ['\''] ∨ quote = ['"'] ∨ quote = ['\\', '\''] ∨ quote = ['\\', '"'] := by
  simp only [quotes, mem_cons, not_mem_nil, or_false]

theorem exists_mark (hquote : quote ∈ quotes) : ∃ mark more, quote = mark :: more ∧ mark ∈ marks := by
  rcases mem_quotes.mp hquote with rfl | rfl | rfl | rfl <;> exact ⟨_, _, rfl, by simp [marks]⟩

theorem mem_run_bare_quote : (⟨groups', rest⟩ : Progress) ∈
      run (sequence [.repeated .optional false (.one (.char '\\')), .one (.among ['\'', '"'])]) ⟨groups, text⟩ ↔
    groups' = groups ∧ ∃ quote ∈ quotes, text = quote ++ rest := by
  have hmark : ∀ {between : List (Text × Text)} {middle : Text},
      (⟨groups', rest⟩ : Progress) ∈ run (sequence [.one (.among ['\'', '"'])]) ⟨between, middle⟩ ↔
        groups' = between ∧ (middle = '\'' :: rest ∨ middle = '"' :: rest) := by
    intro between middle
    rw [run_sequence_singleton, mem_run_one]
    simp [accepts]
  rw [mem_run_sequence_cons]
  constructor
  · rintro ⟨⟨between, middle⟩, hmid, hlast⟩
    obtain ⟨rfl, hmrk⟩ := hmark.mp hlast
    rcases mem_prefer.mp hmid with heq | hmid
    · obtain ⟨rfl, rfl⟩ := mk.inj heq
      rcases hmrk with rfl | rfl
      · exact ⟨rfl, ['\''], mem_quotes.mpr (by simp), rfl⟩
      · exact ⟨rfl, ['"'], mem_quotes.mpr (by simp), rfl⟩
    · obtain ⟨hgrps, c, hc, rfl⟩ := mem_run_one.mp hmid
      obtain rfl : c = '\\' := beq_iff_eq.mp hc
      rcases hmrk with rfl | rfl
      · exact ⟨hgrps, ['\\', '\''], mem_quotes.mpr (by simp), rfl⟩
      · exact ⟨hgrps, ['\\', '"'], mem_quotes.mpr (by simp), rfl⟩
  · rintro ⟨rfl, quote, hquote, rfl⟩
    have hesc : ∀ {tail : Text}, (⟨groups', tail⟩ : Progress) ∈
        run (.repeated .optional false (.one (.char '\\'))) ⟨groups', '\\' :: tail⟩ :=
      mem_prefer.mpr (.inr (mem_run_one.mpr ⟨rfl, '\\', rfl, rfl⟩))
    rcases mem_quotes.mp hquote with rfl | rfl | rfl | rfl
    · exact ⟨⟨groups', '\'' :: rest⟩, mem_prefer.mpr (.inl rfl), hmark.mpr ⟨rfl, .inl rfl⟩⟩
    · exact ⟨⟨groups', '"' :: rest⟩, mem_prefer.mpr (.inl rfl), hmark.mpr ⟨rfl, .inr rfl⟩⟩
    · exact ⟨⟨groups', '\'' :: rest⟩, hesc, hmark.mpr ⟨rfl, .inl rfl⟩⟩
    · exact ⟨⟨groups', '"' :: rest⟩, hesc, hmark.mpr ⟨rfl, .inr rfl⟩⟩

theorem mem_run_quote : (⟨groups', rest⟩ : Progress) ∈ run quoteExpr ⟨groups, text⟩ ↔
    ∃ quote ∈ quotes, text = quote ++ rest ∧ groups' = ("quote".toList, quote) :: groups := by
  rw [quoteExpr, run_group, mem_map]
  constructor
  · rintro ⟨⟨between, rest'⟩, hlast, hclose⟩
    obtain ⟨rfl, quote, hquote, rfl⟩ := mem_run_bare_quote.mp hlast
    rw [close_append] at hclose
    obtain ⟨rfl, rfl⟩ := mk.inj hclose
    exact ⟨quote, hquote, rfl, rfl⟩
  · rintro ⟨quote, hquote, rfl, rfl⟩
    exact ⟨⟨groups, rest⟩, mem_run_bare_quote.mpr ⟨rfl, quote, hquote, rfl⟩, close_append⟩

theorem run_quote (groups : List (Text × Text)) (hquote : quote ∈ quotes) :
    run quoteExpr ⟨groups, quote ++ rest⟩ = [⟨("quote".toList, quote) :: groups, rest⟩] := by
  have hread : run (sequence [.repeated .optional false (.one (.char '\\')), .one (.among ['\'', '"'])])
      ⟨groups, quote ++ rest⟩ = [⟨groups, rest⟩] := by
    rcases mem_quotes.mp hquote with rfl | rfl | rfl | rfl <;> rfl
  rw [quoteExpr, run_group, hread, map_cons, map_nil, close_append]

theorem mem_run_category : (⟨groups', rest⟩ : Progress) ∈ run categoryExpr ⟨groups, text⟩ ↔
    ∃ category, category ≠ [] ∧ (∀ c ∈ category, c ∉ ['/', '+', '@']) ∧ text = category ++ rest ∧
      groups' = ("category".toList, category) :: groups := by
  rw [categoryExpr, run_group, run_sequence_singleton, mem_map]
  constructor
  · rintro ⟨⟨between, rest'⟩, hlast, hclose⟩
    obtain ⟨rfl, category, hne, rfl, hcat⟩ := mem_run_plus.mp hlast
    rw [close_append] at hclose
    obtain ⟨rfl, rfl⟩ := mk.inj hclose
    exact ⟨category, hne, fun c hc => by simpa [accepts] using hcat c hc, rfl, rfl⟩
  · rintro ⟨category, hne, hcat, rfl, rfl⟩
    refine ⟨⟨groups, rest⟩, mem_run_plus.mpr ⟨rfl, category, hne, rfl, fun c hc => ?_⟩, close_append⟩
    simpa [accepts] using hcat c hc

theorem mem_run_blockId : (⟨groups', rest⟩ : Progress) ∈ run blockIdExpr ⟨groups, text⟩ ↔
    ∃ name, '\n' ∉ name ∧ text = name ++ rest ∧ groups' = ("block_id".toList, name) :: groups := by
  rw [blockIdExpr, run_group, run_sequence_singleton, mem_map]
  constructor
  · rintro ⟨⟨between, rest'⟩, hlast, hclose⟩
    obtain ⟨rfl, name, rfl, hname⟩ := mem_run_star.mp hlast
    rw [close_append] at hclose
    obtain ⟨rfl, rfl⟩ := mk.inj hclose
    exact ⟨name, fun hmem => by simpa [accepts] using hname _ hmem, rfl, rfl⟩
  · rintro ⟨name, hname, rfl, rfl⟩
    refine ⟨⟨groups, rest⟩, mem_run_star.mpr ⟨rfl, name, rfl, fun c hc => ?_⟩, close_append⟩
    simp only [accepts, bne_iff_ne]
    exact fun heq => hname (heq ▸ hc)

theorem lookup_quote_blockId : (("block_id".toList, name) :: groups).lookup "quote".toList =
    groups.lookup "quote".toList := by
  rw [lookup_cons, beq_false_of_ne (by simp)]

theorem mem_run_name : (⟨groups', rest⟩ : Progress) ∈ run (sequence [blockIdExpr, sameQuote]) ⟨groups, text⟩ ↔
    ∃ name quote, '\n' ∉ name ∧ groups.lookup "quote".toList = some quote ∧ text = name ++ quote ++ rest ∧
      groups' = ("block_id".toList, name) :: groups := by
  rw [mem_run_sequence_cons]
  constructor
  · rintro ⟨⟨between, rest'⟩, hname, hquote⟩
    obtain ⟨name, hline, rfl, rfl⟩ := mem_run_blockId.mp hname
    rw [run_sequence_singleton] at hquote
    obtain ⟨rfl, quote, hlook, rfl⟩ := mem_run_same.mp hquote
    rw [lookup_quote_blockId] at hlook
    exact ⟨name, quote, hline, hlook, (append_assoc _ _ _).symm, rfl⟩
  · rintro ⟨name, quote, hline, hlook, rfl, rfl⟩
    refine ⟨⟨_, quote ++ rest⟩, mem_run_blockId.mpr ⟨name, hline, append_assoc _ _ _, rfl⟩, ?_⟩
    rw [run_sequence_singleton]
    exact mem_run_same.mpr ⟨rfl, quote, lookup_quote_blockId.trans hlook, rfl⟩

theorem run_category (groups : List (Text × Text)) (hne : category ≠ []) (hcat : ∀ c ∈ category, c ∉ ['/', '+', '@'])
    (hrest : ∀ c ∈ rest.head?, c ∈ ['/', '+', '@']) :
    ∃ others, run categoryExpr ⟨groups, category ++ rest⟩ =
      ⟨("category".toList, category) :: groups, rest⟩ :: others := by
  obtain ⟨c, tail, rfl⟩ := exists_cons_of_ne_nil hne
  obtain ⟨hc, htail⟩ := forall_mem_cons.mp hcat
  have hrest' : ∀ d ∈ rest.head?, (outside ['/', '+', '@']).accepts d = false :=
    fun d hd => by simpa only [accepts, Bool.not_eq_false', List.contains_iff_mem] using hrest d hd
  obtain ⟨others, hoths⟩ := iterate_greedy (.outside ['/', '+', '@']) groups
    (fun d hd => by simpa [accepts] using htail d hd) hrest'
    (length_append ▸ Nat.le_add_right tail.length rest.length)
  have hplus : run (.repeated .plus false (.one (.outside ['/', '+', '@']))) ⟨groups, c :: tail ++ rest⟩ =
      ⟨groups, rest⟩ :: others := by
    have hone : run (.one (.outside ['/', '+', '@'])) ⟨groups, c :: tail ++ rest⟩ = [⟨groups, tail ++ rest⟩] :=
      if_pos (by simpa [accepts] using hc)
    rw [run_plus, hone, flatMap_singleton, hoths]
  refine ⟨others.map (close "category".toList ⟨groups, c :: tail ++ rest⟩), ?_⟩
  rw [categoryExpr, run_group, run_sequence_singleton, hplus, map_cons, close_append]

theorem run_name (hname : IsPlain name) (hquote : quote ∈ quotes) (hlook : groups.lookup "quote".toList = some quote) :
    ∃ others, run (sequence [blockIdExpr, sameQuote]) ⟨groups, name ++ (quote ++ rest)⟩ =
      ⟨("block_id".toList, name) :: groups, rest⟩ :: others := by
  have hany : ∀ c ∈ name, any.accepts c = true := fun c hc => bne_iff_ne.mpr (hname c hc).2
  have hstop : ∀ {taken tail : Text}, run (sequence [sameQuote]) ⟨("block_id".toList, taken) :: groups, tail⟩ =
      if quote <+: tail then [⟨("block_id".toList, taken) :: groups, tail.drop quote.length⟩] else [] := by
    intro taken tail
    have hgrp : (⟨("block_id".toList, taken) :: groups, tail⟩ : Progress).group "quote".toList = some quote :=
      lookup_quote_blockId.trans hlook
    rw [run_sequence_singleton, sameQuote, run_same, hgrp]
  have hfnd : run (sequence [sameQuote])
      (close "block_id".toList ⟨groups, name ++ (quote ++ rest)⟩ ⟨groups, quote ++ rest⟩) =
        [⟨("block_id".toList, name) :: groups, rest⟩] := by
    rw [close_append, hstop, if_pos (prefix_append quote rest), drop_left]
  have hshort : ∀ front back, name = front ++ back → back ≠ [] → run (sequence [sameQuote])
      (close "block_id".toList ⟨groups, name ++ (quote ++ rest)⟩ ⟨groups, back ++ (quote ++ rest)⟩) = [] := by
    rintro front back rfl hback
    obtain ⟨c, tail, rfl⟩ := exists_cons_of_ne_nil hback
    have hc := (hname c (mem_append_right front mem_cons_self)).1
    have hpre : ¬ quote <+: c :: (tail ++ (quote ++ rest)) := by
      intro hpre
      obtain ⟨mark, more, rfl, hmark⟩ := exists_mark hquote
      exact hc ((cons_prefix_cons.mp hpre).1 ▸ hmark)
    rw [append_assoc, close_append, hstop, cons_append, if_neg hpre]
  have hfuel : name.length ≤ (name ++ (quote ++ rest)).length := by
    rw [length_append]
    exact Nat.le_add_right _ _
  obtain ⟨others, hoths⟩ := iterate_lazy .any groups (fun last => run (sequence [sameQuote])
      (close "block_id".toList ⟨groups, name ++ (quote ++ rest)⟩ last))
    hany hshort hfnd hfuel
  have hname : run blockIdExpr ⟨groups, name ++ (quote ++ rest)⟩ =
      (iterate true (run (.one .any)) (name ++ (quote ++ rest)).length ⟨groups, name ++ (quote ++ rest)⟩).map
        (close "block_id".toList ⟨groups, name ++ (quote ++ rest)⟩) := by
    rw [blockIdExpr, run_group, run_sequence_singleton, run_star]
  refine ⟨others, ?_⟩
  rw [← hoths, ← flatMap_map, ← hname]
  rfl

end

/-! ## Where the patterns match -/

/-- What items match, apart from what they do with groups. -/
structure Reads (items : List Item) (front : Text → Prop) : Prop where
  sound : ∀ {groups groups' text rest}, ⟨groups', rest⟩ ∈ run (sequence (items.map Item.expr)) ⟨groups, text⟩ →
    (∃ read, front read ∧ text = read ++ rest) ∧ groups'.lookup "quote".toList = groups.lookup "quote".toList
  complete : ∀ groups {read} rest, front read →
    ∃ groups', ⟨groups', rest⟩ ∈ run (sequence (items.map Item.expr)) ⟨groups, read ++ rest⟩

def ReadsFirst (items : List Item) (front : Text) : Prop :=
  ∀ groups rest, ∃ groups' others, run (sequence (items.map Item.expr)) ⟨groups, front ++ rest⟩ =
      ⟨groups', rest⟩ :: others ∧ groups'.lookup "quote".toList = groups.lookup "quote".toList

variable {items others : List Item}

namespace Reads

variable {front back : Text → Prop}

theorem append (hitems : Reads items front) (hoths : Reads others back) :
    Reads (items ++ others) fun text => ∃ read read', front read ∧ back read' ∧ text = read ++ read' where
  sound := by
    intro groups groups' text rest hlast
    rw [map_append, mem_run_sequence_append] at hlast
    obtain ⟨⟨between, middle⟩, hmid, hlast⟩ := hlast
    obtain ⟨⟨read, hread, rfl⟩, hsame⟩ := hitems.sound hmid
    obtain ⟨⟨read', hread', rfl⟩, hsame'⟩ := hoths.sound hlast
    exact ⟨⟨read ++ read', ⟨read, read', hread, hread', rfl⟩, (append_assoc _ _ _).symm⟩, hsame'.trans hsame⟩
  complete := by
    rintro groups text rest ⟨read, read', hread, hread', rfl⟩
    obtain ⟨between, hmid⟩ := hitems.complete groups (read' ++ rest) hread
    obtain ⟨groups', hlast⟩ := hoths.complete between rest hread'
    rw [map_append, append_assoc]
    exact ⟨groups', mem_run_sequence_append.mpr ⟨_, hmid, hlast⟩⟩

theorem spliced (text : Text) : Reads (GroupedRegex.spliced text) (Spells text) where
  sound := by
    intro groups groups' given rest hlast
    obtain ⟨rfl, read, rfl, hread⟩ := mem_run_spliced.mp hlast
    exact ⟨⟨read, hread, rfl⟩, rfl⟩
  complete := fun groups read rest hread => ⟨groups, mem_run_spliced.mpr ⟨rfl, read, rfl, hread⟩⟩

end Reads

namespace ReadsFirst

variable {front back : Text}

theorem append (hitems : ReadsFirst items front) (hoths : ReadsFirst others back) :
    ReadsFirst (items ++ others) (front ++ back) := by
  intro groups rest
  obtain ⟨between, more, hmid, hsame⟩ := hitems groups (back ++ rest)
  obtain ⟨groups', more', hlast, hsame'⟩ := hoths between rest
  rw [append_assoc, map_append, run_sequence_append, hmid, flatMap_cons, hlast]
  exact ⟨groups', _, rfl, hsame'.trans hsame⟩

theorem spliced {text : Text} (hplus : '+' ∉ text) : ReadsFirst (GroupedRegex.spliced text) text :=
  fun groups rest => ⟨groups, [], run_spliced hplus groups rest, rfl⟩

end ReadsFirst

def Quoted (front : Text → Prop) (text : Text) : Prop :=
  ∃ quote ∈ quotes, ∃ read name rest, front read ∧ '\n' ∉ name ∧ text = quote ++ (read ++ (name ++ (quote ++ rest)))

def quotedExpr (items : List Item) : Expr :=
  sequence (quoteExpr :: (List.map Item.expr (items ++ [{ body := blockIdExpr }]) ++ [sameQuote]))

section

variable {items : List Item} {front : Text → Prop} {text : Text} {last : Progress} {portable : Text}

theorem mem_run_quotedExpr : last ∈ run (quotedExpr items) ⟨[], text⟩ ↔
    ∃ opened ∈ run quoteExpr ⟨[], text⟩, ∃ middle ∈ run (sequence (items.map Item.expr)) opened,
      last ∈ run (sequence [blockIdExpr, sameQuote]) middle := by
  rw [quotedExpr, mem_run_sequence_cons, map_append, append_assoc]
  exact exists_congr fun opened => and_congr_right fun _ => mem_run_sequence_append

variable {name quote rest : Text}

theorem portableSubstitution_eq {groups : List (Text × Text)} (hquote : groups.lookup "quote".toList = some quote) :
    portableSubstitution portable ⟨("block_id".toList, name) :: groups, rest⟩ =
      some (quote ++ portable ++ name ++ quote) := by
  rw [portableSubstitution, group, group, lookup_quote_blockId, hquote, lookup_cons,
    beq_self_eq_true]
  rfl

theorem Reads.match_sound (hreads : Reads items front) (hlast : last ∈ run (quotedExpr items) ⟨[], text⟩) :
    ∃ quote ∈ quotes, ∃ read name, front read ∧ '\n' ∉ name ∧
      text = quote ++ (read ++ (name ++ (quote ++ last.rest))) ∧
      portableSubstitution portable last = some (quote ++ portable ++ name ++ quote) := by
  obtain ⟨groups, rest⟩ := last
  obtain ⟨⟨opened, behind⟩, hopen, ⟨between, middle⟩, hmid, hcl⟩ := mem_run_quotedExpr.mp hlast
  obtain ⟨quote, hquote, rfl, rfl⟩ := mem_run_quote.mp hopen
  obtain ⟨⟨read, hread, rfl⟩, hsame⟩ := hreads.sound hmid
  obtain ⟨name, quote', hname, hlook, rfl, rfl⟩ := mem_run_name.mp hcl
  have hope : between.lookup "quote".toList = some quote := by rw [hsame, lookup_cons, beq_self_eq_true]
  obtain rfl := some_unique hope hlook
  exact ⟨quote, hquote, read, name, hread, hname, by rw [append_assoc name], portableSubstitution_eq hope⟩

theorem Reads.match_complete (hreads : Reads items front) (hquot : Quoted front text) :
    ∃ last, last ∈ run (quotedExpr items) ⟨[], text⟩ := by
  obtain ⟨quote, hquote, read, name, rest, hread, hname, rfl⟩ := hquot
  obtain ⟨groups, hmid⟩ := hreads.complete [("quote".toList, quote)] (name ++ (quote ++ rest)) hread
  have hope : groups.lookup "quote".toList = some quote := by
    rw [(hreads.sound hmid).2, lookup_cons, beq_self_eq_true]
  refine ⟨⟨("block_id".toList, name) :: groups, rest⟩, mem_run_quotedExpr.mpr ⟨_, mem_run_quote.mpr
    ⟨quote, hquote, rfl, rfl⟩, _, hmid, mem_run_name.mpr ⟨name, quote, hname, hope, ?_, rfl⟩⟩⟩
  rw [append_assoc]

variable {read : Text}

theorem ReadsFirst.match_first (hitems : ReadsFirst items read) (hquote : quote ∈ quotes) (hname : IsPlain name) :
    ∃ last, matchAt (quotedExpr items) (quote ++ (read ++ (name ++ (quote ++ rest)))) = some last ∧
      last.rest = rest ∧ portableSubstitution portable last = some (quote ++ portable ++ name ++ quote) := by
  obtain ⟨groups, more, hread, hsame⟩ := hitems [("quote".toList, quote)] (name ++ (quote ++ rest))
  have hope : groups.lookup "quote".toList = some quote := by
    rw [hsame, lookup_cons, beq_self_eq_true]
  obtain ⟨more', hcl⟩ := run_name hname hquote hope
  have hbeh : run (sequence (items.map Item.expr ++ [blockIdExpr, sameQuote]))
      ⟨[("quote".toList, quote)], read ++ (name ++ (quote ++ rest))⟩ = ⟨("block_id".toList, name) :: groups, rest⟩ ::
          (more' ++ more.flatMap (run (sequence [blockIdExpr, sameQuote]))) := by
    rw [run_sequence_append, hread, flatMap_cons, hcl, cons_append]
  obtain ⟨more'', hall⟩ := run_sequence_first (run_quote [] hquote) hbeh
  refine ⟨⟨("block_id".toList, name) :: groups, rest⟩, ?_, rfl, portableSubstitution_eq hope⟩
  rw [matchAt, quotedExpr, map_append, append_assoc]
  exact congrArg List.head? hall

abbrev quotedRule (items : List Item) (portable : Text) : Rule Char :=
  replacing (quotedExpr items) (portableSubstitution portable)

variable {before : Text}

theorem Reads.rule_sound (hreads : Reads items front) {matched new : Text}
    (hrule : quotedRule items portable before matched rest new) :
    ∃ quote ∈ quotes, ∃ read name, front read ∧ '\n' ∉ name ∧ matched = quote ++ (read ++ (name ++ quote)) ∧
      new = quote ++ portable ++ name ++ quote := by
  obtain ⟨last, hmat, rfl, hnew⟩ := hrule
  obtain ⟨quote, hquote, read, name, hread, hname, htext, hnew'⟩ := hreads.match_sound (mem_of_mem_head? hmat)
  have hmatc : matched ++ last.rest = quote ++ (read ++ (name ++ quote)) ++ last.rest := by
    simpa only [append_assoc] using htext
  exact ⟨quote, hquote, read, name, hread, hname, List.append_cancel_right hmatc, some_unique hnew hnew'⟩

theorem Reads.at_iff (hreads : Reads items front) :
    (quotedRule items portable).At before text ↔ Quoted front text := by
  constructor
  · rintro ⟨matched, rest, new, rfl, hrule⟩
    obtain ⟨quote, hquote, read, name, hread, hname, rfl, -⟩ := hreads.rule_sound hrule
    exact ⟨quote, hquote, read, name, rest, hread, hname, by simp only [append_assoc]⟩
  · intro hquot
    obtain ⟨some', hmem⟩ := hreads.match_complete hquot
    cases hmat : matchAt (quotedExpr items) text with
    | none => exact absurd hmem (List.head?_eq_none_iff.mp hmat ▸ not_mem_nil)
    | some last =>
      obtain ⟨_, -, _, _, -, -, -, hnew⟩ := hreads.match_sound (mem_of_mem_head? hmat)
      obtain ⟨matched, htext, hrule⟩ := replacing_at before hmat hnew
      exact ⟨matched, last.rest, _, htext, hrule⟩

theorem ReadsFirst.rule (hitems : ReadsFirst items read) (portable : Text)
    (hquote : quote ∈ quotes) (hname : IsPlain name) (before rest : Text) :
    quotedRule items portable before (quote ++ (read ++ (name ++ quote))) rest
      (quote ++ portable ++ name ++ quote) := by
  obtain ⟨last, hmat, hrest, hnew⟩ := hitems.match_first hquote hname
  exact ⟨last, by simpa only [append_assoc] using hmat, hrest, hnew⟩

theorem Reads.attempt_replaced (hreads : Reads items front) (portable : Text) {pattern : Text}
    (hpat : ReadsAs pattern (items ++ [{ body := blockIdExpr }])) (text : Text) :
    Replaced (quotedRule items portable) [] text (attempt pattern (portableSubstitution portable) text) := by
  have hmatc : ∀ text last, matchAt (quotedExpr items) text = some last →
      last.rest.length < text.length ∧ ∃ new, portableSubstitution portable last = some new := by
    intro text last hmat
    obtain ⟨quote, hquote, read, name, -, -, htext, hnew⟩ := hreads.match_sound (mem_of_mem_head? hmat)
    obtain ⟨mark, more, rfl, -⟩ := exists_mark hquote
    refine ⟨?_, _, hnew⟩
    rw [htext]
    simp only [cons_append, length_cons, length_append]
    omega
  obtain ⟨result, hres, hrepd⟩ := sub_replaced (fun text last hmat => (hmatc text last hmat).1)
    (fun text last hmat => (hmatc text last hmat).2) [] text
  rw [attempt, compile_prefixOnly hpat, bind_some, ← quotedExpr, hres, getD_some]
  exact hrepd

end

end EdxPlatform.ContentLinks
