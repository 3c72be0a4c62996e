import EdxPlatform.ContentLinks.Patterns

/-!
# What the patterns of a course match

A pattern matches the links of the course and what only looks like one: a `.` of a key stands for any character,
and a `+` repeats the character in front of it.
-/

namespace EdxPlatform.ContentLinks

open GroupedRegex Rewriting ReadsAs

namespace KeyForm

def middleRead : KeyForm → Text
  | slashSeparated _ _ _ => "/".toList
  | courseV1 _ _ _ _ => "block@".toList

/-- A `+` behind the category repeats it. -/
def categoryItem : KeyForm → Item
  | slashSeparated _ _ _ => { body := categoryExpr }
  | courseV1 _ _ _ _ => { body := categoryExpr, quantifier := some (.plus, false) }

section

variable (form : KeyForm)

def assetItems : List Item := spliced (form.assetFront "asset".toList)

def jumpToItems : List Item := spliced form.jumpFront ++ (form.categoryItem :: spliced form.middleRead)

def IsCategory (category : Text) : Prop := category ≠ [] ∧ ∀ c ∈ category, c ∉ ['/', '+', '@']

def AssetRead : Text → Prop := Spells (form.assetFront "asset".toList)

def JumpToRead (text : Text) : Prop :=
  ∃ read category, Spells form.jumpFront read ∧ IsCategory category ∧ text = read ++ (category ++ form.middleRead)

end

end KeyForm

section

variable {CourseKey : Type} {keys : OpaqueKeys CourseKey} {form : CourseKey → KeyForm}
  {placeholderId categoryId : Text} {source : CourseKey}

theorem readsAs_assetBlock (hkeys : keys.Documented form) (hfresh : Fresh keys placeholderId categoryId source) :
    ReadsAs (assetBlockPattern keys placeholderId source) ((form source).assetItems ++ [{ body := blockIdExpr }]) := by
  rw [assetBlockPattern_eq hkeys hfresh]
  exact (spliced (hkeys.wellFormed source).assetFront.spliceable).append blockId

theorem readsAs_middle (form : KeyForm) :
    ReadsAs (categoryPattern ++ form.usageMiddle) (form.categoryItem :: spliced form.middleRead) := by
  cases form with
  | slashSeparated org course run =>
    exact category.append (spliced (KeyText.of_chars KeyForm.slash_keyChars).spliceable)
  | courseV1 org course run revision =>
    have hblk : KeyText "block@".toList := .of_chars (by simp [KeyChars, IsKeyChar, special, whitespace])
    have hplus : "+block@".toList = ['+'] ++ "block@".toList := by simp
    change ReadsAs (categoryPattern ++ "+block@".toList) _
    rw [hplus, ← append_assoc]
    exact categories.append (spliced hblk.spliceable)

theorem readsAs_jumpTo (hkeys : keys.Documented form) (hfresh : Fresh keys placeholderId categoryId source) :
    ReadsAs (jumpToLinkBase keys placeholderId ("cat_".toList ++ categoryId) source)
      ((form source).jumpToItems ++ [{ body := blockIdExpr }]) := by
  have hbase : jumpToLinkBase keys placeholderId ("cat_".toList ++ categoryId) source =
      (form source).jumpFront ++ (categoryPattern ++ (form source).usageMiddle) ++ blockIdPattern := by
    unfold jumpToLinkBase KeyForm.jumpFront
    rw [usageBlockPattern_eq hkeys hfresh, hkeys.unicode,
      ← append_assoc, ← append_assoc, ← append_assoc, ← append_assoc]
  rw [hbase, KeyForm.jumpToItems]
  exact ((spliced (hkeys.wellFormed source).jumpFront.spliceable).append (readsAs_middle (form source))).append
    blockId

theorem spells_literal {text read : Text} (hplain : ∀ c ∈ text, c ≠ '+' ∧ c ≠ '.') :
    Spells text read ↔ read = text := by
  induction text generalizing read with
  | nil =>
    constructor
    · rintro ⟨⟩
      rfl
    · rintro rfl
      exact .nil
  | cons c rest ih =>
    obtain ⟨hc, hrest⟩ := forall_mem_cons.mp hplain
    have hplus : rest.head? ≠ some '+' := fun hhead => (hrest '+' (List.mem_of_head? hhead)).1 rfl
    rw [spells_char hplus]
    constructor
    · rintro ⟨d, tail, rfl, hd, htail⟩
      obtain rfl := hd.resolve_right fun hdot => hc.2 hdot.1
      rw [(ih hrest).mp htail]
    · rintro rfl
      exact ⟨c, rest, rfl, .inl rfl, (ih hrest).mpr rfl⟩

theorem lookup_quote_category {groups : List (Text × Text)} {category : Text} :
    (("category".toList, category) :: groups).lookup "quote".toList = groups.lookup "quote".toList := by
  rw [lookup_cons, beq_false_of_ne (by simp)]

theorem mem_run_categories {groups groups' : List (Text × Text)} {text rest : Text}
    (hlast : (⟨groups', rest⟩ : Progress) ∈ run (.repeated .plus false categoryExpr) ⟨groups, text⟩) :
    (∃ category, KeyForm.IsCategory category ∧ text = category ++ rest) ∧
      groups'.lookup "quote".toList = groups.lookup "quote".toList := by
  obtain ⟨⟨between, middle⟩, hmid, hlast⟩ := mem_flatMap.mp hlast
  obtain ⟨category, hne, hcat, rfl, rfl⟩ := mem_run_category.mp hmid
  refine iterate_keeps (fun last => (∃ taken, KeyForm.IsCategory taken ∧ category ++ middle = taken ++ last.rest) ∧
    last.groups.lookup "quote".toList = groups.lookup "quote".toList) ?_
    ⟨⟨category, ⟨hne, hcat⟩, rfl⟩, lookup_quote_category⟩ hlast
  rintro ⟨earlier, left⟩ ⟨after, left'⟩ ⟨⟨taken, ⟨htakenNe, htaken⟩, htext⟩, hsame⟩ hstep
  obtain ⟨more, -, hmore, rfl, rfl⟩ := mem_run_category.mp hstep
  refine ⟨⟨taken ++ more, ⟨append_ne_nil_of_left_ne_nil htakenNe more, ?_⟩, ?_⟩, ?_⟩
  · exact forall_mem_append.mpr ⟨htaken, hmore⟩
  · rw [htext, append_assoc]
  · exact lookup_quote_category.trans hsame

section

variable (form : KeyForm)

theorem reads_categoryItem : Reads [form.categoryItem] KeyForm.IsCategory := by
  have hone : ∀ {groups : List (Text × Text)} {category : Text} (rest : Text), KeyForm.IsCategory category →
      (⟨("category".toList, category) :: groups, rest⟩ : Progress) ∈ run categoryExpr ⟨groups, category ++ rest⟩ :=
    fun rest hcat => mem_run_category.mpr ⟨_, hcat.1, hcat.2, rfl, rfl⟩
  cases form with
  | slashSeparated org course run =>
    constructor
    · intro groups groups' text rest hlast
      rw [map_singleton, run_sequence_singleton] at hlast
      obtain ⟨category, hne, hcat, rfl, rfl⟩ := mem_run_category.mp hlast
      exact ⟨⟨category, ⟨hne, hcat⟩, rfl⟩, lookup_quote_category⟩
    · intro groups category rest hcat
      rw [map_singleton, run_sequence_singleton]
      exact ⟨_, hone rest hcat⟩
  | courseV1 org course run revision =>
    constructor
    · intro groups groups' text rest hlast
      rw [map_singleton, run_sequence_singleton] at hlast
      exact mem_run_categories hlast
    · intro groups category rest hcat
      rw [map_singleton, run_sequence_singleton]
      refine ⟨("category".toList, category) :: groups, mem_flatMap.mpr ⟨_, hone rest hcat, ?_⟩⟩
      cases rest with
      | nil => exact mem_singleton.mpr rfl
      | cons c rest => exact mem_prefer.mpr (.inl rfl)

theorem middleRead_literal : ∀ c ∈ form.middleRead, c ≠ '+' ∧ c ≠ '.' := by
  cases form with
  | slashSeparated org course run =>
    change ∀ c ∈ "/".toList, c ≠ '+' ∧ c ≠ '.'
    simp
  | courseV1 org course run revision =>
    change ∀ c ∈ "block@".toList, c ≠ '+' ∧ c ≠ '.'
    simp

theorem reads_assetItems : Reads form.assetItems form.AssetRead := Reads.spliced _

theorem reads_jumpToItems : Reads form.jumpToItems form.JumpToRead := by
  have hmid := (reads_categoryItem form).append (Reads.spliced form.middleRead)
  have hall := (Reads.spliced form.jumpFront).append hmid
  constructor
  · intro groups groups' text rest hlast
    obtain ⟨⟨whole, ⟨read, behind, hread, ⟨category, middle, hcat, hmidd, rfl⟩, rfl⟩, rfl⟩, hsame⟩ := hall.sound hlast
    obtain rfl := (spells_literal (middleRead_literal form)).mp hmidd
    exact ⟨⟨_, ⟨read, category, hread, hcat, rfl⟩, rfl⟩, hsame⟩
  · rintro groups text rest ⟨read, category, hread, hcat, rfl⟩
    exact hall.complete groups rest ⟨read, _, hread, ⟨category, form.middleRead, hcat,
      (spells_literal (middleRead_literal form)).mpr rfl, rfl⟩, rfl⟩

end

theorem attempt_generic (hkeys : keys.Documented form) (text : Text) :
    attempt (genericCoursewareLinkBase keys source) portableAssetLinkSubtitution text = text := by
  have hbase : Spliceable (genericCoursewareLinkBase keys source) := by
    have hcrss : KeyText "/courses/".toList := .of_chars (by simp [KeyChars, IsKeyChar, special, whitespace])
    unfold genericCoursewareLinkBase
    rw [hkeys.unicode]
    exact ((hcrss.append (hkeys.wellFormed source).unicode).append (.of_chars KeyForm.slash_keyChars)).spliceable
  have hrais : ∀ (given : Text) last,
      matchAt (sequence (quoteExpr :: ((spliced (genericCoursewareLinkBase keys source)).map Item.expr ++ [sameQuote])))
        given = some last → portableAssetLinkSubtitution last = none := by
    rintro given ⟨groups, rest⟩ hmat
    obtain ⟨⟨opened, behind⟩, hope, hlast⟩ := mem_run_sequence_cons.mp (mem_of_mem_head? hmat)
    obtain ⟨⟨between, middle⟩, hmid, hcl⟩ := mem_run_sequence_append.mp hlast
    obtain ⟨quote, -, -, rfl⟩ := mem_run_quote.mp hope
    obtain ⟨rfl, -⟩ := mem_run_spliced.mp hmid
    rw [run_sequence_singleton] at hcl
    obtain ⟨rfl, -⟩ := mem_run_same.mp hcl
    have hnone : [("quote".toList, quote)].lookup "block_id".toList = none := by
      rw [lookup_cons, beq_false_of_ne (by simp)]
      rfl
    simp only [portableAssetLinkSubtitution, portableSubstitution, Progress.group, hnone, map_none,
      Option.bind_fun_none]
  rw [attempt, compile_prefixOnly (spliced hbase), bind_some]
  rcases sub_raises hrais text with hnone | hsome
  · rw [hnone, getD_none]
  · rw [hsome, getD_some]

theorem rewriteNonportable_replaced [DecidableEq CourseKey] (hkeys : keys.Documented form)
    (hfresh : Fresh keys placeholderId categoryId source) (dest : CourseKey) (text : Text) :
    ∃ middle, Replaced (quotedRule (form source).assetItems "/static/".toList) [] text middle ∧
      Replaced (quotedRule (form source).jumpToItems "/jump_to_id/".toList) [] middle
        (rewriteNonportableContentLinks keys placeholderId categoryId source dest text) := by
  have hasset := (reads_assetItems (form source)).attempt_replaced "/static/".toList
    (readsAs_assetBlock hkeys hfresh) text
  have hjump := (reads_jumpToItems (form source)).attempt_replaced "/jump_to_id/".toList
    (readsAs_jumpTo hkeys hfresh) (attempt (assetBlockPattern keys placeholderId source)
      portableAssetLinkSubtitution text)
  refine ⟨_, hasset, ?_⟩
  unfold rewriteNonportableContentLinks
  split
  · rw [attempt_generic hkeys]
    exact hjump
  · exact hjump

end

end EdxPlatform.ContentLinks
