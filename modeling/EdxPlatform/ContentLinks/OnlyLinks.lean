import EdxPlatform.ContentLinks.CourseLinks
import Mathlib.Data.List.Infix

/-!
# When the links of a course are rewritten

The code rewrites the links of a course and nothing else when all that its patterns match are links, and when it
matches links at all: a key that is not separated by slashes has a `+`, which does not match itself.
-/

namespace EdxPlatform.ContentLinks

open GroupedRegex Rewriting

def KeyForm.IsSlashSeparated : KeyForm → Prop
  | slashSeparated _ _ _ => True
  | courseV1 _ _ _ _ => False

/-- Wherever the text is looked at, what is a link or looks like one is a link of a course with a key that is
separated by slashes. -/
def OnlyLinks (form : KeyForm) (front : Text → Prop) (link : Rule Char) (text : Text) : Prop :=
  ∀ place, Visits link ([], text) place → Quoted front place.2 ∨ link.At place.1 place.2 →
    form.IsSlashSeparated ∧ link.At place.1 place.2

namespace OnlyLinks

variable {form : KeyForm} {items : List Item} {front : Text → Prop} {link : Rule Char} {heads : List Text}
  {portable word text result result' : Text}

theorem replaced (hreads : Reads items front) (hfol : form.IsSlashSeparated → Follows (quotedRule items portable) link)
    (honly : OnlyLinks form front link text) (hcode : Replaced (quotedRule items portable) [] text result) :
    Replaced link [] text result := by
  refine hcode.of_agree fun place hvis => ⟨?_, ?_⟩
  · intro hat
    obtain ⟨hslash, matched, rest, new, htext, hlink⟩ := honly place hvis (.inr hat)
    exact ⟨matched, rest, new, htext, hfol hslash hlink place.1 rest⟩
  · intro matched rest new htext hrule
    obtain ⟨hslash, matched', rest', new', htext', hlink⟩ :=
      honly place hvis (.inl (hreads.at_iff.mp ⟨matched, rest, new, htext, hrule⟩))
    have hrule' := hfol hslash hlink place.1 rest'
    obtain ⟨rfl, rfl⟩ := replacing_functional (htext.symm.trans htext') hrule hrule'
    obtain rfl := append_cancel_left (htext.symm.trans htext')
    exact hlink

section

variable (hpass : Pass (quotedRule items portable) link heads word)
include hpass

theorem unique (hfol : form.IsSlashSeparated → Follows (quotedRule items portable) link)
    (honly : OnlyLinks form front link text) (hlink : Replaced link [] text result)
    (hlink' : Replaced link [] text result') : result = result' := by
  by_cases hslash : form.IsSlashSeparated
  · exact hlink.unique (hpass.link_functional (hfol hslash)) hlink'
  · have hnone : ∀ place, Visits link ([], text) place → ¬ link.At place.1 place.2 :=
      fun place hvis hat => hslash (honly place hvis (.inr hat)).1
    rw [hlink.eq_of_none hnone, hlink'.eq_of_none hnone]

theorem of_agrees (hreads : Reads items front) (hway : form.IsSlashSeparated ∨ Misses (quotedRule items portable) link)
    (hagr : ∀ place, Visits link ([], text) place →
      ((quotedRule items portable).At place.1 place.2 ↔ link.At place.1 place.2)) :
    OnlyLinks form front link text := by
  intro place hvis hsome
  have hat : link.At place.1 place.2 := hsome.elim (fun hquot => (hagr place hvis).mp (hreads.at_iff.mpr hquot)) id
  rcases hway with hslash | hmis
  · exact ⟨hslash, hat⟩
  · have hcode := (hagr place hvis).mpr hat
    obtain ⟨matched, rest, new, htext, hlink⟩ := hat
    rw [htext] at hcode
    exact absurd hcode (hpass.not_code_at hmis hlink place.1 rest)

theorem of_begins (hreads : Reads items front)
    (hbeg : ∀ start ∈ text.tails, (∃ quote ∈ quotes, ∃ head ∈ heads, quote ++ head <+: start) →
      start = text ∧ form.IsSlashSeparated ∧ link.At [] text) : OnlyLinks form front link text := by
  rintro ⟨before, start⟩ hvis hsome
  have hspl : before ++ start = text := hvis.split
  have hstar : ∃ quote ∈ quotes, ∃ head ∈ heads, quote ++ head <+: start := by
    rcases hsome with hquot | ⟨matched, rest, new, rfl, hlink⟩
    · have hat : (quotedRule items portable).At [] start := hreads.at_iff.mpr hquot
      obtain ⟨matched, rest, new, rfl, hcode⟩ := hat
      obtain ⟨quote, hquote, head, hhead, tail, -, rfl, -⟩ := hpass.code_starts hcode
      exact ⟨quote, hquote, head, hhead, tail ++ rest, by simp only [append_assoc]⟩
    · obtain ⟨quote, hquote, head, hhead, tail, -, rfl, -⟩ := hpass.link_starts hlink
      exact ⟨quote, hquote, head, hhead, tail ++ quote ++ rest, by simp only [append_assoc]⟩
  obtain ⟨rfl, hslash, hat⟩ := hbeg start ((List.mem_tails _ _).mpr ⟨before, hspl⟩) hstar
  obtain rfl := List.append_left_eq_self.mp hspl
  exact ⟨hslash, hat⟩

end

end OnlyLinks

/-! ## Both passes -/

section

variable {CourseKey : Type} {keys : OpaqueKeys CourseKey} {form : CourseKey → KeyForm} {source : CourseKey}
  {placeholderId categoryId text : Text} (hkeys : keys.Documented form)

/-- The text has only links, and so has the text in which the links to assets are rewritten. -/
def HasOnlyLinks (keys : OpaqueKeys CourseKey) (form : CourseKey → KeyForm) (source : CourseKey) (text : Text) :
    Prop :=
  OnlyLinks (form source) (form source).AssetRead (assetLinks keys source) text ∧
    ∀ middle, Replaced (assetLinks keys source) [] text middle →
      OnlyLinks (form source) (form source).JumpToRead (jumpToLinks keys source) middle

section

variable (hslash : (form source).IsSlashSeparated)
include hkeys hslash

theorem asset_follows_of_slash :
    Follows (quotedRule (form source).assetItems "/static/".toList) (assetLinks keys source) := by
  cases hform : form source with
  | slashSeparated org course run => exact hform ▸ asset_follows hkeys hform
  | courseV1 org course run revision =>
    rw [hform] at hslash
    exact hslash.elim

theorem jumpTo_follows_of_slash :
    Follows (quotedRule (form source).jumpToItems "/jump_to_id/".toList) (jumpToLinks keys source) := by
  cases hform : form source with
  | slashSeparated org course run => exact hform ▸ jumpTo_follows hkeys hform
  | courseV1 org course run revision =>
    rw [hform] at hslash
    exact hslash.elim

end

theorem rewrites_of_onlyLinks [DecidableEq CourseKey] (hkeys : keys.Documented form)
    (hfresh : Fresh keys placeholderId categoryId source) (dest : CourseKey)
    (honly : HasOnlyLinks keys form source text) :
    Rewrites keys source text (rewriteNonportableContentLinks keys placeholderId categoryId source dest text) := by
  obtain ⟨middle, hasset, hjump⟩ := rewriteNonportable_replaced hkeys hfresh dest text
  have hmid := honly.1.replaced (reads_assetItems _) (asset_follows_of_slash hkeys) hasset
  exact ⟨middle, hmid, (honly.2 middle hmid).replaced (reads_jumpToItems _) (jumpTo_follows_of_slash hkeys) hjump⟩

section

include hkeys

theorem asset_way (hdots : (form source).NoDotAtPlus) : (form source).IsSlashSeparated ∨
      Misses (quotedRule (form source).assetItems "/static/".toList) (assetLinks keys source) := by
  cases hform : form source with
  | slashSeparated org course run => exact .inl trivial
  | courseV1 org course run revision => exact .inr (hform ▸ asset_misses hkeys hform hdots)

theorem jumpTo_way (hdots : (form source).NoDotAtPlus) : (form source).IsSlashSeparated ∨
      Misses (quotedRule (form source).jumpToItems "/jump_to_id/".toList) (jumpToLinks keys source) := by
  cases hform : form source with
  | slashSeparated org course run => exact .inl trivial
  | courseV1 org course run revision => exact .inr (hform ▸ jumpTo_misses hkeys hform hdots)

theorem jumpTo_parted (hway : Follows (quotedRule (form source).jumpToItems "/jump_to_id/".toList)
    (jumpToLinks keys source) ∨
      Misses (quotedRule (form source).jumpToItems "/jump_to_id/".toList) (jumpToLinks keys source))
    {shared middle middle' result result' : Text} (htidy : Tidy shared)
    (hpar : Parted ("/static".toList :: assetHeads) shared middle middle')
    (hcode : Replaced (quotedRule (form source).jumpToItems "/jump_to_id/".toList) [] middle result)
    (hlink : Replaced (jumpToLinks keys source) [] middle' result') : result ≠ result' := by
  have hpass := jumpToPass source hkeys
  obtain ⟨first, hfst, second, hsec, hne, x', y', rfl, rfl⟩ := hpar
  have hoth : ∀ word ∈ "/static".toList :: assetHeads, word ∈ words ∧ word ∉ jumpToHeads := by
    simp [assetHeads, jumpToHeads, words]
  obtain ⟨shared', hpar⟩ := hpass.stays_parted hway htidy (hoth first hfst).1 (hoth second hsec).1 hne
    (hoth first hfst).2 (hoth second hsec).2 rfl hcode hlink
  exact hpar.ne fun word hword => hword

end

theorem onlyLinks_of_rewrites [DecidableEq CourseKey] (hkeys : keys.Documented form)
    (hfresh : Fresh keys placeholderId categoryId source) (hdots : (form source).NoDotAtPlus) (dest : CourseKey)
    (hrew : Rewrites keys source text
      (rewriteNonportableContentLinks keys placeholderId categoryId source dest text)) :
    HasOnlyLinks keys form source text := by
  obtain ⟨middle, hasset, hjump⟩ := rewriteNonportable_replaced hkeys hfresh dest text
  obtain ⟨middle', hasset', hjump'⟩ := hrew
  have hassetPass := assetPass source hkeys
  have hassetWay := (asset_way hkeys hdots).imp_left (asset_follows_of_slash hkeys)
  have hjum := jumpToPass source hkeys
  have hjumpWay := (jumpTo_way hkeys hdots).imp_left (jumpTo_follows_of_slash hkeys)
  rcases hassetPass.agrees_or_parted hassetWay hasset hasset' with hagr | ⟨shared, htidy, -, hpar⟩
  · have honly : OnlyLinks (form source) (form source).AssetRead (assetLinks keys source) text :=
      .of_agrees hassetPass (reads_assetItems _) (asset_way hkeys hdots) hagr
    refine ⟨honly, fun middle'' hasset'' => ?_⟩
    -- the text between the passes is the same in the code and in what it is for
    have hsame := honly.replaced (reads_assetItems _) (asset_follows_of_slash hkeys) hasset
    obtain rfl := honly.unique hassetPass (asset_follows_of_slash hkeys) hsame hasset'
    obtain rfl := honly.unique hassetPass (asset_follows_of_slash hkeys) hsame hasset''
    rcases hjum.agrees_or_parted hjumpWay hjump hjump' with hagr | ⟨shared, -, -, hpar⟩
    · exact .of_agrees hjum (reads_jumpToItems _) (jumpTo_way hkeys hdots) hagr
    · exact absurd rfl (hpar.ne hjum.pass_words)
  · exact absurd rfl (jumpTo_parted hkeys hjumpWay htidy hpar hjump hjump')

/-- The code rewrites the links of the course and changes nothing else where the text has only links. -/
theorem rewrites_iff_onlyLinks [DecidableEq CourseKey] (hkeys : keys.Documented form)
    (hfresh : Fresh keys placeholderId categoryId source) (dest : CourseKey) (text : Text) :
    (HasOnlyLinks keys form source text → Rewrites keys source text
        (rewriteNonportableContentLinks keys placeholderId categoryId source dest text)) ∧
      ((form source).NoDotAtPlus → Rewrites keys source text
        (rewriteNonportableContentLinks keys placeholderId categoryId source dest text) →
          HasOnlyLinks keys form source text) :=
  ⟨rewrites_of_onlyLinks hkeys hfresh dest, fun hdots => onlyLinks_of_rewrites hkeys hfresh hdots dest⟩

end

/-! ## A link that is left alone -/

theorem once_of_count {old text : Text} (front back : Text) (c : Char) (hold : old = front ++ c :: back)
    (hcnt : text.count c = 1) : Once old text := by
  subst hold
  have hplace : ∀ before after, text = before ++ (front ++ c :: back) ++ after →
      text.idxOf c = before.length + front.length := by
    intro before after htext
    have hspl : text = (before ++ front) ++ c :: (back ++ after) := by
      rw [htext]
      simp only [append_assoc, cons_append]
    have hmem : c ∉ before ++ front := by
      rw [hspl, count_append, count_cons_self] at hcnt
      rw [← List.count_eq_zero]
      omega
    rw [hspl, List.idxOf_append_of_notMem hmem, List.idxOf_cons_self, length_append, Nat.add_zero]
  intro before after before' after' htext htext'
  have hlen : before.length = before'.length :=
    Nat.add_right_cancel ((hplace before after htext).symm.trans (hplace before' after' htext'))
  rw [append_assoc] at htext htext'
  exact (List.append_inj (htext.symm.trans htext') hlen).1

abbrev CheckedKey := { form : KeyForm // form.WellFormed }

def writtenKeys : OpaqueKeys CheckedKey where
  unicode key := key.val.unicode
  makeAssetKey key type name := key.val.assetFront type ++ name
  makeUsageKey key type id := key.val.usageFront ++ type ++ key.val.usageMiddle ++ id
  IsAssetName := IsPlain
  IsBlockType type := type ≠ [] ∧ IsPlain type ∧ '/' ∉ type ∧ '+' ∉ type ∧ '@' ∉ type
  IsBlockId := IsPlain

theorem writtenKeys_documented : writtenKeys.Documented Subtype.val where
  unicode _ := rfl
  makeAssetKey _ _ _ := rfl
  makeUsageKey _ _ _ := rfl
  wellFormed key := key.property
  assetName _ hname := hname
  blockType _ htype := htype
  blockId _ hid := hid

def slashKey : CheckedKey := ⟨.slashSeparated "edX".toList "demo".toList "run".toList, by decide +kernel⟩

def demoKey : CheckedKey := ⟨.courseV1 "edX".toList "demo".toList "run".toList [], by decide +kernel⟩

def rerunKey : CheckedKey := ⟨.courseV1 "edX".toList "demo".toList "rerun".toList [], by decide +kernel⟩

theorem keys_fresh : ∀ key ∈ [slashKey, demoKey], Fresh writtenKeys "9af".toList "8bc".toList key := by
  have hcoun : ∀ key ∈ [slashKey, demoKey], (writtenKeys.makeAssetKey key "asset".toList "9af".toList).count '9' = 1 ∧
      (writtenKeys.makeUsageKey key ("cat_".toList ++ "8bc".toList) "9af".toList).count '8' = 1 ∧
      (writtenKeys.makeUsageKey key categoryPattern "9af".toList).count '9' = 1 := by decide +kernel
  intro key hkey
  obtain ⟨hasset, hcat, hblk⟩ := hcoun key hkey
  exact ⟨by simp, once_of_count [] "af".toList '9' (by simp) hasset,
    once_of_count "cat_".toList "bc".toList '8' (by simp) hcat, once_of_count [] "af".toList '9' (by simp) hblk⟩

def logoLink (key : CheckedKey) : Text :=
  ['\''] ++ writtenKeys.makeAssetKey key "asset".toList "logo.png".toList ++ ['\'']

def portableLogo : Text := ['\''] ++ ("/static/".toList ++ "logo.png".toList) ++ ['\'']

theorem logoLink_link (key : CheckedKey) : (assetLinks writtenKeys key).At [] (logoLink key) ∧
    assetLinks writtenKeys key [] (logoLink key) [] portableLogo := by
  have hname : writtenKeys.IsAssetName "logo.png".toList := by
    change ∀ c ∈ "logo.png".toList, c ∉ marks ∧ c ≠ '\n'
    simp [marks]
  have hlink : assetLinks writtenKeys key [] (logoLink key) [] portableLogo :=
    ⟨by simp, ['\''], mem_cons_self, _, _, ⟨_, hname, .inl rfl, rfl⟩, rfl, rfl⟩
  exact ⟨⟨_, _, _, (append_nil _).symm, hlink⟩, hlink⟩

theorem logoLink_onlyLinks : HasOnlyLinks writtenKeys Subtype.val slashKey (logoLink slashKey) := by
  have hpass := assetPass slashKey writtenKeys_documented
  have hbeg : ∀ start ∈ (logoLink slashKey).tails,
      (∃ quote ∈ quotes, ∃ head ∈ assetHeads, quote ++ head <+: start) → start = logoLink slashKey := by
    decide +kernel
  have honly : OnlyLinks slashKey.val slashKey.val.AssetRead (assetLinks writtenKeys slashKey) (logoLink slashKey) :=
    .of_begins hpass (reads_assetItems _) fun start hst hquot =>
      ⟨hbeg start hst hquot, trivial, (logoLink_link slashKey).1⟩
  refine ⟨honly, fun middle hmid => ?_⟩
  have hpor : Replaced (assetLinks writtenKeys slashKey) [] (logoLink slashKey) (portableLogo ++ []) :=
    .link (append_nil _).symm (logoLink_link slashKey).2 (.done hpass.not_link_at_nil)
  rw [append_nil] at hpor
  obtain rfl := honly.unique hpass (asset_follows_of_slash writtenKeys_documented) hmid hpor
  have hnone : ∀ start ∈ portableLogo.tails, ¬ ∃ quote ∈ quotes, ∃ head ∈ jumpToHeads, quote ++ head <+: start := by
    decide +kernel
  exact .of_begins (jumpToPass slashKey writtenKeys_documented) (reads_jumpToItems _) fun start hst hquot =>
    absurd hquot (hnone start hst)

theorem logoLink_rewritten :
    rewriteNonportableContentLinks writtenKeys "9af".toList "8bc".toList slashKey demoKey (logoLink slashKey) =
        portableLogo ∧
      Rewrites writtenKeys slashKey (logoLink slashKey)
        (rewriteNonportableContentLinks writtenKeys "9af".toList "8bc".toList slashKey demoKey (logoLink slashKey)) :=
  ⟨by decide +kernel, (rewrites_iff_onlyLinks writtenKeys_documented (keys_fresh slashKey mem_cons_self) demoKey
    (logoLink slashKey)).1 logoLink_onlyLinks⟩

/-- The link of a course with a key of the newer way is left alone. -/
theorem logoLink_not_rewritten : demoKey ≠ rerunKey ∧
      rewriteNonportableContentLinks writtenKeys "9af".toList "8bc".toList demoKey rerunKey (logoLink demoKey) =
        logoLink demoKey ∧
      ¬ Rewrites writtenKeys demoKey (logoLink demoKey)
        (rewriteNonportableContentLinks writtenKeys "9af".toList "8bc".toList demoKey rerunKey (logoLink demoKey)) := by
  refine ⟨by decide +kernel, by decide +kernel, fun hrewrites => ?_⟩
  have hdots : demoKey.val.NoDotAtPlus := ⟨by simp, by simp⟩
  have honly := onlyLinks_of_rewrites writtenKeys_documented (keys_fresh demoKey (by simp)) hdots rerunKey hrewrites
  exact (honly.1 ([], logoLink demoKey) .refl (.inr (logoLink_link demoKey).1)).1

end EdxPlatform.ContentLinks
