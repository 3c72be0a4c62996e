import EdxPlatform.ContentLinks.Divergence
import EdxPlatform.ContentLinks.Lookalikes

/-!
# Rewriting the links of a course

When the code rewrites the links of a course and nothing else.
-/

namespace EdxPlatform.ContentLinks

open GroupedRegex Rewriting KeyForm KeyForm

variable {back front read : Text}

theorem spells_append (hplain : ∀ c ∈ front, c ≠ '+' ∧ c ≠ '.')
    (hback : back.head? ≠ some '+') (hread : Spells (front ++ back) read) :
    ∃ tail, read = front ++ tail ∧ Spells back tail := by
  induction front generalizing read with
  | nil => exact ⟨read, rfl, hread⟩
  | cons c front ih =>
    obtain ⟨hc, hfront⟩ := forall_mem_cons.mp hplain
    have hplus : (front ++ back).head? ≠ some '+' := by
      cases front with
      | nil => exact hback
      | cons d front => exact fun hhead => (hfront d mem_cons_self).1 (some.inj hhead)
    obtain ⟨d, tail, rfl, hd, htail⟩ := (spells_char hplus).mp hread
    obtain rfl := hd.resolve_right fun hdot => hc.2 hdot.1
    obtain ⟨behind, rfl, hbeh⟩ := ih hfront htail
    exact ⟨behind, rfl, hbeh⟩

theorem spells_head {c : Char} {rest : Text} (hc : c ≠ '.') (hread : Spells (c :: rest) read) :
    ∃ tail, read = c :: tail := by
  cases hread with
  | char _ hd => exact ⟨_, by rw [hd.resolve_right fun hdot => hc hdot.1]⟩
  | @plus _ taken rest tail hne htaken hrest =>
    obtain ⟨d, taken, rfl⟩ := exists_cons_of_ne_nil hne
    obtain rfl := (htaken d mem_cons_self).resolve_right fun hdot => hc hdot.1
    exact ⟨taken ++ tail, rfl⟩

variable {more : Text}

theorem spells_stops {behind behind' : Text} {g h : Char} (hfront : '+' ∉ front)
    (hg : g ≠ '+' ∧ g ≠ '.') (hh : h ≠ '+' ∧ h ≠ '.') (hread : Spells (front ++ g :: '+' :: h :: more) read) :
    read ++ behind ≠ front ++ g :: '+' :: behind' := by
  induction front generalizing read with
  | nil =>
    obtain ⟨taken, tail, hne, rfl, htaken, htail⟩ := spells_plus.mp hread
    obtain ⟨d, taken, rfl⟩ := exists_cons_of_ne_nil hne
    obtain ⟨tail, rfl⟩ := spells_head hh.2 htail
    intro heq
    have hbeh := (cons.inj heq).2
    cases taken with
    | nil => exact hh.1 (cons.inj hbeh).1
    | cons e taken =>
      obtain rfl := (htaken e (by simp)).resolve_right fun hdot => hg.2 hdot.1
      exact hg.1 (cons.inj hbeh).1
  | cons c front ih =>
    obtain ⟨hc, hfront⟩ := not_or.mp (mem_cons.not.mp hfront)
    have hplus : (front ++ g :: '+' :: h :: more).head? ≠ some '+' := by
      cases front with
      | nil => exact fun hhead => hg.1 (some.inj hhead)
      | cons d front => exact fun hhead => hfront (some.inj hhead ▸ mem_cons_self)
    obtain ⟨d, tail, rfl, hd, htail⟩ := (spells_char hplus).mp hread
    intro heq
    exact ih hfront htail (cons.inj heq).2

/-! ## What links begin with -/

def assetHeads : List Text := ["/c4x".toList, "asset-v1".toList, "/asset-v1".toList]

def jumpToHeads : List Text := ["/courses".toList]

theorem spells_front {c : Char} (hplain : ∀ c ∈ front, c ≠ '+' ∧ c ≠ '.') (hc : c ≠ '+')
    (hread : Spells (front ++ c :: back) read) : ∃ tail, read = front ++ tail := by
  have hback : (c :: back).head? ≠ some '+' := fun hhead => hc (some.inj hhead)
  obtain ⟨tail, rfl, -⟩ := spells_append hplain hback hread
  exact ⟨tail, rfl⟩

theorem plain_heads : ∀ head ∈ assetHeads ++ jumpToHeads, ∀ c ∈ head, c ≠ '+' ∧ c ≠ '.' := by
  simp [assetHeads, jumpToHeads]

namespace KeyForm

theorem slash_assetFront_begins (org course run type : Text) :
    ∃ back, (slashSeparated org course run).assetFront type = "/c4x".toList ++ '/' :: back := by
  have htag : "/c4x/".toList = "/c4x".toList ++ ['/'] := by simp
  have hpre : "/c4x/".toList <+: (slashSeparated org course run).assetFront type :=
    ((((prefix_append _ org).trans (prefix_append _ _)).trans (prefix_append _ course)).trans
      (prefix_append _ _)).trans ((prefix_append _ type).trans (prefix_append _ _))
  obtain ⟨back, hback⟩ := hpre
  rw [htag, append_assoc] at hback
  exact ⟨back, hback.symm⟩

theorem courseV1_assetFront_begins (org course run : Text) (revision : List Text) (type : Text) :
    ∃ back, (courseV1 org course run revision).assetFront type = "asset-v1".toList ++ ':' :: back := by
  have htag : "asset-v1:".toList = "asset-v1".toList ++ [':'] := by simp
  have hpre : "asset-v1:".toList <+: (courseV1 org course run revision).assetFront type :=
    ((prefix_append _ _).trans (prefix_append _ _)).trans ((prefix_append _ type).trans (prefix_append _ _))
  obtain ⟨back, hback⟩ := hpre
  rw [htag, append_assoc] at hback
  exact ⟨back, hback.symm⟩

theorem assetFront_begins (form : KeyForm) (type : Text) :
    ∃ head ∈ assetHeads, ∃ c back, c ≠ '+' ∧ form.assetFront type = head ++ c :: back := by
  cases form with
  | slashSeparated org course run =>
    obtain ⟨back, hback⟩ := slash_assetFront_begins org course run type
    exact ⟨_, by simp [assetHeads], '/', back, by decide, hback⟩
  | courseV1 org course run revision =>
    obtain ⟨back, hback⟩ := courseV1_assetFront_begins org course run revision type
    exact ⟨_, by simp [assetHeads], ':', back, by decide, hback⟩

theorem jumpFront_begins (form : KeyForm) : ∃ back, form.jumpFront = "/courses".toList ++ '/' :: back := by
  have htag : "/courses/".toList = "/courses".toList ++ ['/'] := by simp
  have hpre : "/courses/".toList <+: form.jumpFront :=
    ((prefix_append _ form.unicode).trans (prefix_append _ _)).trans (prefix_append _ form.usageFront)
  obtain ⟨back, hback⟩ := hpre
  rw [htag, append_assoc] at hback
  exact ⟨back, hback.symm⟩

end KeyForm

theorem assetRead_begins {form : KeyForm} (hread : form.AssetRead read) :
    ∃ head ∈ assetHeads, ∃ tail, read = head ++ tail := by
  obtain ⟨head, hhead, c, back, hc, hfront⟩ := form.assetFront_begins "asset".toList
  rw [AssetRead, hfront] at hread
  obtain ⟨tail, rfl⟩ := spells_front (plain_heads head (mem_append_left _ hhead)) hc hread
  exact ⟨head, hhead, tail, rfl⟩

theorem jumpToRead_begins {form : KeyForm} (hread : form.JumpToRead read) :
    ∃ head ∈ jumpToHeads, ∃ tail, read = head ++ tail := by
  obtain ⟨read, category, hread, -, rfl⟩ := hread
  obtain ⟨back, hfront⟩ := form.jumpFront_begins
  rw [hfront] at hread
  have hhead : "/courses".toList ∈ jumpToHeads := mem_singleton.mpr rfl
  obtain ⟨tail, rfl⟩ := spells_front (plain_heads _ (mem_append_right _ hhead)) (by decide) hread
  exact ⟨_, hhead, tail ++ (category ++ form.middleRead), append_assoc _ _ _⟩

theorem Pass.of_quoted {items : List Item} {front : Text → Prop} {link : Text → Text → Prop} {heads : List Text}
    {portable : Text} (hheads : ∀ head ∈ heads, head ∈ words) (hword : portable ∈ words)
    (hoth : portable ∉ heads) (hreads : Reads items front)
    (hfront : ∀ read, front read → ∃ head ∈ heads, ∃ tail, read = head ++ tail)
    (hlink : ∀ url portable', link url portable' → (∃ head ∈ heads, ∃ tail, url = head ++ tail) ∧
      (∀ c ∈ url, c ∉ marks) ∧ ∃ tail, portable' = portable ++ tail) :
    Pass (quotedRule items (portable ++ more)) (quotedLinks link) heads portable where
  heads_words := hheads
  portable_word := hword
  portable_head := hoth
  code_functional := replacing_functional
  code_anywhere := fun hrule _ => hrule
  code_starts := by
    intro before matched rest new hrule
    obtain ⟨quote, hquote, read, name, hread, -, rfl, rfl⟩ := hreads.rule_sound hrule
    obtain ⟨head, hhead, tail, rfl⟩ := hfront read hread
    exact ⟨quote, hquote, head, hhead, tail ++ (name ++ quote), more ++ (name ++ quote),
      by rw [append_assoc], by simp only [append_assoc]⟩
  link_anywhere := by
    rintro before matched rest new ⟨hesc, hquot⟩ before' rest' hlast
    exact ⟨hlast ▸ hesc, hquot⟩
  link_escaped := fun hrule => hrule.1
  link_starts := by
    rintro before matched rest new ⟨-, quote, hquote, url, portable', hurl, rfl, rfl⟩
    obtain ⟨⟨head, hhead, tail, rfl⟩, hunm, tail', rfl⟩ := hlink url portable' hurl
    exact ⟨quote, hquote, head, hhead, tail, tail' ++ quote, append_assoc _ _ _, hunm, by simp only [append_assoc]⟩

variable {url : Text}

theorem serialize_begins (hurl : ∃ head ∈ assetHeads, ∃ tail, url = head ++ tail) :
    ∃ head ∈ assetHeads, ∃ tail, serializeAssetKeyWithSlash url = head ++ tail := by
  rw [serializeAssetKeyWithSlash]
  split
  · exact hurl
  · next hslash =>
      obtain ⟨head, hhead, tail, rfl⟩ := hurl
      simp only [assetHeads, mem_cons, not_mem_nil, or_false] at hhead
      rcases hhead with rfl | rfl | rfl
      · exact absurd (by simp) hslash
      · exact ⟨"/asset-v1".toList, by simp [assetHeads], tail, by simp⟩
      · exact absurd (by simp) hslash

theorem serialize_unmarked (hurl : ∀ c ∈ url, c ∉ marks) : ∀ c ∈ serializeAssetKeyWithSlash url, c ∉ marks := by
  rw [serializeAssetKeyWithSlash]
  split
  · exact hurl
  · exact forall_mem_cons.mpr ⟨by decide, hurl⟩

section

variable {CourseKey : Type} {keys : OpaqueKeys CourseKey} {form : CourseKey → KeyForm} {source : CourseKey}

variable (source) in
theorem assetPass (hkeys : keys.Documented form) :
    Pass (quotedRule (form source).assetItems "/static/".toList) (assetLinks keys source) assetHeads
      "/static".toList := by
  have hpor : "/static/".toList = "/static".toList ++ ['/'] := by simp
  rw [hpor]
  refine Pass.of_quoted (by simp [assetHeads, words]) (by simp [words]) (by simp [assetHeads])
    (reads_assetItems (form source)) (fun read => assetRead_begins) ?_
  rintro url portable ⟨name, hname, hurl, rfl⟩
  have hkey : (∃ head ∈ assetHeads, ∃ tail, keys.makeAssetKey source "asset".toList name = head ++ tail) ∧
      ∀ c ∈ keys.makeAssetKey source "asset".toList name, c ∉ marks := by
    rw [hkeys.makeAssetKey]
    obtain ⟨head, hhead, c, back, -, hfront⟩ := (form source).assetFront_begins "asset".toList
    refine ⟨⟨head, hhead, c :: back ++ name, by rw [hfront, append_assoc]⟩, ?_⟩
    exact forall_mem_append.mpr ⟨(hkeys.wellFormed source).assetFront.unmarked,
      fun c hc => (hkeys.assetName name hname c hc).1⟩
  refine ⟨?_, ?_, ['/'] ++ name, by rw [hpor, append_assoc]⟩
  · rcases hurl with rfl | rfl
    · exact hkey.1
    · exact serialize_begins hkey.1
  · rcases hurl with rfl | rfl
    · exact hkey.2
    · exact serialize_unmarked hkey.2

theorem usageMiddle_unmarked (form : KeyForm) : ∀ c ∈ form.usageMiddle, c ∉ marks := by
  cases form with
  | slashSeparated org course run => exact (KeyText.of_chars slash_keyChars).unmarked
  | courseV1 org course run revision =>
    change ∀ c ∈ "+block@".toList, c ∉ marks
    simp [marks]

theorem jumpToUrl_eq (hkeys : keys.Documented form) (type id : Text) :
    "/courses/".toList ++ keys.unicode source ++ "/jump_to/".toList ++ keys.makeUsageKey source type id =
      (form source).jumpFront ++ (type ++ ((form source).usageMiddle ++ id)) := by
  unfold jumpFront
  rw [hkeys.makeUsageKey, hkeys.unicode]
  simp only [append_assoc]

variable (source) in
theorem jumpToPass (hkeys : keys.Documented form) :
    Pass (quotedRule (form source).jumpToItems "/jump_to_id/".toList) (jumpToLinks keys source) jumpToHeads
      "/jump_to_id".toList := by
  have hpor : "/jump_to_id/".toList = "/jump_to_id".toList ++ ['/'] := by simp
  rw [hpor]
  refine Pass.of_quoted (by simp [jumpToHeads, words]) (by simp [words]) (by simp [jumpToHeads])
    (reads_jumpToItems (form source)) (fun read => jumpToRead_begins) ?_
  rintro url portable ⟨type, id, htype, hid, rfl, rfl⟩
  rw [jumpToUrl_eq hkeys]
  obtain ⟨-, htyp, -⟩ := hkeys.blockType type htype
  obtain ⟨back, hfront⟩ := (form source).jumpFront_begins
  refine ⟨⟨"/courses".toList, mem_singleton.mpr rfl, _, by rw [hfront, append_assoc]⟩, ?_,
    ['/'] ++ id, by rw [hpor, append_assoc]⟩
  exact forall_mem_append.mpr ⟨(hkeys.wellFormed source).jumpFront.unmarked, forall_mem_append.mpr
    ⟨fun c hc => (htyp c hc).1, forall_mem_append.mpr ⟨usageMiddle_unmarked (form source),
      fun c hc => (hkeys.blockId id hid c hc).1⟩⟩⟩

variable {portable : Text}

theorem follows_of_quoted {items : List Item} {link : Text → Text → Prop}
    (hlink : ∀ url portable', link url portable' → ∃ read name, ReadsFirst items read ∧ IsPlain name ∧
      url = read ++ name ∧ portable' = portable ++ name) :
    Follows (quotedRule items portable) (quotedLinks link) := by
  rintro before matched rest new ⟨-, quote, hquote, url, portable', hurl, rfl, rfl⟩ before' rest'
  obtain ⟨read, name, hread, hname, rfl, rfl⟩ := hlink url portable' hurl
  have hrule := hread.rule portable hquote hname before' rest'
  simpa only [append_assoc] using hrule

theorem readsFirst_category {category : Text} (hcat : IsCategory category) :
    ReadsFirst ({ body := categoryExpr } :: spliced "/".toList) (category ++ "/".toList) := by
  intro groups rest
  have hslash : "/".toList = ['/'] := by simp
  have hstop : ∀ c ∈ ("/".toList ++ rest).head?, c ∈ ['/', '+', '@'] := by
    rw [hslash]
    rintro c ⟨⟩
    exact mem_cons_self
  obtain ⟨others, hread⟩ := run_category groups hcat.1 hcat.2 hstop
  have hmid := run_spliced slash_keyChars.no_plus (("category".toList, category) :: groups) rest
  obtain ⟨more, hall⟩ := run_sequence_first hread hmid
  rw [← append_assoc] at hall
  exact ⟨_, more, hall, lookup_quote_category⟩

variable {course org run : Text}

section

variable (hkeys : keys.Documented form) (hform : form source = .slashSeparated org course run)
include hkeys hform

theorem asset_follows : Follows (quotedRule (form source).assetItems "/static/".toList) (assetLinks keys source) := by
  have hwell := hform ▸ hkeys.wellFormed source
  refine follows_of_quoted ?_
  rintro url portable ⟨name, hname, hurl, rfl⟩
  have hfront : ReadsFirst (form source).assetItems ((form source).assetFront "asset".toList) :=
    ReadsFirst.spliced (hform ▸ hwell.slash_assetFront.no_plus)
  refine ⟨_, name, hfront, hkeys.assetName name hname, ?_, rfl⟩
  rw [← hkeys.makeAssetKey]
  rcases hurl with rfl | rfl
  · rfl
  · obtain ⟨back, hback⟩ := slash_assetFront_begins org course run "asset".toList
    have hslash : (keys.makeAssetKey source "asset".toList name).head? = some '/' := by
      rw [hkeys.makeAssetKey, hform, hback]
      simp
    rw [serializeAssetKeyWithSlash, if_pos hslash]

theorem jumpTo_follows :
    Follows (quotedRule (form source).jumpToItems "/jump_to_id/".toList) (jumpToLinks keys source) := by
  have hwell := hform ▸ hkeys.wellFormed source
  refine follows_of_quoted ?_
  rintro url portable ⟨type, id, htype, hid, rfl, rfl⟩
  have hfront : ReadsFirst (spliced (form source).jumpFront) (form source).jumpFront :=
    ReadsFirst.spliced (hform ▸ hwell.slash_jumpFront.no_plus)
  obtain ⟨hne, -, hslash, hplus, hat⟩ := hkeys.blockType type htype
  have hcat : IsCategory type := by
    refine ⟨hne, fun c hc => ?_⟩
    simp only [mem_cons, not_mem_nil, or_false, not_or]
    exact ⟨fun heq => hslash (heq ▸ hc), fun heq => hplus (heq ▸ hc), fun heq => hat (heq ▸ hc)⟩
  have hread := hfront.append (readsFirst_category hcat)
  have hitems : (form source).jumpToItems =
      spliced (form source).jumpFront ++ ({ body := categoryExpr } :: spliced "/".toList) := by
    rw [hform]
    rfl
  rw [← hitems] at hread
  refine ⟨_, id, hread, hkeys.blockId id hid, ?_, rfl⟩
  rw [jumpToUrl_eq hkeys, hform]
  simp only [append_assoc]
  rfl

end

namespace KeyForm

/-- No `.` stands beside the first `+` of the key. -/
def NoDotAtPlus : KeyForm → Prop
  | slashSeparated _ _ _ => True
  | courseV1 org course _ _ => org.getLast? ≠ some '.' ∧ course.head? ≠ some '.'

end KeyForm

theorem suffix_quote {quote passed left : Text} (hquote : quote ∈ quotes) (heq : quote = passed ++ left)
    (hne : left ≠ []) : left ∈ quotes := by
  cases passed with
  | nil =>
    obtain rfl : quote = left := heq
    exact hquote
  | cons d passed =>
    obtain ⟨c, hc, rfl | rfl⟩ := quote_shape hquote
    · exact absurd (append_eq_nil_iff.mp (cons.inj heq).2.symm).2 hne
    · have htail := (cons.inj heq).2
      cases passed with
      | nil =>
        obtain rfl : [c] = left := htail
        exact mem_quotes.mpr (hc.elim (fun hc => .inl (hc ▸ rfl)) fun hc => .inr (.inl (hc ▸ rfl)))
      | cons e passed => exact absurd (append_eq_nil_iff.mp (cons.inj htail).2.symm).2 hne

theorem misses_of_quoted {items : List Item} {front : Text → Prop} {link : Text → Text → Prop}
    (hreads : Reads items front) (hlink : ∀ url portable', link url portable' → ∀ read behind behind',
      front read → read ++ behind ≠ url ++ behind') :
    Misses (quotedRule items portable) (quotedLinks link) := by
  rintro before quote body rest new hquote ⟨-, quote', hquote', url, portable', hurl, hmat, -⟩
  rw [append_assoc] at hmat
  obtain rfl := quotes_eq hquote hquote' hmat
  obtain rfl := List.append_cancel_right (append_cancel_left hmat)
  intro before' rest' passed left hpass hleft hat
  obtain ⟨opening, hope, read, name, rest'', hread, -, htext⟩ := hreads.at_iff.mp hat
  obtain rfl := quotes_eq (suffix_quote hquote hpass hleft) hope htext
  exact hlink body portable' hurl read _ _ hread (append_cancel_left htext).symm

variable {revision : List Text}

theorem joined_stops (hform : (courseV1 org course run revision).WellFormed)
    (hdots : (courseV1 org course run revision).NoDotAtPlus) :
    ∃ front g h more, joined (org :: course :: run :: revision) = front ++ g :: '+' :: h :: more ∧
      '+' ∉ front ∧ (g ≠ '+' ∧ g ≠ '.') ∧ (h ≠ '+' ∧ h ≠ '.') := by
  obtain ⟨horgNe, horg⟩ := hform org mem_cons_self
  obtain ⟨hcour, hcrs⟩ := hform course (mem_cons_of_mem _ mem_cons_self)
  obtain ⟨front, g, rfl⟩ := (List.eq_nil_or_concat org).resolve_left horgNe
  obtain ⟨h, tail, rfl⟩ := exists_cons_of_ne_nil hcour
  rw [List.concat_eq_append] at horg hdots ⊢
  refine ⟨front, g, h, tail ++ ('+' :: joined (run :: revision)), ?_, ?_, ⟨?_, ?_⟩, ?_, ?_⟩
  · simp only [joined, List.intercalate_cons_cons, append_assoc, cons_append, nil_append]
  · exact fun hplus => (horg '+' (mem_append_left _ hplus)).ne_plus rfl
  · exact (horg g (mem_append_right _ mem_cons_self)).ne_plus
  · rintro rfl
    exact hdots.1 (getLast?_concat)
  · exact (hcrs h mem_cons_self).ne_plus
  · rintro rfl
    exact hdots.2 rfl

theorem assetFront_stops (type : Text) (hform : (courseV1 org course run revision).WellFormed)
    (hdots : (courseV1 org course run revision).NoDotAtPlus) :
    ∃ front g h more, (courseV1 org course run revision).assetFront type =
      "asset-v1".toList ++ (':' :: front) ++ g :: '+' :: h :: more ∧
      '+' ∉ "asset-v1".toList ++ (':' :: front) ∧ (g ≠ '+' ∧ g ≠ '.') ∧ (h ≠ '+' ∧ h ≠ '.') := by
  obtain ⟨front, g, h, more, hjoin, hplus, hg, hh⟩ := joined_stops hform hdots
  have htag : "asset-v1:".toList = "asset-v1".toList ++ [':'] := by simp
  refine ⟨front, g, h, more ++ ("+type@".toList ++ (type ++ "+block@".toList)), ?_, ?_, hg, hh⟩
  · unfold assetFront
    dsimp only
    rw [hjoin, htag]
    simp only [append_assoc, cons_append, nil_append]
  · refine fun hmem => (mem_append.mp hmem).elim (by simp) fun hmem => ?_
    exact (mem_cons.mp hmem).elim (by decide) hplus

theorem asset_misses (hkeys : keys.Documented form)
    (hform : form source = .courseV1 org course run revision) (hdots : (form source).NoDotAtPlus) :
    Misses (quotedRule (form source).assetItems "/static/".toList) (assetLinks keys source) := by
  refine misses_of_quoted (reads_assetItems (form source)) ?_
  rintro url portable ⟨name, -, hurl, -⟩ read behind behind' hread
  obtain ⟨front, g, h, more, hfront, hplus, hg, hh⟩ :=
    assetFront_stops "asset".toList (hform ▸ hkeys.wellFormed source) (hform ▸ hdots)
  rw [AssetRead, hform, hfront] at hread
  have hkey : keys.makeAssetKey source "asset".toList name =
      "asset-v1".toList ++ (':' :: front) ++ g :: '+' :: h :: (more ++ name) := by
    rw [hkeys.makeAssetKey, hform, hfront]
    simp only [append_assoc, cons_append]
  rcases hurl with rfl | rfl
  · rw [hkey, append_assoc _ (g :: _) behind']
    exact spells_stops hplus hg hh hread
  · -- the pattern does not begin with the slash in front of the key
    have hhead : "asset-v1".toList = 'a' :: "sset-v1".toList := by simp
    rw [hkey, hhead, serializeAssetKeyWithSlash, if_neg (by simp)]
    rw [hhead] at hread
    obtain ⟨tail, rfl⟩ := spells_head (by decide) hread
    intro heq
    exact absurd (cons.inj heq).1 (by decide)

theorem jumpFront_stops (hform : (courseV1 org course run revision).WellFormed)
    (hdots : (courseV1 org course run revision).NoDotAtPlus) :
    ∃ front g h more, (courseV1 org course run revision).jumpFront =
      "/courses/".toList ++ ("course-v1:".toList ++ front) ++ g :: '+' :: h :: more ∧
      '+' ∉ "/courses/".toList ++ ("course-v1:".toList ++ front) ∧ (g ≠ '+' ∧ g ≠ '.') ∧ (h ≠ '+' ∧ h ≠ '.') := by
  obtain ⟨front, g, h, more, hjoin, hplus, hg, hh⟩ := joined_stops hform hdots
  refine ⟨front, g, h, more ++ ("/jump_to/".toList ++ (courseV1 org course run revision).usageFront), ?_, ?_, hg, hh⟩
  · unfold jumpFront unicode
    dsimp only
    rw [hjoin]
    simp only [append_assoc, cons_append]
  · refine fun hmem => (mem_append.mp hmem).elim (by simp) fun hmem => ?_
    exact (mem_append.mp hmem).elim (by simp) hplus

theorem jumpTo_misses (hkeys : keys.Documented form)
    (hform : form source = .courseV1 org course run revision) (hdots : (form source).NoDotAtPlus) :
    Misses (quotedRule (form source).jumpToItems "/jump_to_id/".toList) (jumpToLinks keys source) := by
  refine misses_of_quoted (reads_jumpToItems (form source)) ?_
  rintro url portable ⟨type, id, -, -, rfl, -⟩ _ behind behind' ⟨read, category, hread, -, rfl⟩
  obtain ⟨front, g, h, more, hfront, hplus, hg, hh⟩ :=
    jumpFront_stops (hform ▸ hkeys.wellFormed source) (hform ▸ hdots)
  rw [jumpToUrl_eq hkeys]
  rw [hform, hfront] at hread ⊢
  rw [append_assoc read, append_assoc (_ ++ _) _ behind', append_assoc (_ ++ _)]
  exact spells_stops hplus hg hh hread

end

end EdxPlatform.ContentLinks
