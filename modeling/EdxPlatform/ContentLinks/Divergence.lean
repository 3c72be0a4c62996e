import EdxPlatform.ContentLinks.Patterns

/-!
# Where two rewritings part

The code rewrites what its patterns match, and what it is for is to rewrite the links of the course.  At the first
place where these differ one result goes on with a word that only links have before they are rewritten, and
nothing that follows makes the results equal again.
-/

namespace EdxPlatform.ContentLinks

open Rewriting

/-! ## Words and quotes -/

def words : List Text :=
  ["/static".toList, "/jump_to_id".toList, "/courses".toList, "/c4x".toList, "asset-v1".toList, "/asset-v1".toList]

theorem words_unmarked : ∀ word ∈ words, ∀ c ∈ word, c ∉ marks := by simp [words, marks]

variable {first second x y : Text}

theorem eq_of_append_eq {texts : List Text}
    (htexts : ∀ first ∈ texts, ∀ second ∈ texts, first <+: second → first = second)
    (hfst : first ∈ texts) (hsec : second ∈ texts) (heq : first ++ x = second ++ y) : first = second := by
  have hpre : first <+: second ++ y := ⟨x, heq⟩
  rcases List.prefix_or_prefix_of_prefix hpre (prefix_append second y) with hle | hle
  · exact htexts first hfst second hsec hle
  · exact (htexts second hsec first hfst hle).symm

theorem words_eq (hfst : first ∈ words) (hsec : second ∈ words) (heq : first ++ x = second ++ y) : first = second :=
  eq_of_append_eq (by simp [words]) hfst hsec heq

variable {quote : Text}

theorem quotes_eq {quote' : Text} (hquote : quote ∈ quotes) (hquote' : quote' ∈ quotes)
    (heq : quote ++ x = quote' ++ y) : quote = quote' :=
  eq_of_append_eq (by simp [quotes]) hquote hquote' heq

def Tidy (shared : Text) : Prop := ∀ c ∈ shared.getLast?, c = '\'' ∨ c = '"'

section

variable (hquote : quote ∈ quotes)
include hquote

theorem quote_tidy : Tidy quote := by
  rcases mem_quotes.mp hquote with rfl | rfl | rfl | rfl <;> simp [Tidy]

theorem quote_ne_nil : quote ≠ [] := by
  obtain ⟨mark, more, rfl, -⟩ := exists_mark hquote
  exact cons_ne_nil mark more

theorem quote_shape : ∃ c, (c = '\'' ∨ c = '"') ∧ (quote = [c] ∨ quote = ['\\', c]) := by
  rcases mem_quotes.mp hquote with rfl | rfl | rfl | rfl
  · exact ⟨_, .inl rfl, .inl rfl⟩
  · exact ⟨_, .inr rfl, .inl rfl⟩
  · exact ⟨_, .inl rfl, .inr rfl⟩
  · exact ⟨_, .inr rfl, .inr rfl⟩

end

variable {shared : Text}

theorem tidy_quote {left : Text} (hquote : quote ∈ quotes) (htidy : Tidy shared) (hne : shared ≠ [])
    (heq : quote = shared ++ left) : shared = quote := by
  obtain ⟨d, tail, rfl⟩ := exists_cons_of_ne_nil hne
  obtain ⟨c, -, rfl | rfl⟩ := quote_shape hquote
  · obtain ⟨rfl, htail⟩ := cons.inj heq
    rw [(append_eq_nil_iff.mp htail.symm).1]
  · obtain ⟨rfl, htail⟩ := cons.inj heq
    cases tail with
    | nil => exact absurd (htidy '\\' rfl) (by decide)
    | cons e tail =>
      obtain ⟨rfl, hnil⟩ := cons.inj htail
      rw [(append_eq_nil_iff.mp hnil.symm).1]

variable {back front : Text}

theorem Tidy.append (hback : Tidy back) (hne : back ≠ []) : Tidy (front ++ back) := by
  rwa [Tidy, getLast?_append_of_ne_nil front hne]

theorem Tidy.of_append (htidy : Tidy (front ++ back)) (hne : back ≠ []) : Tidy back := by
  rwa [Tidy, getLast?_append_of_ne_nil front hne] at htidy

theorem Tidy.eq_nil {text : Text} (htidy : Tidy text) (hunm : ∀ c ∈ text, c ∉ marks) : text = [] := by
  cases hlast : text.getLast? with
  | none => exact List.getLast?_eq_none_iff.mp hlast
  | some c =>
    have hmem := hunm c (List.mem_of_getLast? hlast)
    rcases htidy c hlast with rfl | rfl <;> exact absurd (by simp [marks]) hmem

theorem Tidy.cases {body tail behind : Text} (htidy : Tidy shared) (hne : shared ≠ [])
    (hquote : quote ∈ quotes) (hbody : ∀ c ∈ body, c ∉ marks)
    (heq : shared ++ behind = quote ++ (body ++ tail)) :
    shared = quote ∨ ∃ more, more ≠ [] ∧ shared = quote ++ (body ++ more) ∧ more ++ behind = tail := by
  rcases List.append_eq_append_iff.mp heq with ⟨left, hleft, -⟩ | ⟨more, rfl, hmore⟩
  · exact .inl (tidy_quote hquote htidy hne hleft)
  · by_cases hnil : more = []
    · subst hnil
      exact .inl (append_nil quote)
    · have hmor := htidy.of_append hnil
      rcases List.append_eq_append_iff.mp hmore with ⟨rest, rfl, hrest⟩ | ⟨rest, rfl, -⟩
      · refine .inr ⟨rest, ?_, rfl, hrest.symm⟩
        rintro rfl
        rw [append_nil] at hmor hnil
        exact hnil (hmor.eq_nil hbody)
      · exact absurd (hmor.eq_nil fun c hc => hbody c (mem_append_left rest hc)) hnil

/-! ## Rules for quotations -/

/-- The code's rule and the rule for links: both are about quotations that begin with certain words, and links
have no marks between their quotes. -/
structure Pass (code link : Rule Char) (heads : List Text) (portable : Text) : Prop where
  heads_words : ∀ head ∈ heads, head ∈ words
  portable_word : portable ∈ words
  portable_head : portable ∉ heads
  code_functional : code.Functional
  code_anywhere : ∀ {before matched rest new}, code before matched rest new → ∀ before', code before' matched rest new
  code_starts : ∀ {before matched rest new}, code before matched rest new → ∃ quote ∈ quotes, ∃ head ∈ heads,
    ∃ tail tail', matched = quote ++ (head ++ tail) ∧ new = quote ++ (portable ++ tail')
  link_anywhere : ∀ {before matched rest new}, link before matched rest new →
    ∀ before' rest', before'.getLast? = before.getLast? → link before' matched rest' new
  link_escaped : ∀ {before matched rest new}, link before matched rest new → before.getLast? = some '\\' →
    matched.head? = some '\\'
  link_starts : ∀ {before matched rest new}, link before matched rest new → ∃ quote ∈ quotes, ∃ head ∈ heads,
    ∃ tail tail', matched = quote ++ ((head ++ tail) ++ quote) ∧ (∀ c ∈ head ++ tail, c ∉ marks) ∧
      new = quote ++ (portable ++ tail')

def StartsQuoted (rule : Rule Char) : Prop :=
  ∀ ⦃before matched rest new⦄, rule before matched rest new → ∃ quote ∈ quotes, quote <+: matched

def Follows (code link : Rule Char) : Prop :=
  ∀ ⦃before matched rest new⦄, link before matched rest new → ∀ before' rest', code before' matched rest' new

def Misses (code link : Rule Char) : Prop :=
  ∀ ⦃before quote body rest new⦄, quote ∈ quotes → link before (quote ++ (body ++ quote)) rest new →
    ∀ before' rest', code.Quiet before' quote (body ++ (quote ++ rest'))

def Parted (among : List Text) (shared x y : Text) : Prop :=
  ∃ first ∈ among, ∃ second ∈ among, first ≠ second ∧ ∃ x' y', x = shared ++ (first ++ x') ∧
    y = shared ++ (second ++ y')

namespace Parted

variable {among : List Text} {shared x y : Text}

theorem symm (hpar : Parted among shared x y) : Parted among shared y x := by
  obtain ⟨first, hfst, second, hsec, hne, x', y', rfl, rfl⟩ := hpar
  exact ⟨second, hsec, first, hfst, hne.symm, y', x', rfl, rfl⟩

theorem ne (hpar : Parted among shared x y) (hwords : ∀ word ∈ among, word ∈ words) : x ≠ y := by
  obtain ⟨first, hfst, second, hsec, hne, x', y', rfl, rfl⟩ := hpar
  exact fun heq => hne (words_eq (hwords first hfst) (hwords second hsec) (append_cancel_left heq))

theorem mono {others : List Text} (hpar : Parted among shared x y) (hoths : ∀ word ∈ among, word ∈ others) :
    Parted others shared x y := by
  obtain ⟨first, hfst, second, hsec, hrest⟩ := hpar
  exact ⟨first, hoths first hfst, second, hoths second hsec, hrest⟩

theorem prepend (front : Text) (hpar : Parted among shared x y) :
    Parted among (front ++ shared) (front ++ x) (front ++ y) := by
  obtain ⟨first, hfst, second, hsec, hne, x', y', rfl, rfl⟩ := hpar
  exact ⟨first, hfst, second, hsec, hne, x', y', by rw [append_assoc], by rw [append_assoc]⟩

end Parted

/-! ## One pass -/

namespace Pass

variable {code link : Rule Char} {heads : List Text} {portable before text result result' : Text} {word : Text}

theorem quiet_word {rule : Rule Char} (hstar : StartsQuoted rule) (hword : ∀ c ∈ word, c ∉ marks)
    (before rest : Text) : rule.Quiet before word rest := by
  rintro passed left rfl hleft ⟨matched, rest', new, htext, hrule⟩
  obtain ⟨quote, hquote, tail, rfl⟩ := hstar hrule
  obtain ⟨mark, more, rfl, hmark⟩ := exists_mark hquote
  obtain ⟨c, left, rfl⟩ := exists_cons_of_ne_nil hleft
  obtain rfl := (cons.inj htext).1
  exact hword c (mem_append_right passed mem_cons_self) hmark

variable (hpass : Pass code link heads portable)
include hpass

theorem pass_words : ∀ word ∈ portable :: heads, word ∈ words :=
  forall_mem_cons.mpr ⟨hpass.portable_word, hpass.heads_words⟩

theorem code_quoted : StartsQuoted code := by
  intro before matched rest new hcode
  obtain ⟨quote, hquote, head, -, tail, -, rfl, -⟩ := hpass.code_starts hcode
  exact ⟨quote, hquote, prefix_append quote _⟩

theorem link_quoted : StartsQuoted link := by
  intro before matched rest new hlink
  obtain ⟨quote, hquote, head, -, tail, -, rfl, -⟩ := hpass.link_starts hlink
  exact ⟨quote, hquote, prefix_append quote _⟩

variable {quote rest : Text}

theorem link_quiet (hquote : quote ∈ quotes) (hnone : ¬ link.At before (quote ++ rest)) :
    link.Quiet before quote rest := by
  intro passed left heq hleft
  cases passed with
  | nil =>
    obtain rfl : quote = left := heq
    rwa [append_nil]
  | cons d passed =>
    obtain ⟨c, hc, rfl | rfl⟩ := quote_shape hquote
    · exact absurd (append_eq_nil_iff.mp (cons.inj heq).2.symm).2 hleft
    · obtain ⟨rfl, htail⟩ := cons.inj heq
      cases passed with
      | nil =>
        subst htail
        rintro ⟨matched, rest', new, htext, hrule⟩
        have hhead := hpass.link_escaped hrule (by simp)
        obtain ⟨quote, hquote, tail, rfl⟩ := hpass.link_quoted hrule
        obtain ⟨mark, more, rfl, -⟩ := exists_mark hquote
        obtain rfl := (cons.inj htext).1
        obtain rfl : c = '\\' := some.inj hhead
        exact absurd hc (by decide)
      | cons e passed => exact absurd (append_eq_nil_iff.mp (cons.inj htail).2.symm).2 hleft

variable {head : Text}

/-- Where one rule rewrites a quotation and the other does nothing at its quote, the results part there. -/
theorem parted_at {rule : Rule Char} (hstar : StartsQuoted rule)
    (hhead : head ∈ heads) (hquiet : rule.Quiet before quote (head ++ rest))
    (hrepd : Replaced rule before (quote ++ (head ++ rest)) result) (tail : Text) :
    Parted (portable :: heads) quote (quote ++ (portable ++ tail)) result := by
  have hword := hpass.heads_words head hhead
  rw [← append_assoc] at hrepd
  obtain ⟨behind, rfl, -⟩ := hrepd.front
    (hquiet.append (quiet_word hstar (words_unmarked head hword) (before ++ quote) rest))
  refine ⟨portable, mem_cons_self, head, mem_cons_of_mem _ hhead, ?_, tail, behind, rfl, append_assoc _ _ _⟩
  rintro rfl
  exact hpass.portable_head hhead

theorem link_functional (hfol : Follows code link) : link.Functional := by
  intro before matched rest new matched' rest' new' htext hlink hlink'
  exact hpass.code_functional htext (hfol hlink before rest) (hfol hlink' before rest')

theorem not_link_at_nil : ¬ link.At before [] := by
  rintro ⟨matched, rest, new, htext, hrule⟩
  obtain ⟨quote, hquote, tail, rfl⟩ := hpass.link_quoted hrule
  exact quote_ne_nil hquote (append_eq_nil_iff.mp (append_eq_nil_iff.mp htext.symm).1).1

variable {matched new : Text}

section

variable (hmis : Misses code link) (hlink : link before matched rest new) (before' rest' : Text)
include hmis hlink

theorem not_code_at : ¬ code.At before' (matched ++ rest') := by
  obtain ⟨quote, hquote, head, -, tail, -, rfl, -⟩ := hpass.link_starts hlink
  have hnone := hmis hquote hlink before' rest' [] quote rfl (quote_ne_nil hquote)
  simpa only [append_nil, append_assoc] using hnone

theorem parted_at_link (hcode : Replaced code before' (matched ++ rest') result) (behind : Text) :
    ∃ shared, Tidy shared ∧ shared ≠ [] ∧ Parted (portable :: heads) shared result (new ++ behind) := by
  obtain ⟨quote, hquote, head, hhead, tail, tail', rfl, -, rfl⟩ := hpass.link_starts hlink
  have hquiet := hmis hquote hlink before' rest'
  refine ⟨quote, quote_tidy hquote, quote_ne_nil hquote, Parted.symm ?_⟩
  simp only [append_assoc] at hcode hquiet ⊢
  exact hpass.parted_at hpass.code_quoted hhead hquiet hcode (tail' ++ behind)

end

theorem parted_at_code (hcode : code before matched rest new) {before' rest' : Text}
    (hnone : ¬ link.At before' (matched ++ rest')) (hlink : Replaced link before' (matched ++ rest') result)
    (behind : Text) : ∃ shared, Tidy shared ∧ shared ≠ [] ∧
      Parted (portable :: heads) shared (new ++ behind) result := by
  obtain ⟨quote, hquote, head, hhead, tail, tail', rfl, rfl⟩ := hpass.code_starts hcode
  refine ⟨quote, quote_tidy hquote, quote_ne_nil hquote, ?_⟩
  simp only [append_assoc] at hnone hlink ⊢
  exact hpass.parted_at hpass.link_quoted hhead (hpass.link_quiet hquote hnone) hlink (tail' ++ behind)

theorem agrees_or_parted (hway : Follows code link ∨ Misses code link)
    (hcode : Replaced code before text result) (hlink : Replaced link before text result') :
    (∀ place, Visits link (before, text) place → (code.At place.1 place.2 ↔ link.At place.1 place.2)) ∨
      ∃ shared, Tidy shared ∧ shared ≠ [] ∧ Parted (portable :: heads) shared result result' := by
  induction hcode generalizing result' with
  | @done before hnone =>
    refine .inl fun place hvis => ?_
    rcases Relation.ReflTransGen.cases_head hvis with rfl | ⟨middle, hnxt, -⟩
    · exact iff_of_false hnone hpass.not_link_at_nil
    · generalize hnil : (before, ([] : Text)) = place' at hnxt
      cases hnxt with
      | link htext hrule =>
        obtain ⟨rfl, rfl⟩ := Prod.mk.inj hnil
        exact absurd ⟨_, _, _, htext, hrule⟩ hpass.not_link_at_nil
      | keep => cases hnil
  | @link before matched rest new result text htext hrule hrest ih =>
    by_cases hat : link.At before text
    · cases hlink with
      | done hnone => exact absurd hat hnone
      | @link _ matched' rest' new' result' _ htext' hrule' hrest' =>
        rcases hway with hfol | hmis
        · have hrule'' := hfol hrule' before rest'
          obtain ⟨rfl, rfl⟩ := hpass.code_functional (htext.symm.trans htext') hrule hrule''
          obtain rfl := append_cancel_left (htext.symm.trans htext')
          rcases ih hrest' with hagr | ⟨shared, htidy, hne, hpar⟩
          · refine .inl fun place hvis => ?_
            rcases Relation.ReflTransGen.cases_head hvis with rfl | ⟨middle, hnxt, hbeh⟩
            · exact iff_of_true ⟨_, _, _, htext, hrule⟩ hat
            · cases hnxt with
              | link htext'' hlink'' =>
                obtain ⟨rfl, -⟩ := hpass.link_functional hfol (htext.symm.trans htext'') hrule' hlink''
                obtain rfl := append_cancel_left (htext.symm.trans htext'')
                exact hagr place hbeh
              | keep hnone => exact absurd hat hnone
          · exact .inr ⟨new ++ shared, htidy.append hne, List.append_ne_nil_of_right_ne_nil new hne, hpar.prepend new⟩
        · have hnone := hpass.not_code_at hmis hrule' before rest'
          exact absurd ⟨_, _, _, htext'.symm.trans htext, hrule⟩ hnone
      | keep hnone => exact absurd hat hnone
    · subst htext
      exact .inr (hpass.parted_at_code hrule hat hlink result)
  | @keep before rest result c hnone hrest ih =>
    cases hlink with
    | @link _ matched rest' new result' _ htext hrule hrest' =>
      rcases hway with hfol | hmis
      · exact absurd ⟨_, _, _, htext, hfol hrule before rest'⟩ hnone
      · refine .inr (hpass.parted_at_link hmis hrule before rest' ?_ result')
        rw [← htext]
        exact .keep hnone hrest
    | keep hnone' hrest' =>
      rcases ih hrest' with hagr | ⟨shared, htidy, hne, hpar⟩
      · refine .inl fun place hvis => ?_
        rcases Relation.ReflTransGen.cases_head hvis with rfl | ⟨middle, hnxt, hbeh⟩
        · exact iff_of_false hnone hnone'
        · cases hnxt with
          | link htext hrule => exact absurd ⟨_, _, _, htext, hrule⟩ hnone'
          | keep => exact hagr place hbeh
      · refine .inr ⟨[c] ++ shared, htidy.append hne, List.append_ne_nil_of_right_ne_nil [c] hne, ?_⟩
        exact hpar.prepend [c]

variable {behind shared : Text}

/-- A quotation that begins with a head begins within what texts share, when these go on with other words. -/
theorem head_within {tail : Text} (htidy : Tidy shared) (hne : shared ≠ [])
    (hword : word ∈ words) (hoth : word ∉ heads) (hquote : quote ∈ quotes) (hhead : head ∈ heads)
    (heq : shared ++ (word ++ behind) = quote ++ (head ++ tail)) : ∃ more, shared = quote ++ (head ++ more) := by
  have hheadW := hpass.heads_words head hhead
  rcases htidy.cases hne hquote (words_unmarked head hheadW) heq with rfl | ⟨more, -, hmore, -⟩
  · obtain rfl := words_eq hword hheadW (append_cancel_left heq)
    exact absurd hhead hoth
  · exact ⟨more, hmore⟩

theorem link_within (htidy : Tidy shared) (hne : shared ≠ [])
    (hword : word ∈ words) (hoth : word ∉ heads) (hlink : link before matched rest new)
    (heq : shared ++ (word ++ behind) = matched ++ rest) : ∃ more, shared = matched ++ more ∧ Tidy more := by
  obtain ⟨quote, hquote, head, hhead, tail, -, rfl, hbody, -⟩ := hpass.link_starts hlink
  have heq' : shared ++ (word ++ behind) = quote ++ ((head ++ tail) ++ (quote ++ rest)) := by
    rw [heq]
    simp only [append_assoc]
  rcases htidy.cases hne hquote hbody heq' with rfl | ⟨more, hmoreNe, rfl, hmore⟩
  · have hhere := append_cancel_left heq'
    rw [append_assoc] at hhere
    obtain rfl := words_eq hword (hpass.heads_words head hhead) hhere
    exact absurd hhead hoth
  · have hmor : Tidy more := by
      rw [← append_assoc] at htidy
      exact htidy.of_append hmoreNe
    rcases hmor.cases hmoreNe hquote (forall_mem_nil _) hmore with rfl | ⟨last, hlastNe, rfl, -⟩
    · exact ⟨[], by simp only [append_assoc, append_nil], fun c hc => by cases hc⟩
    · rw [nil_append] at hmor ⊢
      exact ⟨last, by simp only [append_assoc], hmor.of_append hlastNe⟩

theorem stays_parted (hway : Follows code link ∨ Misses code link) {first second x' y' : Text}
    (htidy : Tidy shared) (hfst : first ∈ words) (hsec : second ∈ words) (hne : first ≠ second)
    (hfir : first ∉ heads) (hseco : second ∉ heads) {beforeX beforeY : Text}
    (hlast : beforeX.getLast? = beforeY.getLast?)
    (hcode : Replaced code beforeX (shared ++ (first ++ x')) result)
    (hlink : Replaced link beforeY (shared ++ (second ++ y')) result') :
    ∃ shared', Parted words shared' result result' := by
  induction hlen : shared.length using Nat.strongRecOn generalizing shared beforeX beforeY result result' with
  | ind length ih =>
    subst hlen
    by_cases hnil : shared = []
    · subst hnil
      rw [nil_append] at hcode hlink
      obtain ⟨behindX, rfl, -⟩ := hcode.front (quiet_word hpass.code_quoted (words_unmarked first hfst) beforeX x')
      obtain ⟨behindY, rfl, -⟩ := hlink.front (quiet_word hpass.link_quoted (words_unmarked second hsec) beforeY y')
      exact ⟨[], first, hfst, second, hsec, hne, behindX, behindY, rfl, rfl⟩
    · generalize hx : shared ++ (first ++ x') = x at hcode
      generalize hy : shared ++ (second ++ y') = y at hlink
      cases hcode with
      | done => exact absurd (append_eq_nil_iff.mp hx).1 hnil
      | @link _ matched rest new result _ htext hrule hrest =>
        by_cases hat : link.At beforeY y
        · cases hlink with
          | done hnone => exact absurd hat hnone
          | @link _ matched' rest' new' result' _ htext' hrule' hrest' =>
            obtain ⟨more, rfl, hmore⟩ := hpass.link_within htidy hnil hsec hseco hrule' (hy.trans htext')
            rw [append_assoc] at hx hy
            rcases hway with hfol | hmis
            · have hrule'' := hfol hrule' beforeX (more ++ (first ++ x'))
              obtain ⟨rfl, rfl⟩ := hpass.code_functional (htext.symm.trans hx.symm) hrule hrule''
              obtain rfl := append_cancel_left (hx.trans htext)
              obtain rfl := append_cancel_left (hy.trans htext')
              obtain ⟨quote, hquote, behind, rfl⟩ := hpass.code_quoted hrule
              have hmat : quote ++ behind ≠ [] := append_ne_nil_of_left_ne_nil (quote_ne_nil hquote) behind
              have hshor : more.length < (quote ++ behind ++ more).length := by
                rw [length_append]
                exact Nat.lt_add_of_pos_left (length_pos_iff.mpr hmat)
              have hlast' : (beforeX ++ (quote ++ behind)).getLast? = (beforeY ++ (quote ++ behind)).getLast? := by
                rw [getLast?_append_of_ne_nil _ hmat, getLast?_append_of_ne_nil _ hmat]
              obtain ⟨shared', hpar⟩ := ih more.length hshor hmore hlast' hrest hrest' rfl
              exact ⟨_, hpar.prepend new⟩
            · have hnone := hpass.not_code_at hmis hrule' beforeX (more ++ (first ++ x'))
              exact absurd ⟨_, _, _, hx.trans htext, hrule⟩ hnone
          | keep hnone => exact absurd hat hnone
        · obtain ⟨quote, hquote, head, hhead, tail, tail', rfl, rfl⟩ := hpass.code_starts hrule
          have hbeg : shared ++ (first ++ x') = quote ++ (head ++ (tail ++ rest)) := by
            rw [hx, htext]
            simp only [append_assoc]
          obtain ⟨more, rfl⟩ := hpass.head_within htidy hnil hfst hfir hquote hhead hbeg
          subst hy
          simp only [append_assoc] at hat hlink ⊢
          exact ⟨quote, (hpass.parted_at hpass.link_quoted hhead (hpass.link_quiet hquote hat) hlink
            (tail' ++ result)).mono hpass.pass_words⟩
      | @keep _ rest result c hnone hrest =>
        cases hlink with
        | done => exact absurd (append_eq_nil_iff.mp hy).1 hnil
        | @link _ matched' rest' new' result' _ htext' hrule' hrest' =>
          obtain ⟨more, rfl, hmore⟩ := hpass.link_within htidy hnil hsec hseco hrule' (hy.trans htext')
          rw [append_assoc] at hx
          rcases hway with hfol | hmis
          · exact absurd ⟨_, _, _, hx.symm, hfol hrule' beforeX (more ++ (first ++ x'))⟩ hnone
          · obtain ⟨shared', -, -, hpar⟩ := hpass.parted_at_link hmis hrule' beforeX
              (more ++ (first ++ x')) (hx.symm ▸ Replaced.keep hnone hrest) result'
            exact ⟨shared', hpar.mono hpass.pass_words⟩
        | @keep _ rest' result' d hnone' hrest' =>
          obtain ⟨e, more, rfl⟩ := exists_cons_of_ne_nil hnil
          obtain ⟨rfl, rfl⟩ := cons.inj hx
          obtain ⟨rfl, rfl⟩ := cons.inj hy
          have hmore : Tidy more := by
            by_cases hemp : more = []
            · subst hemp
              exact fun c hc => by cases hc
            · have hcons : Tidy ([e] ++ more) := htidy
              exact hcons.of_append hemp
          have hlast' : (beforeX ++ [e]).getLast? = (beforeY ++ [e]).getLast? := by
            rw [getLast?_concat, getLast?_concat]
          obtain ⟨shared', hpar⟩ := ih more.length (lt_succ_self _) hmore hlast' hrest hrest' rfl
          exact ⟨_, hpar.prepend [e]⟩

end Pass

end EdxPlatform.ContentLinks
