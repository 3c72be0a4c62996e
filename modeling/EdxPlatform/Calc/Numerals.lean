import EdxPlatform.Calc.Expressions

/-!
# Reading a number

A literal, with the sign directly in front of it, is read as one node up to an operator, a closing
parenthesis or the end of the text.
-/

namespace EdxPlatform.Calc

open OrderedChoice ParseTree

abbrev Piece := Chunk NodeName Used

def operatorChars : List Char := ['^', '|', '*', '/', '+', '-', ')']

theorem operatorChars_spec : operatorChars.all (fun c =>
    !c.isDigit && c != '.' && c.toLower != 'E'.toLower && !isBlank c && c != '(' &&
      !isNameChar c && !(suffixes.map Prod.fst).contains c) = true := by
  decide

def signTokens (sign : Option Sign) : List (List Char) := (signText sign).map ([·])

@[simp]
theorem flatten_signTokens (sign : Option Sign) : (signTokens sign).flatten = signText sign := by
  cases sign <;> rfl

def NoSign (c : Char) : Prop := isSpace c = false ∧ c ≠ '+' ∧ c ≠ '-'

theorem NoSign.not_isBlank {c : Char} (hc : NoSign c) : isBlank c = false := by
  have hspace := hc.1
  simp only [isSpace, or_eq_false_iff] at hspace
  exact hspace.1.1

theorem reads_plusMinus (sign : Sign) : Reads plusMinus (fun _ => True) ⟨[sign.char], [.token [sign.char]], []⟩ :=
  reads_either rfl rfl (by decide) (by cases sign <;> simp [Sign.char])

variable {input : List Char}

theorem refuses_plusMinus (hinput : GoesOn NoSign input) : Refuses plusMinus input :=
  refuses_either (hinput.mono fun _ hc => ⟨hc.not_isBlank, hc.2⟩)

theorem reads_sign_some (sign : Sign) : Reads (optional plusMinus) (fun _ => True)
      ⟨signText (some sign), (signTokens (some sign)).map .token, []⟩ :=
  (reads_plusMinus sign).optional

theorem reads_sign (sign : Option Sign) :
    Reads (optional plusMinus) NoSign ⟨signText sign, (signTokens sign).map .token, []⟩ := by
  cases sign with
  | none => exact reads_optional_empty fun rest hrest => refuses_plusMinus hrest
  | some sign => exact (reads_sign_some sign).mono fun _ _ => trivial

def NoDigit (c : Char) : Prop := c.isDigit = false

theorem noSign_of_isDigit {c : Char} (hc : c.isDigit) : NoSign c := by
  have hne : ∀ d : Char, d.isDigit = false → c ≠ d := fun d hd heq => by
    rw [heq, hd] at hc
    exact false_ne_true hc
  refine ⟨?_, hne _ rfl, hne _ rfl⟩
  simp [isSpace, isBlank, hne ' ' rfl, hne '\n' rfl, hne '\t' rfl, hne '\r' rfl, hne '\x0b' rfl, hne '\x0c' rfl]

variable {digits : List Char}

theorem reads_numberPart (hne : digits ≠ []) (hdig : ∀ c ∈ digits, c.isDigit) :
    Reads numberPart NoDigit ⟨digits, [.token digits], []⟩ := by
  cases digits with
  | nil => exact absurd rfl hne
  | cons c digits => exact reads_word (hdig c mem_cons_self) fun d hd => hdig d (mem_cons_of_mem c hd)

theorem refuses_numberPart (hinput : GoesOn NoDigit input) : Refuses numberPart input := refuses_word hinput

theorem reads_optional_digits (hdig : ∀ c ∈ digits, c.isDigit) : ∃ trees : List Tree, trees.flatMap ownText = digits ∧
      Reads (optional numberPart) NoDigit ⟨digits, trees, []⟩ := by
  by_cases hne : digits = []
  · subst hne
    exact ⟨[], rfl, reads_optional_empty fun rest hrest => refuses_numberPart hrest⟩
  · exact ⟨[.token digits], by simp [ownText], (reads_numberPart hne hdig).optional⟩

theorem Literal.mantissa_start (literal : Literal) : literal.mantissa ≠ [] ∧ GoesOn NoSign literal.mantissa := by
  obtain ⟨whole, fraction, _, _, hwhole, _, hne, _⟩ := literal
  cases whole with
  | nil =>
    cases fraction with
    | none => exact absurd rfl hne
    | some digits => exact ⟨cons_ne_nil _ _, goesOn_cons.mpr ⟨rfl, by decide⟩⟩
  | cons c whole => exact ⟨cons_ne_nil _ _, goesOn_cons.mpr (noSign_of_isDigit (hwhole c mem_cons_self))⟩

def NoMantissa (c : Char) : Prop := NoDigit c ∧ c ≠ '.'

theorem reads_innerNumber (literal : Literal) :
    Reads innerNumber NoMantissa ⟨literal.mantissa, [.token literal.mantissa], []⟩ := by
  have hman := literal.mantissa_start
  obtain ⟨whole, fraction, _, _, hwhole, hfrac, hne, _⟩ := literal
  suffices ∃ chunk : Piece, chunk.text = whole ++ fraction.elim [] ('.' :: ·) ∧
      chunk.trees.flatMap ownText = chunk.text ∧ chunk.recorded = [] ∧
      Reads (orElse (andThen numberPart (optional (andThen (exactly ['.']) (optional numberPart))))
        (andThen (exactly ['.']) numberPart)) NoMantissa chunk by
    obtain ⟨⟨text, trees, recorded⟩, rfl, htrees, rfl, hread⟩ := this
    exact (hread.combine hman.1 (hman.2.mono fun _ hc => hc.not_isBlank)).of_eq (by rw [htrees]; rfl)
  by_cases hemp : whole = []
  · subst hemp
    cases fraction with
    | none => exact absurd rfl hne
    | some digits =>
      have hread := (reads_exactly ['.']).andThen
        (reads_numberPart (by simpa using hne) (hfrac digits rfl)) fun _ _ _ _ => trivial
      refine ⟨_, ?_, ?_, ?_, (hread.mono fun c hc => hc.1).orElse_right fun rest _ => ?_⟩
      · rfl
      · simp [ownText]
      · rfl
      · exact (refuses_numberPart (goesOn_cons.mpr (show NoDigit '.' from rfl))).andThen
  · have hread := reads_numberPart hemp hwhole
    cases fraction with
    | none =>
      refine ⟨_, ?_, ?_, ?_, (hread.andThen (reads_optional_empty fun rest hrest => ?_)
        fun rest hrest => hrest.mono fun c hc => hc.1).orElse_left⟩
      · rfl
      · simp [ownText, Chunk.empty]
      · rfl
      · exact (refuses_exactly fun hmem => (hrest _ hmem).2 rfl).andThen
    | some digits =>
      obtain ⟨trees, htrees, hdig⟩ := reads_optional_digits (hfrac digits rfl)
      have hpoint := (reads_exactly ['.']).andThen hdig fun _ _ _ _ => trivial
      refine ⟨_, ?_, ?_, ?_, (hread.andThen (hpoint.mono fun c hc => hc.1).optional
        fun rest _ => goesOn_cons.mpr rfl).orElse_left⟩
      · rfl
      · simp [ownText, htrees]
      · rfl

/-! ## The number rule -/

def AfterNumber (c : Char) : Prop :=
  NoMantissa c ∧ c.toLower ≠ 'E'.toLower ∧ isBlank c = false ∧ c ∉ suffixes.map Prod.fst

theorem afterNumber_of_mem {c : Char} (hc : c ∈ operatorChars) : AfterNumber c := by
  have hspec := all_eq_true.mp operatorChars_spec c hc
  simp only [and_eq_true, not_eq_true', bne_iff_ne, List.contains_eq_mem, decide_eq_false_iff_not] at hspec
  obtain ⟨⟨⟨⟨⟨⟨hdigit, hpoint⟩, hmark⟩, hblank⟩, _⟩, _⟩, hsuf⟩ := hspec
  exact ⟨⟨hdigit, hpoint⟩, hmark, hblank, hsuf⟩

def exponentTokens (exponent : Exponent) : List (List Char) := ['E'] :: (signTokens exponent.sign ++ [exponent.digits])

section

variable (exponent : Exponent)

theorem Exponent.mark_eq : exponent.mark = 'e' ∨ exponent.mark = 'E' := by
  simpa [isExponentMark] using exponent.isMark

theorem Exponent.noMantissa_mark : NoMantissa exponent.mark := by
  rcases exponent.mark_eq with heq | heq <;> rw [heq] <;> exact ⟨rfl, by decide⟩

theorem reads_exponentPart : Reads exponentPart NoDigit ⟨exponent.text, (exponentTokens exponent).map .token, []⟩ := by
  have hmark := exponent.mark_eq
  obtain ⟨mark, sign, digits, _, hne, hdig⟩ := exponent
  have hlower : mark.toLower = 'E'.toLower := by
    rcases hmark with rfl | rfl <;> rfl
  have hblank : isBlank mark = false := by
    rcases hmark with rfl | rfl <;> rfl
  have hst : GoesOn NoSign digits := by
    intro c hc
    exact noSign_of_isDigit (hdig c (mem_of_mem_head? hc))
  have hpart := (reads_numberPart hne hdig).lexeme hne (hst.mono fun _ hc => hc.not_isBlank)
  have hmar := (reads_caseless (ν := NodeName) (ω := Used) hlower).lexeme (cons_ne_nil _ _) (goesOn_cons.mpr hblank)
  refine (hmar.andThen ((reads_sign sign).andThen hpart fun rest _ => hst.append hne) fun _ _ _ _ => trivial).of_eq ?_
  simp [exponentTokens, Exponent.text, Chunk.ext_iff]

end

theorem refuses_exponentPart (hinput : GoesOn (fun c => c.toLower ≠ 'E'.toLower ∧ isBlank c = false) input) :
    Refuses exponentPart input :=
  ((refuses_caseless fun c hc => (hinput c hc).1).lexeme fun c hc => (hinput c hc).2).andThen

theorem reads_optional_exponent (exponent : Option Exponent) : Reads (optional exponentPart)
      (fun c => NoDigit c ∧ c.toLower ≠ 'E'.toLower ∧ isBlank c = false)
      ⟨exponent.elim [] Exponent.text, (exponent.elim [] exponentTokens).map .token, []⟩ := by
  cases exponent with
  | none => exact reads_optional_empty fun rest hrest => refuses_exponentPart (hrest.mono fun c hc => hc.2)
  | some exponent => exact ((reads_exponentPart exponent).mono fun c hc => hc.1).optional

theorem suffix_spec {entry : Char × ℤ} (hent : entry ∈ suffixes) :
    NoMantissa entry.1 ∧ entry.1.toLower ≠ 'E'.toLower ∧ isBlank entry.1 = false := by
  have hall : suffixes.all (fun entry => !entry.1.isDigit && entry.1 != '.' &&
      entry.1.toLower != 'E'.toLower && !isBlank entry.1) = true := by decide
  have hspec := all_eq_true.mp hall entry hent
  simp only [and_eq_true, not_eq_true', bne_iff_ne] at hspec
  obtain ⟨⟨⟨hdigit, hpoint⟩, hmark⟩, hblank⟩ := hspec
  exact ⟨⟨hdigit, hpoint⟩, hmark, hblank⟩

section

variable (suffix : Option (Char × ℤ))

def suffixTokens : List (List Char) := suffix.elim [] fun entry => [[entry.1]]

@[simp]
theorem flatten_suffixTokens : (suffixTokens suffix).flatten = suffix.elim [] fun entry => [entry.1] := by
  cases suffix <;> rfl

theorem reads_optional_suffix (hsuf : ∀ entry ∈ suffix, entry ∈ suffixes) : Reads (optional numberSuffix) AfterNumber
      ⟨suffix.elim [] fun entry => [entry.1], (suffixTokens suffix).map .token, []⟩ := by
  cases suffix with
  | none =>
    refine reads_optional_empty fun rest hrest => refuses_matchFirst ?_
    intro rule hrule
    obtain ⟨entry, hent, rfl⟩ := mem_map.mp hrule
    refine refuses_literal (hrest.mono fun c hc => ⟨hc.2.2.1, fun heq => hc.2.2.2 ?_⟩)
    exact heq ▸ mem_map_of_mem hent
  | some entry =>
    have hnod : (suffixes.map Prod.fst).Nodup := by decide
    obtain ⟨before, behind, heq⟩ := append_of_mem (hsuf entry rfl)
    have hthis := (suffix_spec (hsuf entry rfl)).2.2
    have hread : Reads (literal [entry.1]) AfterNumber (⟨[entry.1], [.token [entry.1]], []⟩ : Piece) :=
      (reads_literal hthis).mono fun _ _ => trivial
    refine Reads.optional ?_
    rw [numberSuffix, heq, map_append, map_cons]
    refine hread.matchFirst fun rule hrule rest _ => ?_
    obtain ⟨other, hoth, rfl⟩ := mem_map.mp hrule
    refine refuses_literal (goesOn_cons.mpr ⟨hthis, fun hsame => ?_⟩)
    rw [heq, map_append, map_cons] at hnod
    exact (nodup_append.mp hnod).2.2 _ (mem_map_of_mem hoth) _ mem_cons_self hsame.symm

end

def numberTokens (sign : Option Sign) (literal : Literal) : List (List Char) :=
  signTokens sign ++ (literal.mantissa :: (literal.exponent.elim [] exponentTokens ++ suffixTokens literal.suffix))

theorem reads_number (sign : Option Sign) (literal : Literal) : Reads number AfterNumber
      ⟨signText sign ++ literal.text, [.node .number ((numberTokens sign literal).map .token)], []⟩ := by
  obtain ⟨hne, hst⟩ := literal.mantissa_start
  have hsuf := reads_optional_suffix literal.suffix literal.isSuffix
  have haft : ∀ rest, GoesOn AfterNumber rest →
      GoesOn (fun c => NoMantissa c ∧ c.toLower ≠ 'E'.toLower ∧ isBlank c = false)
        ((literal.suffix.elim [] fun entry => [entry.1]) ++ rest) := by
    intro rest hrest
    cases hcase : literal.suffix with
    | none => exact hrest.mono fun c hc => ⟨hc.1, hc.2.1, hc.2.2.1⟩
    | some entry => exact goesOn_cons.mpr (suffix_spec (literal.isSuffix entry hcase))
  have hexp := (reads_optional_exponent literal.exponent).andThen hsuf fun rest hrest =>
    (haft rest hrest).mono fun c hc => ⟨hc.1.1, hc.2⟩
  have hinner := (reads_innerNumber literal).andThen hexp fun rest hrest => by
    cases hcase : literal.exponent with
    | none => exact (haft rest hrest).mono fun c hc => hc.1
    | some exponent => exact goesOn_cons.mpr exponent.noMantissa_mark
  have hsign := (reads_sign sign).andThen hinner fun rest _ => by
    rw [Chunk.append_text, append_assoc]
    exact hst.append hne
  refine hsign.group.of_eq ?_
  simp [numberTokens, Literal.text]

section

variable {K : Type} [Field K]

theorem splitSign_signText (sign : Option Sign) {text : List Char} (htext : GoesOn NoSign text) :
    splitSign (signText sign ++ text) = (sign.getD .plus, text) := by
  cases sign with
  | some sign => cases sign <;> rfl
  | none =>
    cases text with
    | nil => rfl
    | cons c text =>
      obtain ⟨_, hplus, hminus⟩ := goesOn_cons.mp htext
      change splitSign (c :: text) = _
      rw [splitSign]
      · rfl
      · exact fun _ heq => hplus (cons.inj heq).1
      · exact fun _ heq => hminus (cons.inj heq).1

theorem readExponent_eq (exponent : Option Exponent) :
    readExponent ((exponent.elim [] exponentTokens).flatten) = some (exponent.elim 0 Exponent.value) := by
  cases exponent with
  | none => rfl
  | some exponent =>
    obtain ⟨mark, sign, digits, _, hne, hdig⟩ := exponent
    have hst : GoesOn NoSign digits := fun c hc => noSign_of_isDigit (hdig c (mem_of_mem_head? hc))
    have htext : (exponentTokens ⟨mark, sign, digits, ‹_›, hne, hdig⟩).flatten = 'E' :: (signText sign ++ digits) := by
      simp [exponentTokens]
    rw [elim_some, htext, readExponent, splitSign_signText sign hst]
    simp only
    rw [if_pos ⟨hne, all_eq_true.mpr hdig⟩]
    cases sign with
    | none => rfl
    | some sign => cases sign <;> rfl

theorem Literal.mantissa_noMark (literal : Literal) : ∀ c ∈ literal.mantissa, (!isExponentMark c) = true := by
  obtain ⟨whole, fraction, _, _, hwhole, hfrac, _, _⟩ := literal
  have hdigit : ∀ c : Char, c.isDigit → (!isExponentMark c) = true := by
    intro c hc
    have hne : ∀ d : Char, d.isDigit = false → c ≠ d := fun d hd heq => by
      rw [heq, hd] at hc
      exact false_ne_true hc
    simp [isExponentMark, hne 'e' rfl, hne 'E' rfl]
  intro c hc
  rcases mem_append.mp hc with hc | hc
  · exact hdigit c (hwhole c hc)
  · cases fraction with
    | none => cases hc
    | some digits =>
      rcases mem_cons.mp hc with rfl | hc
      · rfl
      · exact hdigit c (hfrac digits rfl c hc)

section

variable (sign : Option Sign) (literal : Literal)

theorem readFloat_eq : readFloat (signText sign ++
      (literal.mantissa ++ (literal.exponent.elim [] exponentTokens).flatten)) =
      some ((sign.getD .plus).apply (decimal literal.whole (literal.fraction.getD [])
        (literal.exponent.elim 0 Exponent.value)) : K) := by
  have hst := literal.mantissa_start
  have hexp : GoesOn (fun c => (!isExponentMark c) = false) (literal.exponent.elim [] exponentTokens).flatten := by
    cases literal.exponent with
    | none => exact fun c hc => absurd hc (by simp)
    | some exponent => exact goesOn_cons.mpr rfl
  obtain ⟨hman, htail⟩ := takeWhile_dropWhile_append literal.mantissa_noMark hexp
  have hpoint : GoesOn (fun c => c.isDigit = false) (literal.fraction.elim [] ('.' :: ·)) := by
    cases literal.fraction with
    | none => exact fun c hc => absurd hc (by simp)
    | some digits => exact goesOn_cons.mpr rfl
  obtain ⟨hwhole, hfrac⟩ := takeWhile_dropWhile_append literal.whole_isDigits hpoint
  have hdrop : (literal.fraction.elim [] ('.' :: ·)).drop 1 = literal.fraction.getD [] := by
    cases literal.fraction <;> rfl
  have hhead : (literal.fraction.elim [] ('.' :: ·)).head?.all (· = '.') = true := by
    cases literal.fraction <;> rfl
  have hdig : (literal.fraction.getD []).all Char.isDigit = true := by
    cases hcase : literal.fraction with
    | none => rfl
    | some digits => exact all_eq_true.mpr (literal.fraction_isDigits digits hcase)
  unfold readFloat
  rw [splitSign_signText sign (hst.2.append hst.1)]
  simp only [hman, htail]
  rw [Literal.mantissa, hwhole, hfrac, hdrop, if_pos ⟨hhead, hdig, literal.mantissa_ne⟩, readExponent_eq]
  rfl

theorem exists_getLast?_number : ∃ last, (signText sign ++
      (literal.mantissa ++ (literal.exponent.elim [] exponentTokens).flatten)).getLast? =
        some last ∧ (last.isDigit ∨ last = '.') := by
  cases hcase : literal.exponent with
  | none =>
    have hne := literal.mantissa_start.1
    refine ⟨literal.mantissa.getLast hne, ?_, ?_⟩
    · simp [List.getLast?_append, List.getLast?_eq_some_getLast hne]
    · have hmem := List.getLast_mem hne
      rcases mem_append.mp hmem with hwhole | hfrac
      · exact .inl (literal.whole_isDigits _ hwhole)
      · cases hpart : literal.fraction with
        | none => rw [hpart] at hfrac; cases hfrac
        | some digits =>
          rw [hpart] at hfrac
          rcases mem_cons.mp hfrac with heq | hdigit
          · exact .inr heq
          · exact .inl (literal.fraction_isDigits digits hpart _ hdigit)
  | some exponent =>
    refine ⟨exponent.digits.getLast exponent.digits_ne, ?_, .inl (exponent.isDigits _ (List.getLast_mem _))⟩
    simp [exponentTokens, List.getLast?_append, List.getLast?_cons, List.getLast?_eq_some_getLast exponent.digits_ne]

end

theorem lookup_suffixes_eq_none {c : Char} (hc : c.isDigit ∨ c = '.') : suffixes.lookup c = none := by
  rw [List.lookup_eq_none_iff]
  intro entry hent
  obtain ⟨hdigit, hpoint⟩ := (suffix_spec hent).1
  rcases hc with hc | rfl
  · have hne : c ≠ entry.1 := fun heq => by
      rw [heq, hdigit] at hc
      exact false_ne_true hc
    simpa using hne
  · simpa using hpoint.symm

theorem lookup_suffixes {entry : Char × ℤ} (hent : entry ∈ suffixes) : suffixes.lookup entry.1 = some entry.2 := by
  have hall : suffixes.all (fun entry => suffixes.lookup entry.1 == some entry.2) = true := by
    decide
  exact eq_of_beq (all_eq_true.mp hall entry hent)

theorem superFloat_numberTokens (sign : Option Sign) (literal : Literal) :
    superFloat (numberTokens sign literal).flatten = some ((sign.getD .plus).apply literal.value : K) := by
  have htext : (numberTokens sign literal).flatten =
      (signText sign ++ (literal.mantissa ++ (literal.exponent.elim [] exponentTokens).flatten)) ++
        literal.suffix.elim [] fun entry => [entry.1] := by
    simp [numberTokens]
  rw [htext, superFloat]
  cases hcase : literal.suffix with
  | none =>
    obtain ⟨last, hlast, hdigit⟩ := exists_getLast?_number sign literal
    rw [Option.elim_none, append_nil, hlast]
    simp only [lookup_suffixes_eq_none hdigit]
    rw [readFloat_eq, Literal.value, hcase, Option.elim_none, mul_one]
  | some entry =>
    rw [elim_some, getLast?_concat, List.dropLast_concat]
    simp only [lookup_suffixes (literal.isSuffix entry hcase)]
    rw [readFloat_eq, Literal.value, hcase]
    cases sign.getD .plus <;> simp [Sign.apply]

end

end EdxPlatform.Calc
