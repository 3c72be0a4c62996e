import EdxPlatform.Lib.ShortNames

/-!
# Parsers with ordered choice

A parser takes a text from its beginning and leaves trees and the rest.  A choice takes the first
alternative that goes through, and a repetition takes as much as it can.  What actions record on
the way stays recorded when an alternative is given up.
-/

namespace EdxPlatform.OrderedChoice

inductive ParseTree (ν : Type) where
  | token (text : List Char)
  | node (name : ν) (children : List (ParseTree ν))

structure Outcome (ν ω : Type) where
  result : Option (List (ParseTree ν) × List Char)
  recorded : List ω

abbrev Parser (ν ω : Type) := List Char → Outcome ν ω

variable {ν ω : Type}

/-! ## Parsers -/

def isBlank (c : Char) : Bool := c = ' ' || c = '\n' || c = '\t' || c = '\r'

def fail : Parser ν ω := fun _ => ⟨none, []⟩

def nothing : Parser ν ω := fun input => ⟨some ([], input), []⟩

def exactly (text : List Char) : Parser ν ω := fun input =>
  if text.isPrefixOf input then ⟨some ([.token text], input.drop text.length), []⟩ else ⟨none, []⟩

/-- A letter in either case, which leaves `letter` itself. -/
def caseless (letter : Char) : Parser ν ω
  | [] => ⟨none, []⟩
  | c :: rest =>
    if c.toLower = letter.toLower then ⟨some ([.token [letter]], rest), []⟩ else ⟨none, []⟩

def word (first body : Char → Bool) : Parser ν ω
  | [] => ⟨none, []⟩
  | c :: rest =>
    if first c then ⟨some ([.token (c :: rest.takeWhile body)], rest.dropWhile body), []⟩
    else ⟨none, []⟩

def andThen (first second : Parser ν ω) : Parser ν ω := fun input =>
  match first input with
  | ⟨none, recorded⟩ => ⟨none, recorded⟩
  | ⟨some (trees, rest), recorded⟩ =>
    ⟨(second rest).result.map fun read => (trees ++ read.1, read.2), recorded ++ (second rest).recorded⟩

def orElse (first second : Parser ν ω) : Parser ν ω := fun input =>
  match first input with
  | ⟨some read, recorded⟩ => ⟨some read, recorded⟩
  | ⟨none, recorded⟩ => ⟨(second input).result, recorded ++ (second input).recorded⟩

def matchFirst (parsers : List (Parser ν ω)) : Parser ν ω := parsers.foldr orElse fail

section

variable (parser : Parser ν ω)

def optional : Parser ν ω := orElse parser nothing

def repeated (parser : Parser ν ω) : Nat → Parser ν ω
  | 0 => nothing
  | fuel + 1 => optional (andThen parser (repeated parser fuel))

def zeroOrMore : Parser ν ω := fun input => repeated parser input.length input

def converted (convert : List (ParseTree ν) → List (ParseTree ν)) (parser : Parser ν ω) : Parser ν ω := fun input =>
  ⟨(parser input).result.map fun read => (convert read.1, read.2), (parser input).recorded⟩

def group (name : ν) : Parser ν ω → Parser ν ω := converted fun trees => [.node name trees]

def suppress : Parser ν ω → Parser ν ω := converted fun _ => []

def ParseTree.ownText : ParseTree ν → List Char
  | .token text => text
  | .node _ _ => []

def recording (record : List (ParseTree ν) → List ω) (parser : Parser ν ω) : Parser ν ω :=
  fun input =>
    match parser input with
    | ⟨none, recorded⟩ => ⟨none, recorded⟩
    | ⟨some (trees, rest), recorded⟩ => ⟨some (trees, rest), recorded ++ record trees⟩

def lexeme : Parser ν ω := fun input => parser (input.dropWhile isBlank)

def literal (text : List Char) : Parser ν ω := lexeme (exactly text)

def combine : Parser ν ω := lexeme (converted (fun trees => [.token (trees.flatMap ParseTree.ownText)]) parser)

/-! ## What a parser reads -/

/-- A part of a text, with what reading it leaves and records. -/
@[ext]
structure Chunk (ν ω : Type) where
  text : List Char
  trees : List (ParseTree ν)
  recorded : List ω

namespace Chunk

def empty : Chunk ν ω := ⟨[], [], []⟩

instance : Append (Chunk ν ω) :=
  ⟨fun chunk other => ⟨chunk.text ++ other.text, chunk.trees ++ other.trees, chunk.recorded ++ other.recorded⟩⟩

section

variable (chunk other : Chunk ν ω)

@[simp]
theorem append_text : (chunk ++ other).text = chunk.text ++ other.text := rfl

@[simp]
theorem append_trees : (chunk ++ other).trees = chunk.trees ++ other.trees := rfl

@[simp]
theorem append_recorded : (chunk ++ other).recorded = chunk.recorded ++ other.recorded := rfl

end

def joined (chunks : List (Chunk ν ω)) : Chunk ν ω := chunks.foldr (· ++ ·) empty

@[simp]
theorem joined_nil : joined ([] : List (Chunk ν ω)) = empty := rfl

@[simp]
theorem joined_cons (chunk : Chunk ν ω) (chunks : List (Chunk ν ω)) :
    joined (chunk :: chunks) = chunk ++ joined chunks := rfl

theorem joined_eq (chunks : List (Chunk ν ω)) : joined chunks =
      ⟨chunks.flatMap text, chunks.flatMap trees, chunks.flatMap recorded⟩ := by
  induction chunks with
  | nil => rfl
  | cons chunk chunks ih => rw [joined_cons, ih]; rfl

theorem length_le_joined {chunks : List (Chunk ν ω)} (hne : ∀ chunk ∈ chunks, chunk.text ≠ []) :
    chunks.length ≤ (joined chunks).text.length := by
  induction chunks with
  | nil => exact Nat.zero_le _
  | cons chunk chunks ih =>
    have hfst := length_pos_iff.mpr (hne chunk mem_cons_self)
    have hrest := ih fun other hoth => hne other (mem_cons_of_mem _ hoth)
    rw [joined_cons, append_text, length_append, length_cons]
    omega

end Chunk

def GoesOn (follow : Char → Prop) (rest : List Char) : Prop := ∀ c ∈ rest.head?, follow c

/-- The chunk is read off the front of every text that goes on in such a way after it. -/
def Reads (follow : Char → Prop) (chunk : Chunk ν ω) : Prop :=
  ∀ rest, GoesOn follow rest → parser (chunk.text ++ rest) = ⟨some (chunk.trees, rest), chunk.recorded⟩

def Refuses (input : List Char) : Prop := parser input = ⟨none, []⟩

end

theorem Refuses.eq {parser : Parser ν ω} {input : List Char} (href : Refuses parser input) :
    parser input = ⟨none, []⟩ := href

variable {parser first second : Parser ν ω} {follow after : Char → Prop}
  {chunk other : Chunk ν ω} {input rest : List Char} {c : Char}

theorem goesOn_cons : GoesOn follow (c :: rest) ↔ follow c := by
  simp [GoesOn]

theorem GoesOn.append (hinput : GoesOn follow input) (hne : input ≠ []) : GoesOn follow (input ++ rest) := by
  cases input with
  | nil => exact absurd rfl hne
  | cons c input => exact goesOn_cons.mpr (goesOn_cons.mp hinput)

theorem GoesOn.mono (hrest : GoesOn follow rest) (hle : ∀ c, follow c → after c) :
    GoesOn after rest := fun c hc => hle c (hrest c hc)

theorem Reads.mono (hread : Reads parser follow chunk) (hle : ∀ c, after c → follow c) :
    Reads parser after chunk := fun rest hrest => hread rest (hrest.mono hle)

theorem Reads.of_eq (hread : Reads parser follow chunk) (heq : chunk = other) :
    Reads parser follow other := heq ▸ hread

theorem Reads.andThen (hfst : Reads first follow chunk) (hsec : Reads second after other)
    (hnxt : ∀ rest, GoesOn after rest → GoesOn follow (other.text ++ rest)) :
    Reads (andThen first second) after (chunk ++ other) := by
  intro rest hrest
  have hread := hfst (other.text ++ rest) (hnxt rest hrest)
  rw [Chunk.append_text, append_assoc, OrderedChoice.andThen, hread]
  simp [hsec rest hrest]

theorem Refuses.andThen (hfst : Refuses first input) : Refuses (andThen first second) input := by
  rw [Refuses, OrderedChoice.andThen, hfst]

theorem refuses_andThen_rest {trees : List (ParseTree ν)}
    (hfst : first input = ⟨some (trees, rest), []⟩) (hsec : Refuses second rest) :
    Refuses (OrderedChoice.andThen first second) input := by
  simp [Refuses, OrderedChoice.andThen, hfst, hsec.eq]

theorem Reads.orElse_left (hread : Reads first follow chunk) : Reads (orElse first second) follow chunk := by
  intro rest hrest
  rw [orElse, hread rest hrest]

theorem Reads.orElse_right (hread : Reads second follow chunk)
    (href : ∀ rest, GoesOn follow rest → Refuses first (chunk.text ++ rest)) :
    Reads (orElse first second) follow chunk := by
  intro rest hrest
  rw [orElse, href rest hrest]
  simp [hread rest hrest]

theorem Refuses.orElse (hfst : Refuses first input) (hsec : Refuses second input) :
    Refuses (orElse first second) input := by
  simp [Refuses, OrderedChoice.orElse, hfst.eq, hsec.eq]

theorem Reads.matchFirst {parsers before : List (Parser ν ω)} (hread : Reads parser follow chunk)
    (href : ∀ other ∈ before, ∀ rest, GoesOn follow rest → Refuses other (chunk.text ++ rest)) :
    Reads (matchFirst (before ++ parser :: parsers)) follow chunk := by
  induction before with
  | nil => exact hread.orElse_left
  | cons other before ih => exact (ih (forall_mem_cons.mp href).2).orElse_right (href other mem_cons_self)

theorem refuses_matchFirst {parsers : List (Parser ν ω)}
    (href : ∀ other ∈ parsers, Refuses other input) : Refuses (matchFirst parsers) input := by
  induction parsers with
  | nil => rfl
  | cons other parsers ih => exact (href other mem_cons_self).orElse (ih (forall_mem_cons.mp href).2)

theorem Reads.optional (hread : Reads parser follow chunk) : Reads (optional parser) follow chunk := hread.orElse_left

theorem Refuses.optional (href : Refuses parser input) : optional parser input = ⟨some ([], input), []⟩ := by
  rw [OrderedChoice.optional, OrderedChoice.orElse, href.eq]
  rfl

theorem reads_optional_empty (href : ∀ rest, GoesOn follow rest → Refuses parser rest) :
    Reads (optional parser) follow .empty := fun rest hrest => (href rest hrest).optional

variable {chunks : List (Chunk ν ω)}

theorem goesOn_joined (hst : ∀ chunk ∈ chunks, chunk.text ≠ [] ∧ GoesOn follow chunk.text)
    (hrest : GoesOn follow rest) : GoesOn follow ((Chunk.joined chunks).text ++ rest) := by
  cases chunks with
  | nil => exact hrest
  | cons chunk chunks =>
    obtain ⟨hne, hgoes⟩ := hst chunk mem_cons_self
    rw [Chunk.joined_cons, Chunk.append_text, append_assoc]
    exact hgoes.append hne

section

variable (hread : ∀ chunk ∈ chunks, Reads parser follow chunk)
  (hst : ∀ chunk ∈ chunks, chunk.text ≠ [] ∧ GoesOn follow chunk.text)
  (hend : ∀ rest, GoesOn after rest → GoesOn follow rest ∧ Refuses parser rest)
include hread hst hend

theorem Reads.repeated {fuel : Nat}
    (hfuel : chunks.length ≤ fuel) : Reads (repeated parser fuel) after (.joined chunks) := by
  induction chunks generalizing fuel with
  | nil =>
    cases fuel with
    | zero => exact fun rest _ => rfl
    | succ fuel => exact reads_optional_empty fun rest hrest => (hend rest hrest).2.andThen
  | cons chunk chunks ih =>
    cases fuel with
    | zero => exact absurd hfuel (Nat.not_succ_le_zero _)
    | succ fuel =>
      have htail := fun other hoth => hst other (mem_cons_of_mem chunk hoth)
      refine ((hread chunk mem_cons_self).andThen (ih (forall_mem_cons.mp hread).2 htail
          (Nat.le_of_succ_le_succ hfuel)) ?_).optional
      exact fun rest hrest => goesOn_joined htail (hend rest hrest).1

theorem Reads.zeroOrMore : Reads (zeroOrMore parser) after (.joined chunks) := by
  intro rest hrest
  refine Reads.repeated hread hst hend ?_ rest hrest
  rw [length_append]
  exact Nat.le_add_right_of_le (Chunk.length_le_joined fun chunk hchunk => (hst chunk hchunk).1)

end

variable {convert : List (ParseTree ν) → List (ParseTree ν)}

theorem Reads.converted (hread : Reads parser follow chunk) :
    Reads (converted convert parser) follow ⟨chunk.text, convert chunk.trees, chunk.recorded⟩ := by
  intro rest hrest
  simp [OrderedChoice.converted, hread rest hrest]

theorem Reads.group {name : ν} (hread : Reads parser follow chunk) :
    Reads (group name parser) follow ⟨chunk.text, [.node name chunk.trees], chunk.recorded⟩ :=
  hread.converted

theorem Reads.suppress (hread : Reads parser follow chunk) :
    Reads (suppress parser) follow ⟨chunk.text, [], chunk.recorded⟩ :=
  hread.converted

theorem Refuses.converted (href : Refuses parser input) : Refuses (converted convert parser) input := by
  simp [Refuses, OrderedChoice.converted, href.eq]

theorem Refuses.group {name : ν} (href : Refuses parser input) : Refuses (group name parser) input := href.converted

theorem Refuses.suppress (href : Refuses parser input) : Refuses (suppress parser) input := href.converted

variable {record : List (ParseTree ν) → List ω}

theorem Reads.recording (hread : Reads parser follow chunk) : Reads (recording record parser) follow
      ⟨chunk.text, chunk.trees, chunk.recorded ++ record chunk.trees⟩ := by
  intro rest hrest
  rw [OrderedChoice.recording, hread rest hrest]

theorem Refuses.recording (href : Refuses parser input) : Refuses (recording record parser) input := by
  rw [Refuses, OrderedChoice.recording, href]

/-! ## Tokens -/

theorem dropWhile_isBlank (hrest : GoesOn (fun c => isBlank c = false) input) : input.dropWhile isBlank = input := by
  cases input with
  | nil => rfl
  | cons c input => rw [List.dropWhile_cons, goesOn_cons.mp hrest]; rfl

theorem Reads.lexeme (hread : Reads parser follow chunk) (hne : chunk.text ≠ [])
    (hblank : GoesOn (fun c => isBlank c = false) chunk.text) :
    Reads (lexeme parser) follow chunk := by
  intro rest hrest
  rw [OrderedChoice.lexeme, dropWhile_isBlank (hblank.append hne)]
  exact hread rest hrest

theorem Refuses.lexeme (href : Refuses parser input)
    (hblank : GoesOn (fun c => isBlank c = false) input) : Refuses (lexeme parser) input := by
  rw [Refuses, OrderedChoice.lexeme, dropWhile_isBlank hblank]
  exact href

theorem reads_exactly (text : List Char) :
    Reads (exactly text : Parser ν ω) (fun _ => True) ⟨text, [.token text], []⟩ := by
  intro rest _
  simp [exactly]

variable {text : List Char}

theorem refuses_exactly (hne : c ∉ input.head?) : Refuses (exactly (c :: text) : Parser ν ω) input := by
  cases input with
  | nil => rfl
  | cons d input =>
    have hdiff : ¬ c = d := fun heq => hne (by simp [heq])
    simp [Refuses, exactly, hdiff]

theorem reads_literal (hblank : isBlank c = false) :
    Reads (literal (c :: text) : Parser ν ω) (fun _ => True) ⟨c :: text, [.token (c :: text)], []⟩ :=
  (reads_exactly (c :: text)).lexeme (cons_ne_nil c text) (goesOn_cons.mpr hblank)

theorem refuses_literal (hnxt : GoesOn (fun d => isBlank d = false ∧ d ≠ c) input) :
    Refuses (literal (c :: text) : Parser ν ω) input :=
  (refuses_exactly fun hmem => (hnxt c hmem).2 rfl).lexeme fun d hd => (hnxt d hd).1

variable {d letter : Char}

theorem reads_either (hc : isBlank c = false) (hd : isBlank d = false) (hne : d ≠ c) (hlet : letter = c ∨ letter = d) :
    Reads (orElse (literal [c]) (literal [d]) : Parser ν ω) (fun _ => True) ⟨[letter], [.token [letter]], []⟩ := by
  rcases hlet with rfl | rfl
  · exact (reads_literal hc).orElse_left
  · exact (reads_literal hd).orElse_right fun rest _ => refuses_literal (goesOn_cons.mpr ⟨hd, hne⟩)

theorem refuses_either (hinput : GoesOn (fun e => isBlank e = false ∧ e ≠ c ∧ e ≠ d) input) :
    Refuses (orElse (literal [c]) (literal [d]) : Parser ν ω) input :=
  (refuses_literal (hinput.mono fun _ he => ⟨he.1, he.2.1⟩)).orElse
    (refuses_literal (hinput.mono fun _ he => ⟨he.1, he.2.2⟩))

theorem Reads.combine (hread : Reads parser follow chunk) (hne : chunk.text ≠ [])
    (hblank : GoesOn (fun c => isBlank c = false) chunk.text) :
    Reads (combine parser) follow ⟨chunk.text, [.token (chunk.trees.flatMap ParseTree.ownText)], chunk.recorded⟩ :=
  hread.converted.lexeme hne hblank

theorem Refuses.combine (href : Refuses parser input)
    (hblank : GoesOn (fun c => isBlank c = false) input) : Refuses (combine parser) input :=
  href.converted.lexeme hblank

theorem reads_caseless (heq : c.toLower = letter.toLower) :
    Reads (caseless letter : Parser ν ω) (fun _ => True) ⟨[c], [.token [letter]], []⟩ := by
  intro rest _
  simp [caseless, heq]

theorem refuses_caseless (hne : ∀ c ∈ input.head?, c.toLower ≠ letter.toLower) :
    Refuses (caseless letter : Parser ν ω) input := by
  cases input with
  | nil => rfl
  | cons c input => simp [Refuses, caseless, hne c (by simp)]

theorem takeWhile_dropWhile_append {keep : Char → Bool} {rest : List Char}
    (htext : ∀ c ∈ text, keep c) (hrest : GoesOn (fun c => keep c = false) rest) :
    (text ++ rest).takeWhile keep = text ∧ (text ++ rest).dropWhile keep = rest := by
  rw [List.takeWhile_append_of_pos htext, List.dropWhile_append_of_pos htext]
  cases rest with
  | nil => exact ⟨append_nil _, rfl⟩
  | cons c rest => simp [goesOn_cons.mp hrest]

theorem reads_word {initial body : Char → Bool} (hc : initial c) (htext : ∀ d ∈ text, body d) :
    Reads (word initial body : Parser ν ω) (fun d => body d = false) ⟨c :: text, [.token (c :: text)], []⟩ := by
  intro rest hrest
  obtain ⟨htake, hdrop⟩ := takeWhile_dropWhile_append htext hrest
  simp only [cons_append, word, if_pos hc]
  rw [htake, hdrop]

theorem refuses_word {initial body : Char → Bool} (hne : ∀ c ∈ input.head?, initial c = false) :
    Refuses (word initial body : Parser ν ω) input := by
  cases input with
  | nil => rfl
  | cons c input => simp [Refuses, word, hne c (by simp)]

end EdxPlatform.OrderedChoice
