import EdxPlatform.Calc.Chains

/-!
# Printed expressions are read back

The text of a tree fits into its place: a chain is extended by one operand at a time, and the
parser reads the whole chain.
-/

namespace EdxPlatform.Calc

open OrderedChoice Level Link

section

variable {K : Type} [Field K] [DecidableEq K] (library : Library K) (scope : Scope K)

def Level.chain : Level → Value K → List (List Char × Value K) → Value K
  | .sum => sumChain
  | .product => productChain
  | .parallel => parallelChain
  | .power => powerChain library.power
  | .atom => fun first _ => first

def chainPhrase (level : Level) (sign : Option Sign) (first : Phrase K) (links : List (Link K)) : Phrase K where
  text := signText sign ++ (first.text ++ links.flatMap Link.text)
  used := first.used ++ links.flatMap Link.used
  value := level.chain library (first.value.map (sign.getD .plus).apply) (links.map Link.value)

def IsTerm (level : Level) (start : Bool) (phrase : Phrase K) : Prop :=
  ∃ first tree links, IsChain library scope level start first tree links ∧
    phrase = chainPhrase library level none first links

/-- A sum takes a sign, and only without one does it matter whether its first product has one. -/
def IsSum (phrase : Phrase K) : Prop :=
  ∃ sign first tree links, IsChain library scope .sum sign.isNone first tree links ∧
    phrase = chainPhrase library .sum sign first links

def Fits (place : Level) (start : Bool) (phrase : Phrase K) : Prop :=
  match place with
  | .sum => start = true → IsSum library scope phrase
  | place => IsTerm library scope place start phrase

variable {library scope} {level : Level} {start : Bool} {phrase first : Phrase K} {tree : Tree} {links : List (Link K)}

section

variable (hchain : IsChain library scope level start first tree links)
include hchain

theorem IsChain.visible (sign : Option Sign) :
    ∃ c ∈ (chainPhrase library level sign first links).text, isSpace c = false := by
  obtain ⟨c, hc, hvisb⟩ := hchain.first.visible
  exact ⟨c, mem_append_right _ (mem_append_left _ hc), hvisb⟩

theorem IsChain.means {name : NodeName}
    (hrule : ∀ depth, level.rule (expr depth) = group name (andThen (level.item.rule (expr depth))
      (zeroOrMore (andThen level.operator (level.item.rule (expr depth))))))
    (hact : evaluateActions library scope name (.number first.value :: links.flatMap handled) =
        some (.number (level.chain library first.value (links.map value)))) :
    ∃ tree, Means library scope level start (chainPhrase library level none first links) tree := by
  refine ⟨.node name (tree :: links.flatMap trees), fun depth hdepth => ?_,
    fun hdef => ?_, hchain.visible none, fun htrue => ?_⟩
  · rw [hrule depth]
    exact (hchain.reads hdepth).group
  · rw [handleNode, hchain.handles hdef, bind_some, hact, chainPhrase, getD_none, map_plus]
  · exact (hchain.first.free htrue).append hchain.first.ne

end

theorem IsTerm.means (hterm : IsTerm library scope level start phrase) (hlevel : level ≠ .sum) :
    ∃ tree, Means library scope level start phrase tree := by
  obtain ⟨first, tree, links, hchain, rfl⟩ := hterm
  cases level with
  | sum => exact absurd rfl hlevel
  | product => exact hchain.means (fun _ => rfl) (evalProduct_chain first.value links hchain.op)
  | parallel => exact hchain.means (fun _ => rfl) (evalParallel_chain first.value links)
  | power => exact hchain.means (fun _ => rfl) (evalPower_chain library.power first.value links)
  | atom =>
    have hlinks : links = [] := List.eq_nil_iff_forall_not_mem.mpr fun link hlink => not_mem_nil (hchain.op link hlink)
    subst hlinks
    refine ⟨tree, ?_⟩
    have hphrase : chainPhrase library .atom none first [] = first := by
      simp [chainPhrase, signText, chain, map_plus]
    rw [hphrase]
    exact hchain.first

theorem IsSum.means (hsum : IsSum library scope phrase) : ∃ tree, Means library scope .sum false phrase tree := by
  obtain ⟨sign, first, tree, links, hchain, rfl⟩ := hsum
  refine ⟨.node .sum ((signTokens sign).map .token ++ tree :: links.flatMap trees),
    fun depth hdepth => ?_, fun hdef => ?_, hchain.visible sign, fun hfalse => by cases hfalse⟩
  · have hlen : (first.text ++ links.flatMap text).length ≤ depth := by
      rw [chainPhrase, length_append] at hdepth
      omega
    have hprod := hchain.reads hlen
    cases sign with
    | none =>
      have hfree : GoesOn NoSign (first.text ++ links.flatMap text) := (hchain.first.free rfl).append hchain.first.ne
      refine ((reads_sign none).andThen hprod fun rest _ => ?_).group
      exact hfree.append (append_ne_nil_of_left_ne_nil hchain.first.ne _)
    | some sign => exact ((reads_sign_some sign).andThen hprod fun _ _ _ _ => trivial).group
  · have hkids := hchain.handles hdef
    rw [handleNode, handleNodes_append, handleNodes_tokens, hkids]
    exact evalSum_chain sign first.value links hchain.op

/-! ## Looser places -/

def Level.looser : Level → Level
  | .atom => .power
  | .power => .parallel
  | .parallel => .product
  | .product => .sum
  | .sum => .sum

theorem isTerm_of_item (hmeans : Means library scope level.item start phrase tree) :
    IsTerm library scope level start phrase := by
  refine ⟨phrase, tree, [], ⟨hmeans, by simp, by simp⟩, ?_⟩
  cases level <;> simp [chainPhrase, signText, map_plus, chain, sumChain, productChain, parallelChain, powerChain]

theorem isSum_of_product (hmeans : Means library scope .product true phrase tree) : IsSum library scope phrase := by
  refine ⟨none, phrase, tree, [], ⟨hmeans, by simp, by simp⟩, ?_⟩
  simp [chainPhrase, signText, map_plus, chain, sumChain]

theorem Fits.means (hfits : Fits library scope level start phrase) (hlevel : level ≠ .sum) :
    ∃ tree, Means library scope level start phrase tree := by
  cases level with
  | sum => exact absurd rfl hlevel
  | product => exact IsTerm.means hfits hlevel
  | parallel => exact IsTerm.means hfits hlevel
  | power => exact IsTerm.means hfits hlevel
  | atom => exact IsTerm.means hfits hlevel

theorem Fits.loosen (hfits : Fits library scope level start phrase) :
    Fits library scope level.looser start phrase := by
  cases level with
  | sum => exact hfits
  | product =>
    rintro rfl
    obtain ⟨tree, hmeans⟩ := hfits.means (by decide)
    exact isSum_of_product hmeans
  | parallel =>
    obtain ⟨tree, hmeans⟩ := hfits.means (by decide)
    exact (isTerm_of_item hmeans : IsTerm library scope .product start phrase)
  | power =>
    obtain ⟨tree, hmeans⟩ := hfits.means (by decide)
    exact (isTerm_of_item hmeans : IsTerm library scope .parallel start phrase)
  | atom =>
    obtain ⟨tree, hmeans⟩ := hfits.means (by decide)
    exact (isTerm_of_item hmeans : IsTerm library scope .power start phrase)

theorem Fits.lift {level place : Level} (hfits : Fits library scope level start phrase)
    (hrank : place.rank ≤ level.rank) : Fits library scope place start phrase := by
  by_cases heq : level = place
  · exact heq ▸ hfits
  · have hloos : place.rank ≤ level.looser.rank ∧ level.looser.rank < level.rank := by
      cases level <;> cases place <;> simp_all [rank, looser]
    exact hfits.loosen.lift hloos.1
termination_by level.rank
decreasing_by exact hloos.2

theorem fits_of_isSum (hsum : IsSum library scope phrase) (start : Bool) :
    Fits library scope .atom start ⟨'(' :: (phrase.text ++ [')']), phrase.used, phrase.value⟩ := by
  obtain ⟨tree, hmeans⟩ := hsum.means
  obtain ⟨_, hatom⟩ := hmeans.enclosed start
  exact (isTerm_of_item hatom : IsTerm library scope .atom start _)

theorem fits_placed {level : Bool → Level} {bare : Bool → List Char} {used : List Used}
    {value : Value K} (hbare : ∀ start, Fits library scope (level start) start ⟨bare start, used, value⟩)
    (place : Level) (start : Bool) :
    Fits library scope place start ⟨placed level bare place start, used, value⟩ := by
  unfold placed
  split
  · have hsum : Fits library scope .sum true ⟨bare true, used, value⟩ := (hbare true).lift (Nat.zero_le _)
    exact (fits_of_isSum (hsum rfl) start).lift (by cases place <;> decide)
  · next hrank => exact (hbare start).lift (Nat.le_of_not_lt hrank)

variable {other : Phrase K}

theorem fits_signed (sign : Sign) (hfits : Fits library scope .product false phrase) (start : Bool) :
    Fits library scope .sum start ⟨sign.char :: phrase.text, phrase.used, phrase.value.map sign.apply⟩ := by
  intro _
  obtain ⟨tree, hmeans⟩ := hfits.means (by decide)
  refine ⟨some sign, phrase, tree, [], ⟨hmeans, by simp, by simp⟩, ?_⟩
  simp [chainPhrase, signText, chain, sumChain]

theorem fits_number (sign : Option Sign) (literal : Literal) (start : Bool) :
    Fits library scope ((Expr.number sign literal).level start) start
      ⟨signText sign ++ literal.text, [], some ((sign.getD .plus).apply literal.value)⟩ := by
  have hatom : ∀ start, (start = true → sign = none) → Fits library scope .atom start
      ⟨signText sign ++ literal.text, [], some ((sign.getD .plus).apply literal.value)⟩ := by
    intro start hst
    obtain ⟨_, hmeans⟩ := means_number library scope sign literal start hst
    exact (isTerm_of_item hmeans : IsTerm library scope .atom start _)
  cases sign with
  | none => cases start <;> exact hatom _ fun _ => rfl
  | some sign =>
    cases start with
    | false => exact hatom false fun hfalse => by cases hfalse
    | true =>
      obtain ⟨_, hmeans⟩ := means_number library scope none literal false fun _ => rfl
      have hbare : Fits library scope .atom false ⟨literal.text, [], some (Sign.plus.apply literal.value)⟩ :=
        (isTerm_of_item hmeans : IsTerm library scope .atom false _)
      exact fits_signed sign (hbare.lift (by decide)) true

theorem fits_power (hbase : Fits library scope .atom start phrase) (hexp : Fits library scope .power false other) :
    Fits library scope .power start ⟨phrase.text ++ '^' :: other.text, phrase.used ++ other.used,
      library.power phrase.value other.value⟩ := by
  obtain ⟨tree, hmeans⟩ := hbase.means (by decide)
  obtain ⟨first, firstTree, links, hchain, rfl⟩ := hexp
  refine ⟨phrase, tree, ⟨['^'], first, firstTree⟩ :: links,
    ⟨hmeans, forall_mem_cons.mpr ⟨by simp [operators], hchain.op⟩,
      forall_mem_cons.mpr ⟨hchain.first, hchain.next⟩⟩, ?_⟩
  simp [chainPhrase, signText, map_plus, chain, powerChain, text, used, value]

theorem IsChain.snoc (hchain : IsChain library scope level start first tree links)
    {op : List Char} (hop : op ∈ level.operators) {last : Phrase K} {lastTree : Tree}
    (hlast : Means library scope level.item false last lastTree) :
    IsChain library scope level start first tree (links ++ [⟨op, last, lastTree⟩]) where
  first := hchain.first
  op := by
    intro link hlink
    rcases mem_append.mp hlink with hold | hnew
    · exact hchain.op link hold
    · rw [mem_singleton.mp hnew]
      exact hop
  next := by
    intro link hlink
    rcases mem_append.mp hlink with hold | hnew
    · exact hchain.next link hold
    · rw [mem_singleton.mp hnew]
      exact hlast

theorem fits_parallel (hchain : IsChain library scope .parallel start first tree links) (hlinks : links ≠ []) :
    Fits library scope .parallel start ⟨first.text ++ links.flatMap text, first.used ++ links.flatMap used,
        parallelValue (first.value :: (links.map value).map Prod.snd)⟩ := by
  refine ⟨first, tree, links, hchain, ?_⟩
  simp [chainPhrase, signText, map_plus, chain, parallelChain, hlinks]

theorem fits_product (hleft : Fits library scope .product start phrase) (op : Factor)
    (hrgt : Fits library scope .parallel false other) :
    Fits library scope .product start ⟨phrase.text ++ op.char :: other.text,
      phrase.used ++ other.used, op.value phrase.value other.value⟩ := by
  obtain ⟨first, tree, links, hchain, rfl⟩ := hleft
  obtain ⟨lastTree, hlast⟩ := hrgt.means (by decide)
  have hop : [op.char] ∈ Level.product.operators := by cases op <;> decide
  refine ⟨first, tree, _, hchain.snoc hop hlast, ?_⟩
  simp [chainPhrase, signText, map_plus, chain, productChain, productOp_char, text, used, value]

theorem fits_sum (hleft : Fits library scope .sum start phrase) (op : Sign)
    (hrgt : Fits library scope .product false other) :
    Fits library scope .sum start ⟨phrase.text ++ op.char :: other.text,
      phrase.used ++ other.used, op.value phrase.value other.value⟩ := by
  intro hst
  obtain ⟨sign, first, tree, links, hchain, rfl⟩ := hleft hst
  obtain ⟨lastTree, hlast⟩ := hrgt.means (by decide)
  have hop : [op.char] ∈ Level.sum.operators := by cases op <;> decide
  refine ⟨sign, first, tree, _, hchain.snoc hop hlast, ?_⟩
  simp [chainPhrase, chain, sumChain, sumOp_char, text, used, value]

mutual

theorem Expr.fits (library : Library K) (scope : Scope K) (expr : Expr) (start : Bool) :
    Fits library scope (expr.level start) start ⟨expr.bare start, expr.used, expr.value (scope.meaning library)⟩ := by
  match expr with
  | .number sign literal => exact fits_number sign literal start
  | .variable name =>
    obtain ⟨_, hmeans⟩ := means_variable library scope name start
    exact (isTerm_of_item hmeans : IsTerm library scope .atom start _)
  | .call name argument =>
    have hsum : Fits library scope .sum true _ := (argument.fits library scope true).lift (Nat.zero_le _)
    obtain ⟨_, harg⟩ := (hsum rfl).means
    obtain ⟨_, hmeans⟩ := harg.called name start
    exact (isTerm_of_item hmeans : IsTerm library scope .atom start _)
  | .power base exponent =>
    exact fits_power (fits_placed (base.fits library scope) .atom start)
      (fits_placed (exponent.fits library scope) .power false)
  | .parallel operands =>
    obtain ⟨first, tree, links, hchain, hlinks, htext, hused, hvals⟩ := operands.isChain library scope start
    rw [Expr.bare, Expr.used, Expr.value, htext, hused, hvals]
    exact fits_parallel hchain hlinks
  | .product left op right =>
    exact fits_product (fits_placed (left.fits library scope) .product start) op
      (fits_placed (right.fits library scope) .parallel false)
  | .sum left op right =>
    exact fits_sum (fits_placed (left.fits library scope) .sum start) op
      (fits_placed (right.fits library scope) .product false)
  | .signed sign argument => exact fits_signed sign (fits_placed (argument.fits library scope) .product false) start

theorem Operands.isChain (library : Library K) (scope : Scope K) (operands : Operands) (start : Bool) :
    ∃ first tree links, IsChain library scope .parallel start first tree links ∧ links ≠ [] ∧
      operands.bare start = first.text ++ links.flatMap text ∧
      operands.used = first.used ++ links.flatMap used ∧
      operands.values (scope.meaning library) = first.value :: (links.map value).map Prod.snd := by
  match operands with
  | .pair first second =>
    obtain ⟨tree, hfst⟩ := (fits_placed (first.fits library scope) .power start).means (by decide)
    obtain ⟨_, hsec⟩ := (fits_placed (second.fits library scope) .power false).means (by decide)
    have hchain : IsChain library scope .parallel start _ tree [] := ⟨hfst, by simp, by simp⟩
    refine ⟨_, tree, _, hchain.snoc (mem_singleton.mpr rfl) hsec, by simp, ?_⟩
    simp [Operands.bare, Operands.used, Operands.values, text, used, value]
  | .more operands last =>
    obtain ⟨first, tree, links, hchain, _, htext, hused, hvals⟩ := operands.isChain library scope start
    obtain ⟨_, hlast⟩ := (fits_placed (last.fits library scope) .power false).means (by decide)
    refine ⟨first, tree, _, hchain.snoc (mem_singleton.mpr rfl) hlast, by simp, ?_⟩
    simp [Operands.bare, Operands.used, Operands.values, htext, hused, hvals, text, used, value]

end

theorem parseAlgebra_printed (library : Library K) (scope : Scope K) (expr : Expr) :
    ∃ tree, parseAlgebra expr.printed = some (tree, expr.used) ∧ ((∀ name ∈ expr.used, scope.isBad name = false) →
        reduceTree library scope tree = some (expr.value (scope.meaning library))) ∧
      expr.printed.all isSpace = false := by
  have hsum : Fits library scope .sum true _ := (expr.fits library scope true).lift (Nat.zero_le _)
  obtain ⟨tree, hmeans⟩ := (hsum rfl).means
  have hread := hmeans.reads expr.printed.length le_rfl [] fun c hc => by cases hc
  refine ⟨tree, ?_, fun hdef => ?_, ?_⟩
  · rw [append_nil] at hread
    have hexpr : Calc.expr (expr.printed.length + 1) expr.printed = ⟨some ([tree], []), expr.used⟩ := hread
    rw [parseAlgebra, hexpr]
    rfl
  · rw [reduceTree, hmeans.handles hdef]
    rfl
  · obtain ⟨c, hc, hvisb⟩ := hmeans.visible
    exact List.all_eq_false.mpr ⟨c, hc, by simp [hvisb]⟩

end

end EdxPlatform.Calc
