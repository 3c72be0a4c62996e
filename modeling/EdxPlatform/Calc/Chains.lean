import EdxPlatform.Calc.Atoms

/-!
# Reading chains of operators

A chain is read as one flat list.  Its action folds the list in the direction in which the level
associates.
-/

namespace EdxPlatform.Calc

open OrderedChoice Level Value

def Level.item : Level → Level
  | .sum => .product
  | .product => .parallel
  | .parallel => .power
  | .power => .atom
  | .atom => .atom

def Level.operators : Level → List (List Char)
  | .sum => [['+'], ['-']]
  | .product => [['*'], ['/']]
  | .parallel => [['|', '|']]
  | .power => [['^']]
  | .atom => []

def Level.operator : Level → Rule
  | .sum => plusMinus
  | .product => timesDivide
  | .parallel => literal ['|', '|']
  | .power => literal ['^']
  | .atom => fail

theorem reads_operator {level : Level} {op : List Char} (hop : op ∈ level.operators) :
    Reads level.operator (fun _ => True) ⟨op, [.token op], []⟩ ∧ op ≠ [] ∧ GoesOn (· ∈ level.item.follow) op := by
  cases level with
  | sum =>
    rcases (by simpa [operators] using hop : op = ['+'] ∨ op = ['-']) with rfl | rfl
    · exact ⟨reads_either rfl rfl (by decide) (.inl rfl), by simp, goesOn_cons.mpr (by decide)⟩
    · exact ⟨reads_either rfl rfl (by decide) (.inr rfl), by simp, goesOn_cons.mpr (by decide)⟩
  | product =>
    rcases (by simpa [operators] using hop : op = ['*'] ∨ op = ['/']) with rfl | rfl
    · exact ⟨reads_either rfl rfl (by decide) (.inl rfl), by simp, goesOn_cons.mpr (by decide)⟩
    · exact ⟨reads_either rfl rfl (by decide) (.inr rfl), by simp, goesOn_cons.mpr (by decide)⟩
  | parallel =>
    obtain rfl : op = ['|', '|'] := by simpa [operators] using hop
    exact ⟨reads_literal rfl, by simp, goesOn_cons.mpr (by decide)⟩
  | power =>
    obtain rfl : op = ['^'] := by simpa [operators] using hop
    exact ⟨reads_literal rfl, by simp, goesOn_cons.mpr (by decide)⟩
  | atom => cases hop

theorem follow_item {level : Level} {c : Char} (hc : c ∈ level.follow) : c ∈ level.item.follow := by
  cases level <;> simp only [Level.follow, Level.item, operatorChars] at hc ⊢ <;> grind

theorem refuses_operator {level : Level} {rest : List Char}
    (hrest : GoesOn (· ∈ level.follow) rest) : Refuses level.operator rest := by
  have hoth : ∀ d : Char, d ∉ level.follow → GoesOn (fun c => isBlank c = false ∧ c ≠ d) rest := by
    intro d hd c hc
    refine ⟨?_, fun heq => hd (heq ▸ hrest c hc)⟩
    have hall : ([.sum, .product, .parallel, .power, .atom] : List Level).all (fun level =>
        level.follow.all fun c => !isBlank c) = true := by decide
    have hlevel := all_eq_true.mp hall level (by cases level <;> simp)
    simpa using all_eq_true.mp hlevel c (hrest c hc)
  cases level with
  | sum => exact (refuses_literal (hoth '+' (by decide))).orElse (refuses_literal (hoth '-' (by decide)))
  | product => exact (refuses_literal (hoth '*' (by decide))).orElse (refuses_literal (hoth '/' (by decide)))
  | parallel => exact refuses_literal (hoth '|' (by decide))
  | power => exact refuses_literal (hoth '^' (by decide))
  | atom => rfl

/-! ## Chains -/

/-- An operator and what follows it. -/
structure Link (K : Type) where
  op : List Char
  phrase : Phrase K
  tree : Tree

variable {K : Type}

namespace Link

def text (link : Link K) : List Char := link.op ++ link.phrase.text

def trees (link : Link K) : List Tree := [.token link.op, link.tree]

def used (link : Link K) : List Used := link.phrase.used

def chunk (link : Link K) : Piece := ⟨link.text, link.trees, link.used⟩

def value (link : Link K) : List Char × Value K := (link.op, link.phrase.value)

def handled (link : Link K) : List (Handled K) := [.text link.op, .number link.phrase.value]

theorem length_le {link : Link K} {links : List (Link K)} (hlink : link ∈ links) :
    link.phrase.text.length ≤ (links.flatMap text).length := by
  have hpart := List.sublist_flatten_of_mem (mem_map_of_mem (f := text) hlink)
  rw [List.flatMap_def]
  exact (List.sublist_append_right link.op _).length_le.trans hpart.length_le

end Link

open Link

variable [Field K]

section

variable [DecidableEq K] (library : Library K) (scope : Scope K)

structure IsChain (level : Level) (start : Bool) (first : Phrase K) (tree : Tree)
    (links : List (Link K)) : Prop where
  first : Means library scope level.item start first tree
  op : ∀ link ∈ links, link.op ∈ level.operators
  next : ∀ link ∈ links, Means library scope level.item false link.phrase link.tree

variable {library scope} {level : Level} {start : Bool} {first : Phrase K} {tree : Tree} {links : List (Link K)}

section

variable (hchain : IsChain library scope level start first tree links)
include hchain

theorem IsChain.reads {depth : Nat} (hdepth : (first.text ++ links.flatMap text).length ≤ depth) :
    Reads (andThen (level.item.rule (expr depth))
        (zeroOrMore (andThen level.operator (level.item.rule (expr depth))))) (· ∈ level.follow)
      ⟨first.text ++ links.flatMap text, tree :: links.flatMap trees, first.used ++ links.flatMap Link.used⟩ := by
  rw [length_append] at hdepth
  have hfst := hchain.first.reads depth (by omega)
  have hlinks : ∀ chunk ∈ links.map Link.chunk,
      Reads (andThen level.operator (level.item.rule (expr depth))) (· ∈ level.item.follow) chunk := by
    intro chunk hchunk
    obtain ⟨link, hlink, rfl⟩ := mem_map.mp hchunk
    have hlen := length_le hlink
    exact (reads_operator (hchain.op link hlink)).1.andThen
      ((hchain.next link hlink).reads depth (by omega)) fun _ _ _ _ => trivial
  have hst : ∀ chunk ∈ links.map Link.chunk, chunk.text ≠ [] ∧ GoesOn (· ∈ level.item.follow) chunk.text := by
    intro chunk hchunk
    obtain ⟨link, hlink, rfl⟩ := mem_map.mp hchunk
    obtain ⟨_, hne, hgoes⟩ := reads_operator (hchain.op link hlink)
    exact ⟨append_ne_nil_of_left_ne_nil hne _, hgoes.append hne⟩
  have hmore : Reads (zeroOrMore (andThen level.operator (level.item.rule (expr depth))))
      (· ∈ level.follow) (.joined (links.map Link.chunk)) :=
    Reads.zeroOrMore hlinks hst fun rest hrest =>
      ⟨hrest.mono fun c hc => follow_item hc, (refuses_operator hrest).andThen⟩
  refine (hfst.andThen hmore fun rest hrest => goesOn_joined hst (hrest.mono fun c hc => follow_item hc)).of_eq ?_
  rw [Chunk.joined_eq]
  simp [Chunk.ext_iff, flatMap_map, Link.chunk]

theorem IsChain.handles (hdef : ∀ name ∈ first.used ++ links.flatMap Link.used, scope.isBad name = false) :
    handleNodes (evaluateActions library scope) (tree :: links.flatMap trees) =
      some (.number first.value :: links.flatMap handled) := by
  have hlinks : handleNodes (evaluateActions library scope) (links.flatMap trees) = some (links.flatMap handled) := by
    replace hdef := fun name hname => hdef name (mem_append_right _ hname)
    have hnxt := hchain.next
    clear hchain
    induction links with
    | nil => rfl
    | cons link links ih =>
      have htree := (hnxt link mem_cons_self).handles fun name hname => hdef name (mem_append_left _ hname)
      have hrest := ih (fun name hname => hdef name (mem_append_right _ hname))
        fun other hoth => hnxt other (mem_cons_of_mem _ hoth)
      simp [trees, handled, handleNodes, handleNode, htree, hrest]
  have htree := hchain.first.handles fun name hname => hdef name (mem_append_left _ hname)
  rw [handleNodes, htree, hlinks]
  rfl

end

end

/-! ## What a chain is worth -/

theorem filterMap_number? {K : Type} (first : Value K) (links : List (Link K)) :
    (.number first :: links.flatMap handled).filterMap Handled.number? =
      first :: (links.map Link.value).map Prod.snd := by
  have hlinks : (links.flatMap handled).filterMap Handled.number? = (links.map Link.value).map Prod.snd := by
    induction links with
    | nil => rfl
    | cons link links ih =>
      rw [flatMap_cons, filterMap_append, ih]
      rfl
  exact congrArg (first :: ·) hlinks

theorem number_mem_handled {K : Type} {value first : Value K} {links : List (Link K)} :
    .number value ∈ .number first :: links.flatMap handled ↔ value ∈ first :: (links.map Link.value).map Prod.snd := by
  simp [handled, Link.value, eq_comm]

def powerChain {K : Type} (power : Value K → Value K → Value K) (first : Value K) :
    List (List Char × Value K) → Value K
  | [] => first
  | link :: links => power first (powerChain power link.2 links)

theorem evalPower_chain {K : Type} (power : Value K → Value K → Value K) (first : Value K) (links : List (Link K)) :
    evalPower power (.number first :: links.flatMap handled) =
      some (.number (powerChain power first (links.map Link.value))) := by
  have hpow : ∀ (links : List (Link K)) (first : Value K),
      powers power (first :: (links.map Link.value).map Prod.snd) =
        some (powerChain power first (links.map Link.value)) := by
    intro links
    induction links with
    | nil => exact fun first => rfl
    | cons link links ih =>
      intro first
      have hrest := ih link.phrase.value
      simp only [map_cons] at hrest ⊢
      rw [powers, show (Link.value link).2 = link.phrase.value from rfl, hrest]
      · rfl
      · exact cons_ne_nil _ _
  rw [evalPower, filterMap_number?, hpow]
  rfl

section

def sumOp (op : List Char) : Value K → Value K → Value K :=
  if op = ['-'] then Value.sub else Value.add

def productOp (op : List Char) : Value K → Value K → Value K :=
  if op = ['/'] then truediv else mul

theorem productOp_char (op : Factor) : productOp (K := K) [op.char] = op.value := by
  cases op <;> rfl

theorem sumOp_char (op : Sign) : sumOp (K := K) [op.char] = op.value := by
  cases op <;> rfl

def parallelChain [DecidableEq K] (first : Value K) (links : List (List Char × Value K)) : Value K :=
  if links = [] then first else parallelValue (first :: links.map Prod.snd)

section

variable (first : Value K) (links : List (List Char × Value K))

def sumChain : Value K := links.foldl (fun total link => sumOp link.1 total link.2) first

def productChain : Value K := links.foldl (fun prod link => productOp link.1 prod link.2) first

end

variable (links : List (Link K))

theorem foldl_sumToken (hop : ∀ link ∈ links, link.op ∈ Level.sum.operators) (total : Value K) (currentOp : Sign) :
    ∃ last, (links.flatMap handled).foldl sumToken (some (total, currentOp)) =
      some (sumChain total (links.map Link.value), last) := by
  induction links generalizing total currentOp with
  | nil => exact ⟨currentOp, rfl⟩
  | cons link links ih =>
    have hrest := fun other hoth => hop other (mem_cons_of_mem _ hoth)
    rcases (by simpa [operators] using hop link mem_cons_self : link.op = ['+'] ∨ link.op = ['-']) with heq | heq
    · obtain ⟨last, hlast⟩ := ih hrest (total.add link.phrase.value) .plus
      exact ⟨last, by simpa [handled, Link.value, sumToken, heq, sumChain, sumOp] using hlast⟩
    · obtain ⟨last, hlast⟩ := ih hrest (total.sub link.phrase.value) .minus
      exact ⟨last, by simpa [handled, Link.value, sumToken, heq, sumChain, sumOp] using hlast⟩

theorem foldl_productToken
    (hop : ∀ link ∈ links, link.op ∈ Level.product.operators) (prod : Value K) (currentOp : Factor) :
    ∃ last, (links.flatMap handled).foldl productToken (some (prod, currentOp)) =
      some (productChain prod (links.map Link.value), last) := by
  induction links generalizing prod currentOp with
  | nil => exact ⟨currentOp, rfl⟩
  | cons link links ih =>
    have hrest := fun other hoth => hop other (mem_cons_of_mem _ hoth)
    rcases (by simpa [operators] using hop link mem_cons_self : link.op = ['*'] ∨ link.op = ['/']) with heq | heq
    · obtain ⟨last, hlast⟩ := ih hrest (prod.mul link.phrase.value) .times
      exact ⟨last, by
        simpa [handled, Link.value, productToken, heq, productChain, productOp] using hlast⟩
    · obtain ⟨last, hlast⟩ := ih hrest (prod.truediv link.phrase.value) .over
      exact ⟨last, by
        simpa [handled, Link.value, productToken, heq, productChain, productOp] using hlast⟩

theorem evalProduct_chain (first : Value K) (links : List (Link K))
    (hop : ∀ link ∈ links, link.op ∈ Level.product.operators) :
    evalProduct (.number first :: links.flatMap handled) =
      some (.number (productChain first (links.map Link.value))) := by
  obtain ⟨last, hlast⟩ := foldl_productToken links hop first .times
  have hfst : mul (some 1) first = first := by cases first <;> simp [mul]
  rw [evalProduct, foldl_cons]
  simp only [productToken, bind_some, hfst]
  rw [hlast]
  rfl

theorem map_plus (value : Value K) : value.map Sign.plus.apply = value := by
  cases value <;> rfl

theorem evalSum_chain (sign : Option Sign) (first : Value K) (links : List (Link K))
    (hop : ∀ link ∈ links, link.op ∈ Level.sum.operators) :
    evalSum ((signTokens sign).map .text ++ .number first :: links.flatMap handled) =
      some (.number (sumChain (first.map (sign.getD .plus).apply) (links.map Link.value))) := by
  have hsign : ((signTokens sign).map Handled.text).foldl sumToken (some (some (0 : K), .plus)) =
      some (some 0, sign.getD .plus) := by
    cases sign with
    | none => rfl
    | some sign => cases sign <;> rfl
  have hfst : sumToken (some (some 0, sign.getD .plus)) (.number first) =
      some (first.map (sign.getD .plus).apply, sign.getD .plus) := by
    cases sign.getD .plus <;> cases first <;> simp [sumToken, Value.add, Value.sub, Sign.apply]
  obtain ⟨last, hlast⟩ := foldl_sumToken links hop (first.map (sign.getD .plus).apply) (sign.getD .plus)
  rw [evalSum, foldl_append, hsign, foldl_cons, hfst, hlast]
  rfl

variable (values : List (Value K))

theorem foldl_add_none : values.foldl Value.add none = none := by
  induction values with
  | nil => rfl
  | cons value values ih => exact ih

theorem foldl_add_reciprocals (total : K) : (values.map (truediv (some 1))).foldl Value.add (some total) =
      (values.mapM id).map fun operands => total + (operands.map (·⁻¹)).sum := by
  induction values generalizing total with
  | nil => simp
  | cons value values ih =>
    cases value with
    | none =>
      rw [map_cons, foldl_cons]
      exact (foldl_add_none _).trans (by simp)
    | some operand =>
      have hstep : Value.add (some total) (truediv (some 1) (some operand)) = some (total + operand⁻¹) := by
        simp [Value.add, truediv]
      rw [map_cons, foldl_cons, hstep, ih]
      cases hrest : values.mapM id with
      | none => simp [hrest]
      | some operands => simp [hrest, add_assoc]

theorem evalParallel_chain [DecidableEq K] (first : Value K) (links : List (Link K)) :
    evalParallel (.number first :: links.flatMap handled) =
      some (.number (parallelChain first (links.map Link.value))) := by
  cases links with
  | nil => rfl
  | cons link links =>
    have hlen : (Handled.number first :: (link :: links).flatMap handled).length ≠ 1 := by
      simp [handled]
    have hlinks : (link :: links).map Link.value ≠ [] := by simp
    rw [evalParallel, if_neg hlen, parallelChain, if_neg hlinks, parallelValue]
    by_cases hmem : some 0 ∈ first :: ((link :: links).map Link.value).map Prod.snd
    · rw [if_pos (number_mem_handled.mpr hmem), if_pos hmem]
    · rw [if_neg (mt number_mem_handled.mp hmem), if_neg hmem]
      simp only [filterMap_number?, foldl_add_reciprocals]
      cases (first :: ((link :: links).map Link.value).map Prod.snd).mapM id with
      | none => rfl
      | some operands => simp [truediv]

end

end EdxPlatform.Calc
