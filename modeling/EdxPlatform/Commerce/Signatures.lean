import EdxPlatform.Lib.Dict
import EdxPlatform.Lib.Python

/-!
# Signed messages of the payment processor

A message is signed over a text that joins some of its fields, in the order of a
list that the message itself carries.  Neither the fields needed later nor the
commas in their values are looked at when the signature is verified.
-/

namespace EdxPlatform.CyberSource

abbrev Params := Dict String String

/-- The conversions of the language, none where they raise. -/
structure Conversions where
  int : String → Option Int
  decimal : String → Option Rat

inductive ProcessorException where
  | userCancelled
  | userDeclined
  | signature
  | missingParameter (parameter : String)
  | badlyTyped (value parameter : String)
  deriving DecidableEq, Repr

structure ValidParams where
  reqReferenceNumber : Int
  reqCurrency : String
  decision : String
  authAmount : Rat
  deriving DecidableEq

section

variable (params : Params)

/-- `params.get(key, '')`. -/
def get (key : String) : String := (params.lookup key).getD ""

/-- The field names of a list: `names.split(',')`. -/
def splitNames (names : String) : List String := (names.toList.splitOn ',').map String.ofList

def signedFields : List String := splitNames (get params "signed_field_names")

/-- `{0}={1}` of a field and its value. -/
def segment (field : String) : List Char := field.toList ++ '=' :: (get params field).toList

/-- The text that is signed: `field=value` for all signed fields, joined by commas. -/
def signedText : List Char := [','].intercalate ((signedFields params).map (segment params))

end

/-- `str(value)`, which raises on letters that are not ASCII. -/
def str (value : String) : Option String :=
  if value.toList.all fun c => c.toNat < 128 then some value else none

variable (processorHash : String → String) (conversions : Conversions)

/-- The parameter under `key`, converted. -/
def requiredParam {α : Type} (params : Params) (key : String) (keyType : String → Option α) :
    Except ProcessorException α :=
  match params.lookup key with
  | none => .error (.missingParameter key)
  | some value =>
    match keyType value with
    | none => .error (.badlyTyped value key)
    | some converted => .ok converted

/-- `verify_signatures`. -/
def verifySignatures (params : Params) : Except ProcessorException ValidParams :=
  if params.lookup "decision" = some "CANCEL" then .error .userCancelled
  else if params.lookup "decision" = some "DECLINE" then .error .userDeclined
  else if processorHash (String.ofList (signedText params)) ≠ get params "signature" then
    .error .signature
  else do
    let reqReferenceNumber ← requiredParam params "req_reference_number" conversions.int
    let reqCurrency ← requiredParam params "req_currency" str
    let decision ← requiredParam params "decision" str
    let authAmount ← requiredParam params "auth_amount" conversions.decimal
    return { reqReferenceNumber, reqCurrency, decision, authAmount }

/-- `sign`: all fields but the two that it adds are signed. -/
def sign (params : Params) : Params :=
  let fields := ",".intercalate params.keys
  let params := params.insert "signed_field_names" fields
  params.insert "signature" (processorHash (String.ofList (signedText params)))

/-- The fields of a message that `verify_signatures` returns. -/
def requiredFields : List String := ["req_reference_number", "req_currency", "decision", "auth_amount"]

/-- Parameters that somebody sends.  The signature cannot be forged: if it is that
of their text, a message with the same text has been signed. -/
structure Presented (signed : Set Params) where
  params : Params
  unforged : processorHash (String.ofList (signedText params)) = get params "signature" →
    ∃ message ∈ signed, signedText message = signedText params

theorem splitOn_intercalate_cons (first : List Char) {rest : List (List Char)} (hrest : rest ≠ []) :
    ([','].intercalate (first :: rest)).splitOn ',' = first.splitOn ',' ++ ([','].intercalate rest).splitOn ',' := by
  obtain ⟨second, others, rfl⟩ := exists_cons_of_ne_nil hrest
  rw [List.intercalate_cons_cons, append_assoc, singleton_append, List.splitOn_append_cons_self]

theorem mem_pieces {segments : List (List Char)} {piece : List Char} (hmem : piece ∈ segments)
    (hcomma : ',' ∉ piece) : piece ∈ ([','].intercalate segments).splitOn ',' := by
  induction segments with
  | nil => cases hmem
  | cons first rest ih =>
    by_cases hrest : rest = []
    · subst hrest
      obtain rfl := mem_singleton.mp hmem
      rw [List.intercalate_singleton, List.splitOn_eq_singleton hcomma]
      exact mem_singleton_self piece
    · rw [splitOn_intercalate_cons first hrest, mem_append]
      rcases mem_cons.mp hmem with rfl | hlat
      · refine .inl ?_
        rw [List.splitOn_eq_singleton hcomma]
        exact mem_singleton_self piece
      · exact .inr (ih hlat)

theorem not_mem_of_mem_splitOn {text piece : List Char} (hpiece : piece ∈ text.splitOn ',') : ',' ∉ piece := by
  induction text generalizing piece with
  | nil =>
    rw [List.splitOn_nil, mem_singleton] at hpiece
    simp [hpiece]
  | cons c text ih =>
    rw [List.splitOn_cons_eq_if_modifyHead] at hpiece
    split at hpiece
    · rcases mem_cons.mp hpiece with rfl | hrest
      · exact not_mem_nil
      · exact ih hrest
    · next hc =>
      obtain ⟨first, rest, hspl⟩ := exists_cons_of_ne_nil (List.splitOn_ne_nil ',' text)
      rw [hspl, List.modifyHead_cons] at hpiece
      rcases mem_cons.mp hpiece with rfl | hrest
      · have hfst : ',' ∉ first := ih (hspl ▸ mem_cons_self)
        intro hmem
        rcases mem_cons.mp hmem with rfl | hmem
        · exact hc (by simp)
        · exact hfst hmem
      · exact ih (hspl ▸ mem_cons_of_mem first hrest)

/-- The text names the field once: every piece of it that begins with the field's
name and an equal sign has the value that the message has. -/
def NamedOnce (message : Params) (field : String) : Prop :=
  ∀ piece ∈ (signedText message).splitOn ',', field.toList ++ ['='] <+: piece → piece = segment message field

/-- The parameters list each required field as signed, with a value without commas,
and the messages signed with the same text have the field and name it once. -/
def Framed {signed : Set Params} (presented : Presented processorHash signed) : Prop :=
  ∀ field ∈ requiredFields, field ∈ signedFields presented.params ∧ ',' ∉ (get presented.params field).toList ∧
    ∀ message ∈ signed, signedText message = signedText presented.params → field ∈ message ∧ NamedOnce message field

variable {params : Params} {valid : ValidParams}

theorem signature_of_verify (hvfy : verifySignatures processorHash conversions params = .ok valid) :
    processorHash (String.ofList (signedText params)) = get params "signature" := by
  unfold verifySignatures at hvfy
  split at hvfy
  · cases hvfy
  split at hvfy
  · cases hvfy
  split at hvfy
  · cases hvfy
  · next hsame => exact not_not.mp hsame

theorem mem_of_requiredParam {α : Type} {key : String} {keyType : String → Option α} {converted : α}
    (hparam : requiredParam params key keyType = .ok converted) : key ∈ params := by
  unfold requiredParam at hparam
  split at hparam
  · cases hparam
  · next value hval => exact mem_of_lookup hval

theorem required_of_verify (hvfy : verifySignatures processorHash conversions params = .ok valid) :
    ∀ field ∈ requiredFields, field ∈ params := by
  unfold verifySignatures at hvfy
  split at hvfy
  · cases hvfy
  split at hvfy
  · cases hvfy
  split at hvfy
  · cases hvfy
  obtain ⟨reference, href, hvfy⟩ := bind_ok hvfy
  obtain ⟨currency, hcurr, hvfy⟩ := bind_ok hvfy
  obtain ⟨decision, hdec, hvfy⟩ := bind_ok hvfy
  obtain ⟨amount, hamou, -⟩ := bind_ok hvfy
  simp only [requiredFields, forall_mem_cons, not_mem_nil, false_imp_iff, implies_true, and_true]
  exact ⟨mem_of_requiredParam href, mem_of_requiredParam hcurr, mem_of_requiredParam hdec, mem_of_requiredParam hamou⟩

variable {field : String} {message : Params}

theorem get_eq_of_signedText (hname : ',' ∉ field.toList) (hsign : field ∈ signedFields params)
    (hval : ',' ∉ (get params field).toList) (htext : signedText message = signedText params)
    (hnamed : NamedOnce message field) : get params field = get message field := by
  have hcomma : ',' ∉ segment params field := by
    unfold segment
    simp [hname, hval]
  have hpiece : segment params field ∈ (signedText message).splitOn ',' := by
    rw [htext]
    exact mem_pieces (mem_map_of_mem hsign) hcomma
  have hpre : field.toList ++ ['='] <+: segment params field := ⟨(get params field).toList, by simp [segment]⟩
  have hsame := hnamed _ hpiece hpre
  unfold segment at hsame
  exact String.toList_inj.mp (cons.inj (append_cancel_left hsame)).2

theorem comma_not_mem_required : ∀ field ∈ requiredFields, ',' ∉ field.toList := by
  decide

theorem lookup_eq_get (hmem : field ∈ params) : params.lookup field = some (get params field) := by
  obtain ⟨value, hval⟩ := mem_iff_lookup.mp hmem
  unfold get
  rw [hval]
  rfl

/-- A message with the text and the signature of another one: the first signed field
takes the rest of the text for its value, and the required fields are not signed. -/
def reframed (message : Params) (first : String) (required : Params) : Params :=
  ((required.insert first (String.ofList ((signedText message).drop (first.toList.length + 1)))).insert
    "signed_field_names" first).insert "signature" (get message "signature")

theorem get_insert (params : Params) (key value other : String) :
    get (params.insert key value) other = if other = key then value else get params other := by
  unfold get
  rw [lookup_insert]
  by_cases heq : other = key <;> simp [heq]

theorem comma_not_mem_field (hfld : field ∈ signedFields params) : ',' ∉ field.toList := by
  unfold signedFields splitNames at hfld
  obtain ⟨name, hname, rfl⟩ := mem_map.mp hfld
  rw [String.toList_ofList]
  exact not_mem_of_mem_splitOn hname

variable {first : String} {required : Params}

section

variable {others : List String} (hflds : signedFields message = first :: others)
include hflds

theorem signedText_reframed (hnames : first ≠ "signed_field_names") (hsig : first ≠ "signature") :
    signedText (reframed message first required) = signedText message := by
  have hcomma : ',' ∉ first.toList := comma_not_mem_field (hflds ▸ mem_cons_self : first ∈ signedFields message)
  have hone : signedFields (reframed message first required) = [first] := by
    unfold signedFields reframed splitNames
    rw [get_insert, if_neg (by decide), get_insert, if_pos rfl, List.splitOn_eq_singleton hcomma]
    simp
  -- the text begins with the name of the first field and an equal sign
  obtain ⟨rest, hrest⟩ : ∃ rest, signedText message = first.toList ++ '=' :: rest := by
    unfold signedText segment
    rw [hflds]
    cases others with
    | nil => exact ⟨(get message first).toList, by simp⟩
    | cons second others => exact ⟨_, by
        rw [map_cons, map_cons, List.intercalate_cons_cons, append_assoc, append_assoc, cons_append]⟩
  have hdrop : (signedText message).drop (first.toList.length + 1) = rest := by
    rw [hrest]
    simp
  unfold signedText
  rw [hone]
  change [','].intercalate [segment (reframed message first required) first] = signedText message
  rw [List.intercalate_singleton, hrest]
  unfold segment reframed
  rw [get_insert, if_neg hsig, get_insert, if_neg hnames, get_insert, if_pos rfl, hdrop, String.toList_ofList]

theorem reframed_accepted (hfst : first ∉ "signed_field_names" :: "signature" :: requiredFields)
    (hgen : processorHash (String.ofList (signedText message)) = get message "signature")
    (hdec : required.lookup "decision" = some valid.decision)
    (hends : valid.decision ≠ "CANCEL" ∧ valid.decision ≠ "DECLINE")
    (hstr : str valid.decision = some valid.decision)
    (href : requiredParam required "req_reference_number" conversions.int = .ok valid.reqReferenceNumber)
    (hcurr : requiredParam required "req_currency" str = .ok valid.reqCurrency)
    (hamou : requiredParam required "auth_amount" conversions.decimal = .ok valid.authAmount) :
    verifySignatures processorHash conversions (reframed message first required) = .ok valid := by
  simp only [requiredFields, mem_cons, not_mem_nil, or_false, not_or] at hfst
  obtain ⟨hnames, hsig, hrefe, hcur, hdeci, hamo⟩ := hfst
  have hlook : ∀ key, key ≠ "signed_field_names" → key ≠ "signature" → key ≠ first →
      (reframed message first required).lookup key = required.lookup key := by
    intro key hkeyN hkeyS hkeyF
    unfold reframed
    rw [lookup_insert_of_ne hkeyS, lookup_insert_of_ne hkeyN, lookup_insert_of_ne hkeyF]
  have hparam : ∀ {α : Type} key (keyType : String → Option α), key ≠ "signed_field_names" →
      key ≠ "signature" → key ≠ first →
      requiredParam (reframed message first required) key keyType = requiredParam required key keyType := by
    intro α key keyType hkeyN hkeyS hkeyF
    unfold requiredParam
    rw [hlook key hkeyN hkeyS hkeyF]
  have hget : get (reframed message first required) "signature" = get message "signature" := by
    unfold reframed
    rw [get_insert, if_pos rfl]
  unfold verifySignatures
  rw [hlook "decision" (by decide) (by decide) (Ne.symm hdeci), hdec,
    if_neg (by simpa using hends.1), if_neg (by simpa using hends.2),
    signedText_reframed hflds hnames hsig, hget, if_neg (not_not.mpr hgen),
    hparam "req_reference_number" _ (by decide) (by decide) (Ne.symm hrefe), href,
    hparam "req_currency" _ (by decide) (by decide) (Ne.symm hcur), hcurr,
    hparam "decision" _ (by decide) (by decide) (Ne.symm hdeci),
    hparam "auth_amount" _ (by decide) (by decide) (Ne.symm hamo), hamou]
  unfold requiredParam
  rw [hdec]
  dsimp only
  rw [hstr]
  rfl

end

def wholeNumber (text : String) : Option Int :=
  if text.isEmpty then none
  else text.toList.foldlM (fun (number : Int) c =>
    if c.isDigit then some (10 * number + (c.toNat - '0'.toNat)) else none) 0

def wholeNumbers : Conversions where
  int := wholeNumber
  decimal text := (wholeNumber text).map Int.cast

/-- The processor's message for order 7, signed with the text for its own hash. -/
def orderSeven : Params := Dict.ofList [("transaction_id", "4083708299660176195663"), ("decision", "ACCEPT"),
    ("req_reference_number", "7"), ("req_currency", "usd"), ("auth_amount", "40"),
    ("signed_field_names", "transaction_id,decision,req_reference_number,req_currency,auth_amount"),
    ("signature", "transaction_id=4083708299660176195663,decision=ACCEPT,req_reference_number=7," ++
        "req_currency=usd,auth_amount=40")]

def deliveredSeven : Presented id {orderSeven} where
  params := orderSeven
  unforged _ := ⟨orderSeven, rfl, rfl⟩

theorem deliveredSeven_framed : Framed id deliveredSeven := by
  have hflds : ∀ field ∈ requiredFields, field ∈ signedFields orderSeven ∧
      ',' ∉ (get orderSeven field).toList ∧ field ∈ orderSeven ∧
      ∀ piece ∈ (signedText orderSeven).splitOn ',', field.toList ++ ['='] <+: piece →
        piece = segment orderSeven field := by
    decide +kernel
  intro field hfld
  obtain ⟨hsign, hcomma, hmem, hnamed⟩ := hflds field hfld
  refine ⟨hsign, hcomma, ?_⟩
  rintro message rfl -
  exact ⟨hmem, hnamed⟩

def reframedForEight : Params :=
  reframed orderSeven "transaction_id" (Dict.ofList
    [("decision", "ACCEPT"), ("req_reference_number", "8"), ("req_currency", "usd"), ("auth_amount", "40")])

end EdxPlatform.CyberSource
