import EdxPlatform.Lib.Dict
import EdxPlatform.Lib.Python
import EdxPlatform.Lib.Runs

/-!
# Session cookies bound to a user

A cookie carries a session id and a signature over the id and the user.  The
middleware verifies it against the user that the session has when it is sent back.
-/

namespace EdxPlatform.SafeSessions

/-- `django.core.signing` at a time, under a salt: a signature of a text, and the text of
a signature that is valid and fresh. -/
structure Signing where
  dumps : Nat → String → String → String
  loads : Nat → String → String → Option String

/-- The hash and the signing function that the platform uses. -/
structure Crypto where
  sha256 : List Char → String
  signing : Signing

inductive CookieError where
  | sessionId
  | parse
  | version
  | notAscii
  deriving DecidableEq, Repr

structure SafeCookieData where
  version : String
  sessionId : String
  keySalt : String
  signature : String
  deriving DecidableEq, Repr

def currentVersion : String := "1"

def separator : Char := '|'

/-- `get_random_string`: letters and digits. -/
structure RandomString where
  text : String
  alphanumeric : ∀ c ∈ text.toList, c.isAlphanum

/-- `unicode(user_id)`. -/
def userText : Option Nat → List Char
  | none => "None".toList
  | some user => Nat.toDigits 10 user

variable (crypto : Crypto)

namespace SafeCookieData

/-- `parse`. -/
def parse (safeCookieString : String) : Except CookieError SafeCookieData :=
  match (safeCookieString.toList.splitOn separator).map String.ofList with
  | [version, sessionId, keySalt, signature] =>
    if version ≠ currentVersion then .error .version
    else .ok { version, sessionId, keySalt, signature }
  | _ => .error .parse

/-- `__unicode__`. -/
def serialize (cookie : SafeCookieData) : String :=
  String.ofList ([separator].intercalate
    [cookie.version.toList, cookie.sessionId.toList, cookie.keySalt.toList, cookie.signature.toList])

def digestText (cookie : SafeCookieData) (user : Option Nat) : List Char :=
  cookie.version.toList ++ separator :: (cookie.sessionId.toList ++ separator :: (userText user ++ [separator]))

/-- `_compute_digest`, which raises on letters that are not ASCII. -/
def computeDigest (cookie : SafeCookieData) (user : Option Nat) : Except CookieError String :=
  if (cookie.digestText user).all fun c => c.toNat < 128 then
    .ok (crypto.sha256 (cookie.digestText user))
  else .error .notAscii

/-- `create`. -/
def create (now : Nat) (sessionId : String) (user : Option Nat) (keySalt : RandomString) :
    Except CookieError SafeCookieData :=
  if sessionId.isEmpty || sessionId = "None" then .error .sessionId
  else do
    let cookie : SafeCookieData := { version := currentVersion, sessionId, keySalt := keySalt.text, signature := "" }
    let dataToSign ← cookie.computeDigest crypto user
    return { cookie with signature := crypto.signing.dumps now dataToSign keySalt.text }

/-- `verify`. -/
def verify (now : Nat) (cookie : SafeCookieData) (user : Option Nat) : Except CookieError Bool :=
  match crypto.signing.loads now cookie.signature cookie.keySalt with
  | none => .ok false
  | some unsignedData => do
    let digest ← cookie.computeDigest crypto user
    return decide (unsignedData = digest)

end SafeCookieData

open SafeCookieData

abbrev SessionKey := { key : String // key ≠ "" }

/-- The sessions that have a user, the pairs for which cookies were issued, and the
texts that were signed for them, each with its salt. -/
structure Server where
  sessions : Dict SessionKey Nat := ∅
  issued : List (String × Option Nat) := []
  signed : List (String × String) := []

/-- A login or a change of a session, or its end. -/
inductive SessionChange where
  | login (key : SessionKey) (user : Nat)
  | logout (key : SessionKey)

/-- What the view and Django's session middleware make of a request: the sessions that
change, the session cookie in the response, and the user in the session. -/
structure View where
  changes : List SessionChange
  sessionCookie : Option String
  user : Option Nat

/-- A request with a cookie of any kind. -/
structure Request where
  now : Nat
  cookie : Option String
  view : View
  salt : RandomString

inductive Action where
  | change (change : SessionChange)
  | request (request : Request)

inductive Processed where
  | passed (sessionId : Option String) (user : Option Nat)
  | authenticationFailed
  | raised
  deriving DecidableEq, Repr

namespace Server

variable (server : Server)

def apply (change : SessionChange) : Server :=
  match change with
  | .login key user => { server with sessions := server.sessions.insert key user }
  | .logout key => { server with sessions := server.sessions.erase key }

def sessionUser (key : String) : Option Nat :=
  if hkey : key ≠ "" then server.sessions.lookup ⟨key, hkey⟩ else none

/-- `process_request`. -/
def processRequest (request : Request) : Processed :=
  match request.cookie with
  | none => .passed none none
  | some cookieDataString =>
    if cookieDataString.isEmpty then .passed (some "") (server.sessionUser "")
    else
      match SafeCookieData.parse cookieDataString with
      | .error _ => .authenticationFailed
      | .ok cookie =>
        match server.sessionUser cookie.sessionId with
        | none => .passed (some cookie.sessionId) none
        | some user =>
          match cookie.verify crypto request.now (some user) with
          | .error _ => .raised
          | .ok false => .authenticationFailed
          | .ok true => .passed (some cookie.sessionId) (some user)

/-- `update_with_safe_session_cookie`, for the cookie that is in the response.  If the
cookie cannot be made, it is deleted or the response is an error. -/
def updateWithSafeSessionCookie (request : Request) (sessionId : String) : Server :=
  match SafeCookieData.create crypto request.now sessionId request.view.user request.salt with
  | .error _ => server
  | .ok cookie =>
    match cookie.computeDigest crypto request.view.user with
    | .error _ => server
    | .ok data =>
      { server with
        issued := (sessionId, request.view.user) :: server.issued
        signed := (cookie.keySalt, data) :: server.signed }

/-- `process_response`, of a request whose cookie is not marked for deletion. -/
def processResponse (request : Request) : Server :=
  match request.view.sessionCookie with
  | none => server
  | some value => if value.isEmpty then server else server.updateWithSafeSessionCookie crypto request value

def step : Action → Server
  | .change change => server.apply change
  | .request request =>
    match server.processRequest crypto request with
    | .passed _ _ => (request.view.changes.foldl apply server).processResponse crypto request
    | .authenticationFailed | .raised => server

/-- Nobody can make a signature: what verifies under a salt was signed under it. -/
def Unforged : Action → Prop
  | .change _ => True
  | .request request =>
    ∀ text ∈ request.cookie, ∀ cookie ∈ (SafeCookieData.parse text).toOption,
      ∀ data ∈ crypto.signing.loads request.now cookie.signature cookie.keySalt, (cookie.keySalt, data) ∈ server.signed

instance (action : Action) : Decidable (server.Unforged crypto action) :=
  match action with
  | .change _ => .isTrue trivial
  | .request request => inferInstanceAs (Decidable
      (∀ text ∈ request.cookie, ∀ cookie ∈ (SafeCookieData.parse text).toOption,
        ∀ data ∈ crypto.signing.loads request.now cookie.signature cookie.keySalt,
          (cookie.keySalt, data) ∈ server.signed))

/-- A request that passes with a user in its session has a cookie that was issued for
this session and this user. -/
def BoundRequest : Action → Prop
  | .change _ => True
  | .request request => ∀ sessionId user, server.processRequest crypto request = .passed sessionId (some user) →
      ∃ key, sessionId = some key ∧ (key, some user) ∈ server.issued

end Server

theorem userText_free (user : Option Nat) : separator ∉ userText user := by
  cases user with
  | none => decide
  | some user =>
    intro hmem
    have hdigit := Nat.isDigit_of_mem_toDigits (by decide) (by decide) hmem
    exact absurd hdigit (by decide)

theorem userText_injective : Injective userText := by
  intro first second heq
  have hnone : ∀ user, userText none ≠ userText (some user) := by
    intro user hsame
    have hmem : 'N' ∈ userText (some user) := hsame ▸ mem_cons_self
    exact absurd (Nat.isDigit_of_mem_toDigits (by decide) (by decide) hmem) (by decide)
  cases first with
  | none => cases second with
    | none => rfl
    | some second => exact absurd heq (hnone second)
  | some first => cases second with
    | none => exact absurd heq.symm (hnone first)
    | some second =>
      have hdig := congrArg (Nat.ofDigitChars 10 · 0) heq
      simp only [userText, Nat.ofDigitChars_ten_toDigits] at hdig
      rw [hdig]

theorem cut_unique {first second rest others : List Char} (hfst : separator ∉ first) (hsec : separator ∉ second)
    (heq : first ++ separator :: rest = second ++ separator :: others) :
    first = second ∧ rest = others := by
  induction first generalizing second with
  | nil => cases second with
    | nil => exact ⟨rfl, (cons.inj heq).2⟩
    | cons c second =>
      rw [(cons.inj heq).1] at hsec
      exact absurd mem_cons_self hsec
  | cons c first ih => cases second with
    | nil =>
      rw [(cons.inj heq).1] at hfst
      exact absurd mem_cons_self hfst
    | cons d second =>
      obtain ⟨rfl, htail⟩ := cons.inj heq
      obtain ⟨rfl, hrest⟩ := ih (fun hmem => hfst (mem_cons_of_mem _ hmem))
        (fun hmem => hsec (mem_cons_of_mem _ hmem)) htail
      exact ⟨rfl, hrest⟩

theorem digestText_injective {first second : SafeCookieData} {user other : Option Nat}
    (hver : first.version = second.version)
    (heq : first.digestText user = second.digestText other) :
    first.sessionId = second.sessionId ∧ user = other := by
  unfold digestText at heq
  rw [hver] at heq
  have hrest := (cons.inj (append_cancel_left heq)).2
  rw [← cons_append, ← cons_append, ← append_assoc, ← append_assoc] at hrest
  have hrev := congrArg List.reverse (List.append_cancel_right hrest)
  simp only [reverse_append, reverse_cons, append_assoc, singleton_append] at hrev
  obtain ⟨huser, hses⟩ := cut_unique (fun hmem => userText_free user (List.mem_reverse.mp hmem))
    (fun hmem => userText_free other (List.mem_reverse.mp hmem)) hrev
  exact ⟨String.toList_injective (List.reverse_injective hses), userText_injective (List.reverse_injective huser)⟩

theorem RandomString.free (salt : RandomString) : separator ∉ salt.text.toList := fun hmem =>
  absurd (salt.alphanumeric separator hmem) (by decide)

variable {crypto : Crypto} {cookie : SafeCookieData}

theorem parse_version {text : String} (hparse : parse text = .ok cookie) : cookie.version = currentVersion := by
  unfold parse at hparse
  split at hparse
  · split at hparse
    · cases hparse
    · next hver =>
      obtain rfl := ok.inj hparse
      exact not_not.mp hver
  · cases hparse

theorem parse_serialize (hver : cookie.version = currentVersion)
    (hses : separator ∉ cookie.sessionId.toList) (hsalt : separator ∉ cookie.keySalt.toList)
    (hsig : separator ∉ cookie.signature.toList) :
    parse cookie.serialize = .ok cookie := by
  have hspl : cookie.serialize.toList.splitOn separator = [cookie.version.toList,
      cookie.sessionId.toList, cookie.keySalt.toList, cookie.signature.toList] := by
    unfold serialize
    rw [String.toList_ofList]
    refine List.splitOn_intercalate separator (fun part hpart => ?_) (cons_ne_nil _ _)
    rw [hver] at hpart
    simp only [mem_cons, not_mem_nil, or_false] at hpart
    rcases hpart with rfl | rfl | rfl | rfl
    · decide
    · exact hses
    · exact hsalt
    · exact hsig
  obtain ⟨version, sessionId, keySalt, signature⟩ := cookie
  unfold parse
  rw [hspl]
  simp only [map_cons, map_nil, String.ofList_toList]
  exact if_neg (not_not.mpr hver)

theorem create_parts {now : Nat} {sessionId : String} {user : Option Nat} {keySalt : RandomString}
    (hcreate : create crypto now sessionId user keySalt = .ok cookie) :
    cookie.version = currentVersion ∧ cookie.sessionId = sessionId ∧ cookie.keySalt = keySalt.text ∧
      ∃ data, cookie.signature = crypto.signing.dumps now data keySalt.text := by
  unfold create at hcreate
  split at hcreate
  · cases hcreate
  · obtain ⟨data, -, hcreate⟩ := bind_ok hcreate
    obtain rfl := ok.inj hcreate
    exact ⟨rfl, rfl, rfl, data, rfl⟩

namespace Server

variable {server : Server}

def SignedIssued (crypto : Crypto) (server : Server) : Prop :=
  ∀ entry ∈ server.signed, ∃ cookie : SafeCookieData, cookie.version = currentVersion ∧
    ∃ user, (cookie.sessionId, user) ∈ server.issued ∧ entry.2 = crypto.sha256 (cookie.digestText user)

theorem apply_issued (server : Server) (change : SessionChange) :
    (server.apply change).issued = server.issued ∧ (server.apply change).signed = server.signed := by
  cases change with
  | login key user => exact ⟨rfl, rfl⟩
  | logout key => exact ⟨rfl, rfl⟩

theorem foldl_apply_issued (server : Server) (changes : List SessionChange) :
    (changes.foldl apply server).issued = server.issued ∧ (changes.foldl apply server).signed = server.signed := by
  induction changes generalizing server with
  | nil => exact ⟨rfl, rfl⟩
  | cons change changes ih =>
    obtain ⟨hiss, hsign⟩ := apply_issued server change
    obtain ⟨hres, hrestS⟩ := ih (server.apply change)
    exact ⟨hres.trans hiss, hrestS.trans hsign⟩

theorem digest_ok {cookie : SafeCookieData} {user : Option Nat} {data : String}
    (hdige : cookie.computeDigest crypto user = .ok data) :
    data = crypto.sha256 (cookie.digestText user) := by
  unfold computeDigest at hdige
  split at hdige
  · exact (ok.inj hdige).symm
  · cases hdige

theorem processResponse_signedIssued (hsign : server.SignedIssued crypto) (request : Request) :
    (server.processResponse crypto request).SignedIssued crypto := by
  unfold processResponse
  split
  · exact hsign
  split
  · exact hsign
  · next value _ _ =>
    unfold updateWithSafeSessionCookie
    split
    · exact hsign
    · next cookie hcreate =>
      split
      · exact hsign
      · next data hdige =>
        obtain ⟨hver, hses, -⟩ := create_parts hcreate
        intro entry hent
        rcases mem_cons.mp hent with rfl | hent
        · refine ⟨cookie, hver, request.view.user, ?_, digest_ok hdige⟩
          rw [hses]
          exact mem_cons_self
        · obtain ⟨signed, hver, user, hiss, hdata⟩ := hsign entry hent
          exact ⟨signed, hver, user, mem_cons_of_mem _ hiss, hdata⟩

theorem step_signedIssued (hsign : server.SignedIssued crypto) (action : Action) :
    (server.step crypto action).SignedIssued crypto := by
  have hkept : ∀ {after : Server}, after.issued = server.issued ∧ after.signed = server.signed →
      after.SignedIssued crypto := by
    rintro after ⟨hiss, hsame⟩
    unfold SignedIssued
    rw [hiss, hsame]
    exact hsign
  cases action with
  | change change => exact hkept (apply_issued server change)
  | request request =>
    unfold step
    dsimp only
    split
    · exact processResponse_signedIssued (hkept (foldl_apply_issued server request.view.changes)) request
    · exact hsign
    · exact hsign

theorem sessionUser_empty : server.sessionUser "" = none := dif_neg (not_not.mpr rfl)

theorem processRequest_cases {request : Request} {sessionId : Option String} {user : Nat}
    (hpass : server.processRequest crypto request = .passed sessionId (some user)) :
    ∃ text cookie, request.cookie = some text ∧ parse text = .ok cookie ∧ sessionId = some cookie.sessionId ∧
      cookie.verify crypto request.now (some user) = .ok true := by
  unfold processRequest at hpass
  split at hpass
  · cases hpass
  · next text htext =>
    split at hpass
    · rw [sessionUser_empty] at hpass
      cases hpass
    split at hpass
    · cases hpass
    · next cookie hparse =>
      split at hpass
      · cases hpass
      · next found _ =>
        split at hpass
        · cases hpass
        · cases hpass
        · next hvfy =>
          obtain ⟨rfl, hsame⟩ := Processed.passed.inj hpass
          rw [some.inj hsame] at hvfy
          exact ⟨text, cookie, htext, hparse, rfl, hvfy⟩

theorem verify_cases {cookie : SafeCookieData} {now : Nat} {user : Option Nat}
    (hvfy : cookie.verify crypto now user = .ok true) :
    crypto.signing.loads now cookie.signature cookie.keySalt = some (crypto.sha256 (cookie.digestText user)) := by
  unfold verify at hvfy
  split at hvfy
  · cases hvfy
  · next data hdata =>
    obtain ⟨digest, hdige, hsame⟩ := bind_ok hvfy
    rw [hdata, of_decide_eq_true (ok.inj hsame), digest_ok hdige]

theorem boundRequest_of_signedIssued (hcol : Injective crypto.sha256)
    (hsign : server.SignedIssued crypto) {action : Action}
    (hunf : server.Unforged crypto action) : server.BoundRequest crypto action := by
  cases action with
  | change change => trivial
  | request request =>
    intro sessionId user hpass
    obtain ⟨text, cookie, htext, hparse, rfl, hvfy⟩ := processRequest_cases hpass
    have hcook : cookie ∈ (parse text).toOption := by
      rw [hparse]
      rfl
    obtain ⟨signed, hver, other, hiss, hdata⟩ := hsign _ (hunf text htext cookie hcook _ (verify_cases hvfy))
    obtain ⟨hses, huser⟩ := digestText_injective ((parse_version hparse).trans hver.symm) (hcol hdata)
    refine ⟨cookie.sessionId, rfl, ?_⟩
    rw [hses, huser]
    exact hiss

/-- In every run in which no signature is forged, every request that passes with a user
has a cookie issued for its session and user; and every cookie made from a session id
without separator is read as it was written. -/
theorem requests_bound_and_parse_serialize (crypto : Crypto) (hcollision : Function.Injective crypto.sha256)
    (hdumps : ∀ now data salt, separator ∉ (crypto.signing.dumps now data salt).toList)
    {actions : List Action} (hunforged : Each (step crypto) (Unforged crypto) {} actions) :
    Each (step crypto) (BoundRequest crypto) {} actions ∧
      ∀ now sessionId user keySalt cookie, separator ∉ sessionId.toList →
        SafeCookieData.create crypto now sessionId user keySalt = .ok cookie →
        SafeCookieData.parse cookie.serialize = .ok cookie := by
  constructor
  · exact hunforged.imp_of_invariant (fun _ action hsigned => step_signedIssued hsigned action)
      (fun _ _ hsigned => boundRequest_of_signedIssued hcollision hsigned)
      fun _ hentry => absurd hentry not_mem_nil
  · intro now sessionId user keySalt cookie hsession hcreate
    obtain ⟨hversion, hsame, hsalt, data, hsignature⟩ := create_parts hcreate
    refine parse_serialize hversion (hsame ▸ hsession) ?_ ?_
    · rw [hsalt]
      exact keySalt.free
    · rw [hsignature]
      exact hdumps now data keySalt.text

/-- A signing function that signs one text and writes it as `sig`. -/
def annaSigning : Signing where
  dumps _ _ _ := "sig"
  loads _ signature salt :=
    if signature = "sig" ∧ salt = "abc" then some "1|k|7|" else none

def annaCrypto : Crypto := ⟨String.ofList, annaSigning⟩

def annaComesBack : List Action :=
  let salt : RandomString := ⟨"abc", by simp⟩
  [.request ⟨0, none, ⟨[.login ⟨"k", by decide⟩ 7], some "k", some 7⟩, salt⟩,
    .request ⟨1, some "1|k|abc|sig", ⟨[], none, some 7⟩, salt⟩]

theorem annaComesBack_bound : Each (step annaCrypto) (BoundRequest annaCrypto) {} annaComesBack ∧
      ∀ now sessionId user keySalt cookie, separator ∉ sessionId.toList →
        SafeCookieData.create annaCrypto now sessionId user keySalt = .ok cookie →
        SafeCookieData.parse cookie.serialize = .ok cookie :=
  requests_bound_and_parse_serialize annaCrypto (fun _ _ heq => String.ofList_injective heq)
    (fun _ _ _ => by change separator ∉ "sig".toList; decide) (by decide +kernel)

end Server

end EdxPlatform.SafeSessions
