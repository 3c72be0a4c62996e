import EdxPlatform.Lib.VerboseReader

/-!
# Links of content that name a course

When content goes into another course, its links to assets and blocks of the course it comes from are rewritten
to links that hold in every course.  The links are found with patterns into which the written keys of the course
are spliced.
-/

namespace EdxPlatform.ContentLinks

open GroupedRegex Rewriting

abbrev Text := List Char

/-! ## Keys -/

/-- The key classes: how the keys of a course, of its assets and of its blocks are written, and which names
their parts may have. -/
structure OpaqueKeys (CourseKey : Type) where
  unicode : CourseKey → Text
  makeAssetKey : CourseKey → Text → Text → Text
  makeUsageKey : CourseKey → Text → Text → Text
  IsAssetName : Text → Prop
  IsBlockType : Text → Prop
  IsBlockId : Text → Prop

/-- The two ways to write course keys.  A key of the newer way may have a branch and a version, which follow
the run. -/
inductive KeyForm where
  | slashSeparated (org course run : Text)
  | courseV1 (org course run : Text) (revision : List Text)
deriving DecidableEq

namespace KeyForm

def joined (parts : List Text) : Text := List.intercalate ['+'] parts

def unicode : KeyForm → Text
  | slashSeparated org course run => org ++ "/".toList ++ course ++ "/".toList ++ run
  | courseV1 org course run revision => "course-v1:".toList ++ joined (org :: course :: run :: revision)

def assetFront (type : Text) : KeyForm → Text
  | slashSeparated org course _ => "/c4x/".toList ++ org ++ "/".toList ++ course ++ "/".toList ++ type ++ "/".toList
  | courseV1 org course run revision =>
    "asset-v1:".toList ++ joined (org :: course :: run :: revision) ++ "+type@".toList ++ type ++ "+block@".toList

def usageFront : KeyForm → Text
  | slashSeparated org course _ => "i4x://".toList ++ org ++ "/".toList ++ course ++ "/".toList
  | courseV1 org course run revision =>
    "block-v1:".toList ++ joined (org :: course :: run :: revision) ++ "+type@".toList

def usageMiddle : KeyForm → Text
  | slashSeparated _ _ _ => "/".toList
  | courseV1 _ _ _ _ => "+block@".toList

end KeyForm

/-- The parts of course keys have no characters with a meaning in patterns but `.`, and no quotes. -/
def IsKeyChar (c : Char) : Prop := c = '.' ∨ (c ∉ special ∧ c ≠ '\'' ∧ c ≠ '"')

instance : DecidablePred IsKeyChar := fun _ => inferInstanceAs (Decidable (_ ∨ _))

def KeyForm.WellFormed : KeyForm → Prop
  | slashSeparated org course run => ∀ c ∈ org ++ course ++ run, IsKeyChar c
  | courseV1 org course run revision => ∀ part ∈ org :: course :: run :: revision, part ≠ [] ∧ ∀ c ∈ part, IsKeyChar c

instance : DecidablePred KeyForm.WellFormed
  | .slashSeparated _ _ _ => List.decidableBAll _ _
  | .courseV1 _ _ _ _ => @List.decidableBAll _ _ (fun _ => @instDecidableAnd _ _ _ (List.decidableBAll _ _)) _

def marks : List Char := ['\'', '"', '\\']

def IsPlain (name : Text) : Prop := ∀ c ∈ name, c ∉ marks ∧ c ≠ '\n'

/-- What is documented of the key classes. -/
structure OpaqueKeys.Documented {CourseKey : Type} (keys : OpaqueKeys CourseKey) (form : CourseKey → KeyForm) :
    Prop where
  unicode : ∀ key, keys.unicode key = (form key).unicode
  makeAssetKey : ∀ key type name, keys.makeAssetKey key type name = (form key).assetFront type ++ name
  makeUsageKey : ∀ key type id,
    keys.makeUsageKey key type id = (form key).usageFront ++ type ++ (form key).usageMiddle ++ id
  wellFormed : ∀ key, (form key).WellFormed
  assetName : ∀ name, keys.IsAssetName name → IsPlain name
  blockType : ∀ type, keys.IsBlockType type → type ≠ [] ∧ IsPlain type ∧ '/' ∉ type ∧ '+' ∉ type ∧ '@' ∉ type
  blockId : ∀ id, keys.IsBlockId id → IsPlain id

/-! ## The code -/

def openingQuotes : Text :=
  "\n        (?x)                      # flags=re.VERBOSE".toList ++
    "\n        (?P<quote>\\\\?['\"])        # the opening quotes\n        ".toList

def closingQuote : Text := "\n        (?P=quote)                # the first matching closing quote\n        ".toList

/-- `_prefix_only_url_replace_regex` -/
def prefixOnlyUrlReplaceRegex (pattern : Text) : Text := openingQuotes ++ pattern ++ closingQuote

/-- The match that a substitution is given raises where it is asked for a group that the pattern does not have. -/
def portableSubstitution (portable : Text) (found : Progress) : Option Text :=
  (found.group "quote".toList).bind fun quote => (found.group "block_id".toList).map fun blockId =>
    quote ++ portable ++ blockId ++ quote

def portableAssetLinkSubtitution : Progress → Option Text := portableSubstitution "/static/".toList

def portableJumpToLinkSubstitution : Progress → Option Text := portableSubstitution "/jump_to_id/".toList

/-- `text.replace(old, new)`, where so many characters of an occurrence are still to be skipped. -/
def replaceFrom (old new : Text) : Nat → Text → Text
  | _, [] => []
  | skip + 1, _ :: rest => replaceFrom old new skip rest
  | 0, c :: rest =>
    if old <+: c :: rest then new ++ replaceFrom old new (old.length - 1) rest
    else c :: replaceFrom old new 0 rest

def replace (old new text : Text) : Text := replaceFrom old new 0 text

/-- What is raised on the way to a substitution is logged, and the text stays as it is. -/
def attempt (pattern : Text) (substitution : Progress → Option Text) (text : Text) : Text :=
  ((compile (prefixOnlyUrlReplaceRegex pattern)).bind fun expr => sub expr substitution text).getD text

def blockIdPattern : Text := "(?P<block_id>.*?)".toList

def categoryPattern : Text := "(?P<category>[^/+@]+)".toList

variable {CourseKey : Type}

section

variable (keys : OpaqueKeys CourseKey)

def assetBlockPattern (placeholderId : Text) (source : CourseKey) : Text :=
  replace placeholderId blockIdPattern (keys.makeAssetKey source "asset".toList placeholderId)

section

variable (placeholderId placeholderCategory : Text) (source : CourseKey)

def usageBlockPattern : Text :=
  replace placeholderId blockIdPattern
    (replace placeholderCategory categoryPattern (keys.makeUsageKey source placeholderCategory placeholderId))

def jumpToLinkBase : Text :=
  "/courses/".toList ++ keys.unicode source ++ "/jump_to/".toList ++
    usageBlockPattern keys placeholderId placeholderCategory source

end

def genericCoursewareLinkBase (source : CourseKey) : Text := "/courses/".toList ++ keys.unicode source ++ "/".toList

/-- `rewrite_nonportable_content_links`; the placeholders are the random ids that it draws. -/
def rewriteNonportableContentLinks [DecidableEq CourseKey] (placeholderId categoryId : Text)
    (source dest : CourseKey) (text : Text) : Text :=
  let placeholderCategory := "cat_".toList ++ categoryId
  let text := attempt (assetBlockPattern keys placeholderId source) portableAssetLinkSubtitution text
  let text := attempt (jumpToLinkBase keys placeholderId placeholderCategory source)
    portableJumpToLinkSubstitution text
  if source ≠ dest then attempt (genericCoursewareLinkBase keys source) portableAssetLinkSubtitution text
  else text

def Once (old text : Text) : Prop :=
  ∀ front back front' back', text = front ++ old ++ back → text = front' ++ old ++ back' → front = front'

/-- The random ids do not occur in what they are put into. -/
structure Fresh (placeholderId categoryId : Text) (source : CourseKey) : Prop where
  nonempty : placeholderId ≠ []
  asset : Once placeholderId (keys.makeAssetKey source "asset".toList placeholderId)
  category : Once ("cat_".toList ++ categoryId) (keys.makeUsageKey source ("cat_".toList ++ categoryId) placeholderId)
  block : Once placeholderId (keys.makeUsageKey source categoryPattern placeholderId)

end

/-- A quote of either kind, in a text that is quoted itself with a backslash. -/
def quotes : List Text := [['\''], ['"'], ['\\', '\''], ['\\', '"']]

/-- A link in quotes becomes another link in the same quotes.  A quote behind a backslash is the quote with
the backslash. -/
def quotedLinks (link : Text → Text → Prop) : Rule Char := fun before matched _ new =>
  (before.getLast? = some '\\' → matched.head? = some '\\') ∧
    ∃ quote ∈ quotes, ∃ url portable, link url portable ∧ matched = quote ++ url ++ quote ∧
      new = quote ++ portable ++ quote

/-- `StaticContent.serialize_asset_key_with_slash` -/
def serializeAssetKeyWithSlash (url : Text) : Text := if url.head? = some '/' then url else '/' :: url

section

variable (keys : OpaqueKeys CourseKey) (source : CourseKey)

/-- The links to assets of the course are the keys of its assets, with and without a slash in front. -/
def assetLinks : Rule Char := quotedLinks fun url portable => ∃ name, keys.IsAssetName name ∧
  (url = keys.makeAssetKey source "asset".toList name ∨
    url = serializeAssetKeyWithSlash (keys.makeAssetKey source "asset".toList name)) ∧
  portable = "/static/".toList ++ name

def jumpToLinks : Rule Char := quotedLinks fun url portable => ∃ type id, keys.IsBlockType type ∧ keys.IsBlockId id ∧
  url = "/courses/".toList ++ keys.unicode source ++ "/jump_to/".toList ++ keys.makeUsageKey source type id ∧
  portable = "/jump_to_id/".toList ++ id

def Rewrites (text result : Text) : Prop :=
  ∃ middle, Replaced (assetLinks keys source) [] text middle ∧ Replaced (jumpToLinks keys source) [] middle result

end

end EdxPlatform.ContentLinks
