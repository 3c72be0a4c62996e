import Mathlib.Data.List.Infix
import EdxPlatform.Lib.Documents

/-!
# The text of a JSON document

Texts are quoted so that only printable ASCII characters are left.
-/

namespace EdxPlatform

inductive JsonAtom where
  | null
  | bool (value : Bool)
  | number (digits : String)
  | string (text : String)
  deriving DecidableEq, Repr

namespace JsonText

def hexEscape (code : Nat) : String :=
  let digits := Nat.toDigits 16 code
  "\\u" ++ String.ofList (List.replicate (4 - digits.length) '0' ++ digits)

def escapeChar (char : Char) : String :=
  match char.toNat with
  | 8 => "\\b"
  | 9 => "\\t"
  | 10 => "\\n"
  | 12 => "\\f"
  | 13 => "\\r"
  | 34 => "\\\""
  | 92 => "\\\\"
  | code =>
    if 32 ≤ code ∧ code ≤ 126 then char.toString
    else if code < 0x10000 then hexEscape code
    -- Above the basic plane there are two surrogates.
    else hexEscape (0xd800 + (code - 0x10000) / 0x400) ++ hexEscape (0xdc00 + (code - 0x10000) % 0x400)

def quote (text : String) : String := "\"" ++ String.join (text.toList.map escapeChar) ++ "\""

def atomText : JsonAtom → String
  | .null => "null"
  | .bool true => "true"
  | .bool false => "false"
  | .number digits => digits
  | .string text => quote text

def commaSeparated : List String → String
  | [] => ""
  | [text] => text
  | text :: second :: texts => text ++ ", " ++ commaSeparated (second :: texts)

mutual

/-- `json.dumps`. -/
def dumps : Document JsonAtom → String
  | .atom value => atomText value
  | .list elements => "[" ++ commaSeparated (elementTexts elements) ++ "]"
  | .dict entries => "\x7b" ++ commaSeparated (entryTexts entries) ++ "\x7d"

def elementTexts : List (Document JsonAtom) → List String
  | [] => []
  | element :: elements => dumps element :: elementTexts elements

def entryText : String × Document JsonAtom → String
  | (key, value) => quote key ++ ": " ++ dumps value

def entryTexts : Entries JsonAtom → List String
  | [] => []
  | entry :: entries => entryText entry :: entryTexts entries

end

theorem prefix_commaSeparated (text : String) (texts : List String) :
    text.toList <+: (commaSeparated (text :: texts)).toList := by
  cases texts with
  | nil => exact List.prefix_rfl
  | cons second texts =>
    rw [commaSeparated, String.toList_append, String.toList_append, List.append_assoc]
    exact List.prefix_append _ _

theorem infix_commaSeparated {text : String} {texts : List String} (hmem : text ∈ texts) :
    text.toList <:+: (commaSeparated texts).toList := by
  induction texts with
  | nil => cases hmem
  | cons first texts ih =>
    cases hmem with
    | head => exact (prefix_commaSeparated text texts).isInfix
    | tail _ hrest =>
      cases texts with
      | nil => cases hrest
      | cons second texts =>
        rw [commaSeparated, String.toList_append]
        exact (ih hrest).trans (List.suffix_append _ _).isInfix

variable {entry : String × Document JsonAtom}

section

variable {entries : Entries JsonAtom} (hmem : entry ∈ entries)
include hmem

theorem entryText_mem : entryText entry ∈ entryTexts entries := by
  induction entries with
  | nil => cases hmem
  | cons first entries ih =>
    rw [entryTexts]
    cases hmem with
    | head => exact List.mem_cons_self
    | tail _ hrest => exact List.mem_cons_of_mem _ (ih hrest)

theorem infix_dumps : (entryText entry).toList <:+: (dumps (.dict entries)).toList := by
  rw [dumps, String.toList_append, String.toList_append]
  exact (infix_commaSeparated (entryText_mem hmem)).trans ⟨_, _, rfl⟩

end

end JsonText

end EdxPlatform
