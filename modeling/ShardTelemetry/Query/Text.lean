import Mathlib.Algebra.Order.Ring.Nat
import Mathlib.Data.List.Basic

/-!
# Text

A text is the list of its characters.  The code works on the bytes of the UTF-8 encoding; all it
looks for are boundaries between characters and runs of ASCII bytes, and these are the same in both
views.  Where the number of bytes matters, in the edit distance of the fuzzy match, `utf8` gives the
bytes.

What the Unicode tables say about characters outside of ASCII, and what the regular expressions
match, is not part of this repository: `TextEngine` has both, with what the tables are known to
satisfy.
-/

namespace ShardTelemetry.Query

abbrev Text := List Char

instance : LawfulBEq Text := inferInstance

inductive CaseSensitivity where
  | sensitive
  | insensitive
  deriving DecidableEq

inductive TextMatchKind where
  | exact
  | contains
  | prefixed
  | suffixed
  deriving DecidableEq

structure TextMatcher where
  value : Text
  kind : TextMatchKind
  caseSensitivity : CaseSensitivity
  deriving DecidableEq

structure LogRegex where
  pattern : Text
  caseSensitivity : CaseSensitivity
  deriving DecidableEq

/-! ## Characters -/

def isAscii (c : Char) : Bool := c.toNat < 128

def Text.isAscii (text : Text) : Bool := text.all Query.isAscii

def utf8 (text : Text) : List UInt8 := text.flatMap String.utf8EncodeChar

/-- `eq_ignore_ascii_case` -/
def eqIgnoreAsciiCase (left right : Text) : Bool := left.map Char.toLower == right.map Char.toLower

/-- The tables of the standard library and the matcher of regular expressions. -/
structure TextEngine where
  isAlphanumeric : Char → Bool
  isUppercase : Char → Bool
  toLowercase : Text → Text
  isMatch : LogRegex → Text → Bool
  isAlphanumeric_ascii : ∀ c, isAscii c = true → isAlphanumeric c = c.isAlphanum
  isUppercase_ascii : ∀ c, isAscii c = true → isUppercase c = c.isUpper
  toLowercase_ascii : ∀ text, Text.isAscii text = true → toLowercase text = text.map Char.toLower
  toLowercase_idem : ∀ text, toLowercase (toLowercase text) = toLowercase text

theorem toLower_toLower (c : Char) : c.toLower.toLower = c.toLower := by
  unfold Char.toLower
  split
  · next upper =>
    split
    · next again =>
      -- a letter that was lowered is above the capitals
      simp [UInt32.le_iff_toNat_le] at upper again
      omega
    · rfl
  · rfl

/-- Tables that know only ASCII, with an expression matcher that finds nothing. -/
def TextEngine.ascii : TextEngine where
  isAlphanumeric := Char.isAlphanum
  isUppercase := Char.isUpper
  toLowercase text := text.map Char.toLower
  isMatch _ _ := false
  isAlphanumeric_ascii _ _ := rfl
  isUppercase_ascii _ _ := rfl
  toLowercase_ascii _ _ := rfl
  toLowercase_idem text := by
    rw [List.map_map]
    refine List.map_congr_left fun c _ => ?_
    exact toLower_toLower c

/-! ## Runs of characters -/

/-- The maximal runs of characters that belong to a class; the first argument is the run that is
open, reversed. -/
def runsFrom (belongs : Char → Bool) : Text → Text → List Text
  | [], [] => []
  | open', [] => [open'.reverse]
  | open', c :: rest =>
    if belongs c then runsFrom belongs (c :: open') rest
    else if open'.isEmpty then runsFrom belongs [] rest
    else open'.reverse :: runsFrom belongs [] rest

def runs (belongs : Char → Bool) (text : Text) : List Text := runsFrom belongs [] text

/-- The terms of a message, as `scan_message_terms` and `analyze_message` report them. -/
def messageTerms (engine : TextEngine) (message : Text) : List Text :=
  if Text.isAscii message then runs Char.isAlphanum message else runs engine.isAlphanumeric message

def normalizeTerm (engine : TextEngine) (term : Text) : Text :=
  if term.any engine.isUppercase then engine.toLowercase term else term

def clickhouseTokenSeparator (c : Char) : Bool := isAscii c && !(c.isAlphanum || c == '_')

/-- `ClickhouseTokenIter` -/
def clickhouseTokens (message : Text) : List Text :=
  runs (fun c => !clickhouseTokenSeparator c) message

/-! ## Matching -/

def textEqual (engine : TextEngine) (left right : Text) : CaseSensitivity → Bool
  | .sensitive => left == right
  | .insensitive =>
    if Text.isAscii left && Text.isAscii right then eqIgnoreAsciiCase left right
    else engine.toLowercase left == engine.toLowercase right

/-- `haystack.contains(needle)` -/
def containsText (haystack needle : Text) : Bool :=
  haystack.tails.any fun tail => needle.isPrefixOf tail

def textContains (engine : TextEngine) (haystack needle : Text) (sensitivity : CaseSensitivity) :
    Bool :=
  needle.isEmpty ||
    match sensitivity with
    | .sensitive => containsText haystack needle
    | .insensitive =>
      if Text.isAscii haystack && Text.isAscii needle then
        containsText (haystack.map Char.toLower) (needle.map Char.toLower)
      else containsText (engine.toLowercase haystack) (engine.toLowercase needle)

def textPrefix (engine : TextEngine) (observed start : Text) : CaseSensitivity → Bool
  | .sensitive => start.isPrefixOf observed
  | .insensitive =>
    if Text.isAscii observed && Text.isAscii start then
      (start.map Char.toLower).isPrefixOf (observed.map Char.toLower)
    else (engine.toLowercase start).isPrefixOf (engine.toLowercase observed)

def textSuffix (engine : TextEngine) (observed finish : Text) : CaseSensitivity → Bool
  | .sensitive => finish.isSuffixOf observed
  | .insensitive =>
    if Text.isAscii observed && Text.isAscii finish then
      (finish.map Char.toLower).isSuffixOf (observed.map Char.toLower)
    else (engine.toLowercase finish).isSuffixOf (engine.toLowercase observed)

def textMatches (engine : TextEngine) (observed : Text) (matcher : TextMatcher) : Bool :=
  match matcher.kind with
  | .exact => textEqual engine observed matcher.value matcher.caseSensitivity
  | .contains => textContains engine observed matcher.value matcher.caseSensitivity
  | .prefixed => textPrefix engine observed matcher.value matcher.caseSensitivity
  | .suffixed => textSuffix engine observed matcher.value matcher.caseSensitivity

def messageHasTerm (engine : TextEngine) (message expected : Text) : Bool :=
  (messageTerms engine message).any fun term => textEqual engine term expected .insensitive

/-- The comparison of a token with a value, as the token predicates make it. -/
def tokenEqual (token value : Text) : CaseSensitivity → Bool
  | .sensitive => token == value
  | .insensitive => eqIgnoreAsciiCase token value

/-- Whether the expected token starts at the head of the text and a separator or the end follows. -/
def tokenStarts (text expected : Text) (sensitivity : CaseSensitivity) : Bool :=
  tokenEqual (text.take expected.length) expected sensitivity &&
    ((text.drop expected.length).head?.all clickhouseTokenSeparator)

/-- Whether the expected token occurs; the first argument says whether the text starts at a
boundary. -/
def tokenOccurs (expected : Text) (sensitivity : CaseSensitivity) : Bool → Text → Bool
  | _, [] => false
  | boundary, c :: rest =>
    (boundary && tokenStarts (c :: rest) expected sensitivity) ||
      tokenOccurs expected sensitivity (clickhouseTokenSeparator c) rest

def messageHasClickhouseToken (message expected : Text) (sensitivity : CaseSensitivity) : Bool :=
  !(expected.isEmpty || expected.any clickhouseTokenSeparator) &&
    tokenOccurs expected sensitivity true message

def messageHasTokenPrefix (message start : Text) (sensitivity : CaseSensitivity) : Bool :=
  !(start.isEmpty || start.any clickhouseTokenSeparator) &&
    (clickhouseTokens message).any fun token =>
      tokenEqual (token.take start.length) start sensitivity

def messageHasTokenRegex (engine : TextEngine) (message : Text) (regex : LogRegex) : Bool :=
  (clickhouseTokens message).any (engine.isMatch regex)

/-- The scan for adjacent tokens: how many terms of the phrase the tokens before matched. -/
def phraseAdjacent (terms : List Text) (sensitivity : CaseSensitivity) : Nat → List Text → Bool
  | _, [] => false
  | next, token :: tokens =>
    if tokenEqual token (terms.getD next []) sensitivity then
      if next + 1 = terms.length then true else phraseAdjacent terms sensitivity (next + 1) tokens
    else
      phraseAdjacent terms sensitivity
        (if tokenEqual token (terms.getD 0 []) sensitivity then 1 else 0) tokens

/-- What is left of the tokens after the first of the next `gap + 1` that is the term. -/
def phraseNext (term : Text) (sensitivity : CaseSensitivity) : Nat → List Text → Option (List Text)
  | _, [] => none
  | 0, token :: tokens => if tokenEqual token term sensitivity then some tokens else none
  | gap + 1, token :: tokens =>
    if tokenEqual token term sensitivity then some tokens
      else phraseNext term sensitivity gap tokens

/-- Whether the terms follow one another, each within the gap of the one before. -/
def phraseFollows (maxGap : Nat) (sensitivity : CaseSensitivity) : List Text → List Text → Bool
  | [], _ => true
  | term :: terms, tokens =>
    match phraseNext term sensitivity maxGap tokens with
    | some tokens => phraseFollows maxGap sensitivity terms tokens
    | none => false

def phraseStarts (first : Text) (terms : List Text) (maxGap : Nat) (sensitivity : CaseSensitivity) :
    List Text → Bool
  | [] => false
  | token :: tokens =>
    (tokenEqual token first sensitivity && phraseFollows maxGap sensitivity terms tokens) ||
      phraseStarts first terms maxGap sensitivity tokens

def messageHasPhrase (message : Text) (terms : List Text) (maxGap : Nat)
    (sensitivity : CaseSensitivity) : Bool :=
  match terms with
  | [] => true
  | first :: others =>
    if maxGap = 0 then phraseAdjacent terms sensitivity 0 (clickhouseTokens message)
    else phraseStarts first others maxGap sensitivity (clickhouseTokens message)

/-! ## Edit distance -/

def asciiLowerByte (byte : UInt8) : UInt8 := if 65 ≤ byte && byte ≤ 90 then byte + 32 else byte

/-- One row of the table: the entries after the first, from the entry to their left. -/
def levenshteinRow (leftByte : UInt8) : Nat → List UInt8 → List Nat → List Nat
  | current, rightByte :: right, diagonal :: above :: previous =>
    let substitution := if asciiLowerByte leftByte == asciiLowerByte rightByte then diagonal
      else diagonal + 1
    let entry := min (min substitution (above + 1)) (current + 1)
    entry :: levenshteinRow leftByte entry right (above :: previous)
  | _, _, _ => []

/-- The rows of the table; a row whose least entry exceeds the bound ends the search. -/
def levenshteinRows (right : List UInt8) (maxDistance : Nat) : Nat → List Nat → List UInt8 → Bool
  | _, previous, [] => previous.getLastD 0 ≤ maxDistance
  | index, previous, leftByte :: left =>
    let current := (index + 1) :: levenshteinRow leftByte (index + 1) right previous
    if maxDistance < current.foldl min (index + 1) then false
    else levenshteinRows right maxDistance (index + 1) current left

/-- `bounded_levenshtein` on the bytes of its arguments. -/
def boundedLevenshteinBytes (left right : List UInt8) (maxDistance : Nat) : Bool :=
  if maxDistance < (left.length - right.length) + (right.length - left.length) then false
  else levenshteinRows right maxDistance 0 (List.range (right.length + 1)) left

def boundedLevenshtein (left right : Text) (maxDistance : Nat) : Bool :=
  boundedLevenshteinBytes (utf8 left) (utf8 right) maxDistance

def messageHasFuzzyToken (message value : Text) (maxDistance : Nat) : Bool :=
  !value.isEmpty && (clickhouseTokens message).any fun token =>
    boundedLevenshtein token value maxDistance

/-! ## Numbers -/

def digitsValue (digits : Text) : Option Nat :=
  if digits.isEmpty || !digits.all Char.isDigit then none
  else some (digits.foldl (fun value c => 10 * value + (c.toNat - 48)) 0)

/-- `parse::<i128>` -/
def parseI128 : Text → Option Int
  | '-' :: digits => (digitsValue digits).bind fun value =>
    if value ≤ 2 ^ 127 then some (-(value : Int)) else none
  | '+' :: digits => (digitsValue digits).bind fun value =>
    if value < 2 ^ 127 then some (value : Int) else none
  | digits => (digitsValue digits).bind fun value =>
    if value < 2 ^ 127 then some (value : Int) else none

inductive NumericComparison where
  | equal
  | notEqual
  | lessThan
  | lessThanOrEqual
  | greaterThan
  | greaterThanOrEqual
  deriving DecidableEq

def compareNumeric (observed : Int) (comparison : NumericComparison) (expected : Int) : Bool :=
  match comparison with
  | .equal => observed == expected
  | .notEqual => observed != expected
  | .lessThan => observed < expected
  | .lessThanOrEqual => observed ≤ expected
  | .greaterThan => expected < observed
  | .greaterThanOrEqual => expected ≤ observed

end ShardTelemetry.Query
