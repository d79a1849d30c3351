import Mathlib.Data.Finset.Card
import Mathlib.Data.List.AList
import ShardTelemetry.Loki.Error
import ShardTelemetry.Query.LogQuery

/-!
# The stages of a log pipeline

A LogQL pipeline takes an entry through its stages.  A stage can drop the entry, add or remove
labels, or rewrite the line.  Texts are lists of characters; wherever the source looks at bytes it
looks for ASCII bytes, which are characters of their own.

`serde_json`, regular expressions, the whitespace table, numbers with a fraction and the parser of
expressions are parameters (`Logql`).
-/

namespace ShardTelemetry.Loki

open Query List

/-- A `BTreeMap<String, String>`. -/
abbrev Labels := AList fun _ : Text => Text

/-- One normalized entry at the protocol boundary. -/
structure LokiEntry where
  timestampUnixNanos : Int
  labels : Labels
  line : Text
  structuredMetadata : Labels
  deriving DecidableEq

inductive MatchOperation where
  | equal
  | notEqual
  | regex
  | notRegex
  deriving DecidableEq

structure LabelMatcher where
  name : Text
  operation : MatchOperation
  value : Text
  regex : Option LogRegex
  deriving DecidableEq

structure LineFilter where
  operation : MatchOperation
  value : Text
  regex : Option LogRegex
  deriving DecidableEq

inductive LabelFilterOperation where
  | equal
  | notEqual
  | regex
  | notRegex
  | greater
  | greaterEqual
  | less
  | lessEqual
  deriving DecidableEq

structure LabelFilter where
  name : Text
  operation : LabelFilterOperation
  value : Text
  regex : Option LogRegex
  deriving DecidableEq

inductive LabelFormatValue where
  | rename (source : Text)
  | template (template : Text)
  deriving DecidableEq

inductive PipelineStage where
  | line (filter : LineFilter)
  | json (expressions : List (Text × List Text))
  | logfmt
  | regexp (regex : LogRegex)
  | pattern (regex : LogRegex)
  | labelFilter (filter : LabelFilter)
  | lineFormat (template : Text)
  | labelFormat (assignments : List (Text × LabelFormatValue))
  | drop (names : List Text)
  | keep (names : List Text)
  | decolorize
  | unpack
  | unwrap (label : Text)
  deriving DecidableEq

structure LogSelector where
  matchers : List LabelMatcher
  stages : List PipelineStage
  deriving DecidableEq

/-- `serde_json::Value`; a number is the text it is shown as, and the members of an object come in
the order of their names. -/
inductive Json where
  | null
  | bool (value : Bool)
  | number (text : Text)
  | string (text : Text)
  | array (values : List Json)
  | object (members : List (Text × Json))

/-- What the stages and the deletes are given. -/
structure Logql where
  text : TextEngine
  /-- `serde_json::from_str::<Value>` -/
  json : Text → Option Json
  /-- `serde_json::from_str::<String>` -/
  jsonString : Text → Option Text
  /-- `Regex::captures`: the named groups that took part, in the order of the expression. -/
  captures : LogRegex → Text → Option (List (Text × Text))
  /-- `str::trim` -/
  trim : Text → Text
  /-- `parse::<f64>` of two texts, and `partial_cmp`. -/
  compareDoubles : Text → Text → Option Ordering
  parseLogQuery : Text → LokiResult LogSelector

/-! ## Extracted labels -/

/-- A character that a label name can have, at the start or behind it. -/
def isLabelCharacter (start : Bool) (c : Char) : Bool :=
  c == '_' || c.isAlpha || !start && c.isDigit

/-- The name begins with no digit once the first character is mapped, so nothing is put in front of
it. -/
def normalizeExtractedLabelName : Text → Text
  | [] => []
  | first :: rest =>
    let mapped (start : Bool) (c : Char) := if isLabelCharacter start c then c else '_'
    mapped true first :: rest.map (mapped false)

def validateLabelName : Text → Bool
  | [] => false
  | first :: rest => isLabelCharacter true first && rest.all (isLabelCharacter false)

/-- The name, with `_extracted` behind it as often as it is taken. -/
def freeName (labels : Labels) (name : Text) : Text :=
  if name ∈ labels then freeName labels (name ++ "_extracted".toList) else name
termination_by (labels.keys.toFinset.filter (name.length ≤ ·.length)).card
decreasing_by
  rename_i taken
  -- the names that are as long as the next one are fewer: `name` is not among them
  refine Finset.card_lt_card ⟨fun key longer => ?_, fun same => ?_⟩
  · simp only [Finset.mem_filter, length_append] at longer ⊢
    exact ⟨longer.1, by omega⟩
  · have again := same (Finset.mem_filter.mpr ⟨mem_toFinset.mpr (AList.mem_keys.mp taken), le_rfl⟩)
    simp at again

def insertExtractedLabel (labels : Labels) (requested value : Text) : Labels :=
  labels.insert (freeName labels (normalizeExtractedLabelName requested)) value

def setParserError (entry : LokiEntry) (error : String) : LokiEntry :=
  let name := "__error__".toList
  if name ∈ entry.labels then entry
  else { entry with labels := entry.labels.insert name error.toList }

/-! ## JSON -/

def scalarLabelValue : Json → Option Text
  | .string text => some text
  | .number text => some text
  | .bool value => some (toString value).toList
  | .null => some []
  | .array _ | .object _ => none

mutual

def flattenJsonObject (path : Text) : List (Text × Json) → Labels → Labels
  | [], labels => labels
  | (name, value) :: members, labels =>
    let normalized := normalizeExtractedLabelName name
    let nested := if path = [] then normalized else path ++ '_' :: normalized
    flattenJsonObject path members (flattenJsonValue nested value labels)

def flattenJsonValue (path : Text) : Json → Labels → Labels
  | .object members, labels => flattenJsonObject path members labels
  | value, labels =>
    match scalarLabelValue value with
    | some value => insertExtractedLabel labels path value
    | none => labels

end

/-- `parse::<u64>` -/
def parseU64 (text : Text) : Option Nat :=
  let digits := match text with
    | '+' :: digits => digits
    | digits => digits
  (digitsValue digits).filter (· < 2 ^ 64)

def jsonPath (value : Json) (path : List Text) : Option Json :=
  path.foldlM (fun value component =>
    match value with
    | .object members => members.lookup component
    | .array values => (parseU64 component).bind (values[·]?)
    | _ => none) value

/-- The labels that the expressions of a `json` stage find in an object. -/
def extractJson (expressions : List (Text × List Text)) (members : List (Text × Json))
    (labels : Labels) : Labels :=
  expressions.foldl (fun labels (label, path) =>
    match (jsonPath (.object members) path).bind scalarLabelValue with
    | some value => insertExtractedLabel labels label value
    | none => labels) labels

/-! ## logfmt -/

def isAsciiWhitespace (c : Char) : Bool := c ∈ [' ', '\t', '\n', '\x0c', '\r']

/-- A quoted value up to its closing quote, and what follows. -/
def splitQuoted : Bool → Text → Text × Text
  | _, [] => ([], [])
  | false, '"' :: rest => (['"'], rest)
  | escaped, c :: rest =>
    let split := splitQuoted (!escaped && c == '\\') rest
    (c :: split.1, split.2)

theorem length_splitQuoted_le (escaped) (text) :
    (splitQuoted escaped text).2.length ≤ text.length := by
  fun_induction splitQuoted escaped text with
  | case1 => exact le_rfl
  | case2 => exact Nat.le_succ _
  | case3 escaped c rest _ split ih => exact ih.trans (Nat.le_succ _)

variable (logql : Logql)

/-- The value behind a `=`, and what follows. -/
def logfmtValue : Text → Text × Text
  | '"' :: quoted =>
    let split := splitQuoted false quoted
    ((logql.jsonString ('"' :: split.1)).getD [], split.2)
  | text => (text.takeWhile (!isAsciiWhitespace ·), text.dropWhile (!isAsciiWhitespace ·))

theorem length_logfmtValue_le (text) : (logfmtValue logql text).2.length ≤ text.length := by
  unfold logfmtValue
  split
  · exact (length_splitQuoted_le ..).trans (Nat.le_succ _)
  · exact (dropWhile_suffix _).length_le

def parseLogfmtLabels (line : Text) : List (Text × Text) :=
  match _skipped : line.dropWhile isAsciiWhitespace with
  | [] => []
  | '=' :: rest => parseLogfmtLabels (rest.dropWhile (!isAsciiWhitespace ·))
  | first :: rest =>
    let inKey (c : Char) := !isAsciiWhitespace c && c != '='
    match _behind : rest.dropWhile inKey with
    | '=' :: text =>
      let key := first :: rest.takeWhile inKey
      let value := logfmtValue logql text
      let labels := parseLogfmtLabels value.2
      if validateLabelName key then (key, value.1) :: labels else labels
    | other => parseLogfmtLabels (other.dropWhile (!isAsciiWhitespace ·))
termination_by line.length
decreasing_by
  all_goals
    have shorter := (dropWhile_suffix isAsciiWhitespace (l := line)).length_le
    rw [_skipped, length_cons] at shorter
  · exact (dropWhile_suffix _).length_le.trans_lt shorter
  · have later := (dropWhile_suffix inKey (l := rest)).length_le
    rw [_behind, length_cons] at later
    have value := length_logfmtValue_le logql text
    omega
  · have later := (dropWhile_suffix inKey (l := rest)).length_le
    rw [_behind] at later
    exact ((dropWhile_suffix _).length_le.trans later).trans_lt shorter

/-! ## Templates and colors -/

/-- What is in front of the first place where a text stands (`str::find`), and what is behind it. -/
def splitOnce (needle text : Text) : Option (Text × Text) :=
  if needle.isPrefixOf text then some ([], text.drop needle.length)
  else match text with
    | [] => none
    | c :: rest => (splitOnce needle rest).map fun (front, behind) => (c :: front, behind)

theorem length_splitOnce (found : splitOnce needle text = some (front, behind)) :
    front.length + needle.length + behind.length = text.length := by
  induction text generalizing front with
  | nil =>
    unfold splitOnce at found
    split at found
    · next start =>
      cases found
      simp_all
    · cases found
  | cons c rest ih =>
    unfold splitOnce at found
    split at found
    · next start =>
      cases found
      have start := isPrefixOf_iff_prefix.mp start
      have fits := start.length_le
      simp only [length_nil, length_drop]
      omega
    · obtain ⟨⟨front, behind⟩, found, same⟩ := Option.map_eq_some_iff.mp found
      cases same
      simp only [length_cons, ← ih found]
      omega

/-- The value of a label, or of the structured metadata. -/
def LokiEntry.lookup (entry : LokiEntry) (name : Text) : Text :=
  ((entry.labels.lookup name).or (entry.structuredMetadata.lookup name)).getD []

/-- What stands for an expression of a template. -/
def templateValue (entry : LokiEntry) (expression : Text) : Text :=
  if expression = "__line__".toList then entry.line
  else if expression = "__timestamp__".toList then (toString entry.timestampUnixNanos).toList
  else match expression with
    | '.' :: name => entry.lookup name
    | _ => []

def renderLogqlTemplate (entry : LokiEntry) (template : Text) : Text :=
  match _opened : splitOnce ['{', '{'] template with
  | none => template
  | some (literal, text) =>
    match _closed : splitOnce ['}', '}'] text with
    | none => template
    | some (expression, remaining) =>
      literal ++ templateValue entry (logql.trim expression) ++ renderLogqlTemplate entry remaining
termination_by template.length
decreasing_by
  have := length_splitOnce _opened
  have := length_splitOnce _closed
  simp only [length_cons] at *
  omega

/-- `strip_ansi`; the first argument says whether the text starts in the middle of a sequence. -/
def stripAnsi : Bool → Text → Text
  | _, [] => []
  | true, c :: rest => stripAnsi (!(64 ≤ c.toNat && c.toNat ≤ 126)) rest
  | false, '\x1b' :: '[' :: rest => stripAnsi true rest
  | false, c :: rest => c :: stripAnsi false rest

/-! ## Label filters -/

/-- The number in front of the first unit that the text ends with, and the size of that unit. -/
def splitUnit (units : List (String × Nat)) (text : Text) : Option (Text × Nat) :=
  units.findSome? fun (unit, size) =>
    if unit.toList.isSuffixOf text then some (text.take (text.length - unit.length), size) else none

/-- `parse::<i64>` -/
def parseI64 (text : Text) : Option Int :=
  (parseI128 text).filter fun value => -2 ^ 63 ≤ value && value < 2 ^ 63

def parseDurationNanos (text : Text) : Option Int := do
  let (number, scale) ← splitUnit [("ns", 1), ("us", 1000), ("ms", 1000000), ("s", 1000000000),
    ("m", 60 * 1000000000), ("h", 60 * 60 * 1000000000)] text
  let number ← parseI64 number
  guard (-2 ^ 63 ≤ number * scale ∧ number * scale < 2 ^ 63)
  return number * scale

def parseByteQuantity (text : Text) : Option Nat := do
  let (number, scale) ← splitUnit [("KiB", 2 ^ 10), ("MiB", 2 ^ 20), ("GiB", 2 ^ 30), ("KB", 1000),
    ("MB", 1000000), ("GB", 1000000000), ("B", 1)] text
  let number ← parseU64 number
  guard (number * scale < 2 ^ 64)
  return number * scale

def compareTypedLabel (left right : Text) : Option Ordering :=
  match parseDurationNanos left, parseDurationNanos right with
  | some left, some right => some (compare left right)
  | _, _ =>
    match parseByteQuantity left, parseByteQuantity right with
    | some left, some right => some (compare left right)
    | _, _ => logql.compareDoubles left right

def LabelFilter.matchesEntry (self : LabelFilter) (entry : LokiEntry) : Bool :=
  let observed := entry.lookup self.name
  match self.operation with
  | .equal => observed == self.value
  | .notEqual => observed != self.value
  | .regex => self.regex.any fun regex => logql.text.isMatch regex observed
  | .notRegex => self.regex.any fun regex => !logql.text.isMatch regex observed
  | .greater => (compareTypedLabel logql observed self.value).any Ordering.isGT
  | .greaterEqual => (compareTypedLabel logql observed self.value).any Ordering.isGE
  | .less => (compareTypedLabel logql observed self.value).any Ordering.isLT
  | .lessEqual => (compareTypedLabel logql observed self.value).any Ordering.isLE

def LineFilter.matchesLine (self : LineFilter) (line : Text) : Bool :=
  match self.operation with
  | .equal => containsText line self.value
  | .notEqual => !containsText line self.value
  | .regex => self.regex.any fun regex => logql.text.isMatch regex line
  | .notRegex => self.regex.any fun regex => !logql.text.isMatch regex line

/-! ## Stages -/

/-- The labels of the named groups of a match. -/
def applyRegex (regex : LogRegex) (entry : LokiEntry) : LokiEntry :=
  match logql.captures regex entry.line with
  | none => setParserError entry "RegexpParserErr"
  | some groups =>
    { entry with labels := groups.foldl (fun labels (name, value) =>
        insertExtractedLabel labels name value) entry.labels }

/-- The line that was packed as `_entry`, and the other members as labels. -/
def unpackObject (entry : LokiEntry) (members : List (Text × Json)) : LokiEntry :=
  let packed := "_entry".toList
  let labels := (members.filter (·.1 ≠ packed)).foldl (fun labels (name, value) =>
    match scalarLabelValue value with
    | some value => insertExtractedLabel labels name value
    | none => labels) entry.labels
  match members.lookup packed with
  | some (.string line) => { entry with labels, line }
  | _ => setParserError { entry with labels } "JSONParserErr"

/-- One assignment of a `label_format` stage. -/
def formatLabel (entry : LokiEntry) : Text × LabelFormatValue → LokiEntry
  | (target, .rename source) =>
    { entry with
      labels := (entry.labels.erase source).insert target ((entry.labels.lookup source).getD []) }
  | (target, .template template) =>
    { entry with labels := entry.labels.insert target (renderLogqlTemplate logql entry template) }

/-- `PipelineStage::apply`, with the entry it leaves. -/
def PipelineStage.apply (entry : LokiEntry) : PipelineStage → Option LokiEntry
  | .line filter => if filter.matchesLine logql entry.line then some entry else none
  | .json expressions =>
    match logql.json entry.line with
    | some (.object members) =>
      some { entry with
        labels :=
          if expressions = [] then flattenJsonObject [] members entry.labels
          else extractJson expressions members entry.labels }
    | _ => some (setParserError entry "JSONParserErr")
  | .logfmt =>
    match parseLogfmtLabels logql entry.line with
    | [] => some (setParserError entry "LogfmtParserErr")
    | parsed =>
      some { entry with labels := parsed.foldl (fun labels (name, value) =>
        insertExtractedLabel labels name value) entry.labels }
  | .regexp regex | .pattern regex => some (applyRegex logql regex entry)
  | .labelFilter filter => if filter.matchesEntry logql entry then some entry else none
  | .lineFormat template => some { entry with line := renderLogqlTemplate logql entry template }
  | .labelFormat assignments => some (assignments.foldl (formatLabel logql) entry)
  | .drop names =>
    some { entry with labels := names.foldl (fun labels name => labels.erase name) entry.labels }
  | .keep names =>
    some { entry with labels := entry.labels.keys.foldl (fun labels name =>
      if name ∈ names then labels else labels.erase name) entry.labels }
  | .decolorize => some { entry with line := stripAnsi false entry.line }
  | .unpack =>
    match logql.json entry.line with
    | some (.object members) => some (unpackObject entry members)
    | _ => some (setParserError entry "JSONParserErr")
  | .unwrap _ => some entry

end ShardTelemetry.Loki
