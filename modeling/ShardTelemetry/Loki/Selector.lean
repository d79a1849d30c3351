import Mathlib.Data.List.Induction
import ShardTelemetry.Loki.Pipeline

/-!
# Selectors of log entries

The log selector of a LogQL expression: label matchers on the stream, then the stages of a pipeline.
An entry is a record whose fields are sorted into labels and structured metadata.
-/

namespace ShardTelemetry.Loki

open Query List

section Selector

variable (logql : Logql)

def LabelMatcher.matchesLabels (self : LabelMatcher) (labels : Labels) : Bool :=
  let observed := (labels.lookup self.name).getD []
  match self.operation with
  | .equal => observed == self.value
  | .notEqual => observed != self.value
  | .regex => self.regex.any fun regex => logql.text.isMatch regex observed
  | .notRegex => self.regex.any fun regex => !logql.text.isMatch regex observed

namespace LogSelector

def process (self : LogSelector) (entry : LokiEntry) : Option LokiEntry :=
  if self.matchers.all fun matcher => matcher.matchesLabels logql entry.labels then
    self.stages.foldlM (fun entry stage => stage.apply logql entry) entry
  else none

def matchesEntry (self : LogSelector) (entry : LokiEntry) : Bool :=
  (self.process logql entry).isSome

def exactLabelMatchers (self : LogSelector) : List (Text × Text) :=
  self.matchers.filterMap fun matcher =>
    if matcher.operation = .equal then some (matcher.name, matcher.value) else none

def isExactLabelOnly (self : LogSelector) : Bool :=
  self.stages.isEmpty && self.matchers.all fun matcher => matcher.operation = .equal

/-- The substring a stage demands of the line, if storage can look for it. -/
def indexedLine : PipelineStage → Option LogPredicate
  | .line filter =>
    if filter.operation = .equal ∧ filter.value ≠ [] then
      some (.message ⟨filter.value, .contains, .sensitive⟩)
    else none
  | _ => none

def indexedLinePredicate (self : LogSelector) : Option LogPredicate :=
  let predicates := self.stages.filterMap indexedLine
  if predicates.isEmpty then none else some (.allOf predicates)

end LogSelector

/-! ## Logical deletes -/

/-- A deletion request, as far as queries read it. -/
structure DeleteRequest where
  startTime : Int
  endTime : Int
  query : Text
  status : String
  deriving DecidableEq

/-- The requests that are in force, compiled. -/
structure LogicalDeleteFilter where
  compiled : List (Int × Int × LogSelector)

namespace LogicalDeleteFilter

def compile (requests : List DeleteRequest) : LokiResult (LogicalDeleteFilter) := do
  let compiled ← (requests.filter (·.status = "received")).mapM fun request => do
    let selector ← logql.parseLogQuery request.query
    return (request.startTime, request.endTime, selector)
  return ⟨compiled⟩

def matchesEntry (self : LogicalDeleteFilter) (entry : LokiEntry) : Bool :=
  self.compiled.any fun (start, finish, selector) =>
    start ≤ entry.timestampUnixNanos && entry.timestampUnixNanos ≤ finish &&
      selector.matchesEntry logql entry

end LogicalDeleteFilter

def applyLogicalDeletes (entries : List LokiEntry) (requests : List DeleteRequest) :
    LokiResult (List LokiEntry) := do
  let filter ← LogicalDeleteFilter.compile logql requests
  return entries.filter fun entry => !filter.matchesEntry logql entry

end Selector

/-! ## Entries of records -/

def labelPrefix : Text := "resource.loki.label.".toList
def metadataPrefix : Text := "attr.loki.metadata.".toList
def tenantField : Text := "resource.loki.tenant".toList

/-- `str::strip_prefix` -/
def stripStart (start text : Text) : Option Text :=
  if start.isPrefixOf text then some (text.drop start.length) else none

/-- The last value under each name, of the fields whose key begins with the given text. -/
def fieldMap (start : Text) (fields : List MetadataField) : Labels :=
  fields.foldl (fun map field =>
    match stripStart start field.key with
    | some name => map.insert name field.value
    | none => map) ∅

/-- `log_field_maps`: no key begins with both texts, so the two maps are independent. -/
def labelsOf (fields : List MetadataField) : Labels := fieldMap labelPrefix fields

def metadataOf (fields : List MetadataField) : Labels := fieldMap metadataPrefix fields

theorem stripStart_eq_some : stripStart start text = some name ↔ text = start ++ name := by
  unfold stripStart
  constructor
  · intro h
    split at h
    · rename_i hstart
      obtain ⟨rest, rfl⟩ := isPrefixOf_iff_prefix.mp hstart
      cases h
      rw [drop_left' rfl]
    · cases h
  · rintro rfl
    have hstart : start.isPrefixOf (start ++ name) = true :=
      isPrefixOf_iff_prefix.mpr (prefix_append ..)
    rw [if_pos hstart, drop_left' rfl]

/-- The value under a name is the value of a field, the last one with that key. -/
theorem fieldMap_concat (start) (fields) (field) (name) :
    (fieldMap start (fields ++ [field])).lookup name =
      if field.key = start ++ name then some field.value
        else (fieldMap start fields).lookup name := by
  unfold fieldMap
  rw [foldl_append, foldl_cons, foldl_nil]
  cases hstrip : stripStart start field.key with
  | none =>
    have hne : field.key ≠ start ++ name := by
      intro heq
      rw [stripStart_eq_some.mpr heq] at hstrip
      cases hstrip
    rw [if_neg hne]
  | some found =>
    have hkey := stripStart_eq_some.mp hstrip
    by_cases heq : found = name
    · subst heq
      rw [if_pos hkey]
      exact AList.lookup_insert _
    · have hne : field.key ≠ start ++ name := by
        rw [hkey]
        exact fun h => heq (append_cancel_left h)
      rw [if_neg hne]
      exact AList.lookup_insert_ne (Ne.symm heq)

/-- A value under a name is that of a field. -/
theorem mem_of_fieldMap (h : (fieldMap start fields).lookup name = some value) :
    ⟨start ++ name, value⟩ ∈ fields := by
  induction fields using reverseRecOn with
  | nil => cases h
  | append_singleton fields field ih =>
    rw [fieldMap_concat] at h
    split at h
    · next hkey =>
      cases h
      rw [← hkey]
      exact mem_append_right _ (mem_singleton.mpr rfl)
    · exact mem_append_left _ (ih h)

/-- A field is a value under its name. -/
theorem mem_fieldMap (h : ⟨start ++ name, value⟩ ∈ fields) : name ∈ fieldMap start fields := by
  rw [← AList.lookup_isSome]
  induction fields using reverseRecOn with
  | nil => cases h
  | append_singleton fields field ih =>
    rw [fieldMap_concat]
    split
    · rfl
    · next hkey =>
      refine ih ((mem_append.mp h).resolve_right fun heq => hkey ?_)
      rw [← mem_singleton.mp heq]

section Entry

variable {R : Type} [StructuralRecordView R]

open StructuralRecordView

def logMatchToEntry (record : R) : LokiResult LokiEntry := do
  check (timestampUnixNanos record < 2 ^ 63) (.internal "timestamp exceeds Loki i64 range")
  return {
    timestampUnixNanos := timestampUnixNanos record
    labels := labelsOf (fields record)
    line := message record
    structuredMetadata := metadataOf (fields record) }

end Entry

end ShardTelemetry.Loki
