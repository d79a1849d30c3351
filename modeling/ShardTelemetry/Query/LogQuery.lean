import Mathlib.Data.Prod.Lex
import ShardTelemetry.Error
import ShardTelemetry.Lib.Page
import ShardTelemetry.Query.Text

/-!
# Log queries

A query asks for the records of one partition that meet every one of its constraints, in an order,
up to a limit.  `LogQuery.select` is the reference: it looks at each record by itself.

Records are what `StructuralRecordView` shows of them.
-/

namespace ShardTelemetry.Query

open Page (page upTo)

structure MetadataField where
  key : Text
  value : Text
  deriving DecidableEq

/-- What a query sees of a record. -/
class StructuralRecordView (R : Type) where
  offset : R → Nat
  timestampUnixNanos : R → Nat
  message : R → Text
  fields : R → List MetadataField

inductive LogPredicate where
  | matchAll
  | matchNone
  | term (term : Text)
  | messageToken (value : Text) (caseSensitivity : CaseSensitivity)
  | message (matcher : TextMatcher)
  | messageRegex (regex : LogRegex)
  | messageTokenRegex (regex : LogRegex)
  | messageTokenPrefix (value : Text) (caseSensitivity : CaseSensitivity)
  | messagePhrase (terms : List Text) (maxGap : Nat) (caseSensitivity : CaseSensitivity)
  | messageFuzzy (value : Text) (maxDistance : Nat)
  | fieldExists (key : Text)
  | field (key : Text) (matcher : TextMatcher)
  | fieldIn (key : Text) (values : List Text)
  | fieldRegex (key : Text) (regex : LogRegex)
  | fieldNumeric (key : Text) (comparison : NumericComparison) (value : Int)
  | and (predicates : List LogPredicate)
  | or (predicates : List LogPredicate)
  | not (predicate : LogPredicate)

inductive QueryOrder where
  | oldestFirst
  | newestFirst
  deriving DecidableEq

inductive QuerySort where
  | offset
  | timestamp
  deriving DecidableEq

structure QueryCursor where
  timestampUnixNanos : Nat
  offset : Nat
  deriving DecidableEq

structure LogQuery where
  topicPartition : TopicPartition
  terms : List Text
  exactFields : List MetadataField
  predicate : LogPredicate
  startOffset : Option Nat
  endOffset : Option Nat
  startTimestampUnixNanos : Option Nat
  endTimestampUnixNanos : Option Nat
  limit : Option Nat
  order : QueryOrder
  sort : QuerySort
  after : Option QueryCursor

/-- `LogQuery::new` -/
def LogQuery.new (topicPartition : TopicPartition) : LogQuery where
  topicPartition
  terms := []
  exactFields := []
  predicate := .matchAll
  startOffset := none
  endOffset := none
  startTimestampUnixNanos := none
  endTimestampUnixNanos := none
  limit := none
  order := .oldestFirst
  sort := .offset
  after := none

/-! ## Building a query -/

/-- `LogPredicate::and` -/
def LogPredicate.allOf : List LogPredicate → LogPredicate
  | [] => .matchAll
  | [predicate] => predicate
  | predicates => .and predicates

/-- `LogPredicate::or` -/
def LogPredicate.anyOf : List LogPredicate → LogPredicate
  | [] => .matchNone
  | [predicate] => predicate
  | predicates => .or predicates

namespace LogQuery

def withField (query : LogQuery) (key value : Text) : LogQuery :=
  { query with exactFields := query.exactFields ++ [⟨key, value⟩] }

def withPredicate (query : LogQuery) (predicate : LogPredicate) : LogQuery :=
  { query with predicate := match query.predicate with
      | .matchAll => predicate
      | current => .and [current, predicate] }

def withLimit (query : LogQuery) (limit : Nat) : LogQuery := { query with limit := some limit }

def newestFirst (query : LogQuery) : LogQuery := { query with order := .newestFirst }

def sortByTimestamp (query : LogQuery) : LogQuery := { query with sort := .timestamp }

end LogQuery

/-! ## Matching -/

section Matching

variable {R : Type} [StructuralRecordView R] (engine : TextEngine)

open StructuralRecordView

def fieldEquals (record : R) (expected : MetadataField) : Bool :=
  (fields record).any fun field => field.key == expected.key && field.value == expected.value

mutual

def predicateMatches : LogPredicate → R → Bool
  | .matchAll, _ => true
  | .matchNone, _ => false
  | .term term, record => messageHasTerm engine (message record) term
  | .messageToken value sensitivity, record =>
    messageHasClickhouseToken (message record) value sensitivity
  | .message matcher, record => textMatches engine (message record) matcher
  | .messageRegex regex, record => engine.isMatch regex (message record)
  | .messageTokenRegex regex, record => messageHasTokenRegex engine (message record) regex
  | .messageTokenPrefix value sensitivity, record =>
    messageHasTokenPrefix (message record) value sensitivity
  | .messagePhrase terms maxGap sensitivity, record =>
    messageHasPhrase (message record) terms maxGap sensitivity
  | .messageFuzzy value maxDistance, record =>
    messageHasFuzzyToken (message record) value maxDistance
  | .fieldExists key, record => (fields record).any fun field => field.key == key
  | .field key matcher, record => (fields record).any fun field =>
    field.key == key && textMatches engine field.value matcher
  | .fieldIn key values, record => (fields record).any fun field =>
    field.key == key && values.any (field.value == ·)
  | .fieldRegex key regex, record => (fields record).any fun field =>
    field.key == key && engine.isMatch regex field.value
  | .fieldNumeric key comparison value, record => (fields record).any fun field =>
    field.key == key &&
      (parseI128 field.value).any fun observed => compareNumeric observed comparison value
  | .and predicates, record => predicatesAll predicates record
  | .or predicates, record => predicatesAny predicates record
  | .not predicate, record => !predicateMatches predicate record

/-- Every predicate matches. -/
def predicatesAll : List LogPredicate → R → Bool
  | [], _ => true
  | predicate :: predicates, record =>
    predicateMatches predicate record && predicatesAll predicates record

/-- Some predicate matches. -/
def predicatesAny : List LogPredicate → R → Bool
  | [], _ => false
  | predicate :: predicates, record =>
    predicateMatches predicate record || predicatesAny predicates record

end

namespace LogQuery

def offsetMatches (query : LogQuery) (offset : Nat) : Bool :=
  query.startOffset.all (· ≤ offset) && query.endOffset.all (offset < ·)

def timestampMatches (query : LogQuery) (timestamp : Nat) : Bool :=
  query.startTimestampUnixNanos.all (· ≤ timestamp) &&
    query.endTimestampUnixNanos.all (timestamp < ·)

/-- The tuple a record is sorted by; the first component is the same for all when the sort is by
offset. -/
def sortKey (query : LogQuery) (timestamp offset : Nat) : Nat ×ₗ Nat :=
  match query.sort with
  | .offset => toLex (0, offset)
  | .timestamp => toLex (timestamp, offset)

/-- The left one comes first in the query's order, or the two are at the same place. -/
def Precedes (query : LogQuery) (left right : Nat ×ₗ Nat) : Prop :=
  match query.order with
  | .oldestFirst => left ≤ right
  | .newestFirst => right ≤ left

instance (query : LogQuery) : DecidableRel query.Precedes := fun left right => by
  unfold Precedes
  cases query.order <;> exact inferInstance

def cursorMatches (query : LogQuery) (record : R) : Bool :=
  query.after.all fun cursor =>
    let ordering := query.sortKey (timestampUnixNanos record) (offset record)
    let continued := query.sortKey cursor.timestampUnixNanos cursor.offset
    match query.order with
    | .oldestFirst => continued < ordering
    | .newestFirst => ordering < continued

def legacyTermsMatch (query : LogQuery) (record : R) : Bool :=
  query.terms.all fun expected => messageHasTerm engine (message record) expected

def legacyFieldsMatch (query : LogQuery) (record : R) : Bool :=
  query.exactFields.all fun expected => fieldEquals record expected

def matchesRecord (query : LogQuery) (record : R) : Bool :=
  query.offsetMatches (offset record) && query.timestampMatches (timestampUnixNanos record) &&
    query.cursorMatches record && query.legacyTermsMatch engine record &&
    query.legacyFieldsMatch record && predicateMatches engine query.predicate record

def matchesIndexBounds (query : LogQuery) (record : R) : Bool :=
  query.offsetMatches (offset record) && query.timestampMatches (timestampUnixNanos record) &&
    query.cursorMatches record

def hasInvalidRange (query : LogQuery) : Bool :=
  (query.startOffset.any fun start => query.endOffset.any (· ≤ start)) ||
    query.startTimestampUnixNanos.any fun start => query.endTimestampUnixNanos.any (· ≤ start)

/-- The order of `compare`: the left record is not greater. -/
def Le (query : LogQuery) (left right : R) : Prop :=
  query.Precedes (query.sortKey (timestampUnixNanos left) (offset left))
    (query.sortKey (timestampUnixNanos right) (offset right))

instance (query : LogQuery) : DecidableRel (query.Le : R → R → Prop) :=
  fun _ _ => inferInstanceAs (Decidable (query.Precedes _ _))

def select (query : LogQuery) (records : List R) : List R :=
  page query.Le query.limit (records.filter (query.matchesRecord engine))

end LogQuery

end Matching

/-! ## The order of a query -/

namespace LogQuery

variable {R : Type} [StructuralRecordView R] {query : LogQuery}

open StructuralRecordView

theorem precedes_total (left right) : query.Precedes left right ∨ query.Precedes right left := by
  unfold Precedes
  cases query.order with
  | oldestFirst => exact le_total left right
  | newestFirst => exact le_total right left

theorem precedes_trans (h : query.Precedes first second)
    (h' : query.Precedes second third) : query.Precedes first third := by
  unfold Precedes at h h' ⊢
  cases horder : query.order with
  | oldestFirst =>
    rw [horder] at h h'
    exact le_trans h h'
  | newestFirst =>
    rw [horder] at h h'
    exact le_trans h' h

theorem precedes_antisymm (h : query.Precedes left right)
    (h' : query.Precedes right left) : left = right := by
  unfold Precedes at h h'
  cases horder : query.order with
  | oldestFirst =>
    rw [horder] at h h'
    exact le_antisymm h h'
  | newestFirst =>
    rw [horder] at h h'
    exact le_antisymm h' h

instance : Std.Total (query.Le : R → R → Prop) := ⟨fun _ _ => precedes_total _ _⟩

instance : IsTrans R query.Le := ⟨fun _ _ _ => precedes_trans⟩

theorem offset_eq_of_sortKey_eq {timestamp timestamp' offset offset' : Nat}
    (h : query.sortKey timestamp offset = query.sortKey timestamp' offset') : offset = offset' := by
  unfold sortKey at h
  cases hsort : query.sort with
  | offset =>
    rw [hsort] at h
    exact (Prod.mk.inj h).2
  | timestamp =>
    rw [hsort] at h
    exact (Prod.mk.inj h).2

/-- Records with different offsets are never at the same place. -/
theorem separates {recs : List R} (h : (recs.map offset).Nodup) : Page.Separates query.Le recs := by
  intro left hleft right hright hle hge
  exact List.inj_on_of_nodup_map h hleft hright
    (offset_eq_of_sortKey_eq (precedes_antisymm hle hge))

end LogQuery

end ShardTelemetry.Query
