import ShardTelemetry.Stripe.Append

/-!
# Queries over the hot records

A query with terms and exact fields, whose predicate is `MatchAll`, is answered from the posting
lists of a partition.  The window of ordinals is found by binary search on the offsets; which lists
are intersected, where the limit is applied and how the ordinals are sorted depends on the query.
The branches for other predicates are not modelled: for `MatchAll` there are no candidates from the
predicate, the predicate is exact, and no list is added for it.
-/

namespace ShardTelemetry.Stripe

open Query Page

/-- `partition_point`: how many records come before the boundary. -/
def partitionPoint (records : List DurableLog) (before : DurableLog → Bool) : Nat :=
  (records.takeWhile before).length

def ordinalRecordWindow (records : List DurableLog) (start finish : Option Nat) : Nat × Nat :=
  let startIndex := start.elim 0 fun start => partitionPoint records (·.offset < start)
  let endIndex := finish.elim records.length fun finish =>
    partitionPoint records (·.offset < finish)
  (min startIndex endIndex, endIndex)

def collectOrderedRange (start finish : Nat) (order : QueryOrder) (limit : Option Nat) : List Nat :=
  let count := finish - start
  (arrange order (List.range' start count)).take (min (limit.getD count) count)

/-- The window of a query; with the sort by offset the cursor narrows it. -/
def recordRange (query : LogQuery) (records : List DurableLog) : Nat × Nat :=
  let window := ordinalRecordWindow records query.startOffset query.endOffset
  let window :=
    match query.sort, query.after, query.order with
    | .offset, some cursor, .oldestFirst =>
      (max window.1 (partitionPoint records (·.offset ≤ cursor.offset)), window.2)
    | .offset, some cursor, .newestFirst =>
      (window.1, min window.2 (partitionPoint records (·.offset < cursor.offset)))
    | _, _, _ => window
  (min window.1 window.2, window.2)

/-- The posting list of a key, unless nothing of it is in the window. -/
def postingIn {Key : Type} [DecidableEq Key] (table : PostingTable Key) (window : Nat × Nat)
    (key : Key) : Option HotPostingList :=
  (table.posting key).filter fun list => !list.isEmptyIn window.1 window.2

/-- The posting lists of the terms and fields, if each has one. -/
def postingLists (engine : TextEngine) (query : LogQuery) (index : PartitionIndex)
    (window : Nat × Nat) : Option (List HotPostingList) := do
  let terms ← query.terms.mapM fun term => postingIn index.terms window (normalizeTerm engine term)
  let fields ← query.exactFields.mapM (postingIn index.fields window)
  return terms ++ fields

/-- Whether the records have to be looked at. -/
def needsRecordFilter (query : LogQuery) : Bool :=
  query.startTimestampUnixNanos.isSome || query.endTimestampUnixNanos.isSome ||
    (query.after.isSome && query.sort ≠ .offset)

/-! ## Sorting by timestamps -/

section Timestamps

variable (query : LogQuery) (index : PartitionIndex)

def timestampKey (ordinal : Nat) : Nat ×ₗ Nat :=
  (index.records[ordinal]?).elim (toLex (0, 0)) fun record =>
    toLex (record.timestampUnixNanos, record.offset)

/-- The order of `compare_timestamp_ordinals`: the left ordinal is not greater. -/
def TimestampLe (left right : Nat) : Prop :=
  query.Precedes (timestampKey index left) (timestampKey index right)

instance : DecidableRel (TimestampLe query index) :=
  fun _ _ => inferInstanceAs (Decidable (query.Precedes _ _))

/-- The last ones, from the end. -/
def selectedTail (keep : Nat) (ordinals : List Nat) : List Nat :=
  (ordinals.drop (ordinals.length - keep)).reverse

def retainTopTimestampOrdinals (limit : Nat) (ordinals : List Nat) : List Nat :=
  let keep := min limit ordinals.length
  if limit = 0 then []
  else if keep < ordinals.length then
    if index.timestampOrder = .nonDecreasing then
      match query.order with
      | .oldestFirst => ordinals.take keep
      | .newestFirst => selectedTail keep ordinals
    else
      let pairs := ordinals.zip ordinals.tail
      if pairs.all fun pair => TimestampLe query index pair.1 pair.2 then ordinals.take keep
      else if pairs.all fun pair => TimestampLe query index pair.2 pair.1 then
        selectedTail keep ordinals
      else (ordinals.insertionSort (TimestampLe query index)).take keep
  else ordinals.insertionSort (TimestampLe query index)

/-- What is done with the ordinals that were collected: the records are looked at, and the ordinals
are sorted and cut. -/
def finishOrdinals (inQueryOrder : Bool) (ordinals : List Nat) : List Nat :=
  let ordinals :=
    if needsRecordFilter query then
      ordinals.filter fun ordinal => (index.records[ordinal]?).any query.matchesIndexBounds
    else ordinals
  let ordinals :=
    match query.sort with
    | .timestamp =>
      match query.limit with
      | some limit =>
        if max (limit * 2) 256 < ordinals.length then
          retainTopTimestampOrdinals query index limit ordinals
        else ordinals.insertionSort (TimestampLe query index)
      | none => ordinals.insertionSort (TimestampLe query index)
    | .offset =>
      if query.order = .newestFirst ∧ inQueryOrder = false then ordinals.reverse else ordinals
  upTo query.limit ordinals

end Timestamps

/-! ## The query -/

/-- The answer when no posting list restricts it. -/
def unrestrictedOrdinals (query : LogQuery) (index : PartitionIndex) (window : Nat × Nat) :
    List Nat :=
  let ordinals := List.range' window.1 (window.2 - window.1)
  if needsRecordFilter query then finishOrdinals query index false ordinals
  else if query.sort = .offset then
    collectOrderedRange window.1 window.2 query.order query.limit
  else
    match query.limit with
    | some limit =>
      if index.timestampOrder = .nonDecreasing then
        let limit := min limit (window.2 - window.1)
        match query.order with
        | .oldestFirst => List.range' window.1 limit
        | .newestFirst => (List.range' (window.2 - limit) limit).reverse
      else finishOrdinals query index false ordinals
    | none => finishOrdinals query index false ordinals

/-- The answer from posting lists. -/
def restrictedOrdinals (query : LogQuery) (index : PartitionIndex) (window : Nat × Nat)
    (lists : List HotPostingList) : List Nat :=
  let lists := lists.insertionSort (·.cardinality ≤ ·.cardinality)
  match lists, needsRecordFilter query with
  | [list], false => list.collectIn window.1 window.2 query.order query.limit
  | lists, filter =>
    let canLimitIntersection := !filter && query.sort = .offset
    let ordinals := collectHotPostingIntersection lists window.1 window.2
      (if canLimitIntersection then query.order else .oldestFirst)
      (if canLimitIntersection then query.limit else none)
    finishOrdinals query index canLimitIntersection ordinals

/-- `query_ordinals`; there is no answer when an ordinal does not fit in `u32`, where the code
panics. -/
def queryOrdinals (engine : TextEngine) (query : LogQuery) (index : PartitionIndex) :
    Option (List Nat) :=
  if query.limit = some 0 ∨ query.hasInvalidRange then some []
  else if query.sort = .timestamp ∧ query.limit = some 1 then
    let matching := index.records.zipIdx.filter fun entry => query.matchesRecord engine entry.1
    some ((minBy (fun left right => query.Le left.1 right.1) matching).toList.map Prod.snd)
  else
    let window := recordRange query index.records
    if 2 ^ 32 ≤ window.2 then none
    else
      match postingLists engine query index window with
      | none => some []
      | some [] => some (unrestrictedOrdinals query index window)
      | some lists => some (restrictedOrdinals query index window lists)

namespace LogStripe

def queryHotMatches (engine : TextEngine) (stripe : LogStripe) (query : LogQuery) :
    Option (List DurableLog) :=
  let index := stripe.partitions query.topicPartition
  (queryOrdinals engine query index).map fun ordinals => ordinals.filterMap (index.records[·]?)

/-- `query_checked` of a stripe that has only hot records. -/
def queryChecked (engine : TextEngine) (stripe : LogStripe) (query : LogQuery) :
    Option (List DurableLog) :=
  if query.limit = some 0 ∨ query.hasInvalidRange then some []
  else (stripe.queryHotMatches engine query).map (upTo query.limit)

end LogStripe

end ShardTelemetry.Stripe
