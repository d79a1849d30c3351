import ShardTelemetry.Lib.Settle
import ShardTelemetry.Lib.Walk
import ShardTelemetry.Trace.Span

/-!
# Sets of spans

A TraceQL expression selects spans of one trace by filters, and combines the selections of its sides
by the links from spans to their parents.  What a filter accepts is a parameter.
-/

namespace ShardTelemetry.Traceql

open Trace List Option Settle Relation

inductive StructuralRelation where
  | descendant | ancestor | child | parent | sibling

inductive SpansetExpr (Filter : Type) where
  | selector (filter : Filter)
  | and (left right : SpansetExpr Filter)
  | or (left right : SpansetExpr Filter)
  | structural (left right : SpansetExpr Filter) (relation : StructuralRelation)
      ( union negated : Bool)

/-- Sorting and dropping consecutive repetitions leaves the members in increasing order. -/
def sortedUnique (indexes : List Nat) : List Nat := increasing none indexes

def orderedUnion (left right : List Nat) : List Nat := sortedUnique (left ++ right)

section Trace

variable {Value Filter : Type}
  (accepts : Filter → DurableSpan Value → List (DurableSpan Value) → Bool)
  (spans : List (DurableSpan Value))

/-- The parent of the first span with an identifier. -/
def parentOf (id : SpanId) : Option SpanId := (spans.find? (·.spanId = id)).bind (·.parentSpanId)

def isAncestor (ancestor : SpanId) (descendant : DurableSpan Value) (includeSelf : Bool) : Bool :=
  Walk.meets (parentOf spans) ancestor spans.length
    (if includeSelf then some descendant.spanId else descendant.parentSpanId)

def spansRelated (leftIndex rightIndex : Nat) (relation : StructuralRelation) : Bool :=
  match spans[leftIndex]?, spans[rightIndex]? with
  | some left, some right => leftIndex ≠ rightIndex &&
    match relation with
    | .descendant => isAncestor spans left.spanId right false
    | .ancestor => isAncestor spans right.spanId left false
    | .child => right.parentSpanId = some left.spanId
    | .parent => left.parentSpanId = some right.spanId
    | .sibling => left.parentSpanId.isSome && left.parentSpanId = right.parentSpanId
  | _, _ => false

def SpansetExpr.evaluate : SpansetExpr Filter → List Nat
  | .selector filter => (spans.zipIdx.filter fun entry => accepts filter entry.1 spans).map (·.2)
  | .and left right =>
    let left := left.evaluate
    let right := right.evaluate
    if left.isEmpty || right.isEmpty then [] else orderedUnion left right
  | .or left right => orderedUnion left.evaluate right.evaluate
  | .structural left right relation union negated =>
    let related rightIndex := left.evaluate.filter fun leftIndex =>
      spansRelated spans leftIndex rightIndex relation
    let matchingRight := right.evaluate.filter fun rightIndex =>
      (related rightIndex).isEmpty = negated
    let matchingLeft := if negated then [] else matchingRight.flatMap related
    if union then orderedUnion matchingLeft matchingRight else sortedUnique matchingRight

/-! ## What an expression selects -/

/-- A span of the trace names its parent. -/
def ParentLink (child parent : SpanId) : Prop :=
  ∃ span ∈ spans, span.spanId = child ∧ span.parentSpanId = some parent

/-- Two different spans of the trace stand in a relation. -/
def Related (relation : StructuralRelation) (leftIndex rightIndex : Nat) : Prop :=
  leftIndex ≠ rightIndex ∧ ∃ left right, spans[leftIndex]? = some left ∧
    spans[rightIndex]? = some right ∧ match relation with
    | .descendant => TransGen (ParentLink spans) right.spanId left.spanId
    | .ancestor => TransGen (ParentLink spans) left.spanId right.spanId
    | .child => right.parentSpanId = some left.spanId
    | .parent => left.parentSpanId = some right.spanId
    | .sibling => ∃ parent, left.parentSpanId = some parent ∧ right.parentSpanId = some parent

def SpansetExpr.Selects : SpansetExpr Filter → Set Nat
  | .selector filter =>
    {index | ∃ span, spans[index]? = some span ∧ accepts filter span spans = true}
  | .and left right =>
    {index | left.Selects.Nonempty ∧ right.Selects.Nonempty ∧ index ∈ left.Selects ∪ right.Selects}
  | .or left right => left.Selects ∪ right.Selects
  | .structural left right relation union negated =>
    let selected := {index ∈ right.Selects |
      negated = false ↔ ∃ other ∈ left.Selects, Related spans relation other index}
    selected ∪
      {index ∈ left.Selects | union = true ∧ ∃ other ∈ selected, Related spans relation index other}

/-! ## Evaluation -/

variable {accepts spans}

theorem mem_sortedUnique : index ∈ sortedUnique indexes ↔ index ∈ indexes := by
  simp [sortedUnique, mem_increasing]

theorem mem_orderedUnion : index ∈ orderedUnion left right ↔ index ∈ left ∨ index ∈ right := by
  rw [orderedUnion, mem_sortedUnique, mem_append]

theorem SpansetExpr.pairwise_evaluate (expr : SpansetExpr Filter) :
    (expr.evaluate accepts spans).Pairwise (· < ·) := by
  cases expr with
  | selector filter =>
    have increasing : (spans.zipIdx.map (·.2)).Pairwise (· < ·) := by
      rw [zipIdx_map_snd]
      exact pairwise_lt_range' ..
    exact increasing.sublist (filter_sublist.map _)
  | and left right =>
    unfold evaluate
    dsimp only
    split
    · exact .nil
    · exact pairwise_increasing ..
  | or left right => exact pairwise_increasing ..
  | structural =>
    unfold evaluate
    dsimp only
    split <;> exact pairwise_increasing ..

section Unique

variable {span : DurableSpan Value} (unique : (spans.map (·.spanId)).Nodup)
include unique

theorem find_span (mem : span ∈ spans) : spans.find? (·.spanId = span.spanId) = some span := by
  cases found : spans.find? (·.spanId = span.spanId) with
  | none => simpa using find?_eq_none.mp found span mem
  | some other =>
    have same := find?_some found
    rw [inj_on_of_nodup_map unique (mem_of_find?_eq_some found) mem (by simpa using same)]

theorem parentOf_eq_some : parentOf spans child = some parent ↔ ParentLink spans child parent := by
  rw [parentOf, bind_eq_some_iff]
  constructor
  · rintro ⟨span, found, named⟩
    exact ⟨span, mem_of_find?_eq_some found, by simpa using find?_some found, named⟩
  · rintro ⟨span, mem, rfl, named⟩
    exact ⟨span, find_span unique mem, named⟩

theorem isAncestor_iff (mem : span ∈ spans) :
    isAncestor spans ancestor span false = true ↔
      TransGen (ParentLink spans) span.spanId ancestor := by
  have start : span.parentSpanId = parentOf spans span.spanId := by
    rw [parentOf, find_span unique mem, Option.bind_some]
  have linked : ∀ child parent, parentOf spans child = some parent →
      child ∈ spans.map (·.spanId) := by
    intro child parent h
    obtain ⟨span, mem, rfl, -⟩ := (parentOf_eq_some unique).mp h
    exact mem_map_of_mem mem
  have walk := @Walk.meets_iff_transGen _ _ _ span.spanId ancestor _ linked
  simp only [parentOf_eq_some unique, length_map, ← start] at walk
  exact walk

theorem spansRelated_iff : spansRelated spans left right relation = true ↔
    Related spans relation left right := by
  unfold spansRelated Related
  cases hl : spans[left]? with
  | none => simp
  | some l =>
    cases hr : spans[right]? with
    | none => simp
    | some r =>
      have hl := mem_of_getElem? hl
      have hr := mem_of_getElem? hr
      cases relation <;> simp [isAncestor_iff unique hl, isAncestor_iff unique hr,
        isSome_iff_exists]
      grind

theorem SpansetExpr.mem_evaluate (expr : SpansetExpr Filter) :
    index ∈ expr.evaluate accepts spans ↔ index ∈ expr.Selects accepts spans := by
  induction expr generalizing index with
  | selector filter => simp [evaluate, Selects, mk_mem_zipIdx_iff_getElem?]
  | and left right ihl ihr =>
    have inhabited (l : List Nat) : (∃ index, index ∈ l) ↔ l ≠ [] := by cases l <;> simp
    simp only [evaluate, Selects, Set.Nonempty, Set.mem_ofPred_eq, Set.mem_union, ← ihl,
      ← ihr, inhabited]
    split <;> grind [mem_orderedUnion]
  | or left right ihl ihr => simp [evaluate, Selects, mem_orderedUnion, ihl, ihr]
  | structural left right relation union negated ihl ihr =>
    cases negated <;> cases union <;>
      simp [evaluate, Selects, mem_orderedUnion, mem_sortedUnique, ihl, ihr,
        spansRelated_iff unique] <;> grind

/-- In a trace whose spans have their own identifiers, an expression evaluates to the spans that it
selects, each once and in their order. -/
theorem evaluate_selects (expr : SpansetExpr Filter) :
      (expr.evaluate accepts spans).Pairwise (· < ·) ∧
      ∀ index, index ∈ expr.evaluate accepts spans ↔ index ∈ expr.Selects accepts spans :=
  ⟨expr.pairwise_evaluate, fun _ => expr.mem_evaluate unique⟩

end Unique

end Trace

def sampleSpan (span : SpanId) (parent : Option SpanId) : DurableSpan Unit :=
  ⟨0, ⟨.traces, 0, 0, 0⟩, "", ⟨[], 0, "", []⟩, ⟨"", "", [], 0, ""⟩, ⟨1, by decide⟩, span, parent,
    "", 0, "", 0, 0, 0, [], 0, [], 0, [], 0, none⟩

theorem sampleId_nonzero : ∀ n : Fin 4, BitVec.ofNat 64 (n.val + 1) ≠ 0 := by decide

def sampleId (n : Fin 4) : SpanId := ⟨_, sampleId_nonzero n⟩

/-- Two spans that are each other's parents, and one whose parent is missing. -/
def sampleTrace : List (DurableSpan Unit) :=
  [sampleSpan (sampleId 0) (some (sampleId 1)), sampleSpan (sampleId 1) (some (sampleId 0)),
    sampleSpan (sampleId 2) (some (sampleId 3))]

/-- The expression `{} >> {}`. -/
def sampleExpr : SpansetExpr Unit :=
  .structural (.selector ()) (.selector ()) .descendant false false

theorem evaluate_selects_sample : sampleExpr.evaluate (fun _ _ _ => true) sampleTrace = [0, 1] ∧
      0 ∈ sampleExpr.Selects (fun _ _ _ => true) sampleTrace :=
  ⟨by decide, ((evaluate_selects (by decide) _).2 0).mp (by decide)⟩

end ShardTelemetry.Traceql
