import ShardTelemetry.Loki.QueryRange

/-!
# What storage is asked for

Before entries go through a selector, storage is asked only for records with the fields of the exact
label matchers and the texts of the line filters.  A label that is absent counts as empty for the
selector and not for storage, and a line filter looks at the line that the stages before it leave.
-/

namespace ShardTelemetry.Loki

open Query List LogSelector StructuralRecordView

variable {R : Type} [StructuralRecordView R] {logql : Logql} {record : R}

theorem predicatesAll_iff {engine : TextEngine} : predicatesAll engine predicates record = true ↔
      ∀ predicate ∈ predicates, predicateMatches engine predicate record = true := by
  induction predicates with
  | nil => simp [predicatesAll]
  | cons predicate predicates ih => rw [predicatesAll, Bool.and_eq_true, ih, forall_mem_cons]

theorem predicateMatches_allOf {engine : TextEngine} :
    predicateMatches engine (.allOf predicates) record = true ↔
      ∀ predicate ∈ predicates, predicateMatches engine predicate record = true := by
  unfold LogPredicate.allOf
  split
  · simp [predicateMatches]
  · simp
  · rw [predicateMatches, predicatesAll_iff]

/-- Storage looks for the texts in the line as it is stored. -/
theorem predicateMatches_indexedLinePredicate {engine : TextEngine} {selector : LogSelector} :
    predicateMatches engine (selector.indexedLinePredicate.getD .matchAll) record = true ↔
      ∀ filter, .line filter ∈ selector.stages → filter.operation = .equal →
        containsText (message record) filter.value = true := by
  have texts : (∀ predicate ∈ selector.stages.filterMap indexedLine,
        predicateMatches engine predicate record = true) ↔
      ∀ filter, .line filter ∈ selector.stages → filter.operation = .equal →
        containsText (message record) filter.value = true := by
    constructor
    · intro h filter mem equal
      by_cases empty : filter.value = []
      · rw [empty]
        exact any_eq_true.mpr ⟨_, (mem_tails _ _).mpr (suffix_refl _), rfl⟩
      · have found := h _ (mem_filterMap.mpr ⟨_, mem, if_pos ⟨equal, empty⟩⟩)
        simpa [predicateMatches, textMatches, textContains, empty] using found
    · intro h predicate mem
      obtain ⟨stage, member, demanded⟩ := mem_filterMap.mp mem
      cases stage with
      | line filter =>
        obtain ⟨⟨equal, -⟩, same⟩ := Option.ite_none_right_eq_some.mp demanded
        cases same
        exact (Bool.or_eq_true ..).mpr (.inr (h filter member equal))
      | _ => cases demanded
  unfold indexedLinePredicate
  dsimp only
  split
  · next empty => simp [← texts, isEmpty_iff.mp empty, predicateMatches]
  · exact predicateMatches_allOf.trans texts

/-- Storage wants the fields of all exact matchers.  Those with a value are there if the selector
accepts the labels. -/
theorem exactLabels_iff {selector : LogSelector}
    (accepted : selector.matchers.all (·.matchesLabels logql (labelsOf (fields record))) = true) :
    (∀ pair ∈ selector.exactLabelMatchers,
        fieldEquals record ⟨labelPrefix ++ pair.1, pair.2⟩ = true) ↔
      ∀ matcher ∈ selector.matchers, matcher.operation = .equal → matcher.value = [] →
        matcher.name ∈ labelsOf (fields record) := by
  constructor
  · intro h matcher mem equal empty
    have field := h _ (mem_filterMap.mpr ⟨matcher, mem, if_pos equal⟩)
    exact mem_fieldMap (fieldEquals_iff.mp field)
  · intro h pair mem
    obtain ⟨matcher, member, found⟩ := mem_filterMap.mp mem
    obtain ⟨equal, same⟩ := Option.ite_none_right_eq_some.mp found
    cases same
    have observed : ((labelsOf (fields record)).lookup matcher.name).getD [] = matcher.value := by
      have observed := all_eq_true.mp accepted matcher member
      rw [LabelMatcher.matchesLabels, equal] at observed
      exact beq_iff_eq.mp observed
    refine fieldEquals_iff.mpr (mem_of_fieldMap ?_)
    cases label : (labelsOf (fields record)).lookup matcher.name with
    | none =>
      rw [label] at observed
      exact absurd (h matcher member equal observed.symm) (AList.lookup_eq_none.mp label)
    | some value =>
      rw [label] at observed
      exact label.trans (congrArg some observed)

/-- Storage is asked for a record whose entry the selector accepts just when it is of the tenant and
in the range, its line as it is stored has the texts of all line filters, and it has the labels that
the selector wants empty. -/
theorem pushdown_sound_iff {store : LogStore R} {req : LokiRangeRequest}
    (accepted : req.selector.matchesEntry logql (toEntry record) = true) (limit : Option Nat)
    (partition : TopicPartition) :
    (lokiQuery store req limit partition).matchesRecord logql.text record = true ↔
      ((store.retainedQueryStart (some req.start)).all (· ≤ timestampUnixNanos record) = true ∧
        timestampUnixNanos record < req.finish ∧
        fieldEquals record ⟨tenantField, req.tenant⟩ = true) ∧
      (∀ filter, .line filter ∈ req.selector.stages → filter.operation = .equal →
        containsText (message record) filter.value = true) ∧
      ∀ matcher ∈ req.selector.matchers, matcher.operation = .equal → matcher.value = [] →
        matcher.name ∈ labelsOf (fields record) := by
  obtain ⟨res, accepted⟩ := Option.isSome_iff_exists.mp accepted
  obtain ⟨labels, -⟩ := Option.ite_none_right_eq_some.mp accepted
  rw [matchesRecord_lokiQuery_iff, exactLabels_iff labels, predicateMatches_indexedLinePredicate]
  constructor
  · rintro ⟨start, finish, tenant, named, texts⟩
    exact ⟨⟨start, finish, tenant⟩, texts, named⟩
  · rintro ⟨⟨start, finish, tenant⟩, texts, named⟩
    exact ⟨start, finish, tenant, named, texts⟩

/-! ## Colored lines -/

/-- A record is its message and its fields. -/
instance : StructuralRecordView (Text × List MetadataField) :=
  ⟨fun _ => 0, fun _ => 0, Prod.fst, Prod.snd⟩

/-- The line `ab`, colored. -/
def coloredRecord : Text × List MetadataField := ("a\x1b[0mb".toList, [⟨tenantField, ['t']⟩])

def coloredStore : LogStore (Text × List MetadataField) where
  partitions := [⟨0, 0⟩]
  records _ := [coloredRecord]
  deletes _ := []
  retentionCutoff := none
  nodup_partitions := by decide
  length_records _ := by decide

/-- What storage is asked for. -/
def coloredQuery (selector : LogSelector) : LogQuery :=
  lokiQuery coloredStore { sampleRequest with selector } none ⟨0, 0⟩

/-- The line filter in `{} | decolorize |= "b"` looks for a text that the colored line has as
well. -/
theorem pushdown_sound_sample :
    (coloredQuery ⟨[], [.decolorize, .line ⟨.equal, ['b'], none⟩]⟩).matchesRecord sampleLogql.text
      coloredRecord = true := by
  refine (pushdown_sound_iff (by decide) none _).mpr ⟨by decide, ?_, nofun⟩
  intro filter mem _
  rw [show filter = ⟨.equal, ['b'], none⟩ by simpa using mem]
  decide

/-- The selector `{} | decolorize |= "ab"` accepts the record, and storage is not asked for it. -/
theorem pushdown_loses :
    ¬ ∀ selector : LogSelector, selector.matchesEntry sampleLogql (toEntry coloredRecord) = true →
      (coloredQuery selector).matchesRecord sampleLogql.text coloredRecord = true := by
  intro h
  exact absurd (h ⟨[], [.decolorize, .line ⟨.equal, ['a', 'b'], none⟩]⟩ (by decide)) (by decide)

end ShardTelemetry.Loki
