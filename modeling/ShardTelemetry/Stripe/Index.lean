import ShardTelemetry.Lib.Run
import ShardTelemetry.Stripe.Applied

/-!
# The index of a stripe

Whatever calls were made and however they ended, the posting lists of a partition are those of its
records (`LogStripe.Whole`), and the numbers in the two caches are those of the terms and fields
they were cached for.

In the middle of a batch with equal events there are records that no list has.  The lists are then
those of the records below a count (`Indexed`), and what is above has the terms and fields of the
first event (`Deferring`), so that one range of ordinals completes them.
-/

namespace ShardTelemetry.Stripe

open Query LogStripe List Function

section Index

variable (engine : TextEngine)

def hasTerm (records : List DurableLog) (term : Text) (ordinal : Nat) : Bool :=
  (records[ordinal]?).any fun record => term ∈ indexTermsOf engine record.message

def hasField (records : List DurableLog) (field : MetadataField) (ordinal : Nat) : Bool :=
  (records[ordinal]?).any fun record => field ∈ record.fields

/-- The records below the two counts are in the posting lists, and nothing else is. -/
structure PartitionIndex.Indexed (termCount fieldCount : Nat) (index : PartitionIndex) : Prop where
  offsets : index.records.Pairwise (·.offset < ·.offset)
  length : index.records.length ≤ 2 ^ 32
  timestamps : index.timestampOrder = .nonDecreasing →
    index.records.Pairwise (·.timestampUnixNanos ≤ ·.timestampUnixNanos)
  terms : index.terms.Holds (hasTerm engine index.records) termCount
  fields : index.fields.Holds (hasField index.records) fieldCount

/-- Every partition is indexed up to its counts, and the caches have the right numbers. -/
structure LogStripe.Indexed (counts : TopicPartition → Nat × Nat) (stripe : LogStripe) : Prop where
  partitions : ∀ partition, (stripe.partitions partition).Indexed engine (counts partition).1
    (counts partition).2
  cachedTerms : ∀ slot cached, stripe.messageTermCache slot = some cached →
    (stripe.partitions cached.topicPartition).terms.Denotes cached.termIds
      (indexTermsOf engine cached.message)
  cachedFields : ∀ slot cached, stripe.fieldCache slot = some cached →
    (stripe.partitions cached.topicPartition).fields.Denotes cached.fieldIds cached.fields

/-- The number of records of each partition, for both kinds of lists. -/
def LogStripe.recordCounts (stripe : LogStripe) (partition : TopicPartition) : Nat × Nat :=
  ((stripe.held partition).length, (stripe.held partition).length)

/-- Every record is indexed. -/
def LogStripe.Whole (stripe : LogStripe) : Prop := stripe.Indexed engine stripe.recordCounts

end Index

variable {st : LogStripe} {record : DurableLog}

/-! ## Posting lists and records -/

namespace PartitionIndex

variable {ix : PartitionIndex}

theorem empty_indexed : empty.Indexed engine 0 0 where
  offsets := .nil
  length := Nat.zero_le _
  timestamps _ := .nil
  terms := PostingTable.empty_holds _
  fields := PostingTable.empty_holds _

/-- The order of the timestamps says what it should after one more record. -/
theorem pairwise_of_nextTimestampOrder (before : ix.timestampOrder = .nonDecreasing →
      ix.records.Pairwise (·.timestampUnixNanos ≤ ·.timestampUnixNanos))
    (order : nextTimestampOrder { ix with records := ix.records ++ [record] } record =
      .nonDecreasing) :
    (ix.records ++ [record]).Pairwise (·.timestampUnixNanos ≤ ·.timestampUnixNanos) := by
  unfold nextTimestampOrder at order
  generalize ix.records = recs at *
  cases last : recs.getLast? with
  | none =>
    rw [getLast?_eq_none_iff.mp last]
    exact pairwise_singleton _ _
  | some prev =>
    obtain ⟨earlier, rfl⟩ := getLast?_eq_some_iff.mp last
    have second : ((earlier ++ [prev]) ++ [record])[
        ((earlier ++ [prev]) ++ [record]).length - 2]? = some prev := by
      simp
    rw [second] at order
    cases hindex : ix.timestampOrder with
    | unordered => rw [hindex] at order; cases order
    | nonDecreasing =>
      rw [hindex] at order
      have pairwise := before hindex
      have above : prev.timestampUnixNanos ≤ record.timestampUnixNanos := by
        simp only at order
        split at order
        · cases order
        · next above => exact not_lt.mp above
      refine pairwise_append.mpr ⟨pairwise, pairwise_singleton _ _, ?_⟩
      intro other mem new eq
      rw [mem_singleton.mp eq]
      obtain mem | mem := mem_append.mp mem
      · exact le_trans (pairwise_append.mp pairwise |>.2.2 other mem prev (by simp)) above
      · rwa [mem_singleton.mp mem]

/-- One more record, which no list has. -/
theorem Indexed.push (h : ix.Indexed engine termCount fieldCount) (record)
    (above : ∀ other ∈ ix.records, other.offset < record.offset)
    (bound : ix.records.length < 2 ^ 32) (terms : termCount ≤ ix.records.length)
    (fields : fieldCount ≤ ix.records.length) :
    Indexed engine termCount fieldCount
      { ix with
        records := ix.records ++ [record]
        timestampOrder := nextTimestampOrder
          { ix with records := ix.records ++ [record] } record } where
  offsets := by
    refine pairwise_append.mpr ⟨h.offsets, pairwise_singleton _ _, ?_⟩
    intro other mem new eq
    rw [mem_singleton.mp eq]
    exact above other mem
  length := by
    rw [length_append, length_singleton]
    omega
  timestamps order := pairwise_of_nextTimestampOrder h.timestamps order
  terms := h.terms.congr fun term ord lt => by
    rw [hasTerm, hasTerm, getElem?_append_left (lt_of_lt_of_le lt terms)]
  fields := h.fields.congr fun field ord lt => by
    rw [hasField, hasField, getElem?_append_left (lt_of_lt_of_le lt fields)]

end PartitionIndex

namespace LogStripe

section

variable (h : st.Indexed engine counts)
include h

theorem Indexed.setPartition (part : TopicPartition)
    (indexed : ix.Indexed engine termCount fieldCount)
    (terms : (st.partitions part).terms.Extends ix.terms)
    (fields : (st.partitions part).fields.Extends ix.fields) :
    (st.setPartition part ix).Indexed engine
      (update counts part (termCount, fieldCount)) where
  partitions other := by
    rw [partitions_setPartition, update_apply]
    split
    · exact indexed
    · exact h.partitions other
  cachedTerms slot cached eq := by
    have denotes := h.cachedTerms slot cached eq
    rw [partitions_setPartition]
    split
    · next same =>
      rw [same] at denotes
      exact denotes.extends terms
    · exact denotes
  cachedFields slot cached eq := by
    have denotes := h.cachedFields slot cached eq
    rw [partitions_setPartition]
    split
    · next same =>
      rw [same] at denotes
      exact denotes.extends fields
    · exact denotes

/-- Lists that grew, but are not longer than before. -/
theorem Indexed.replacePartition (part : TopicPartition)
    (indexed : ix.Indexed engine (counts part).1 (counts part).2)
    (terms : (st.partitions part).terms.Extends ix.terms)
    (fields : (st.partitions part).fields.Extends ix.fields) :
    (st.setPartition part ix).Indexed engine counts := by
  have set := h.setPartition part indexed terms fields
  rwa [Prod.mk.eta, update_eq_self] at set

theorem Indexed.cacheTerms (slot : Nat)
    (denotes : (st.partitions cached.topicPartition).terms.Denotes cached.termIds
      (indexTermsOf engine cached.message)) :
      (st.cacheTerms slot cached).Indexed engine counts where
  partitions := h.partitions
  cachedTerms other found eq := by
    simp only [LogStripe.cacheTerms, update_apply] at eq
    split at eq
    · cases eq
      exact denotes
    · exact h.cachedTerms other found eq
  cachedFields := h.cachedFields

theorem Indexed.cacheFields (slot : Nat)
    (denotes : (st.partitions cached.topicPartition).fields.Denotes cached.fieldIds cached.fields) :
    (st.cacheFields slot cached).Indexed engine counts where
  partitions := h.partitions
  cachedTerms := h.cachedTerms
  cachedFields other found eq := by
    simp only [LogStripe.cacheFields, update_apply] at eq
    split at eq
    · cases eq
      exact denotes
    · exact h.cachedFields other found eq

end

/-! ## One record -/

theorem withRecord_eq (blocks) :
    st.withRecord blocks record =
      setPartition { st with blocks } record.topicPartition
        { st.partitions record.topicPartition with
          records := st.held record.topicPartition ++ [record]
          timestampOrder := nextTimestampOrder { st.partitions record.topicPartition with
            records := st.held record.topicPartition ++ [record] } record } := by
  simp only [withRecord, updateTimestampOrder, pushRecord, setPartition,
    update_self, update_idem, held]

section

variable (h : st.Indexed engine counts)
include h

theorem Indexed.withRecord (blocks) (valid : st.validateOffset record = .ok ())
    (bound : (st.held record.topicPartition).length < 2 ^ 32)
    (terms : (counts record.topicPartition).1 ≤ (st.held record.topicPartition).length)
    (fields : (counts record.topicPartition).2 ≤ (st.held record.topicPartition).length) :
    (st.withRecord blocks record).Indexed engine counts := by
  have ix := h.partitions record.topicPartition
  have blocked : Indexed engine counts { st with blocks } :=
    ⟨h.partitions, h.cachedTerms, h.cachedFields⟩
  rw [withRecord_eq]
  exact blocked.replacePartition record.topicPartition
    (ix.push record (lt_of_validateOffset ix.offsets valid) bound terms fields) (.refl _)
    (.refl _)

theorem Indexed.termIds (slots : CacheSlots) (record : DurableLog) :
    (st.termIds engine slots record).2.Indexed engine counts ∧
      ((st.termIds engine slots record).2.partitions record.topicPartition).terms.Denotes
        (st.termIds engine slots record).1 (indexTermsOf engine record.message) := by
  unfold LogStripe.termIds
  dsimp only
  split
  · next cached found =>
    obtain ⟨eq, same⟩ := Option.filter_eq_some_iff.mp found
    obtain ⟨samePartition, sameMessage⟩ := of_decide_eq_true same
    have denotes := h.cachedTerms _ cached eq
    rw [samePartition, sameMessage] at denotes
    exact ⟨h, denotes⟩
  · have ix := h.partitions record.topicPartition
    obtain ⟨holds, extended, denotes⟩ := ix.terms.internAll (PostingTable.denotes_nil _)
      (indexTermsOf engine record.message)
    have interned := h.replacePartition record.topicPartition
      (show PartitionIndex.Indexed engine _ _ { st.partitions record.topicPartition with
        terms := ((st.partitions record.topicPartition).terms.internAll
          (indexTermsOf engine record.message) []).2 } from
        ⟨ix.offsets, ix.length, ix.timestamps, holds, ix.fields⟩) extended (.refl _)
    refine ⟨interned.cacheTerms _ ?_, ?_⟩
    · rw [partitions_setPartition_self]
      exact denotes
    · rw [LogStripe.cacheTerms, partitions_setPartition_self]
      exact denotes

theorem Indexed.fieldIds (slots : CacheSlots) (record : DurableLog) :
    (st.fieldIds slots record).2.Indexed engine counts ∧
      ((st.fieldIds slots record).2.partitions record.topicPartition).fields.Denotes
        (st.fieldIds slots record).1 record.fields := by
  unfold LogStripe.fieldIds
  dsimp only
  split
  · next cached found =>
    obtain ⟨eq, same⟩ := Option.filter_eq_some_iff.mp found
    obtain ⟨samePartition, sameFields⟩ := of_decide_eq_true same
    have denotes := h.cachedFields _ cached eq
    rw [samePartition, sameFields] at denotes
    exact ⟨h, denotes⟩
  · have ix := h.partitions record.topicPartition
    obtain ⟨holds, extended, denotes⟩ :=
      ix.fields.internAll (PostingTable.denotes_nil _) record.fields
    have interned := h.replacePartition record.topicPartition
      (show PartitionIndex.Indexed engine _ _ { st.partitions record.topicPartition with
        fields := ((st.partitions record.topicPartition).fields.internAll record.fields []).2 } from
        ⟨ix.offsets, ix.length, ix.timestamps, ix.terms, holds⟩) (.refl _) extended
    refine ⟨interned.cacheFields _ ?_, ?_⟩
    · rw [partitions_setPartition_self]
      exact denotes
    · rw [LogStripe.cacheFields, partitions_setPartition_self]
      exact denotes

end

end LogStripe

namespace PartitionIndex

variable {ix : PartitionIndex}

/-- A range of records with the same message completes the lists of its terms. -/
theorem Indexed.pushTerms (h : ix.Indexed engine termCount fieldCount)
    (denotes : ix.terms.Denotes ids (indexTermsOf engine message))
    (range : termCount ≤ last)
    (same : ∀ ord, termCount ≤ ord → ord ≤ last →
      ∃ record, ix.records[ord]? = some record ∧ record.message = message) :
    Indexed engine (last + 1) fieldCount
      { ix with terms := ix.terms.pushRange ids termCount last } where
  offsets := h.offsets
  length := h.length
  timestamps := h.timestamps
  terms := by
    refine h.terms.pushRange denotes range (fun _ _ _ => rfl) fun term ord least most => ?_
    obtain ⟨record, eq, rfl⟩ := same ord least most
    rw [hasTerm, eq, Option.any_some]
    exact decide_eq_decide.mpr Iff.rfl
  fields := h.fields

theorem Indexed.pushFields (h : ix.Indexed engine termCount fieldCount)
    {fields : List MetadataField} (denotes : ix.fields.Denotes ids fields)
    (range : fieldCount ≤ last)
    (same : ∀ ord, fieldCount ≤ ord → ord ≤ last →
      ∃ record, ix.records[ord]? = some record ∧ record.fields = fields) :
      Indexed engine termCount (last + 1)
      { ix with fields := ix.fields.pushRange ids fieldCount last } where
  offsets := h.offsets
  length := h.length
  timestamps := h.timestamps
  terms := h.terms
  fields := by
    refine h.fields.pushRange denotes range (fun _ _ _ => rfl) fun field ord least most => ?_
    obtain ⟨record, eq, rfl⟩ := same ord least most
    rw [hasField, eq, Option.any_some]

end PartitionIndex

namespace LogStripe

theorem Indexed.indexTerms (h : st.Indexed engine counts) (slots)
    (found : (st.held record.topicPartition)[ord]? = some record)
    (next : (counts record.topicPartition).1 = ord) :
    (st.indexTerms engine slots record ord).2.Indexed engine
        (update counts record.topicPartition (ord + 1, (counts record.topicPartition).2)) ∧
      ((st.indexTerms engine slots record ord).2.partitions
        record.topicPartition).terms.Denotes (st.indexTerms engine slots record ord).1
          (indexTermsOf engine record.message) := by
  obtain ⟨interned, denotes⟩ := h.termIds slots record
  have held := (sameRecords_termIds engine slots st record).held record.topicPartition
  unfold LogStripe.indexTerms
  rw [partitions_setPartition_self]
  refine ⟨?_, denotes.extends (PostingTable.extends_pushRange _ _ _)⟩
  subst next
  refine interned.setPartition _ ((interned.partitions _).pushTerms denotes le_rfl ?_)
    (PostingTable.extends_pushRange _ _ _) (.refl _)
  intro ord least most
  rw [le_antisymm most least]
  exact ⟨record, (congrArg (·[_]?) held).trans found, rfl⟩

theorem Indexed.indexFields (h : st.Indexed engine counts) (slots)
    (found : (st.held record.topicPartition)[ord]? = some record)
    (next : (counts record.topicPartition).2 = ord) :
    (st.indexFields slots record ord).2.Indexed engine
        (update counts record.topicPartition ((counts record.topicPartition).1, ord + 1)) ∧
      ((st.indexFields slots record ord).2.partitions
        record.topicPartition).fields.Denotes (st.indexFields slots record ord).1
          record.fields := by
  obtain ⟨interned, denotes⟩ := h.fieldIds slots record
  have held := (sameRecords_fieldIds slots st record).held record.topicPartition
  unfold LogStripe.indexFields
  rw [partitions_setPartition_self]
  refine ⟨?_, denotes.extends (PostingTable.extends_pushRange _ _ _)⟩
  subst next
  refine interned.setPartition _ ((interned.partitions _).pushFields denotes le_rfl ?_) (.refl _)
    (PostingTable.extends_pushRange _ _ _)
  intro ord least most
  rw [le_antisymm most least]
  exact ⟨record, (congrArg (·[_]?) held).trans found, rfl⟩

/-- Indexing fields leaves the terms alone. -/
theorem terms_indexFields (slots) (ord) :
    ((st.indexFields slots record ord).2.partitions record.topicPartition).terms =
      (st.partitions record.topicPartition).terms := by
  unfold indexFields fieldIds
  dsimp only
  rw [partitions_setPartition_self]
  split
  · rfl
  · rw [cacheFields, partitions_setPartition_self]

/-- What the numbers of a record that was just indexed stand for. -/
structure IdsOf (engine : TextEngine) (stripe : LogStripe) (partition : TopicPartition)
    (message : Text) (fields : List MetadataField) (termIds fieldIds : List Nat) : Prop where
  terms : (stripe.partitions partition).terms.Denotes termIds (indexTermsOf engine message)
  fields : (stripe.partitions partition).fields.Denotes fieldIds fields

/-- Indexing the record that comes next raises both counts. -/
theorem Indexed.indexDurable (h : st.Indexed engine counts) (slots)
    (found : (st.held record.topicPartition)[ord]? = some record)
    (next : counts record.topicPartition = (ord, ord)) :
    (st.indexDurable engine slots record ord).2.2.Indexed engine
        (update counts record.topicPartition (ord + 1, ord + 1)) ∧
      IdsOf engine (st.indexDurable engine slots record ord).2.2 record.topicPartition
        record.message record.fields (st.indexDurable engine slots record ord).1
        (st.indexDurable engine slots record ord).2.1 := by
  obtain ⟨terms, termIds⟩ := h.indexTerms slots found (congrArg Prod.fst next)
  have held := (sameRecords_indexTerms engine slots st record ord).held record.topicPartition
  rw [← held] at found
  obtain ⟨fields, fieldIds⟩ := terms.indexFields slots found (by rw [update_self, next])
  rw [update_self, update_idem] at fields
  unfold LogStripe.indexDurable
  constructor
  · have ix := fields.partitions record.topicPartition
    exact fields.replacePartition record.topicPartition
      ⟨ix.offsets, ix.length, ix.timestamps, ix.terms, ix.fields⟩ (.refl _) (.refl _)
  · constructor
    · rw [partitions_setPartition_self, terms_indexFields]
      exact termIds
    · rw [partitions_setPartition_self]
      exact fieldIds

variable {st' : LogStripe}

theorem update_recordCounts (st : LogStripe) (part : TopicPartition) :
    update st.recordCounts part ((st.held part).length, (st.held part).length) = st.recordCounts :=
  update_eq_self part st.recordCounts

theorem recordCounts_congr (same : ∀ part, st'.held part = st.held part) :
    st'.recordCounts = st.recordCounts :=
  funext fun part => by rw [recordCounts, recordCounts, same]

theorem held_withRecord_self (st : LogStripe) (blocks : BlockState) (record : DurableLog) :
    (st.withRecord blocks record).held record.topicPartition = st.held record.topicPartition ++
      [record] := by
  rw [held_withRecord, if_pos rfl]

/-- One more record changes the counts of its partition. -/
theorem recordCounts_withRecord (st : LogStripe) (blocks : BlockState) (record : DurableLog) :
    (st.withRecord blocks record).recordCounts = update st.recordCounts record.topicPartition
        ((st.held record.topicPartition).length + 1,
          (st.held record.topicPartition).length + 1) := by
  funext part
  rw [update_apply]
  split
  · next same => rw [same, recordCounts, held_withRecord_self, length_append]; rfl
  · next other => rw [recordCounts, recordCounts, held_withRecord, if_neg other]

theorem Whole.of_blocks (h : st.Whole engine) (blocks) : Whole engine { st with blocks } :=
  ⟨h.partitions, h.cachedTerms, h.cachedFields⟩

/-- A record that was pushed and indexed. -/
theorem Whole.indexDurable (h : st.Whole engine) (slots : CacheSlots) (blocks : BlockState)
    (valid : st.validateOffset record = .ok ())
    (bound : (st.held record.topicPartition).length < 2 ^ 32)
    (eq : (st.withRecord blocks record).indexDurable
      engine slots record (st.held record.topicPartition).length = res) :
    res.2.2.Whole engine ∧ IdsOf engine res.2.2 record.topicPartition record.message
      record.fields res.1 res.2.1 := by
  subst eq
  have pushed := Indexed.withRecord h blocks valid bound le_rfl le_rfl
  have found : ((st.withRecord blocks record).held record.topicPartition)[
      (st.held record.topicPartition).length]? = some record := by
    rw [held_withRecord_self, getElem?_concat_length]
  obtain ⟨indexed, ids⟩ := pushed.indexDurable slots found rfl
  refine ⟨?_, ids⟩
  unfold Whole
  rwa [recordCounts_congr (sameRecords_indexDurable engine slots _ record _).held,
    recordCounts_withRecord]

/-- Applying a record leaves every record indexed. -/
theorem Whole.applyDurableNewInner (h : st.Whole engine) (slots : CacheSlots) (env : Environment)
    (record : DurableLog) (eq : st.applyDurableNewInner engine slots env record true = res) :
    res.2.Whole engine ∧ ∀ applied, res.1 = .ok applied →
      IdsOf engine res.2 record.topicPartition record.message record.fields applied.termIds
        applied.fieldIds ∧ (res.2.held record.topicPartition).length = applied.ordinal + 1 := by
  have out := applyDurableNewInner_applied engine slots env st record true
  rw [eq] at out
  cases out with
  | refused error blocks same => exact ⟨h.of_blocks blocks, nofun⟩
  | failed error key pending blocks joins failure =>
    exact ⟨h.of_blocks blocks, nofun⟩
  | applied key pending blocks sealedBlocks joins offset bound appended =>
    obtain ⟨whole, ids⟩ := h.indexDurable slots blocks offset bound rfl
    refine ⟨whole, fun applied eq => ?_⟩
    cases eq
    refine ⟨ids, ?_⟩
    simp only [if_true, (sameRecords_indexDurable engine slots _ record _).held,
      held_withRecord_self, length_append, length_singleton]

/-! ## Batches with equal events -/

/-- The records of a partition from a count on are not indexed yet, and they all have the message
and the fields with these numbers. -/
structure Deferring (engine : TextEngine) (partition : TopicPartition) (message : Text)
    (fields : List MetadataField) (termIds fieldIds : List Nat) (count : Nat) (stripe : LogStripe) :
    Prop where
  indexed : stripe.Indexed engine (update stripe.recordCounts partition (count, count))
  least : count ≤ (stripe.held partition).length
  same : ∀ ordinal, count ≤ ordinal → ordinal < (stripe.held partition).length →
    ∃ record, (stripe.held partition)[ordinal]? = some record ∧ record.message = message ∧
      record.fields = fields
  ids : IdsOf engine stripe partition message fields termIds fieldIds

variable {termIds fieldIds : List Nat} {count : Nat}

theorem Whole.deferring (h : st.Whole engine)
    (ids : IdsOf engine st part message fields termIds fieldIds) :
    st.Deferring engine part message fields termIds fieldIds (st.held part).length where
  indexed := by rwa [update_recordCounts]
  least := le_rfl
  same ord least most := absurd (lt_of_le_of_lt least most) (lt_irrefl _)
  ids := ids

/-- When nothing was deferred, every record is indexed. -/
theorem Deferring.whole (h : st.Deferring engine part message fields termIds fieldIds
      (st.held part).length) : st.Whole engine := by
  have indexed := h.indexed
  rwa [update_recordCounts] at indexed

/-- One more deferred record. -/
theorem Deferring.withRecord
    (h : st.Deferring engine record.topicPartition record.message record.fields termIds fieldIds
      count) (blocks : BlockState) (valid : st.validateOffset record = .ok ())
    (bound : (st.held record.topicPartition).length < 2 ^ 32) :
    (st.withRecord blocks record).Deferring engine record.topicPartition record.message
      record.fields termIds fieldIds count where
  indexed := by
    have counts : ∀ count, update (st.withRecord blocks record).recordCounts
        record.topicPartition count = update st.recordCounts record.topicPartition count :=
      fun count => by rw [recordCounts_withRecord, update_idem]
    rw [counts]
    refine h.indexed.withRecord blocks valid bound ?_ ?_
    · rw [update_self]
      exact h.least
    · rw [update_self]
      exact h.least
  least := by
    rw [held_withRecord_self, length_append]
    exact Nat.le_add_right_of_le h.least
  same ord least most := by
    rw [held_withRecord_self] at most ⊢
    by_cases last : ord < (st.held record.topicPartition).length
    · rw [getElem?_append_left last]
      exact h.same ord least last
    · have eq : ord = (st.held record.topicPartition).length := by
        rw [length_append, length_singleton] at most
        omega
      exact ⟨record, by rw [eq, getElem?_concat_length], rfl, rfl⟩
  ids := by
    rw [withRecord_eq]
    refine ⟨?_, ?_⟩
    · rw [partitions_setPartition_self]
      exact h.ids.terms
    · rw [partitions_setPartition_self]
      exact h.ids.fields

section

variable (h : st.Deferring engine part message fields termIds fieldIds count)
include h

theorem Deferring.of_blocks (blocks) :
    Deferring engine part message fields termIds fieldIds count { st with blocks } :=
  ⟨⟨h.indexed.partitions, h.indexed.cachedTerms, h.indexed.cachedFields⟩, h.least, h.same,
    ⟨h.ids.terms, h.ids.fields⟩⟩

/-- One range of ordinals indexes all records that were deferred. -/
theorem Deferring.publish (length : (st.held part).length = last + 1) (range : count ≤ last)
    (offset : Nat) :
    (st.publishHomogeneousPostingRange part count last offset termIds fieldIds).Whole engine := by
  have ix := h.indexed.partitions part
  rw [update_self] at ix
  have same : ∀ ord, count ≤ ord → ord ≤ last →
      ∃ record, (st.partitions part).records[ord]? = some record ∧
        record.message = message ∧ record.fields = fields :=
    fun ord least most => h.same ord least (by omega)
  have terms := ix.pushTerms h.ids.terms range fun ord least most => by
    obtain ⟨record, eq, message, -⟩ := same ord least most
    exact ⟨record, eq, message⟩
  have both := terms.pushFields h.ids.fields range fun ord least most => by
    obtain ⟨record, eq, -, fields⟩ := same ord least most
    exact ⟨record, eq, fields⟩
  have set := h.indexed.setPartition part (show PartitionIndex.Indexed engine (last + 1) (last + 1)
      { st.partitions part with
        terms := (st.partitions part).terms.pushRange termIds count last
        fields := (st.partitions part).fields.pushRange fieldIds count last
        indexedThrough := some offset } from
      ⟨both.offsets, both.length, both.timestamps, both.terms, both.fields⟩)
    (PostingTable.extends_pushRange _ _ _) (PostingTable.extends_pushRange _ _ _)
  rw [update_idem, ← length, update_recordCounts] at set
  unfold Whole
  rwa [recordCounts_congr (sameRecords_publish part count last offset termIds fieldIds).held]

end

/-- The last event that was applied is the last record; without one nothing was deferred. -/
def EndsAt (partition : TopicPartition) (count : Nat) (stripe : LogStripe) :
    Option (Nat × Nat) → Prop
  | none => (stripe.held partition).length = count
  | some (last, _) => (stripe.held partition).length = last + 1 ∧ count ≤ last

theorem Deferring.applyDurableNewInner (record : DurableLog)
    (h : st.Deferring engine record.topicPartition record.message record.fields termIds fieldIds
      count) (slots : CacheSlots) (env : Environment) :
    (st.applyDurableNewInner engine slots env record false).2.Deferring engine
        record.topicPartition record.message record.fields termIds fieldIds count ∧
      match (st.applyDurableNewInner engine slots env record false).1 with
      | .ok applied =>
        ((st.applyDurableNewInner engine slots env record false).2.held
          record.topicPartition).length = applied.ordinal + 1 ∧ count ≤ applied.ordinal
      | .error _ =>
        (st.applyDurableNewInner engine slots env record false).2.held record.topicPartition =
          st.held record.topicPartition := by
  have out := applyDurableNewInner_applied engine slots env st record false
  generalize st.applyDurableNewInner engine slots env record false = res at out ⊢
  cases out with
  | refused error blocks same => exact ⟨h.of_blocks blocks, rfl⟩
  | failed error key pending blocks joins failure => exact ⟨h.of_blocks blocks, rfl⟩
  | applied key pending blocks sealedBlocks joins offset bound appended =>
    refine ⟨h.withRecord blocks offset bound, ?_, h.least⟩
    simp only [Bool.false_eq_true, if_false, held_withRecord_self, length_append, length_singleton]

theorem Deferring.applyDeferred (h : st.Deferring engine part message fields termIds fieldIds count)
    (slots) (env) (firstOffset pos) (deferred) (ends : st.EndsAt part count deferred.lastDeferred)
    (equal : ∀ ev ∈ evs, ev.message = message ∧ ev.fields = fields)
    (offsets : ∀ ix < evs.length, ∃ offset, batchOffset part firstOffset (pos + ix) = .ok offset) :
    (st.applyDeferred engine slots env part firstOffset pos evs
        deferred).2.2.Deferring engine part message fields termIds fieldIds count ∧
      (st.applyDeferred engine slots env part firstOffset pos evs
        deferred).2.2.EndsAt part count (st.applyDeferred engine slots env part
          firstOffset pos evs deferred).2.1.lastDeferred := by
  induction evs generalizing st pos deferred with
  | nil => exact ⟨h, ends⟩
  | cons ev evs ih =>
    obtain ⟨offset, eq⟩ := offsets 0 (by simp)
    obtain ⟨rfl, rfl⟩ := equal ev mem_cons_self
    have step :=
      Deferring.applyDurableNewInner (ev.intoDurable st.streamShardId part offset) h slots env
    unfold applyDeferred
    rw [Nat.add_zero] at eq
    rw [eq]
    dsimp only
    split
    · next error stripe₁ res =>
      rw [res] at step
      refine ⟨step.1, ?_⟩
      have held : stripe₁.held part = st.held part := step.2
      unfold EndsAt at ends ⊢
      rwa [held]
    · next applied stripe₁ res =>
      rw [res] at step
      refine ih step.1 _ _ step.2 (forall_mem_cons.mp equal).2 ?_
      intro ix lt
      obtain ⟨offset, eq⟩ := offsets (ix + 1) (by simpa using lt)
      exact ⟨offset, by rw [← eq, Nat.add_right_comm, Nat.add_assoc]⟩

/-- Every offset of a batch is in range if the last one is. -/
theorem batchOffset_of_validate
    (valid : validateBatchOffsetRange part firstOffset recordCount = .ok ())
    (lt : ix < recordCount) : ∃ offset, batchOffset part firstOffset ix = .ok offset := by
  cases recordCount with
  | zero => exact absurd lt (Nat.not_lt_zero _)
  | succ last =>
    refine ⟨firstOffset + ix, ?_⟩
    by_cases bound : firstOffset + last < u64Bound
    · rw [batchOffset, checkedAdd, if_pos (by omega)]
      rfl
    · simp only [validateBatchOffsetRange, batchOffset, checkedAdd, if_neg bound, okOr] at valid
      cases valid

theorem Whole.applyHomogeneousEvents (h : st.Whole engine) (slots) (env)
    (equal : ∀ ev ∈ evs, ev.message = first.message ∧ ev.fields = first.fields)
    (valid : validateBatchOffsetRange part firstOffset (first :: evs).length = .ok ()) :
    (st.applyHomogeneousEvents engine slots env part firstOffset first evs).2.Whole engine := by
  obtain ⟨whole, ids⟩ := h.applyDurableNewInner slots env
    (first.intoDurable st.streamShardId part firstOffset) rfl
  unfold LogStripe.applyHomogeneousEvents
  split
  · next res => rwa [res] at whole
  · next applied stripe₁ res =>
    rw [res] at whole ids
    obtain ⟨ids, length⟩ := ids applied rfl
    have length : (stripe₁.held part).length = applied.ordinal + 1 := length
    have deferring := whole.deferring ids
    rw [show (first.intoDurable st.streamShardId part firstOffset).topicPartition = part
      from rfl, length] at deferring
    have loop := deferring.applyDeferred slots env firstOffset 1 ⟨[applied.receipt], none⟩ length
      equal fun ix lt => batchOffset_of_validate valid (by rw [length_cons]; omega)
    generalize stripe₁.applyDeferred engine slots env part firstOffset 1 evs
      ⟨[applied.receipt], none⟩ = out at loop ⊢
    obtain ⟨failure, deferred, stripe₂⟩ := out
    obtain ⟨after, ends⟩ := loop
    have published : Whole engine (match deferred.lastDeferred with
        | none => stripe₂
        | some (lastOrdinal, lastOffset) =>
          stripe₂.publishHomogeneousPostingRange part (applied.ordinal + 1) lastOrdinal
            lastOffset applied.termIds applied.fieldIds) := by
      dsimp only at after ends
      cases found : deferred.lastDeferred with
      | none =>
        rw [found] at ends
        have ends : (stripe₂.held part).length = applied.ordinal + 1 := ends
        rw [← ends] at after
        exact after.whole
      | some last =>
        rw [found] at ends
        exact after.publish ends.1 ends.2 last.2
    dsimp only
    split
    · exact published
    · exact published

/-- Whatever becomes of a call, every record of the stripe is indexed after it. -/
theorem Whole.step (h : st.Whole engine) (next : st.step engine slots ev = some st') :
    st'.Whole engine := by
  cases ev with
  | applyDurable env record =>
    cases next
    exact applyDurable_invariant (fun _ record whole => (whole.applyDurableNewInner slots env
      record rfl).1) h record
  | applyOtlpEvents env part firstOffset evs =>
    cases next
    refine applyOtlpEvents_invariant (fun _ record whole => (whole.applyDurableNewInner slots env
      record rfl).1) (fun first others eq equal valid => ?_) h
    subst eq
    exact h.applyHomogeneousEvents slots env equal valid
  | sealActiveBlocks env =>
    cases next
    exact h.of_blocks _

/-- In every run every record is indexed after every call. -/
theorem whole_of_reaches {streamShardId : Nat}
    (run : Run.Reaches (step engine slots) (new streamShardId conf) st) : st.Whole engine :=
  run.invariant (I := Whole engine) (fun _ _ _ h next => h.step next)
    ⟨fun _ => PartitionIndex.empty_indexed, fun _ _ eq => (by cases eq), fun _ _ eq =>
      (by cases eq)⟩

end LogStripe

end ShardTelemetry.Stripe
