import ShardTelemetry.Stripe.HotOrdinals

/-!
# Hot queries and the reference

`LogQuery.select` says what a query asks for.  A query without a predicate of its own is answered
with exactly that from the hot index, but for three things.

* One posting list is returned as it is, also when the query sorts by timestamps.  The answer is
  then in the order of offsets, and with a limit it has other records.
* Terms are indexed in a normal form that lowers a term only if it has an uppercase letter.  A
  titlecase letter is none, so that two terms which are equal without case may have different forms.
* The bounds of the window are converted to `u32`, which fails for the bound `2 ^ 32`.

`Selects` is the condition under which none of them matters, and it is exact.
-/

namespace ShardTelemetry.Stripe

open Query Page LogStripe List LogQuery StructuralRecordView

section Condition

variable (engine : TextEngine) (query : LogQuery)

/-- The record has the terms of the query in the form in which they are indexed. -/
def carriesTerms (record : DurableLog) : Bool :=
  query.terms.all fun term => normalizeTerm engine term ∈ indexTermsOf engine record.message

/-- The records that the index finds are those that match and carry the terms as they are
indexed. -/
def found (record : DurableLog) : Bool :=
  query.matchesRecord engine record && carriesTerms engine query record

/-- The record is below the upper end of the query: its end, and with the sort by offset from the
newest the cursor. -/
def belowEnd (record : DurableLog) : Bool :=
  query.endOffset.all (record.offset < ·) &&
    (query.sort ≠ .offset || query.order ≠ .newestFirst ||
      query.after.all fun cursor => record.offset < cursor.offset)

/-- The query has one term or field and no bounds on timestamps, and it does not continue another
one: its posting list is the answer. -/
def onePosting : Prop :=
  query.terms.length + query.exactFields.length = 1 ∧ query.startTimestampUnixNanos = none ∧
    query.endTimestampUnixNanos = none ∧ query.after = none

/-- The condition under which the hot index answers a query with what it asks for. -/
structure IndexSelects (records : List DurableLog) : Prop where
  /-- The records below the end of the query are fewer than `2 ^ 32`. -/
  bound : (records.filter (belowEnd query)).length < 2 ^ 32
  /-- The records that are asked for have the terms in their indexed form. -/
  carries : ∀ record ∈ query.select engine records, carriesTerms engine query record
  /-- For a single posting list with the sort by timestamps: the records that match are, up to the
  limit, in the order of their timestamps. -/
  ordered : query.sort = .timestamp → onePosting query →
    Leads query.Le query.limit (arrange query.order (records.filter (found engine query)))

/-- The query is answered with what it asks for: trivially, by a scan for the one record it wants,
or from the index. -/
def Selects (records : List DurableLog) : Prop :=
  query.limit = some 0 ∨ query.hasInvalidRange ∨ (query.sort = .timestamp ∧ query.limit = some 1) ∨
    IndexSelects engine query records

end Condition

variable {engine : TextEngine} {query : LogQuery} {ix : PartitionIndex}

/-! ## Terms -/

theorem toLowercase_normalizeTerm (term) :
    engine.toLowercase (normalizeTerm engine term) = engine.toLowercase term := by
  unfold normalizeTerm
  split
  · exact engine.toLowercase_idem term
  · rfl

theorem map_toLower_normalizeTerm (ascii : Text.isAscii term = true) :
    (normalizeTerm engine term).map Char.toLower = term.map Char.toLower := by
  unfold normalizeTerm
  split
  · rw [engine.toLowercase_ascii term ascii, map_map]
    exact map_congr_left fun c _ => toLower_toLower c
  · rfl

/-- What is equal in the indexed form is equal without case. -/
theorem textEqual_of_normalizeTerm_eq (h : normalizeTerm engine left = normalizeTerm engine right) :
    textEqual engine left right .insensitive = true := by
  unfold textEqual
  dsimp only
  split
  · next ascii =>
    rw [Bool.and_eq_true] at ascii
    rw [eqIgnoreAsciiCase, beq_iff_eq, ← map_toLower_normalizeTerm ascii.1, h,
      map_toLower_normalizeTerm ascii.2]
  · rw [beq_iff_eq, ← toLowercase_normalizeTerm left, h, toLowercase_normalizeTerm]

theorem messageHasTerm_of_indexed {message term : Text}
    (h : normalizeTerm engine term ∈ indexTermsOf engine message) :
    messageHasTerm engine message term = true := by
  obtain ⟨found, mem, eq⟩ := mem_map.mp h
  exact any_eq_true.mpr ⟨found, mem, textEqual_of_normalizeTerm_eq eq⟩

theorem fieldEquals_iff {record : DurableLog} :
    fieldEquals record field = true ↔ field ∈ record.fields := by
  unfold fieldEquals
  rw [any_eq_true]
  constructor
  · rintro ⟨found, mem, eq⟩
    rw [Bool.and_eq_true, beq_iff_eq, beq_iff_eq] at eq
    have : found = field := by
      cases found
      cases field
      simp only [MetadataField.mk.injEq]
      exact eq
    rwa [← this]
  · exact fun mem => ⟨field, mem, by simp⟩

/-! ## What the index finds -/

theorem found_iff (pred : query.predicate = .matchAll) (record) : found engine query record = true ↔
      query.matchesIndexBounds record = true ∧ carriesTerms engine query record = true ∧
        ∀ field ∈ query.exactFields, field ∈ record.fields := by
  have terms :
      carriesTerms engine query record = true → query.legacyTermsMatch engine record = true := by
    intro carries
    refine all_eq_true.mpr fun term mem => ?_
    exact messageHasTerm_of_indexed (of_decide_eq_true (all_eq_true.mp carries term mem))
  have fields : query.legacyFieldsMatch record = true ↔
      ∀ field ∈ query.exactFields, field ∈ record.fields := by
    rw [legacyFieldsMatch, all_eq_true]
    exact forall₂_congr fun field _ => fieldEquals_iff
  have all : predicateMatches engine query.predicate record = true := by
    rw [pred, predicateMatches]
  simp only [found, matchesRecord, matchesIndexBounds, Bool.and_eq_true, all, fields,
    and_true]
  tauto

/-- Without a look at the records, only the offsets count. -/
theorem matchesIndexBounds_of_no_filter (filter : needsRecordFilter query = false)
    (record : DurableLog) :
    query.matchesIndexBounds record = true ↔ query.offsetMatches record.offset = true ∧
        (query.sort = .offset → query.cursorMatches record = true) := by
  simp only [needsRecordFilter, Bool.or_eq_false_iff, Option.isSome_eq_false_iff,
    Option.isNone_iff_eq_none, Bool.and_eq_false_iff] at filter
  obtain ⟨⟨start, finish⟩, cursor⟩ := filter
  have times : query.timestampMatches record.timestampUnixNanos = true := by
    rw [timestampMatches, start, finish]
    rfl
  have continued : query.sort ≠ .offset → query.cursorMatches record = true := by
    intro sort
    obtain none | eq := cursor
    · rw [cursorMatches, none]
      rfl
    · exact absurd (by simpa using eq) sort
  rw [matchesIndexBounds, Bool.and_eq_true, Bool.and_eq_true,
    show timestampUnixNanos record = record.timestampUnixNanos from rfl, times,
    show offset record = record.offset from rfl]
  tauto

variable {recs : List DurableLog} {α : Type}

theorem hasKeys_iff (lt : ord < recs.length) : hasKeys engine query recs ord = true ↔
      carriesTerms engine query (recordAt recs ord) = true ∧
        ∀ field ∈ query.exactFields, field ∈ (recordAt recs ord).fields := by
  simp only [hasKeys, hasTerm, hasField, getElem?_eq_recordAt lt, Option.any_some, Bool.and_eq_true,
    all_eq_true, decide_eq_true_eq, carriesTerms]

/-- The records of the ordinals that were found. -/
theorem map_foundOrdinals (engine : TextEngine) (pred : query.predicate = .matchAll)
    (offs : ix.records.Pairwise (·.offset < ·.offset)) :
    (foundOrdinals engine query ix).map (recordAt ix.records) =
      ix.records.filter (found engine query) := by
  have got : foundOrdinals engine query ix =
      (range ix.records.length).filter fun ord =>
        ((recordRange query ix.records).1 ≤ ord && ord < (recordRange query ix.records).2 &&
            hasKeys engine query ix.records ord) &&
        (!needsRecordFilter query || query.matchesIndexBounds (recordAt ix.records ord)) := by
    unfold foundOrdinals boundedOrdinals keyedOrdinals
    split
    · next filter =>
      rw [filter_filter]
      refine filter_congr fun ord mem => ?_
      rw [getElem?_eq_recordAt (mem_range.mp mem), Option.any_some, filter, Bool.not_true,
        Bool.false_or, Bool.and_comm]
    · next filter =>
      refine filter_congr fun ord _ => ?_
      rw [Bool.eq_false_of_not_eq_true filter, Bool.not_false, Bool.true_or, Bool.and_true]
  rw [got]
  refine map_recordAt_filter fun ord lt => ?_
  rw [Bool.eq_iff_iff, found_iff pred]
  simp only [Bool.and_eq_true, decide_eq_true_eq, mem_recordRange offs lt, hasKeys_iff lt]
  cases filter : needsRecordFilter query with
  | false =>
    rw [matchesIndexBounds_of_no_filter filter]
    simp only [Bool.not_false, Bool.true_or, and_true]
  | true =>
    have bounds : query.matchesIndexBounds (recordAt ix.records ord) = true →
        query.offsetMatches (recordAt ix.records ord).offset = true ∧
          query.cursorMatches (recordAt ix.records ord) = true := by
      intro bounds
      rw [matchesIndexBounds, Bool.and_eq_true, Bool.and_eq_true] at bounds
      exact ⟨bounds.1.1, bounds.2⟩
    simp only [Bool.not_true, Bool.false_or]
    tauto

/-! ## The answer -/

theorem queryOrdinals_eq (indexed : ix.Indexed engine ix.records.length ix.records.length)
    (nonzero : ¬ (query.limit = some 0 ∨ query.hasInvalidRange))
    (several : ¬ (query.sort = .timestamp ∧ query.limit = some 1)) :
    queryOrdinals engine query ix =
      if 2 ^ 32 ≤ (recordRange query ix.records).2
        then none else some (answerOrdinals engine query ix) := by
  unfold queryOrdinals
  rw [if_neg nonzero, if_neg several]
  dsimp only
  split
  · rfl
  · obtain ⟨lists, eq, length, keyed⟩ | ⟨eq, nothing⟩ :=
      postingLists_eq query indexed (recordRange query ix.records)
    · rw [eq]
      cases lists with
      | nil =>
        dsimp only
        rw [unrestrictedOrdinals_eq indexed length.symm keyed]
      | cons list lists =>
        dsimp only
        rw [restrictedOrdinals_eq indexed length (cons_ne_nil _ _) keyed]
    · rw [eq]
      dsimp only
      rw [answerOrdinals_of_empty]
      refine filter_eq_nil_iff.mpr fun ord mem => ?_
      simp only [Bool.and_eq_true, decide_eq_true_eq, not_and, Bool.not_eq_true, and_imp]
      exact nothing ord (mem_range.mp mem)

theorem mem_answerOrdinals (mem : ord ∈ answerOrdinals engine query ix) :
    ord < ix.records.length := by
  have found : ord ∈ foundOrdinals engine query ix := by
    unfold answerOrdinals at mem
    split at mem
    · have mem := mem_of_mem_upTo mem
      cases order : query.order with
      | oldestFirst => rwa [order] at mem
      | newestFirst =>
        rw [order] at mem
        exact mem_reverse.mp mem
    · exact mem_of_mem_page mem
  exact keyedOrdinals_lt engine query ix ord ((boundedOrdinals_sublist _ _ _).subset found)

theorem map_arrange (f : α → β) (order : QueryOrder) (l : List α) :
    (arrange order l).map f = arrange order (l.map f) := by
  cases order with
  | oldestFirst => rfl
  | newestFirst => exact map_reverse

/-- Records in the order of their offsets are, arranged, in the order of a query that sorts by
offset. -/
theorem arrange_pairwise_le (sort : query.sort = .offset)
    (offs : recs.Pairwise (·.offset < ·.offset)) :
    (arrange query.order recs).Pairwise query.Le := by
  have keys : recs.Pairwise fun left right => query.sortKey left.timestampUnixNanos left.offset ≤
      query.sortKey right.timestampUnixNanos right.offset := by
    refine offs.imp fun lt => ?_
    simp only [sortKey, sort, Prod.Lex.toLex_le_toLex]
    exact .inr ⟨trivial, lt.le⟩
  unfold Le Precedes
  cases query.order with
  | oldestFirst => exact keys
  | newestFirst => exact pairwise_reverse.mpr keys

theorem separates_le (offs : recs.Pairwise (·.offset < ·.offset)) : Separates query.Le recs :=
  separates ((pairwise_map.mpr offs).imp fun lt => ne_of_lt lt)

section

variable (pred : query.predicate = .matchAll) (offs : ix.records.Pairwise (·.offset < ·.offset))
include pred offs

/-- The records of the answer. -/
theorem map_answerOrdinals : (answerOrdinals engine query ix).filterMap (ix.records[·]?) =
      if query.sort = .timestamp ∧ returnsPosting query then
        upTo query.limit (arrange query.order (ix.records.filter (found engine query)))
      else page query.Le query.limit (ix.records.filter (found engine query)) := by
  rw [filterMap_eq_map_recordAt fun ord mem => mem_answerOrdinals mem]
  have recs := map_foundOrdinals engine pred offs
  have sub := offs.filter (found engine query)
  have arranged : (upTo query.limit (arrange query.order (foundOrdinals engine query ix))).map
      (recordAt ix.records) = upTo query.limit (arrange query.order
        (ix.records.filter (found engine query))) := by
    rw [map_upTo, map_arrange, recs]
  unfold answerOrdinals
  cases sort : query.sort with
  | offset =>
    rw [if_pos (.inl rfl), if_neg (by rintro ⟨h, -⟩; cases h), arranged,
      page_of_arrange (arrange_pairwise_le sort sub) (separates_le sub)]
  | timestamp =>
    by_cases one : returnsPosting query
    · rw [if_pos (.inr one), if_pos ⟨rfl, one⟩, arranged]
    · rw [if_neg (by rintro (h | h); cases h; exact one h), if_neg (fun h => one h.2),
        page, map_upTo, page, ← recs]
      congr 1
      have lt : ∀ ord ∈ foundOrdinals engine query ix, ord < ix.records.length :=
        fun ord mem => keyedOrdinals_lt engine query ix ord
          ((boundedOrdinals_sublist _ _ _).subset mem)
      refine map_insertionSort _ _ _ _ fun left leftMem right rightMem => ?_
      rw [TimestampLe, timestampKey_eq (lt left leftMem), timestampKey_eq (lt right rightMem),
        Le, sortKey, sortKey, sort]
      rfl

/-- The answer is within the limit. -/
theorem upTo_map_answerOrdinals :
    upTo query.limit ((answerOrdinals engine query ix).filterMap (ix.records[·]?)) =
      (answerOrdinals engine query ix).filterMap (ix.records[·]?) := by
  rw [map_answerOrdinals pred offs]
  split
  · exact upTo_upTo _ _
  · exact upTo_upTo _ _

end

/-! ## The end of the window -/

theorem belowEnd_mono (offs : recs.Pairwise (·.offset < ·.offset)) :
    recs.Pairwise fun left right => belowEnd query right → belowEnd query left := by
  refine offs.imp fun {left right} lt below => ?_
  simp only [belowEnd, Bool.and_eq_true, Bool.or_eq_true, Option.all_eq_true, decide_eq_true_eq]
    at below ⊢
  refine ⟨fun finish eq => lt.trans (below.1 finish eq), below.2.imp_right fun h => ?_⟩
  exact fun cursor eq => lt.trans (h cursor eq)

/-- The window ends after the records that are below the upper end of the query. -/
theorem recordRange_snd (offs : recs.Pairwise (·.offset < ·.offset)) :
    (recordRange query recs).2 = (recs.filter (belowEnd query)).length := by
  have counted : (recs.filter (belowEnd query)).length = partitionPoint recs (belowEnd query) := by
    rw [partitionPoint, HotPostingList.takeWhile_eq_filter (belowEnd_mono offs)]
  have bound : (recordRange query recs).2 ≤ recs.length := recordRange_le_length
  have bound' : partitionPoint recs (belowEnd query) ≤ recs.length := partitionPoint_le _
  have same : ∀ ord < recs.length, ord < (recordRange query recs).2 ↔
      ord < partitionPoint recs (belowEnd query) := by
    intro ord lt
    have finish : ord < (ordinalRecordWindow recs query.startOffset query.endOffset).2 ↔
        query.endOffset.all ((recordAt recs ord).offset < ·) := by
      unfold ordinalRecordWindow
      cases query.endOffset with
      | none => simpa using lt
      | some finish =>
        rw [Option.elim_some, Option.all_some, decide_eq_true_eq, lt_offsetPoint offs finish lt]
    rw [lt_partitionPoint (belowEnd_mono offs) lt, belowEnd, Bool.and_eq_true,
      ← finish, recordRange]
    dsimp only
    split
    · next sort _ order => simp [order]
    · next cursor sort after order =>
      simp [sort, after, order, lt_offsetPoint offs cursor.offset lt]
    · next other =>
      cases sort : query.sort with
      | timestamp => simp
      | offset =>
        cases order : query.order with
        | oldestFirst => simp
        | newestFirst =>
          cases after : query.after with
          | none => simp
          | some cursor => exact absurd order (other cursor sort after)
  rw [counted]
  by_contra ne
  rcases Nat.lt_or_gt_of_ne ne with lt | lt
  · exact absurd ((same _ (by omega)).mpr lt) (Nat.lt_irrefl _)
  · exact absurd ((same _ (by omega)).mp lt) (Nat.lt_irrefl _)

/-! ## The comparison with the reference -/

theorem returnsPosting_iff (sort : query.sort = .timestamp) :
    returnsPosting query ↔ onePosting query := by
  unfold returnsPosting onePosting needsRecordFilter
  simp [sort, and_assoc]

theorem matchesRecord_of_hasInvalidRange (invalid : query.hasInvalidRange = true)
    (record : DurableLog) : query.matchesRecord engine record = false := by
  have bounds :
      (query.offsetMatches record.offset && query.timestampMatches record.timestampUnixNanos) =
      false := by
    simp only [hasInvalidRange, Bool.or_eq_true, Option.any_eq_true, decide_eq_true_eq] at invalid
    rw [Bool.and_eq_false_iff]
    obtain ⟨start, eq, finish, eq', le⟩ | ⟨start, eq, finish, eq', le⟩ := invalid
    · simp only [offsetMatches, eq, eq', Option.all_some, Bool.and_eq_false_iff,
        decide_eq_false_iff_not]
      omega
    · right
      simp only [timestampMatches, eq, eq', Option.all_some, Bool.and_eq_false_iff,
        decide_eq_false_iff_not]
      omega
  rw [matchesRecord, show offset record = record.offset from rfl,
    show timestampUnixNanos record = record.timestampUnixNanos from rfl, bounds]
  simp

/-- Nothing is asked for without a limit to fill or with bounds that exclude everything. -/
theorem select_of_trivial (trivial : query.limit = some 0 ∨ query.hasInvalidRange = true)
    (recs : List DurableLog) : query.select engine recs = [] := by
  unfold select page
  obtain limit | invalid := trivial
  · rw [limit, upTo_some, take_zero]
  · have none : recs.filter (query.matchesRecord engine) = [] :=
      filter_eq_nil_iff.mpr fun record _ => by
        simp [matchesRecord_of_hasInvalidRange invalid record]
    rw [none]
    cases query.limit with
    | none => rfl
    | some limit => exact take_nil

theorem map_fst_filter_zipIdx (l : List α) (p : α → Bool) :
    (l.zipIdx.filter fun entry => p entry.1).map Prod.fst = l.filter p := by
  conv_rhs => rw [← zipIdx_map_fst 0 l]
  rw [filter_map]
  rfl

/-- The scan for one record finds the one that is asked for. -/
theorem scan_eq_select (limit : query.limit = some 1) (offs : recs.Pairwise (·.offset < ·.offset)) :
    ((minBy (fun left right : DurableLog × Nat => query.Le left.1 right.1)
        (recs.zipIdx.filter fun entry => query.matchesRecord engine entry.1)).toList.map
          Prod.snd).filterMap (recs[·]?) = query.select engine recs := by
  have least := map_minBy query.Le Prod.fst
    (recs.zipIdx.filter fun entry => query.matchesRecord engine entry.1)
  rw [map_fst_filter_zipIdx recs (query.matchesRecord engine)] at least
  rw [select, limit, ← toList_minBy (separates_le (offs.filter _)), ← least]
  cases eq : minBy (fun left right : DurableLog × Nat => query.Le left.1 right.1)
      (recs.zipIdx.filter fun entry => query.matchesRecord engine entry.1) with
  | none => rfl
  | some entry =>
    -- the entry is a record with its own ordinal
    have mem : entry ∈ recs.zipIdx := mem_of_mem_filter (mem_of_minBy eq)
    have at' : recs[entry.2]? = some entry.1 := mem_zipIdx_iff_getElem?.mp mem
    simp [at']

/-- The records that the index finds are some of those that match. -/
theorem filter_found (recs : List DurableLog) : recs.filter (found engine query) =
      (recs.filter (query.matchesRecord engine)).filter (carriesTerms engine query) := by
  rw [filter_filter]
  exact filter_congr fun record _ => Bool.and_comm _ _

theorem arrange_perm (order : QueryOrder) (l : List α) : (arrange order l).Perm l := by
  cases order with
  | oldestFirst => exact .refl _
  | newestFirst => exact reverse_perm l

/-- The answer from the index is what the query asks for under exactly the condition on the terms
and the order. -/
theorem map_answerOrdinals_eq_iff (pred : query.predicate = .matchAll)
    (offs : ix.records.Pairwise (·.offset < ·.offset)) :
    (answerOrdinals engine query ix).filterMap (ix.records[·]?) = query.select engine ix.records ↔
      (∀ record ∈ query.select engine ix.records, carriesTerms engine query record) ∧
        (query.sort = .timestamp → onePosting query → Leads query.Le query.limit
          (arrange query.order (ix.records.filter (found engine query)))) := by
  have separates : Separates query.Le (ix.records.filter (query.matchesRecord engine)) :=
    separates_le (offs.filter _)
  have separatesFound : Separates query.Le (ix.records.filter (found engine query)) :=
    separates_le (offs.filter _)
  -- what the terms cost
  have terms : page query.Le query.limit (ix.records.filter (found engine query)) =
      query.select engine ix.records ↔
        ∀ record ∈ query.select engine ix.records, carriesTerms engine query record := by
    rw [filter_found]
    exact page_filter_eq_iff separates _
  rw [map_answerOrdinals pred offs]
  by_cases post : query.sort = .timestamp ∧ returnsPosting query
  · have one := (returnsPosting_iff post.1).mp post.2
    rw [if_pos post]
    have perm := arrange_perm query.order (ix.records.filter (found engine query))
    have sorted : page query.Le query.limit _ = page query.Le query.limit _ :=
      page_congr perm (separatesFound.subset perm.subset)
    constructor
    · intro eq
      have carries :
          ∀ record ∈ query.select engine ix.records, carriesTerms engine query record := by
        intro record mem
        rw [← eq] at mem
        have := mem_filter.mp (perm.subset (mem_of_mem_upTo mem))
        exact (Bool.and_eq_true _ _ ▸ this.2).2
      refine ⟨carries, fun _ _ => ?_⟩
      rw [← upTo_eq_page_iff (separatesFound.subset perm.subset), sorted, terms.mpr carries, eq]
    · rintro ⟨carries, ordered⟩
      rw [(upTo_eq_page_iff (separatesFound.subset perm.subset)).mpr (ordered post.1 one), sorted,
        terms.mpr carries]
  · rw [if_neg post, terms]
    refine ⟨fun carries => ⟨carries, fun sort one => ?_⟩, fun h => h.1⟩
    exact absurd ⟨sort, (returnsPosting_iff sort).mpr one⟩ post

theorem queryOrdinals_select_iff (pred : query.predicate = .matchAll)
    (indexed : ix.Indexed engine ix.records.length ix.records.length)
    (nonzero : ¬ (query.limit = some 0 ∨ query.hasInvalidRange)) :
    ((queryOrdinals engine query ix).map fun ords => ords.filterMap (ix.records[·]?)).map
        (upTo query.limit) = some (query.select engine ix.records) ↔
      (query.sort = .timestamp ∧ query.limit = some 1) ∨ IndexSelects engine query ix.records := by
  by_cases several : query.sort = .timestamp ∧ query.limit = some 1
  · refine iff_of_true ?_ (.inl several)
    unfold queryOrdinals
    rw [if_neg nonzero, if_pos several, Option.map_some, Option.map_some,
      scan_eq_select several.2 indexed.offsets]
    exact congrArg some (upTo_upTo _ _)
  · rw [queryOrdinals_eq indexed nonzero several, recordRange_snd indexed.offsets]
    by_cases bound : (ix.records.filter (belowEnd query)).length < 2 ^ 32
    · rw [if_neg (Nat.not_le.mpr bound), Option.map_some, Option.map_some, Option.some.injEq,
        upTo_map_answerOrdinals pred indexed.offsets,
        map_answerOrdinals_eq_iff pred indexed.offsets]
      constructor
      · rintro ⟨carries, ordered⟩
        exact .inr ⟨bound, carries, ordered⟩
      · rintro (h | h)
        · exact absurd h several
        · exact ⟨h.carries, h.ordered⟩
    · rw [if_pos (Nat.not_lt.mp bound), Option.map_none, Option.map_none]
      refine iff_of_false (by simp) ?_
      rintro (h | h)
      · exact several h
      · exact bound h.bound

namespace LogStripe

variable {st : LogStripe} {slots : CacheSlots} {shard : Nat} {conf : StripeConfig}

/-- In every state of a stripe, a query without a predicate of its own is answered with the records
it asks for under exactly the condition that neither the order of a single posting list, nor the
indexed form of the terms, nor the width of an ordinal matters. -/
theorem query_selects_iff (reached : Run.Reaches (step engine slots) (new shard conf) st)
    (pred : query.predicate = .matchAll) : st.queryChecked engine query =
        some (query.select engine (st.held query.topicPartition)) ↔
      Selects engine query (st.held query.topicPartition) := by
  have indexed := (whole_of_reaches reached).partitions query.topicPartition
  unfold queryChecked Selects held
  by_cases trivial : query.limit = some 0 ∨ query.hasInvalidRange = true
  · rw [if_pos trivial, select_of_trivial trivial]
    exact iff_of_true rfl (by tauto)
  · rw [if_neg trivial]
    rw [queryHotMatches, queryOrdinals_select_iff pred indexed trivial]
    tauto

/-- After every call, failed or not, the posting lists of a partition are exactly those of its
records. -/
theorem postings_of_records (reached : Run.Reaches (step engine slots) (new shard conf) st) (part) :
    (st.held part).Pairwise (·.offset < ·.offset) ∧
      (st.partitions part).terms.Holds (hasTerm engine (st.held part)) (st.held part).length ∧
      (st.partitions part).fields.Holds (hasField (st.held part)) (st.held part).length :=
  have indexed := (whole_of_reaches reached).partitions part
  ⟨indexed.offsets, indexed.terms, indexed.fields⟩

/-- Two records with the same message, the second one with the earlier timestamp. -/
def sampleLog (offset timestamp : Nat) : DurableLog :=
  ⟨1, ⟨0, 0⟩, offset, timestamp, ['x'], [], [], 0⟩

def sampleQuery (sort : QuerySort) : LogQuery :=
  { LogQuery.new ⟨0, 0⟩ with terms := [['x']], sort }

def sampleEvents : List Event :=
  [.applyDurable (sampleEnvironment none) (sampleLog 0 5),
    .applyDurable (sampleEnvironment none) (sampleLog 1 3)]

theorem postings_of_sample : ∃ st, Run.Reaches (step .ascii sampleSlots) (new 1 sampleConfig) st ∧
    st.held ⟨0, 0⟩ = [sampleLog 0 5, sampleLog 1 3] ∧
    (st.partitions ⟨0, 0⟩).terms.Holds (hasTerm .ascii (st.held ⟨0, 0⟩)) (st.held ⟨0, 0⟩).length :=
  have reached := ⟨sampleEvents, rfl⟩
  ⟨_, reached, by decide +kernel, (postings_of_records reached _).2.1⟩

/-- By offset the records come as they are asked for. -/
theorem query_selects_sample : ∃ st : LogStripe, st.held ⟨0, 0⟩ = [sampleLog 0 5, sampleLog 1 3] ∧
      st.queryChecked .ascii (sampleQuery .offset) =
        some ((sampleQuery .offset).select .ascii [sampleLog 0 5, sampleLog 1 3]) := by
  obtain ⟨st, reached, held⟩ : ∃ st : LogStripe,
      Run.Reaches (step .ascii sampleSlots) (new 1 sampleConfig) st ∧
        st.held ⟨0, 0⟩ = [sampleLog 0 5, sampleLog 1 3] :=
    ⟨_, ⟨sampleEvents, rfl⟩, by decide +kernel⟩
  have selects : _ ↔ Selects .ascii (sampleQuery .offset) _ := query_selects_iff reached rfl
  rw [show (sampleQuery .offset).topicPartition = ⟨0, 0⟩ from rfl, held] at selects
  refine ⟨st, held, selects.mpr (.inr (.inr (.inr ⟨?_, ?_, ?_⟩)))⟩
  · decide +kernel
  · decide +kernel
  · intro sort
    cases sort

/-- By timestamp they come in the order of their offsets all the same. -/
theorem query_not_selects : ¬ ∀ (engine : TextEngine) (slots : CacheSlots) (shard : Nat)
      (conf : StripeConfig) (st : LogStripe) (query : LogQuery), Run.Reaches (step engine slots)
        (new shard conf) st → query.predicate = .matchAll →
      st.queryChecked engine query = some (query.select engine (st.held query.topicPartition)) := by
  intro all
  have answer := all .ascii sampleSlots 1 sampleConfig _ (sampleQuery .timestamp)
    ⟨sampleEvents, rfl⟩ rfl
  revert answer
  decide +kernel

end LogStripe

end ShardTelemetry.Stripe
