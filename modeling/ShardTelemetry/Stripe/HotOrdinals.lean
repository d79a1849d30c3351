import Mathlib.Data.List.GetD
import ShardTelemetry.Stripe.Index
import ShardTelemetry.Stripe.QueryHot

/-!
# The ordinals that a hot query finds

Each branch of a hot query comes down to the same ordinals: those in the window whose records have
the terms and the fields and, where the records are looked at, lie within the bounds
(`foundOrdinals`).  The branches sort them or arrange them by their offsets, and cut them at the
limit.
-/

namespace ShardTelemetry.Stripe

open Query Page List HotPostingList

/-! ## Ordinals and records -/

instance : Inhabited DurableLog := ⟨⟨0, ⟨0, 0⟩, 0, 0, [], [], [], 0⟩⟩

/-- The record with an ordinal. -/
def recordAt (records : List DurableLog) (ordinal : Nat) : DurableLog :=
  records.getD ordinal default

section Records

theorem getElem?_eq_recordAt (h : ord < recs.length) : recs[ord]? = some (recordAt recs ord) := by
  rw [recordAt, getD_eq_getElem _ _ h, getElem?_eq_getElem h]

theorem filterMap_eq_map_recordAt {ords : List Nat} (h : ∀ ord ∈ ords, ord < recs.length) :
    ords.filterMap (recs[·]?) = ords.map (recordAt recs) := by
  rw [← filterMap_eq_map]
  exact filterMap_congr fun ord mem => getElem?_eq_recordAt (h ord mem)

theorem map_recordAt_range : (range recs.length).map (recordAt recs) = recs := by
  refine ext_getElem (by simp) fun ix _ lt => ?_
  rw [getElem_map, getElem_range, recordAt, getD_eq_getElem _ _ lt]

/-- The ordinals with a property are those of the records with a property. -/
theorem map_recordAt_filter (h : ∀ ord < recs.length, good ord = meets (recordAt recs ord)) :
    ((range recs.length).filter good).map (recordAt recs) = recs.filter meets := by
  have eq : (range recs.length).filter good =
      (range recs.length).filter (meets ∘ recordAt recs) :=
    filter_congr fun ord mem => h ord (mem_range.mp mem)
  rw [eq, ← filter_map, map_recordAt_range]

/-- What comes before the boundary, if the records before it are the first ones. -/
theorem lt_partitionPoint (mono : recs.Pairwise fun left right => before right → before left)
    (h : ord < recs.length) : ord < partitionPoint recs before ↔ before (recordAt recs ord) := by
  unfold partitionPoint
  induction recs generalizing ord with
  | nil => exact absurd h (Nat.not_lt_zero _)
  | cons record recs ih =>
    rw [pairwise_cons] at mono
    cases first : before record with
    | false =>
      rw [takeWhile_cons_of_neg (by simp [first])]
      simp only [length_nil, Nat.not_lt_zero, false_iff]
      cases ord with
      | zero => simp [recordAt, first]
      | succ ord =>
        intro later
        have mem : recordAt recs ord ∈ recs := by
          rw [recordAt, getD_eq_getElem _ _ (Nat.lt_of_succ_lt_succ h)]
          exact getElem_mem _
        exact absurd (mono.1 _ mem later) (by simp [first])
    | true =>
      rw [takeWhile_cons_of_pos first, length_cons]
      cases ord with
      | zero => simp [recordAt, first]
      | succ ord =>
        rw [Nat.succ_lt_succ_iff, ih mono.2 (Nat.lt_of_succ_lt_succ h)]
        simp [recordAt]

theorem partitionPoint_le (before) : partitionPoint recs before ≤ recs.length :=
  (takeWhile_sublist _).length_le

end Records

/-! ## The window -/

section Window

variable {q : LogQuery} {recs : List DurableLog} (offs : recs.Pairwise (·.offset < ·.offset))

include offs in
theorem lt_offsetPoint (bound) (h : ord < recs.length) :
    ord < partitionPoint recs (·.offset < bound) ↔ (recordAt recs ord).offset < bound := by
  rw [lt_partitionPoint _ h, decide_eq_true_eq]
  exact offs.imp fun lt below => decide_eq_true (lt_trans lt (of_decide_eq_true below))

include offs in
theorem lt_offsetPoint_le (bound) (h : ord < recs.length) :
    ord < partitionPoint recs (·.offset ≤ bound) ↔ (recordAt recs ord).offset ≤ bound := by
  rw [lt_partitionPoint _ h, decide_eq_true_eq]
  exact offs.imp fun lt below => decide_eq_true (le_trans lt.le (of_decide_eq_true below))

theorem ordinalRecordWindow_le_length (recs) (start finish) :
    (ordinalRecordWindow recs start finish).2 ≤ recs.length := by
  cases finish with
  | none => exact le_rfl
  | some finish => exact partitionPoint_le _

theorem recordRange_le_length : (recordRange q recs).2 ≤ recs.length := by
  have window := ordinalRecordWindow_le_length recs q.startOffset q.endOffset
  unfold recordRange
  split
  · exact window
  · exact (min_le_left _ _).trans window
  · exact window

include offs in
theorem mem_ordinalRecordWindow (h : ord < recs.length) :
    ((ordinalRecordWindow recs q.startOffset q.endOffset).1 ≤ ord ∧
        ord < (ordinalRecordWindow recs q.startOffset q.endOffset).2) ↔
      q.offsetMatches (recordAt recs ord).offset := by
  have lower : q.startOffset.elim 0 (fun start => partitionPoint recs (·.offset < start)) ≤
      ord ↔ q.startOffset.all (· ≤ (recordAt recs ord).offset) := by
    cases q.startOffset with
    | none => simp
    | some start =>
      rw [Option.elim_some, Option.all_some, decide_eq_true_eq, ← not_lt,
        lt_offsetPoint offs start h, not_lt]
  have upper :
        ord < q.endOffset.elim recs.length (fun finish => partitionPoint recs (·.offset < finish)) ↔
        q.endOffset.all ((recordAt recs ord).offset < ·) := by
    cases q.endOffset with
    | none => simpa using h
    | some finish =>
      rw [Option.elim_some, Option.all_some, decide_eq_true_eq, lt_offsetPoint offs finish h]
  rw [LogQuery.offsetMatches, Bool.and_eq_true, ← lower, ← upper]
  unfold ordinalRecordWindow
  dsimp only
  omega

include offs in
/-- The ordinals in the window are those of the records with the right offsets; the cursor counts
with the sort by offset. -/
theorem mem_recordRange (h : ord < recs.length) :
    (recordRange q recs).1 ≤ ord ∧ ord < (recordRange q recs).2 ↔
        q.offsetMatches (recordAt recs ord).offset ∧
        (q.sort = .offset → q.cursorMatches (recordAt recs ord)) := by
  rw [← mem_ordinalRecordWindow offs h]
  unfold recordRange
  dsimp only
  split
  · next cursor sort after order =>
    have lower := lt_offsetPoint_le offs cursor.offset h
    have matching : q.cursorMatches (recordAt recs ord) ↔
        cursor.offset < (recordAt recs ord).offset := by
      simp only [LogQuery.cursorMatches, after, Option.all_some, order, LogQuery.sortKey, sort,
        decide_eq_true_eq, Prod.Lex.toLex_lt_toLex, lt_irrefl, true_and, false_or]
      rfl
    simp only [sort, forall_const, matching]
    omega
  · next cursor sort after order =>
    have lower := lt_offsetPoint offs cursor.offset h
    have matching : q.cursorMatches (recordAt recs ord) ↔
        (recordAt recs ord).offset < cursor.offset := by
      simp only [LogQuery.cursorMatches, after, Option.all_some, order, LogQuery.sortKey, sort,
        decide_eq_true_eq, Prod.Lex.toLex_lt_toLex, lt_irrefl, true_and, false_or]
      rfl
    simp only [sort, forall_const, matching]
    omega
  · next oldest newest =>
    have matching : q.sort = .offset → q.cursorMatches (recordAt recs ord) := by
      intro sort
      cases after : q.after with
      | none => simp [LogQuery.cursorMatches, after]
      | some cursor =>
        cases order : q.order with
        | oldestFirst => exact (oldest cursor sort after order).elim
        | newestFirst => exact (newest cursor sort after order).elim
    rw [and_iff_left matching]
    omega

end Window

/-! ## Posting lists -/

section Lists

variable {Key : Type} [DecidableEq Key] {count : Nat}

/-- The lists of some keys: each is the list of a set of ordinals, and together they stand for the
ordinals that have all keys. -/
structure ListsOf (count : Nat) (has : Nat → Bool) (lists : List HotPostingList) : Prop where
  ok : ∀ list ∈ lists, list.Ok ∧ ∃ holds, list.ordinals = (range count).filter holds
  all : ∀ ordinal < count, (lists.all fun list => list.contains ordinal) = has ordinal

theorem ListsOf.append {has : Nat → Bool} (h : ListsOf count has lists)
    (h' : ListsOf count has' lists') :
    ListsOf count (fun ord => has ord && has' ord) (lists ++ lists') where
  ok list mem := (mem_append.mp mem).elim (h.ok list) (h'.ok list)
  all ord lt := by rw [all_append, h.all ord lt, h'.all ord lt]

theorem postingIn_eq (h : table.Holds has count) (window) (key : Key) :
    (∃ list, postingIn table window key = some list ∧ ListsOf count (has key) [list]) ∨
      (postingIn table window key = none ∧
        ∀ ord < count, window.1 ≤ ord → ord < window.2 → has key ord = false) := by
  unfold postingIn
  obtain ⟨list, eq, ok, ords⟩ | ⟨eq, none⟩ := h.posting_eq key
  · rw [eq]
    cases empty : list.isEmptyIn window.1 window.2 with
    | false =>
      refine .inl ⟨list, by simp [empty], ?_, fun ord lt => ?_⟩
      · intro other mem
        rw [mem_singleton.mp mem]
        exact ⟨ok, has key, ords⟩
      · rw [all_cons, all_nil, Bool.and_true, Bool.eq_iff_iff,
          contains_iff, ords, mem_filter, mem_range]
        exact and_iff_right lt
    | true =>
      refine .inr ⟨by simp [empty], fun ord lt least most => ?_⟩
      have nothing := ordinalsIn_of_isEmptyIn empty
      rw [eq_nil_iff_forall_not_mem] at nothing
      by_contra holds
      refine nothing ord (mem_ordinalsIn.mpr ⟨?_, least, most⟩)
      rw [ords, mem_filter, mem_range]
      exact ⟨lt, Bool.eq_true_of_not_eq_false holds⟩
  · refine .inr ⟨by rw [eq]; rfl, fun ord lt _ _ => ?_⟩
    have := filter_eq_nil_iff.mp none ord (mem_range.mpr lt)
    exact Bool.eq_false_of_not_eq_true this

/-- The lists of several keys, one for each, or a key of which nothing is in the window. -/
theorem mapM_postingIn (h : table.Holds has count) (window : Nat × Nat) (keys : List Key) :
    (∃ lists, keys.mapM (postingIn table window) = some lists ∧ lists.length = keys.length ∧
        ListsOf count (fun ord => keys.all (has · ord)) lists) ∨
      (keys.mapM (postingIn table window) = none ∧ ∀ ord < count, window.1 ≤ ord → ord < window.2 →
          keys.all (has · ord) = false) := by
  induction keys with
  | nil => exact .inl ⟨[], rfl, rfl, nofun, fun _ _ => rfl⟩
  | cons key keys ih =>
    rw [mapM_cons]
    obtain ⟨list, eq, one⟩ | ⟨eq, nothing⟩ := postingIn_eq h window key
    · obtain ⟨lists, eq', length, many⟩ | ⟨eq', nothing⟩ := ih
      · refine .inl
          ⟨list :: lists, by rw [eq, eq']; rfl, by rw [length_cons, length_cons, length], ?_⟩
        exact one.append many
      · refine .inr ⟨by rw [eq, eq']; rfl, fun ord lt least most => ?_⟩
        rw [all_cons, nothing ord lt least most, Bool.and_false]
    · refine .inr ⟨by rw [eq]; rfl, fun ord lt least most => ?_⟩
      rw [all_cons, nothing ord lt least most, Bool.false_and]

end Lists

section Found

variable (eng : TextEngine) (q : LogQuery)

/-- The record with the ordinal has the terms and the fields of the query, as they are indexed. -/
def hasKeys (records : List DurableLog) (ordinal : Nat) : Bool :=
  (q.terms.all fun term => hasTerm eng records (normalizeTerm eng term) ordinal) &&
    q.exactFields.all fun field => hasField records field ordinal

variable {eng q} {count : Nat}

theorem postingLists_eq (q : LogQuery) (h : ix.Indexed eng count count) (window : Nat × Nat) :
    (∃ lists, postingLists eng q ix window = some lists ∧
        lists.length = q.terms.length + q.exactFields.length ∧
        ListsOf count (hasKeys eng q ix.records) lists) ∨
      (postingLists eng q ix window = none ∧ ∀ ord < count, window.1 ≤ ord → ord < window.2 →
          hasKeys eng q ix.records ord = false) := by
  have terms := mapM_postingIn h.terms window (q.terms.map (normalizeTerm eng))
  rw [mapM_map, length_map] at terms
  simp only [all_map] at terms
  unfold postingLists
  obtain ⟨lists, eq, length, many⟩ | ⟨eq, nothing⟩ := terms
  · obtain ⟨lists', eq', length', many'⟩ | ⟨eq', nothing⟩ :=
      mapM_postingIn h.fields window q.exactFields
    · refine .inl ⟨lists ++ lists', ?_, by rw [length_append, length, length'], many.append many'⟩
      rw [show q.terms.mapM (fun term => postingIn ix.terms window (normalizeTerm eng term)) =
        some lists from eq, eq']
      rfl
    · refine .inr ⟨?_, fun ord lt least most => ?_⟩
      · rw [show q.terms.mapM (fun term => postingIn ix.terms window
          (normalizeTerm eng term)) = some lists from eq, eq']
        rfl
      · rw [hasKeys, nothing ord lt least most, Bool.and_false]
  · refine .inr ⟨?_, fun ord lt least most => ?_⟩
    · rw [show q.terms.mapM (fun term => postingIn ix.terms window (normalizeTerm eng term)) =
        none from eq]
      rfl
    · have terms := nothing ord lt least most
      rw [hasKeys]
      exact (congrArg (· && _) terms).trans (Bool.false_and _)

/-- The ordinals in a window whose records have the terms and the fields. -/
def keyedOrdinals (eng : TextEngine) (q : LogQuery) (index : PartitionIndex) : List Nat :=
  (range index.records.length).filter fun ordinal =>
    (recordRange q index.records).1 ≤ ordinal && ordinal < (recordRange q index.records).2 &&
      hasKeys eng q index.records ordinal

/-- The lists, in any order, intersect in the ordinals that have the keys. -/
theorem collectHotPostingIntersection_keyed
    (h : ListsOf ix.records.length (hasKeys eng q ix.records) lists)
    (nonempty : lists ≠ []) (order) (limit) :
    collectHotPostingIntersection lists (recordRange q ix.records).1
      (recordRange q ix.records).2 order limit =
        upTo limit (arrange order (keyedOrdinals eng q ix)) := by
  cases lists with
  | nil => exact absurd rfl nonempty
  | cons first others =>
    obtain ⟨ok, holds, ords⟩ := h.ok first mem_cons_self
    rw [collectHotPostingIntersection_eq ok]
    congr 2
    unfold keyedOrdinals ordinalsIn
    rw [ords, filter_filter, filter_filter]
    refine filter_congr fun ord mem => ?_
    have lt := mem_range.mp mem
    have all := h.all ord lt
    rw [all_cons] at all
    have one : first.contains ord = holds ord := by
      rw [Bool.eq_iff_iff, contains_iff, ords, mem_filter]
      exact and_iff_right mem
    rw [← all, one, Bool.eq_iff_iff]
    simp only [Bool.and_eq_true]
    tauto

theorem collectIn_keyed (h : ListsOf ix.records.length (hasKeys eng q ix.records) [list])
    (order) (limit) : list.collectIn (recordRange q ix.records).1 (recordRange q ix.records).2 order
      limit = upTo limit (arrange order (keyedOrdinals eng q ix)) := by
  have both := collectHotPostingIntersection_keyed h (cons_ne_nil _ _) order limit
  rw [← both, collectIn_eq (h.ok list mem_cons_self).1,
    collectHotPostingIntersection_eq (h.ok list mem_cons_self).1]
  simp

theorem ListsOf.perm (h : ListsOf count has lists) (perm : lists'.Perm lists) :
    ListsOf count has lists' where
  ok list mem := h.ok list (perm.mem_iff.mp mem)
  all ord lt := by rw [← h.all ord lt, perm.all_eq]

end Found

/-! ## Sorting and cutting -/

section Finish

instance : Std.Total (TimestampLe q index) := ⟨fun _ _ => LogQuery.precedes_total _ _⟩

instance : IsTrans Nat (TimestampLe q index) := ⟨fun _ _ _ => LogQuery.precedes_trans⟩

theorem timestampKey_eq {ord : Nat} (lt : ord < ix.records.length) :
    timestampKey ix ord = toLex ((recordAt ix.records ord).timestampUnixNanos,
      (recordAt ix.records ord).offset) := by
  rw [timestampKey, getElem?_eq_recordAt lt, Option.elim_some]

theorem recordAt_pairwise {r : DurableLog → DurableLog → Prop}
    (h : recs.Pairwise r) (lt : left < right) (bound : right < recs.length) :
    r (recordAt recs left) (recordAt recs right) := by
  rw [recordAt, recordAt, getD_eq_getElem _ _ bound, getD_eq_getElem _ _ (lt.trans bound)]
  exact pairwise_iff_getElem.mp h left right _ _ lt

/-- The ordinals of different records are told apart by their timestamps and offsets. -/
theorem separates_timestampLe (offs : ix.records.Pairwise (·.offset < ·.offset))
    (bound : ∀ ord ∈ ords, ord < ix.records.length) : Separates (TimestampLe q ix) ords := by
  intro left leftMem right rightMem le ge
  have eq := LogQuery.precedes_antisymm le ge
  rw [timestampKey_eq (bound left leftMem), timestampKey_eq (bound right rightMem)] at eq
  have same : (recordAt ix.records left).offset = (recordAt ix.records right).offset :=
    (Prod.mk.inj eq).2
  obtain lt | rfl | gt := lt_trichotomy left right
  · exact absurd same (ne_of_lt (recordAt_pairwise offs lt (bound right rightMem)))
  · rfl
  · exact absurd same.symm (ne_of_lt (recordAt_pairwise offs gt (bound left leftMem)))

/-- With timestamps in order, so are the ordinals. -/
theorem arrange_pairwise_timestampLe (offs : ix.records.Pairwise (·.offset < ·.offset))
    (times : ix.records.Pairwise (·.timestampUnixNanos ≤ ·.timestampUnixNanos))
    (bound : ∀ ord ∈ ords, ord < ix.records.length) (ascending : ords.Pairwise (· < ·)) :
    (arrange q.order ords).Pairwise (TimestampLe q ix) := by
  have keys : ords.Pairwise fun left right =>
      timestampKey ix left ≤ timestampKey ix right := by
    refine ascending.imp_of_mem fun leftMem rightMem lt => ?_
    rw [timestampKey_eq (bound _ leftMem), timestampKey_eq (bound _ rightMem),
      Prod.Lex.toLex_le_toLex]
    have earlier := recordAt_pairwise times lt (bound _ rightMem)
    have below := recordAt_pairwise offs lt (bound _ rightMem)
    omega
  unfold TimestampLe LogQuery.Precedes
  cases q.order with
  | oldestFirst => exact keys
  | newestFirst => exact pairwise_reverse.mpr keys

theorem retainTop_page (limit) (separates : Separates (TimestampLe q ix) ords)
    (sorted : ix.timestampOrder = .nonDecreasing →
      (arrange q.order ords).Pairwise (TimestampLe q ix)) :
    upTo (some limit) (retainTopTimestampOrdinals q ix limit ords) =
      page (TimestampLe q ix) (some limit) ords := by
  have tail : ∀ keep, selectedTail keep ords = ords.reverse.take keep :=
    fun keep => take_reverse.symm
  unfold retainTopTimestampOrdinals
  dsimp only
  split
  · next zero =>
    subst zero
    rw [page, upTo_some, upTo_some, take_zero, take_zero]
  · split
    · next longer =>
      have keep : min limit ords.length = limit := by omega
      rw [keep]
      split
      · next order =>
        have pairwise := sorted order
        split
        · next eq =>
          rw [eq, arrange] at pairwise
          rw [page_of_pairwise pairwise]
          exact upTo_upTo (some limit) ords
        · next eq =>
          rw [eq, arrange] at pairwise
          rw [page_of_pairwise_reverse pairwise separates, tail]
          exact upTo_upTo (some limit) _
      · split
        · next ascending =>
          have pairwise : ords.Pairwise (TimestampLe q ix) :=
            pairwise_of_neighbours fun pair mem =>
              of_decide_eq_true (all_eq_true.mp ascending pair mem)
          rw [page_of_pairwise pairwise]
          exact upTo_upTo (some limit) ords
        · split
          · next descending =>
            have pairwise : ords.Pairwise fun left right => TimestampLe q ix right left :=
              pairwise_of_neighbours fun pair mem =>
                of_decide_eq_true (all_eq_true.mp descending pair mem)
            rw [page_of_pairwise_reverse (pairwise_reverse.mpr pairwise) separates, tail]
            exact upTo_upTo (some limit) _
          · exact upTo_upTo (some limit) _
    · rfl

/-- The ordinals whose records lie within the bounds, if the records are looked at. -/
def boundedOrdinals (q : LogQuery) (index : PartitionIndex) (ordinals : List Nat) : List Nat :=
  if needsRecordFilter q then
    ordinals.filter fun ordinal => (index.records[ordinal]?).any q.matchesIndexBounds
  else ordinals

theorem boundedOrdinals_sublist (q) (ix) (ords) : (boundedOrdinals q ix ords).Sublist ords := by
  unfold boundedOrdinals
  split
  · exact filter_sublist
  · exact .refl _

theorem finishOrdinals_timestamp (sort : q.sort = .timestamp) (inQueryOrder)
    (offs : ix.records.Pairwise (·.offset < ·.offset))
    (times : ix.timestampOrder = .nonDecreasing →
      ix.records.Pairwise (·.timestampUnixNanos ≤ ·.timestampUnixNanos))
    (bound : ∀ ord ∈ ords, ord < ix.records.length) (ascending : ords.Pairwise (· < ·)) :
    finishOrdinals q ix inQueryOrder ords =
      page (TimestampLe q ix) q.limit (boundedOrdinals q ix ords) := by
  have sublist := boundedOrdinals_sublist q ix ords
  have bound' : ∀ ord ∈ boundedOrdinals q ix ords, ord < ix.records.length :=
    fun ord mem => bound ord (sublist.subset mem)
  unfold finishOrdinals
  simp only [sort]
  rw [← boundedOrdinals]
  cases q.limit with
  | none => rfl
  | some limit =>
    dsimp only
    split
    · refine retainTop_page limit (separates_timestampLe offs bound') fun order => ?_
      exact arrange_pairwise_timestampLe offs (times order) bound' (ascending.sublist sublist)
    · rfl

theorem finishOrdinals_offset (sort : q.sort = .offset) :
    finishOrdinals q ix false ords = upTo q.limit
      (arrange q.order (boundedOrdinals q ix ords)) := by
  unfold finishOrdinals
  simp only [sort, and_true]
  cases q.order with
  | oldestFirst => rfl
  | newestFirst => rfl

/-- What was collected in the order of the query and up to its limit stays as it is. -/
theorem finishOrdinals_limited (sort : q.sort = .offset) (filter : needsRecordFilter q = false) :
    finishOrdinals q ix true (upTo q.limit ords) = upTo q.limit ords := by
  unfold finishOrdinals
  simp only [sort, filter, Bool.false_eq_true, if_false, Bool.true_eq_false, and_false, upTo_upTo]

end Finish

/-! ## The answer -/

section Answer

variable {ix : PartitionIndex}

/-- The ordinals that a query finds, from the lowest. -/
def foundOrdinals (eng : TextEngine) (q : LogQuery) (index : PartitionIndex) : List Nat :=
  boundedOrdinals q index (keyedOrdinals eng q index)

/-- The query has one posting list, which answers it as it is. -/
def returnsPosting (q : LogQuery) : Prop :=
  q.terms.length + q.exactFields.length = 1 ∧ needsRecordFilter q = false

instance : Decidable (returnsPosting q) := inferInstanceAs (Decidable (_ ∧ _))

/-- What becomes of the ordinals that were found. -/
def answerOrdinals (eng : TextEngine) (q : LogQuery) (index : PartitionIndex) : List Nat :=
  if q.sort = .offset ∨ returnsPosting q then
    upTo q.limit (arrange q.order (foundOrdinals eng q index))
  else page (TimestampLe q index) q.limit (foundOrdinals eng q index)

theorem keyedOrdinals_lt (eng) (q) (ix) : ∀ ord ∈ keyedOrdinals eng q ix, ord < ix.records.length :=
  fun _ mem => mem_range.mp (mem_of_mem_filter mem)

theorem keyedOrdinals_ascending (eng) (q) (ix) : (keyedOrdinals eng q ix).Pairwise (· < ·) :=
  pairwise_lt_range.filter _

theorem foundOrdinals_of_no_filter (filter : needsRecordFilter q = false) :
    foundOrdinals eng q ix = keyedOrdinals eng q ix := by
  rw [foundOrdinals, boundedOrdinals, if_neg (by simp [filter])]

/-- The ordinals that were collected from the lowest, whatever is done with them then. -/
theorem finishOrdinals_keyed (indexed : ix.Indexed eng ix.records.length ix.records.length)
    (other : ¬ (q.sort = .timestamp ∧ returnsPosting q)) :
    finishOrdinals q ix false (keyedOrdinals eng q ix) = answerOrdinals eng q ix := by
  unfold answerOrdinals
  cases sort : q.sort with
  | offset => rw [if_pos (.inl rfl), finishOrdinals_offset sort, ← foundOrdinals]
  | timestamp =>
    rw [if_neg (by rintro (h | h); cases h; exact other ⟨sort, h⟩),
      finishOrdinals_timestamp sort false indexed.offsets indexed.timestamps
        (keyedOrdinals_lt eng q ix) (keyedOrdinals_ascending eng q ix),
      ← foundOrdinals]

theorem answerOrdinals_of_empty (empty : keyedOrdinals eng q ix = []) :
    answerOrdinals eng q ix = [] := by
  have found : foundOrdinals eng q ix = [] := by
    have sublist := boundedOrdinals_sublist q ix (keyedOrdinals eng q ix)
    rw [empty, sublist_nil] at sublist
    rw [foundOrdinals, empty]
    exact sublist
  unfold answerOrdinals
  rw [found]
  split
  · cases q.order <;> cases q.limit <;> simp [arrange]
  · cases q.limit <;> simp [page]

/-- A window is a range of ordinals. -/
theorem filter_window {count start finish : Nat} (le : finish ≤ count) :
    ((range count).filter fun ord => start ≤ ord && ord < finish) =
      range' start (finish - start) := by
  refine Perm.eq_of_pairwise (fun a b _ _ lt gt => absurd (lt_trans lt gt) (lt_irrefl a))
    (pairwise_lt_range.filter _) pairwise_lt_range' ?_
  refine (perm_ext_iff_of_nodup (nodup_range.filter _) nodup_range').mpr ?_
  intro ord
  rw [mem_filter, mem_range, mem_range'_1, Bool.and_eq_true, decide_eq_true_eq, decide_eq_true_eq]
  omega

theorem collectOrderedRange_eq (start finish) (order) (limit) :
      collectOrderedRange start finish order limit =
      upTo limit (arrange order (range' start (finish - start))) := by
  have length : (arrange order (range' start (finish - start))).length = finish - start := by
    cases order <;> simp [arrange]
  unfold collectOrderedRange
  dsimp only
  cases limit with
  | none => rw [Option.getD_none, Nat.min_self, upTo_none, take_of_length_le length.le]
  | some limit =>
    rw [Option.getD_some, upTo_some]
    obtain short | long := Nat.le_total limit (finish - start)
    · rw [Nat.min_eq_left short]
    · rw [Nat.min_eq_right long, take_of_length_le length.le,
        take_of_length_le (length.trans_le long)]

/-- The first or the last ordinals of a window, without sorting. -/
theorem range'_slice (start finish limit) (order) :
    (match order with
      | .oldestFirst => range' start (min limit (finish - start))
      | .newestFirst =>
        (range' (finish - min limit (finish - start)) (min limit (finish - start))).reverse) =
      upTo (some limit) (arrange order (range' start (finish - start))) := by
  cases order with
  | oldestFirst =>
    refine ext_getElem (by simp [arrange]) fun ix _ _ => ?_
    simp [arrange]
  | newestFirst =>
    rw [arrange, upTo_some, take_reverse, length_range', drop_range', Nat.mul_one]
    obtain empty | nonempty := Nat.le_total finish start
    · rw [Nat.sub_eq_zero_of_le empty]
      simp
    · rw [show finish - min limit (finish - start) = start + (finish - start - limit) by omega,
        show min limit (finish - start) = finish - start - (finish - start - limit) by omega]

/-- What is in order after it was arranged is cut at the limit. -/
theorem page_of_arrange {r : α → α → Prop} [DecidableRel r] [Std.Total r] [IsTrans α r]
    (h : (arrange order l).Pairwise r)
    (separates : Separates r l) : page r limit l = upTo limit (arrange order l) := by
  cases order with
  | oldestFirst => exact page_of_pairwise h
  | newestFirst => exact page_of_pairwise_reverse h separates

theorem keyedOrdinals_of_no_keys (lists : ListsOf ix.records.length (hasKeys eng q ix.records) []) :
    keyedOrdinals eng q ix =
      range' (recordRange q ix.records).1
        ((recordRange q ix.records).2 - (recordRange q ix.records).1) := by
  rw [← filter_window recordRange_le_length]
  refine filter_congr fun ord mem => ?_
  rw [← lists.all ord (mem_range.mp mem), all_nil, Bool.and_true]

section

variable (indexed : ix.Indexed eng ix.records.length ix.records.length)
include indexed

theorem unrestrictedOrdinals_eq (none : q.terms.length + q.exactFields.length = 0)
    (lists : ListsOf ix.records.length (hasKeys eng q ix.records) []) :
    unrestrictedOrdinals q ix (recordRange q ix.records) = answerOrdinals eng q ix := by
  have other : ¬ (q.sort = .timestamp ∧ returnsPosting q) := by
    rintro ⟨-, one, -⟩
    omega
  have keyed := keyedOrdinals_of_no_keys lists
  have finish := finishOrdinals_keyed indexed other
  unfold unrestrictedOrdinals
  dsimp only
  rw [← keyed, finish]
  split
  · rfl
  · next filter =>
    have filter : needsRecordFilter q = false := Bool.eq_false_of_not_eq_true filter
    split
    · next sort =>
      -- the window itself, in the order of the query
      rw [answerOrdinals, if_pos (.inl sort), foundOrdinals_of_no_filter filter, keyed,
        collectOrderedRange_eq]
    · next sort =>
      cases limit : q.limit with
      | none => rfl
      | some limit =>
        dsimp only
        split
        · next order =>
          -- the timestamps are in order, and so is the window
          have lt := keyedOrdinals_lt eng q ix
          have pairwise : (arrange q.order (keyedOrdinals eng q ix)).Pairwise (TimestampLe q ix) :=
            arrange_pairwise_timestampLe indexed.offsets (indexed.timestamps order) lt
              (keyedOrdinals_ascending eng q ix)
          rw [answerOrdinals, if_neg, foundOrdinals_of_no_filter filter,
            page_of_arrange pairwise (separates_timestampLe indexed.offsets lt), keyed, limit]
          · exact range'_slice _ _ _ _
          · rintro (h | h)
            · exact sort h
            · have := h.1
              omega
        · rfl

theorem restrictedOrdinals_eq (length : lists.length = q.terms.length + q.exactFields.length)
    (nonempty : lists ≠ []) (h : ListsOf ix.records.length (hasKeys eng q ix.records) lists) :
    restrictedOrdinals q ix (recordRange q ix.records) lists = answerOrdinals eng q ix := by
  have perm := perm_insertionSort (fun left right : HotPostingList =>
    left.cardinality ≤ right.cardinality) lists
  have sorted := h.perm perm
  have length' := perm.length_eq.trans length
  have nonempty' :
      lists.insertionSort (fun left right => left.cardinality ≤ right.cardinality) ≠ [] :=
    fun eq => nonempty (by rwa [eq, nil_perm] at perm)
  unfold restrictedOrdinals
  dsimp only
  generalize lists.insertionSort (fun left right => left.cardinality ≤ right.cardinality) = lists'
    at sorted length' nonempty'
  split
  · next list filter =>
    have one : returnsPosting q := ⟨by simpa using length'.symm, filter⟩
    rw [collectIn_keyed sorted, answerOrdinals, if_pos (.inr one),
      foundOrdinals_of_no_filter filter]
  · next several =>
    rw [collectHotPostingIntersection_keyed sorted nonempty']
    by_cases limited : (!needsRecordFilter q && decide (q.sort = .offset)) = true
    · simp only [limited, if_true]
      rw [Bool.and_eq_true, Bool.not_eq_true', decide_eq_true_eq] at limited
      rw [finishOrdinals_limited limited.2 limited.1, answerOrdinals, if_pos (.inl limited.2),
        foundOrdinals_of_no_filter limited.1]
    · have limited := Bool.eq_false_of_not_eq_true limited
      simp only [limited, Bool.false_eq_true, if_false, upTo_none]
      refine finishOrdinals_keyed indexed ?_
      rintro ⟨-, one, filter⟩
      obtain ⟨list, eq⟩ := length_eq_one_iff.mp (length'.trans one)
      exact several list eq filter

end

end Answer

end ShardTelemetry.Stripe
