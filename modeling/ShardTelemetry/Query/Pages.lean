import ShardTelemetry.Query.LogQuery

/-!
# Cursor pagination

A query with a limit is asked again and again, each time after the last record of the page before,
until a page is short.  The cursor of a record stands exactly before the records that come after it
in the order of the query, so the pages are the unlimited answer, cut.
-/

namespace ShardTelemetry.Query.LogQuery

open List StructuralRecordView

variable {R : Type} [StructuralRecordView R] {query : LogQuery} {records : List R}

def cursorFor (_ : LogQuery) (record : R) : QueryCursor :=
  ⟨timestampUnixNanos record, offset record⟩

/-- The pages up to the first short one, in at most so many turns. -/
def pages (engine : TextEngine) (limit : Nat) (records : List R) (query : LogQuery) :
    Nat → List (List R)
  | 0 => []
  | turns + 1 =>
    let page := (query.withLimit limit).select engine records
    if page.length < limit then [page]
    else page :: pages engine limit records
      { query with after := page.getLast?.map query.cursorFor } turns

/-- The query without its limit. -/
def unlimited (query : LogQuery) : LogQuery := { query with limit := none }

/-- The cursor lets through what does not come before it. -/
theorem cursorMatches_iff {record : R} : query.cursorMatches record = true ↔ ∀ cursor ∈ query.after,
    ¬ query.Precedes (query.sortKey (timestampUnixNanos record) (offset record))
      (query.sortKey cursor.timestampUnixNanos cursor.offset) := by
  unfold cursorMatches Precedes
  rw [Option.all_eq_true]
  refine forall₂_congr fun cursor _ => ?_
  cases query.order with
  | oldestFirst => exact decide_eq_true_iff.trans not_le.symm
  | newestFirst => exact decide_eq_true_iff.trans not_le.symm

/-- The query after a record that it matches goes on with the records that come after it. -/
theorem matchesRecord_cursorFor {last : R} (h : query.matchesRecord engine last = true)
    (record : R) :
    matchesRecord engine { query with after := some (query.cursorFor last) } record = true ↔
      query.matchesRecord engine record = true ∧ ¬ query.Le record last := by
  have next : cursorMatches { query with after := some (query.cursorFor last) } record = true ↔
      ¬ query.Le record last := by
    rw [cursorMatches_iff]
    simp only [Option.mem_some_iff, forall_eq']
    rfl
  simp only [matchesRecord, Bool.and_eq_true] at h ⊢
  have later : ¬ query.Le record last → query.cursorMatches record = true := by
    intro after
    refine cursorMatches_iff.mpr fun cursor mem before => after ?_
    exact precedes_trans before
      ((precedes_total _ _).resolve_left (cursorMatches_iff.mp h.1.1.1.2 cursor mem))
  rw [next]
  constructor
  · rintro ⟨⟨⟨⟨bounds, after⟩, terms⟩, fields⟩, pred⟩
    exact ⟨⟨⟨⟨⟨bounds, later after⟩, terms⟩, fields⟩, pred⟩, after⟩
  · rintro ⟨⟨⟨⟨⟨bounds, -⟩, terms⟩, fields⟩, pred⟩, after⟩
    exact ⟨⟨⟨⟨bounds, after⟩, terms⟩, fields⟩, pred⟩

/-- The next page is from what the answer has after this one. -/
theorem select_cursorFor {limit : Nat} (distinct : (records.map offset).Nodup)
    (hlast : ((query.unlimited.select engine records).take limit).getLast? = some last) :
    (unlimited { query with after := some (query.cursorFor last) }).select engine records =
      (query.unlimited.select engine records).drop limit := by
  have known : query.matchesRecord engine last = true := by
    have mem := mem_of_mem_take (mem_of_getLast? hlast)
    exact (mem_filter.mp (Page.mem_of_mem_page mem)).2
  have separates : Page.Separates query.Le (records.filter (query.matchesRecord engine)) :=
    (LogQuery.separates distinct).subset (filter_subset_self _)
  have untied : (query.unlimited.select engine records).Pairwise fun left right =>
      ¬ query.Le right left := by
    have sorted := pairwise_insertionSort query.Le (records.filter (query.matchesRecord engine))
    have nodup := (perm_insertionSort query.Le _).nodup_iff.mpr
      ((Nodup.of_map offset distinct).filter (query.matchesRecord engine))
    refine (sorted.and nodup).imp_of_mem fun hleft hright ⟨le, ne⟩ ge => ne ?_
    exact separates _ ((mem_insertionSort _).mp hleft) _ ((mem_insertionSort _).mp hright) le ge
  have rest :
      records.filter (matchesRecord engine { query with after := some (query.cursorFor last) }) =
      (records.filter (query.matchesRecord engine)).filter fun record =>
        ¬ query.Le record last := by
    rw [filter_filter]
    refine filter_congr fun record _ => ?_
    rw [Bool.eq_iff_iff, matchesRecord_cursorFor known]
    simp [and_comm]
  rw [← Page.filter_after_take untied hlast]
  exact (congrArg (insertionSort query.Le) rest).trans (Page.insertionSort_filter separates _)

/-- In any order, with any bounds and any limit, the pages are the answer without a limit: every
page but the last one is full, the last one is short, and together they have each record once. -/
theorem pages_enumerate {limit turns : Nat} (distinct : (records.map offset).Nodup)
    (pos : 0 < limit) (enough : (query.unlimited.select engine records).length < turns) :
    ∃ full short, pages engine limit records query turns = full ++ [short] ∧
      (∀ page ∈ full, page.length = limit) ∧ short.length < limit ∧
      (full ++ [short]).flatten = query.unlimited.select engine records := by
  induction turns generalizing query with
  | zero => cases enough
  | succ turns ih =>
    have cut : (query.withLimit limit).select engine records =
      (query.unlimited.select engine records).take limit := rfl
    unfold pages
    dsimp only
    rw [cut]
    split
    · next short =>
      have all : (query.unlimited.select engine records).take limit =
          query.unlimited.select engine records := by
        rw [length_take] at short
        exact take_of_length_le (by omega)
      exact ⟨[], _, rfl, by simp, short, by simp [all]⟩
    · next long =>
      rw [not_lt, length_take] at long
      have some_left : 0 < ((query.unlimited.select engine records).take limit).length := by
        rw [length_take]
        omega
      obtain ⟨last, hlast⟩ :=
        Option.isSome_iff_exists.mp (getLast?_isSome.mpr (ne_nil_of_length_pos some_left))
      have rest := select_cursorFor distinct hlast
      rw [hlast, Option.map_some]
      obtain ⟨full, short, eq, hfull, hshort, all⟩ := ih (by rw [rest, length_drop]; omega)
      refine ⟨_ :: full,
        short, by rw [eq]; rfl, forall_mem_cons.mpr ⟨by rw [length_take]; omega, hfull⟩, hshort, ?_⟩
      rw [cons_append, flatten_cons, all, rest, take_append_drop]

/-- Records with nothing but a timestamp and an offset. -/
instance : StructuralRecordView QueryCursor :=
  ⟨(·.offset), (·.timestampUnixNanos), fun _ => [], fun _ => []⟩

/-- Two records of one moment, newest first, one on a page. -/
theorem pages_enumerate_sample :
    ∃ full short, pages .ascii 1 [⟨5, 1⟩, ⟨5, 2⟩]
      (LogQuery.new ⟨0, 0⟩).sortByTimestamp.newestFirst 3 =
      full ++ [short] ∧ (∀ page ∈ full, page.length = 1) ∧ short.length < 1 ∧
      (full ++ [short]).flatten = [QueryCursor.mk 5 2, ⟨5, 1⟩] :=
  pages_enumerate (by decide) (by decide) (by decide)

end ShardTelemetry.Query.LogQuery
