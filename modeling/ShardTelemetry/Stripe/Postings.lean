import ShardTelemetry.Query.LogQuery

/-!
# Hot posting lists

A posting list holds the ordinals of the records that have a term or a field, in runs of consecutive
ordinals.  It only grows at its end.  `HotPostingList.ordinals` is what it stands for, and every
operation has one lemma in terms of them.

The code searches the runs with the binary searches of the standard library.  They are modelled by
what they return on a sorted slice: `partition_point` by the number of leading runs that satisfy the
predicate, and `binary_search_by` by whether there is a run it looks for.
-/

namespace ShardTelemetry.Stripe

open Query Page List Bool

structure OrdinalRun where
  first : Nat
  last : Nat
  deriving DecidableEq

structure HotPostingList where
  runs : List OrdinalRun
  cardinality : Nat
  deriving DecidableEq

/-- `first..=last` -/
def ordinalsBetween (first last : Nat) : List Nat := range' first (last + 1 - first)

/-- The given order of what is listed from the lowest. -/
def arrange {α : Type} : QueryOrder → List α → List α
  | .oldestFirst, l => l
  | .newestFirst, l => l.reverse

namespace HotPostingList

def empty : HotPostingList := ⟨[], 0⟩

def pushRange (list : HotPostingList) (first finalOrdinal : Nat) : HotPostingList :=
  let added := finalOrdinal - first + 1
  match list.runs.getLast? with
  | some lastRun =>
    if lastRun.last + 1 = first then
      ⟨list.runs.dropLast ++ [⟨lastRun.first, finalOrdinal⟩], list.cardinality + added⟩
    else ⟨list.runs ++ [⟨first, finalOrdinal⟩], list.cardinality + added⟩
  | none => ⟨list.runs ++ [⟨first, finalOrdinal⟩], list.cardinality + added⟩

def isEmptyIn (list : HotPostingList) (start finish : Nat) : Bool :=
  !list.runs.any fun run => start ≤ run.last && run.first < finish

def contains (list : HotPostingList) (ordinal : Nat) : Bool :=
  list.runs.any fun run => run.first ≤ ordinal && ordinal ≤ run.last

def runRange (list : HotPostingList) (start finish : Nat) : Nat × Nat :=
  let first := (list.runs.takeWhile (·.last < start)).length
  let finish := (list.runs.takeWhile (·.first < finish)).length
  (min first finish, finish)

/-- The ordinals of a run between the bounds. -/
def clip (start finish : Nat) (run : OrdinalRun) : List Nat :=
  ordinalsBetween (max run.first start) (min run.last (finish - 1))

/-- The loop over the runs in `collect_in`. -/
def collectRuns (limit : Option Nat) (pick : OrdinalRun → List Nat) :
    List Nat → List OrdinalRun → List Nat
  | ordinals, [] => ordinals
  | ordinals, run :: runs =>
    if limit = some ordinals.length then ordinals
    else collectRuns limit pick (ordinals ++ upTo (limit.map (· - ordinals.length)) (pick run)) runs

def collectIn (list : HotPostingList) (start finish : Nat) (order : QueryOrder)
    (limit : Option Nat) : List Nat :=
  if finish ≤ start then []
  else
    let range := list.runRange start finish
    let runs := (list.runs.take range.2).drop range.1
    match order with
    | .oldestFirst => collectRuns limit (clip start finish) [] runs
    | .newestFirst => collectRuns limit (fun run => (clip start finish run).reverse) [] runs.reverse

/-- The ordinals that `visit_in` visits, in the order of its visits, if nothing stops it. -/
def visitIn (list : HotPostingList) (start finish : Nat) (order : QueryOrder) : List Nat :=
  if finish ≤ start then []
  else
    let range := list.runRange start finish
    let runs := (list.runs.take range.2).drop range.1
    match order with
    | .oldestFirst => runs.flatMap (clip start finish)
    | .newestFirst => runs.reverse.flatMap fun run => (clip start finish run).reverse

end HotPostingList

/-- The visits of `collect_hot_posting_intersection`, which end when enough ordinals were found. -/
def intersectionVisits (limit : Option Nat) (accepts : Nat → Bool) : List Nat → List Nat → List Nat
  | ordinals, [] => ordinals
  | ordinals, ordinal :: visits =>
    let ordinals := if accepts ordinal then ordinals ++ [ordinal] else ordinals
    if limit.all (ordinals.length < ·) then intersectionVisits limit accepts ordinals visits
    else ordinals

def collectHotPostingIntersection (postings : List HotPostingList) (start finish : Nat)
    (order : QueryOrder) (limit : Option Nat) : List Nat :=
  match postings with
  | [] => []
  | first :: others =>
    if limit = some 0 then []
    else intersectionVisits limit (fun ordinal => others.all (·.contains ordinal)) []
      (first.visitIn start finish order)

/-! ## What a posting list stands for -/

theorem mem_ordinalsBetween : ord ∈ ordinalsBetween first last ↔ first ≤ ord ∧ ord ≤ last := by
  rw [ordinalsBetween, mem_range'_1]
  omega

theorem ordinalsBetween_append (hfirst : first ≤ middle + 1) (hlast : middle ≤ last) :
    ordinalsBetween first middle ++ ordinalsBetween (middle + 1) last =
      ordinalsBetween first last := by
  unfold ordinalsBetween
  have hstart : middle + 1 = first + (middle + 1 - first) := by omega
  have hcount : last + 1 - first = (middle + 1 - first) + (last + 1 - (middle + 1)) := by omega
  conv_lhs => arg 2; rw [hstart]
  rw [range'_append_1]
  congr 2
  omega

theorem pairwise_ordinalsBetween (first last) : (ordinalsBetween first last).Pairwise (· < ·) :=
  pairwise_lt_range'

namespace HotPostingList

/-- The ordinals in the list. -/
def ordinals (list : HotPostingList) : List Nat :=
  list.runs.flatMap fun run => ordinalsBetween run.first run.last

/-- The runs are not empty and follow one another. -/
structure Ok (list : HotPostingList) : Prop where
  nonempty : ∀ run ∈ list.runs, run.first ≤ run.last
  sorted : list.runs.Pairwise fun run later => run.last < later.first

theorem empty_ok : empty.Ok := ⟨nofun, .nil⟩

variable {list : HotPostingList}

theorem mem_ordinals :
    ord ∈ list.ordinals ↔ ∃ run ∈ list.runs, run.first ≤ ord ∧ ord ≤ run.last := by
  simp only [ordinals, mem_flatMap, mem_ordinalsBetween]

theorem contains_iff : list.contains ord = true ↔ ord ∈ list.ordinals := by
  simp only [contains, any_eq_true, and_eq_true, decide_eq_true_eq, mem_ordinals]

/-- Ordinals after all that are there are added at the end. -/
theorem Ok.pushRange (h : list.Ok) (hrange : first ≤ last)
    (hafter : ∀ ord ∈ list.ordinals, ord < first) : (list.pushRange first last).Ok ∧
      (list.pushRange first last).ordinals = list.ordinals ++ ordinalsBetween first last := by
  have hbefore : ∀ run ∈ list.runs, run.last < first := fun run hrun =>
    hafter run.last (mem_ordinals.mpr ⟨run, hrun, h.nonempty run hrun, le_rfl⟩)
  have happended :
      HotPostingList.Ok ⟨list.runs ++ [⟨first, last⟩], list.cardinality + (last - first + 1)⟩ ∧
      HotPostingList.ordinals ⟨list.runs ++ [⟨first, last⟩],
        list.cardinality + (last - first + 1)⟩ = list.ordinals ++ ordinalsBetween first last := by
    refine ⟨⟨?_, ?_⟩, ?_⟩
    · intro run hrun
      rcases mem_append.mp hrun with hrun | hrun
      · exact h.nonempty run hrun
      · obtain rfl := mem_singleton.mp hrun
        exact hrange
    · rw [pairwise_append]
      refine ⟨h.sorted, pairwise_singleton _ _, fun run hrun later hlater => ?_⟩
      obtain rfl := mem_singleton.mp hlater
      exact hbefore run hrun
    · simp [ordinals]
  unfold HotPostingList.pushRange
  split
  · rename_i lastRun hlast
    split
    · rename_i hadjacent
      -- the last run is extended
      obtain ⟨runs, hruns⟩ := getLast?_eq_some_iff.mp hlast
      have hok := h
      obtain ⟨hnonempty, hsort⟩ := hok
      rw [hruns] at hnonempty hsort
      have hrun := hnonempty lastRun (by simp)
      rw [pairwise_append] at hsort
      refine ⟨⟨?_, ?_⟩, ?_⟩
      · intro run hmem
        simp only [hruns, dropLast_concat, mem_append, mem_singleton] at hmem
        rcases hmem with hmem | rfl
        · exact hnonempty run (by simp [hmem])
        · show lastRun.first ≤ last
          omega
      · simp only [hruns, dropLast_concat]
        rw [pairwise_append]
        refine ⟨hsort.1, pairwise_singleton _ _, fun run hmem later hlater => ?_⟩
        obtain rfl := mem_singleton.mp hlater
        exact hsort.2.2 run hmem lastRun (by simp)
      · simp only [ordinals, hruns, dropLast_concat, flatMap_append, flatMap_singleton,
          append_assoc]
        rw [← hadjacent, ordinalsBetween_append (by omega) (by omega)]
    · exact happended
  · exact happended

/-! ## Reading -/

/-- The ordinals between the bounds. -/
def ordinalsIn (list : HotPostingList) (start finish : Nat) : List Nat :=
  list.ordinals.filter fun ordinal => start ≤ ordinal && ordinal < finish

theorem mem_ordinalsIn :
    ord ∈ list.ordinalsIn start finish ↔ ord ∈ list.ordinals ∧ start ≤ ord ∧ ord < finish := by
  simp only [ordinalsIn, mem_filter, and_eq_true, decide_eq_true_eq]

theorem ordinalsIn_of_isEmptyIn (h : list.isEmptyIn start finish = true) :
    list.ordinalsIn start finish = [] := by
  rw [eq_nil_iff_forall_not_mem]
  intro ord hmem
  obtain ⟨hordinal, hstart, hfinish⟩ := mem_ordinalsIn.mp hmem
  obtain ⟨run, hrun, hfirst, hlast⟩ := mem_ordinals.mp hordinal
  simp only [isEmptyIn, not_eq_true', any_eq_false, and_eq_true, decide_eq_true_eq] at h
  exact h run hrun ⟨by omega, by omega⟩

/-- A run that reaches into the bounds contributes what is between them. -/
theorem clip_eq_filter (hfinish : run.first < finish) : clip start finish run =
      (ordinalsBetween run.first run.last).filter fun ord => start ≤ ord && ord < finish := by
  refine Perm.eq_of_pairwise ?_ (pairwise_ordinalsBetween _ _)
    ((pairwise_ordinalsBetween _ _).filter _) ?_
  · omega
  · refine (perm_ext_iff_of_nodup (pairwise_ordinalsBetween _ _).nodup
      ((pairwise_ordinalsBetween _ _).filter _).nodup).mpr fun ord => ?_
    simp only [mem_ordinalsBetween, mem_filter, and_eq_true, decide_eq_true_eq]
    omega

/-- What stops once stays stopped, so that taking while and filtering agree. -/
theorem takeWhile_eq_filter {runs : List α}
    (h : runs.Pairwise fun run later => p later = true → p run = true) :
    runs.takeWhile p = runs.filter p := by
  induction runs with
  | nil => rfl
  | cons run runs ih =>
    rw [pairwise_cons] at h
    cases hrun : p run with
    | true => rw [takeWhile_cons_of_pos hrun, filter_cons_of_pos hrun, ih h.2]
    | false =>
      rw [takeWhile_cons_of_neg (by simp [hrun]), filter_cons_of_neg (by simp [hrun])]
      symm
      rw [filter_eq_nil_iff]
      intro later hlater hp
      rw [h.1 later hlater hp] at hrun
      cases hrun

/-- The slice of runs that the searches select are the runs that reach into the bounds. -/
theorem slice_eq_filter (h : list.Ok) (hbounds : start < finish) :
    (list.runs.take (list.runRange start finish).2).drop (list.runRange start finish).1 =
      list.runs.filter fun run => start ≤ run.last && run.first < finish := by
  obtain ⟨hnonempty, hsort⟩ := h
  simp only [runRange]
  generalize list.runs = runs at *
  induction runs with
  | nil => rfl
  | cons run runs ih =>
    rw [pairwise_cons] at hsort
    have hrun := hnonempty run mem_cons_self
    by_cases hbefore : run.last < start
    · -- the run is before the bounds on both sides
      have hfirst : run.first < finish := by omega
      rw [takeWhile_cons_of_pos (by simpa using hbefore),
        takeWhile_cons_of_pos (by simpa using hfirst),
        filter_cons_of_neg (by simp; omega)]
      simp only [length_cons, take_succ_cons]
      rw [Nat.add_min_add_right, drop_succ_cons]
      exact ih (forall_mem_cons.mp hnonempty).2 hsort.2
    · -- from here on no run is before the bounds
      have hlater : ∀ later ∈ run :: runs, start ≤ later.last := by
        intro later hmem
        rcases mem_cons.mp hmem with rfl | hmem
        · omega
        · have := hsort.1 later hmem
          have := hnonempty later (.tail _ hmem)
          omega
      rw [takeWhile_cons_of_neg (by simpa using hbefore), length_nil, Nat.zero_min, drop_zero]
      have htake : (run :: runs).take ((run :: runs).takeWhile (·.first < finish)).length =
          (run :: runs).takeWhile (·.first < finish) :=
        (prefix_iff_eq_take.mp (List.takeWhile_prefix _)).symm
      rw [htake, takeWhile_eq_filter]
      · refine filter_congr fun later hmem => ?_
        simp [hlater later hmem]
      · rw [pairwise_cons]
        refine ⟨fun later hmem hp => ?_, hsort.2.imp_of_mem ?_⟩
        · have := hsort.1 later hmem
          have hp := of_decide_eq_true hp
          exact decide_eq_true (by omega)
        · intro first later hmem _ hlt hp
          have := hnonempty first (.tail _ hmem)
          have hp := of_decide_eq_true hp
          exact decide_eq_true (by omega)

theorem flatMap_slice (h : list.Ok) (hbounds : start < finish) :
    ((list.runs.take (list.runRange start finish).2).drop (list.runRange start finish).1).flatMap
      (clip start finish) = list.ordinalsIn start finish := by
  rw [slice_eq_filter h hbounds, ordinalsIn, ordinals]
  induction list.runs with
  | nil => rfl
  | cons run runs ih =>
    rw [flatMap_cons, filter_append, ← ih]
    by_cases hreaches : start ≤ run.last ∧ run.first < finish
    · rw [filter_cons_of_pos (by simpa using hreaches), flatMap_cons, clip_eq_filter hreaches.2]
    · rw [filter_cons_of_neg (by simpa using hreaches)]
      have hnone : (ordinalsBetween run.first run.last).filter
          (fun ord => start ≤ ord && ord < finish) = [] := by
        rw [filter_eq_nil_iff]
        intro ord hordinal hin
        rw [mem_ordinalsBetween] at hordinal
        simp only [and_eq_true, decide_eq_true_eq] at hin
        omega
      rw [hnone, nil_append]

/-- `visit_in` visits the ordinals between the bounds. -/
theorem visitIn_eq (h : list.Ok) (start finish : Nat) (order : QueryOrder) :
    list.visitIn start finish order = arrange order (list.ordinalsIn start finish) := by
  unfold visitIn
  split
  · rename_i hbounds
    have hnone : list.ordinalsIn start finish = [] := by
      rw [eq_nil_iff_forall_not_mem]
      intro ord hmem
      have := mem_ordinalsIn.mp hmem
      omega
    rw [hnone]
    cases order <;> rfl
  · rename_i hbounds
    have hslice := flatMap_slice h (Nat.lt_of_not_le hbounds)
    cases order with
    | oldestFirst => exact hslice
    | newestFirst =>
      simp only [arrange]
      rw [← hslice, reverse_flatMap]
      rfl

theorem collectRuns_eq (limit) (pick) (ordinals) (runs)
    (h : limit.all (ordinals.length ≤ ·) = true) :
    collectRuns limit pick ordinals runs = upTo limit (ordinals ++ runs.flatMap pick) := by
  induction runs generalizing ordinals with
  | nil =>
    rw [collectRuns, flatMap_nil, append_nil]
    cases limit with
    | none => rfl
    | some n => exact (take_of_length_le (by simpa using h)).symm
  | cons run runs ih =>
    rw [collectRuns]
    cases limit with
    | none =>
      rw [if_neg (by simp), ih _ rfl]
      simp
    | some n =>
      have hn : ordinals.length ≤ n := by simpa using h
      split
      · rename_i hfull
        have hfull : n = ordinals.length := Option.some.inj hfull
        rw [upTo_some, hfull, take_left']
        rfl
      · rename_i hfull
        have hlen : (ordinals ++ (pick run).take (n - ordinals.length)).length ≤ n := by
          rw [length_append, length_take]
          omega
        rw [Option.map_some, upTo_some, ih _ (by simpa using hlen)]
        have hrest : n - ordinals.length - min (n - ordinals.length) (pick run).length =
            n - ordinals.length - (pick run).length := by omega
        simp only [upTo_some, flatMap_cons, append_assoc, take_append, take_take,
          length_take, Nat.min_self, hrest]

/-- `collect_in` collects what `visit_in` visits, up to the limit. -/
theorem collectIn_eq (h : list.Ok) (start finish) (order) (limit) :
    list.collectIn start finish order limit =
      upTo limit (arrange order (list.ordinalsIn start finish)) := by
  rw [← visitIn_eq h]
  unfold collectIn visitIn
  split
  · cases limit <;> simp
  · cases order with
    | oldestFirst =>
      simp only
      rw [collectRuns_eq _ _ _ _ (by cases limit <;> simp), nil_append]
    | newestFirst =>
      simp only
      rw [collectRuns_eq _ _ _ _ (by cases limit <;> simp), nil_append]

end HotPostingList

theorem intersectionVisits_eq (limit) (accepts) (ordinals visits)
    (h : limit.all (ordinals.length < ·) = true) :
    intersectionVisits limit accepts ordinals visits =
      upTo limit (ordinals ++ visits.filter accepts) := by
  induction visits generalizing ordinals with
  | nil =>
    rw [intersectionVisits, filter_nil, append_nil]
    cases limit with
    | none => rfl
    | some n =>
      have hn : ordinals.length < n := by simpa using h
      exact (take_of_length_le hn.le).symm
  | cons ord visits ih =>
    rw [intersectionVisits]
    cases hacc : accepts ord with
    | false =>
      simp only [false_eq_true, if_false]
      rw [if_pos h, ih _ h, filter_cons_of_neg (by simp [hacc])]
    | true =>
      simp only [if_true]
      rw [filter_cons_of_pos hacc]
      split
      · rename_i hroom
        rw [ih _ hroom, append_assoc, singleton_append]
      · rename_i hfull
        cases limit with
        | none => exact absurd rfl hfull
        | some n =>
          have hn : ordinals.length < n := by simpa using h
          have hlen : (ordinals ++ [ord]).length = n := by
            simp only [Option.all_some, decide_eq_true_eq, length_append, length_singleton, not_lt]
              at hfull ⊢
            omega
          have hcons : ordinals ++ ord :: visits.filter accepts =
              (ordinals ++ [ord]) ++ visits.filter accepts := by simp
          rw [upTo_some, hcons, take_left' hlen]

/-- The intersection keeps what the first list visits and all others contain. -/
theorem collectHotPostingIntersection_eq (h : first.Ok) (start finish) (order) (limit) :
    collectHotPostingIntersection (first :: others) start finish order limit =
      upTo limit (arrange order ((first.ordinalsIn start finish).filter fun ord =>
        others.all (·.contains ord))) := by
  have hfilter : ∀ (accepts : Nat → Bool) (ordinals : List Nat),
      (arrange order ordinals).filter accepts = arrange order (ordinals.filter accepts) := by
    intro accepts ordinals
    cases order with
    | oldestFirst => rfl
    | newestFirst => exact filter_reverse
  rw [collectHotPostingIntersection]
  split
  · rename_i hzero
    rw [hzero, upTo_some, take_zero]
  · rename_i hzero
    rw [intersectionVisits_eq, nil_append, HotPostingList.visitIn_eq h, hfilter]
    cases limit with
    | none => rfl
    | some n =>
      have : n ≠ 0 := fun hn => hzero (by rw [hn])
      simpa using Nat.pos_of_ne_zero this

end ShardTelemetry.Stripe
