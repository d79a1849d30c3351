import Mathlib.Algebra.BigOperators.Group.List.Basic
import Mathlib.Data.List.TakeWhile
import ShardTelemetry.Lib.Latest
import ShardTelemetry.Usage.Crash

/-!
# What the usage ledger counts

The counters of a ledger are sums over the calls that it accepted, and its months are the latest
ones of the calls that recorded something.  A call that records nothing is accepted without a look
at its month.
-/

namespace ShardTelemetry.Usage

open List EmbeddedUsageLedger PersistedMonth

variable {lib : Libraries} {ledger : EmbeddedUsageLedger}

/-! ## Sums over calls -/

/-- What a call adds to a feature. -/
def Call.increment (call : Call) (featureId : FeatureId) : Nat :=
  ((call.featureIncrements.filter (·.1 = featureId)).map (·.2)).sum

/-- What a call adds for features outside the registry. -/
def Call.unknown (ledger : EmbeddedUsageLedger) (call : Call) : Nat :=
  ((call.featureIncrements.filter (·.1 ∉ ledger.featureIds)).map (·.2)).sum

/-- The call records nothing. -/
def Call.isEmpty (call : Call) : Bool :=
  call.activeSeconds = 0 && call.featureIncrements.all (·.2 = 0)

/-- The calendar month of a call. -/
def Call.month (lib : Libraries) (call : Call) : Option Nat :=
  (calendarMonthIndex lib call.timestampUnixSeconds).toOption

/-- The sums of calls, as a bucket. -/
def bucket (ledger : EmbeddedUsageLedger) (monthIndex : Nat) (calls : List Call) :
    PersistedMonth where
  monthIndex := monthIndex
  featureCounts := ledger.featureIds.map fun id => (calls.map (·.increment id)).sum
  activeSeconds := (calls.map (·.activeSeconds)).sum
  overflowFeatureEvents := (calls.map (·.unknown ledger)).sum

/-- The state accounts for the calls: the totals are their sums, the months are the latest ones, and
each month has the sums of its own calls. -/
structure Accounts (lib : Libraries) (ledger : EmbeddedUsageLedger) (calls : List Call)
    (state : PersistedState) : Prop where
  featureCounts : state.featureCounts = (bucket ledger 0 calls).featureCounts
  activeSeconds : state.activeSeconds = (bucket ledger 0 calls).activeSeconds
  overflowFeatureEvents :
    state.overflowFeatureEvents = (bucket ledger 0 calls).overflowFeatureEvents
  latest :
    Latest ledger.monthlyBuckets (calls.filterMap (·.month lib)) (state.months.map (·.monthIndex))
  months : ∀ month ∈ state.months, month = bucket ledger month.monthIndex
    (calls.filter (·.month lib = some month.monthIndex))

/-! ## Staging -/

/-- What makes sums by feature and sums by place the same. -/
structure EmbeddedUsageLedger.Registered (ledger : EmbeddedUsageLedger) : Prop where
  nodup : ledger.featureIds.Nodup
  short : ∀ id ∈ ledger.featureIds, id.length ≤ maxFeatureIdBytes

theorem addCounter_eq_ok (h : addCounter left right = .ok total) :
    total = left + right := (checkedAdd_eq_some.mp (orElse_eq_ok.mp h)).1

/-- The increments of a registry after one more. -/
theorem map_set_of_idxOf {featureIds : List FeatureId} (nodup : featureIds.Nodup) {id : FeatureId}
    (found : featureIds.idxOf? id = some ix) (counts) (amount) :
    (featureIds.map counts).set ix ((featureIds.map counts).getD ix 0 + amount) =
      featureIds.map fun other => counts other + if other = id then amount else 0 := by
  obtain ⟨lt, same, -⟩ := findIdx?_eq_some_iff_getElem.mp found
  have same : featureIds[ix] = id := eq_of_beq same
  apply ext_getElem?
  intro i
  rw [getElem?_set, getElem?_map, getElem?_map]
  by_cases here : ix = i
  · subst here
    simp [lt, same]
  · rw [if_neg here]
    cases at' : featureIds[i]? with
    | none => rfl
    | some other =>
      have ne : other ≠ id := by
        rintro rfl
        obtain ⟨lt', same'⟩ := List.getElem?_eq_some_iff.mp at'
        exact here ((nodup.getElem_inj_iff).mp (same.trans same'.symm))
      rw [Option.map_some, Option.map_some, if_neg ne]
      rfl

theorem nodup_of_neighbours {l : List FeatureId} (sorted : l.Pairwise (· ≤ ·))
    (distinct : ∀ pair ∈ l.zip l.tail, pair.1 ≠ pair.2) : l.Nodup := by
  induction l with
  | nil => exact .nil
  | cons a l ih =>
    obtain ⟨first, sorted⟩ := pairwise_cons.mp sorted
    cases l with
    | nil => exact nodup_singleton a
    | cons b l =>
      rw [tail_cons, zip_cons_cons, forall_mem_cons] at distinct
      refine nodup_cons.mpr ⟨fun mem => ?_, ih sorted distinct.2⟩
      obtain rfl | later := mem_cons.mp mem
      · exact distinct.1 rfl
      · exact distinct.1 (List.le_antisymm (first b mem_cons_self)
          ((pairwise_cons.mp sorted).1 a later))

theorem EmbeddedUsageLedger.registered_of_new {conf : EmbeddedUsageLedgerConfig}
    (h : new lib conf = .ok ledger) : ledger.Registered := by
  obtain ⟨normal, normalized, h⟩ := andThen_eq_ok.mp h
  obtain ⟨_, -, h⟩ := andThen_eq_ok.mp h
  cases h
  unfold EmbeddedUsageLedgerConfig.normalized at normalized
  simp only [andThen_eq_ok, check_eq_ok, decide_eq_true_eq, all_eq_true, Bool.and_eq_true]
    at normalized
  obtain ⟨-, -, -, -, -, -, -, -, -, short, -, distinct, normalized⟩ := normalized
  cases normalized
  have : IsTrans FeatureId fun a b => a ≤ b := ⟨fun _ _ _ => List.le_trans⟩
  constructor
  · exact nodup_of_neighbours (pairwise_insertionSort (· ≤ ·) _) distinct
  · intro id mem
    exact (short id ((mem_insertionSort _).mp mem)).2

variable {staged : Staged} {α : Type} {state : PersistedState} {calls : List Call}
  {inner : LedgerInner}

/-- The sums by feature and the sum of the unknown ones that are staged. -/
def Staged.Sums (ledger : EmbeddedUsageLedger) (counts : FeatureId → Nat) (unknown : Nat)
    (staged : Staged) : Prop :=
  staged.increments = ledger.featureIds.map counts ∧ staged.overflowed = unknown

section

variable (reg : ledger.Registered) (sums : staged.Sums ledger counts unknown)
include reg sums

/-- One update counts for its feature, or as unknown. -/
theorem stageUpdate_spec {update : FeatureId × Nat}
    (h : stageUpdate ledger staged update = .ok staged') :
    staged'.Sums ledger (fun id => counts id + if id = update.1 then update.2 else 0)
      (unknown + if update.1 ∈ ledger.featureIds then 0 else update.2) := by
  obtain ⟨shape, rfl⟩ := sums
  -- an update outside of the registry
  have unknown {overflowed} (missing : update.1 ∉ ledger.featureIds)
      (added : addCounter staged.overflowed update.2 = .ok overflowed) :
      Staged.Sums ledger (fun id => counts id + if id = update.1 then update.2 else 0)
        (staged.overflowed + if update.1 ∈ ledger.featureIds then 0 else update.2)
          { staged with overflowed } := by
    rw [if_neg missing]
    refine ⟨?_, addCounter_eq_ok added⟩
    rw [shape]
    apply map_congr_left
    intro id mem
    have other : id ≠ update.1 := fun same => missing (same ▸ mem)
    rw [if_neg other, Nat.add_zero]
  unfold stageUpdate at h
  split at h
  · next zero =>
    cases h
    rw [zero]
    simpa using ⟨shape, rfl⟩
  split at h
  · next long =>
    split at h
    · cases h
    · obtain ⟨overflowed, added, h⟩ := andThen_eq_ok.mp h
      cases h
      exact unknown (fun mem => absurd (reg.short _ mem) (by omega)) added
  split at h
  · next ix found =>
    obtain ⟨increment, added, h⟩ := andThen_eq_ok.mp h
    cases h
    have mem : update.1 ∈ ledger.featureIds := by
      obtain ⟨lt, same, -⟩ := findIdx?_eq_some_iff_getElem.mp found
      exact eq_of_beq same ▸ getElem_mem lt
    rw [if_pos mem, addCounter_eq_ok added, shape]
    exact ⟨map_set_of_idxOf reg.nodup found counts update.2, rfl⟩
  · next missing =>
    split at h
    · cases h
    · obtain ⟨overflowed, added, h⟩ := andThen_eq_ok.mp h
      cases h
      refine unknown (fun mem => ?_) added
      have none := findIdx?_eq_none_iff.mp missing _ mem
      simp at none

/-- A staged batch has the sums of its updates. -/
theorem stageUpdates_spec {count : Nat}
    (h : stageUpdates ledger count staged updates = .ok staged') :
    staged'.Sums ledger (fun id => counts id + ((updates.filter (·.1 = id)).map (·.2)).sum)
      (unknown + ((updates.filter (·.1 ∉ ledger.featureIds)).map (·.2)).sum) := by
  induction updates generalizing count staged counts unknown with
  | nil =>
    cases h
    simpa using sums
  | cons update updates ih =>
    obtain ⟨_, -, h⟩ := andThen_eq_ok.mp h
    obtain ⟨next, first, h⟩ := andThen_eq_ok.mp h
    obtain ⟨incs, overflowed⟩ := ih (stageUpdate_spec reg sums first) h
    constructor
    · rw [incs]
      apply map_congr_left
      intro id _
      by_cases same : id = update.1
      · simp [same, Nat.add_assoc]
      · simp [same, Ne.symm same]
    · rw [overflowed]
      by_cases mem : update.1 ∈ ledger.featureIds
      · simp [mem]
      · simp [mem, Nat.add_assoc]

end

theorem staged_of_call (reg : ledger.Registered) {call : Call}
    (h : stageUpdates ledger 0 ⟨replicate ledger.featureIds.length 0, 0⟩ call.featureIncrements =
      .ok staged) : staged.Sums ledger call.increment (call.unknown ledger) := by
  have start : (Staged.mk (replicate ledger.featureIds.length 0) 0).Sums ledger (fun _ => 0) 0 :=
    ⟨map_const'.symm, rfl⟩
  have sums := stageUpdates_spec reg start h
  simp only [Nat.zero_add] at sums
  exact sums

/-- A batch records nothing if its call does not. -/
theorem isEmpty_of_call {call : Call}
    (sums : staged.Sums ledger call.increment (call.unknown ledger)) :
    staged.isEmpty call.activeSeconds = call.isEmpty := by
  unfold Staged.isEmpty Call.isEmpty
  rw [sums.1, sums.2, Bool.and_assoc]
  congr 1
  rw [Bool.eq_iff_iff]
  simp only [Bool.and_eq_true, decide_eq_true_eq, all_eq_true, mem_map, forall_exists_index,
    and_imp, forall_apply_eq_imp_iff₂]
  unfold Call.unknown Call.increment
  simp only [List.sum_eq_zero_iff_forall_eq_nat, mem_map, mem_filter, decide_eq_true_eq,
    forall_exists_index, and_imp]
  constructor
  · rintro ⟨unknown, known⟩ update mem
    by_cases reg : update.1 ∈ ledger.featureIds
    · exact known update.1 reg update.2 update mem rfl rfl
    · exact unknown update.2 update mem reg rfl
  · intro zero
    constructor
    · rintro _ update mem - rfl
      exact zero update mem
    · rintro _ - _ update mem - rfl
      exact zero update mem

/-! ## Adding a batch -/

/-- A change of the bucket at a place. -/
def atMonth (position : Option Nat) (change : PersistedMonth → PersistedMonth)
    (months : List PersistedMonth) : List PersistedMonth :=
  match position with
  | none => months
  | some position => months.modify position change

theorem modify_append_cons (before after) (a : α) (f) :
    (before ++ a :: after).modify before.length f = before ++ f a :: after := by
  induction before with
  | nil => rfl
  | cons b before ih => exact congrArg (b :: ·) ih

theorem atMonth_atMonth (pos) (f g) (months) :
    atMonth pos g (atMonth pos f months) = atMonth pos (g ∘ f) months := by
  cases pos with
  | none => rfl
  | some pos => exact modify_modify_eq f g pos months

theorem atMonth_id (pos) (months) : atMonth pos id months = months := by
  cases pos with
  | none => rfl
  | some pos => exact modify_id pos months

/-- A counter of the month is increased. -/
theorem onMonth_eq_ok {get : PersistedMonth → Nat} {put : PersistedMonth → Nat → PersistedMonth}
    (h : onMonth pos state (fun month => addCounter (get month) amount >>= fun total =>
      .ok (put month total)) = .ok res) :
    res = { state with
      months := atMonth pos (fun month => put month (get month + amount)) state.months } := by
  cases pos with
  | none =>
    cases h
    rfl
  | some pos =>
    unfold onMonth at h
    dsimp only at h
    show res = { state with months := state.months.modify pos _ }
    rw [modify_eq_set_getElem?]
    split at h
    · next missing =>
      cases h
      rw [missing]
      rfl
    · next month found =>
      obtain ⟨month', changed, h⟩ := andThen_eq_ok.mp h
      obtain ⟨total, added, changed⟩ := andThen_eq_ok.mp changed
      cases changed
      cases h
      rw [found, addCounter_eq_ok added]
      rfl

theorem addActiveSeconds_eq_ok (h : addActiveSeconds pos seconds state = .ok res) :
    res = { state with
      activeSeconds := state.activeSeconds + seconds
      months := atMonth pos
        (fun month => { month with activeSeconds := month.activeSeconds + seconds })
          state.months } := by
  obtain ⟨total, added, h⟩ := andThen_eq_ok.mp h
  rw [← addCounter_eq_ok added]
  exact onMonth_eq_ok h

theorem addOverflow_eq_ok (h : addOverflow pos evs state = .ok res) :
    res = { state with
      overflowFeatureEvents := state.overflowFeatureEvents + evs
      months := atMonth pos
        (fun month => { month with overflowFeatureEvents := month.overflowFeatureEvents + evs })
        state.months } := by
  obtain ⟨total, added, h⟩ := andThen_eq_ok.mp h
  rw [← addCounter_eq_ok added]
  exact onMonth_eq_ok h

/-- An increment, by its amount and its place, added to the counters. -/
def addAt (counts : List Nat) (increment : Nat × Nat) : List Nat :=
  counts.modify increment.2 (· + increment.1)

theorem set_getD_add (counts) (ix amount) :
    counts.set ix (counts.getD ix 0 + amount) = addAt counts (amount, ix) := by
  show _ = counts.modify ix (· + amount)
  rw [modify_eq_set_getElem?]
  cases found : counts[ix]? with
  | none => exact set_eq_of_length_le (getElem?_eq_none_iff.mp found)
  | some count =>
    rw [getD_eq_getElem?_getD, found]
    rfl

theorem addAt_zero (counts) (ix) : addAt counts (0, ix) = counts :=
  modify_id ix counts

theorem addFeature_eq_ok (h : addFeature pos state increment = .ok res) :
    res = { state with
      featureCounts := addAt state.featureCounts increment
      months := atMonth pos
        (fun month => { month with featureCounts := addAt month.featureCounts increment })
        state.months } := by
  obtain ⟨amount, ix⟩ := increment
  unfold addFeature at h
  split at h
  · next zero =>
    cases h
    subst zero
    simp only [addAt_zero]
    exact (congrArg (fun months => { state with months }) (atMonth_id pos state.months)).symm
  · obtain ⟨total, added, h⟩ := andThen_eq_ok.mp h
    rw [← set_getD_add, ← addCounter_eq_ok added]
    simpa only [set_getD_add] using onMonth_eq_ok h

theorem addFeatures_eq_ok {incs : List (Nat × Nat)}
    (h : incs.foldlM (addFeature pos) state = .ok res) : res = { state with
      featureCounts := incs.foldl addAt state.featureCounts
      months := atMonth pos
        (fun month => { month with featureCounts := incs.foldl addAt month.featureCounts })
        state.months } := by
  induction incs generalizing state with
  | nil =>
    cases h
    exact (congrArg (fun months => { res with months }) (atMonth_id pos res.months)).symm
  | cons increment incs ih =>
    obtain ⟨next, first, h⟩ := andThen_eq_ok.mp h
    rw [ih h, addFeature_eq_ok first]
    simp only [atMonth_atMonth]
    rfl

/-- Increments added place by place. -/
theorem foldl_addAt_zipIdx (before counts incs) (length_eq : incs.length = counts.length) :
    (incs.zipIdx before.length).foldl addAt (before ++ counts) = before ++
      zipWith (· + ·) counts incs := by
  induction incs generalizing before counts with
  | nil =>
    rw [eq_nil_of_length_eq_zero length_eq.symm]
    rfl
  | cons increment incs ih =>
    cases counts with
    | nil => cases length_eq
    | cons count counts =>
      rw [zipIdx_cons, foldl_cons]
      have first : addAt (before ++ count :: counts) (increment, before.length) =
          (before ++ [count + increment]) ++ counts := by
        rw [append_assoc]
        exact modify_append_cons before counts count (· + increment)
      have length : before.length + 1 = (before ++ [count + increment]).length := by
        rw [length_append, length_singleton]
      rw [first, length, ih _ _ (Nat.succ.inj length_eq), append_assoc]
      rfl

theorem foldl_addAt_map (ids : List FeatureId) (counts incs : FeatureId → Nat) :
    (ids.map incs).zipIdx.foldl addAt (ids.map counts) = ids.map fun id => counts id + incs id := by
  refine (foldl_addAt_zipIdx [] (ids.map counts) (ids.map incs)
    (by rw [length_map, length_map])).trans ?_
  rw [nil_append, zipWith_map_left, zipWith_map_right, zipWith_self]

/-- A call added to a bucket. -/
def PersistedMonth.add (ledger : EmbeddedUsageLedger) (call : Call) (month : PersistedMonth) :
    PersistedMonth where
  monthIndex := month.monthIndex
  featureCounts := (ledger.featureIds.map call.increment).zipIdx.foldl addAt month.featureCounts
  activeSeconds := month.activeSeconds + call.activeSeconds
  overflowFeatureEvents := month.overflowFeatureEvents + call.unknown ledger

theorem add_bucket (monthIndex : Nat) (calls : List Call) (call : Call) :
    (bucket ledger monthIndex calls).add ledger call =
      bucket ledger monthIndex (calls ++ [call]) := by
  unfold add bucket
  rw [foldl_addAt_map]
  simp only [map_append, sum_append, map_singleton, sum_singleton]

/-- An accepted batch is added to the totals and to the bucket of its month. -/
theorem addStaged_eq_ok {call : Call}
    (sums : staged.Sums ledger call.increment (call.unknown ledger))
    (h : addStaged lib ledger call staged state = .ok res) :
    ∃ monthIndex, (ledger.monthlyBuckets ≠ 0 → call.month lib = some monthIndex) ∧
      res.featureCounts = (ledger.featureIds.map call.increment).zipIdx.foldl addAt
        state.featureCounts ∧
      res.activeSeconds = state.activeSeconds + call.activeSeconds ∧
      res.overflowFeatureEvents = state.overflowFeatureEvents + call.unknown ledger ∧
      res.months = atMonth (prepareMonth ledger state.months monthIndex).2 (·.add ledger call)
        (prepareMonth ledger state.months monthIndex).1 := by
  obtain ⟨monthIndex, month, h⟩ := andThen_eq_ok.mp h
  obtain ⟨active, addedActive, h⟩ := andThen_eq_ok.mp h
  obtain ⟨features, addedFeatures, h⟩ := andThen_eq_ok.mp h
  obtain ⟨overflow, addedOverflow, h⟩ := andThen_eq_ok.mp h
  cases h
  have eqActive := addActiveSeconds_eq_ok addedActive
  have eqFeatures := addFeatures_eq_ok addedFeatures
  have eqOverflow := addOverflow_eq_ok addedOverflow
  subst eqActive
  subst eqFeatures
  subst eqOverflow
  refine ⟨monthIndex, fun some' => ?_, ?_, rfl, ?_, ?_⟩
  · unfold bucketIndex at month
    rw [if_neg some'] at month
    unfold Call.month
    rw [month]
    rfl
  · rw [← sums.1]
  · rw [← sums.2]
  · dsimp only
    rw [atMonth_atMonth, atMonth_atMonth, sums.1, sums.2]
    rfl

/-! ## The window of months -/

theorem insertIdx_append (before after) (a : α) :
    (before ++ after).insertIdx before.length a = before ++ a :: after := by
  induction before with
  | nil => cases after <;> rfl
  | cons b before ih => exact congrArg (b :: ·) ih

theorem bucket_nil (monthIndex) :
    bucket ledger monthIndex [] = empty ledger.featureIds.length monthIndex := by
  unfold bucket empty
  rw [← map_const']
  rfl

/-- The months before and after a place in increasing months. -/
theorem split_months {months : List PersistedMonth}
    (increasing : (months.map (·.monthIndex)).Pairwise (· < ·))
    (monthIndex) : ∃ before after, months = before ++ after ∧
      before = months.takeWhile (·.monthIndex < monthIndex) ∧
      (∀ month ∈ before, month.monthIndex < monthIndex) ∧
        ∀ month ∈ after, monthIndex ≤ month.monthIndex := by
  refine ⟨_, _, takeWhile_append_dropWhile.symm, rfl, ?_, ?_⟩
  · intro month mem
    have least := mem_takeWhile_imp mem
    exact of_decide_eq_true least
  · cases found : months.dropWhile (·.monthIndex < monthIndex) with
    | nil => exact nofun
    | cons first rest =>
      have sorted : ((first :: rest).map (·.monthIndex)).Pairwise (· < ·) :=
        increasing.sublist ((found ▸ dropWhile_sublist _).map _)
      have least : monthIndex ≤ first.monthIndex := by
        have := head?_dropWhile_not (fun month => decide (month.monthIndex < monthIndex)) months
        rw [found] at this
        simpa using this
      intro month mem
      obtain rfl | later := mem_cons.mp mem
      · exact least
      · exact least.trans ((pairwise_cons.mp sorted).1 _ (mem_map_of_mem later)).le

/-- The calls of a month that was not seen. -/
theorem filter_month_eq_nil {monthIndex : Nat}
    (unseen : monthIndex ∉ calls.filterMap (·.month lib)) :
    calls.filter (·.month lib = some monthIndex) = [] := by
  apply filter_eq_nil_iff.mpr
  intro call mem same
  exact unseen (mem_filterMap.mpr ⟨call, mem, of_decide_eq_true same⟩)

/-- The bucket of a month is in its place, with the sums of its calls so far, among the latest
months. -/
def Bucketed (lib : Libraries) (ledger : EmbeddedUsageLedger) (calls : List Call)
    (months : List PersistedMonth) (monthIndex : Nat) (res : List PersistedMonth × Option Nat) :
    Prop :=
  ∃ before after,
    res = (before ++ bucket ledger monthIndex (calls.filter (·.month lib = some monthIndex)) ::
      after, some before.length) ∧
    Latest ledger.monthlyBuckets (calls.filterMap (·.month lib) ++ [monthIndex])
      (before.map (·.monthIndex) ++ monthIndex :: after.map (·.monthIndex)) ∧
    ∀ month ∈ before ++ after, month ∈ months ∧ month.monthIndex ≠ monthIndex

section Buckets

variable {before after : List PersistedMonth} {monthIndex : Nat}

theorem months_ne (lower : ∀ month ∈ before, month.monthIndex < monthIndex)
    (upper : ∀ month ∈ after, monthIndex < month.monthIndex) :
    ∀ month ∈ before ++ after, month.monthIndex ≠ monthIndex := by
  intro month mem
  obtain early | late := mem_append.mp mem
  · exact (lower month early).ne
  · exact (upper month late).ne'

variable (accounts : Accounts lib ledger calls state)
  (lower : ∀ month ∈ before, month.monthIndex < monthIndex)
include accounts

/-- The bucket is there. -/
theorem bucketed_found (lower : ∀ month ∈ before, month.monthIndex < month'.monthIndex)
    (months : state.months = before ++ month' :: after) :
    Bucketed lib ledger calls state.months month'.monthIndex
      (state.months, some before.length) := by
  have latest := accounts.latest
  have sums := accounts.months month' (by rw [months]; simp)
  rw [months, map_append, map_cons] at latest
  refine ⟨before, after, ?_, latest.skip (absurd (by simp)), fun other mem => ?_⟩
  · rw [← sums, months]
  · rw [months]
    obtain ⟨-, later, -⟩ := pairwise_append.mp latest.increasing
    obtain early | late := mem_append.mp mem
    · exact ⟨mem_append_left _ early, (lower other early).ne⟩
    · refine ⟨mem_append_right _ (.tail _ late), ?_⟩
      exact ((pairwise_cons.mp later).1 _ (mem_map_of_mem late)).ne'

/-- If the bucket is not at its place, all months from there on are later. -/
theorem months_later (months : state.months = before ++ after)
    (upper : ∀ month ∈ after, monthIndex ≤ month.monthIndex)
    (missing : ¬ after.head?.any (·.monthIndex = monthIndex) = true) :
    ∀ month ∈ after, monthIndex < month.monthIndex := by
  have latest := accounts.latest
  cases after with
  | nil => exact nofun
  | cons first after =>
    rw [months, map_append] at latest
    obtain ⟨-, later, -⟩ := pairwise_append.mp latest.increasing
    have least : monthIndex < first.monthIndex := by
      refine lt_of_le_of_ne (upper first mem_cons_self) fun same => missing ?_
      exact decide_eq_true same.symm
    intro month mem
    obtain rfl | mem := mem_cons.mp mem
    · exact least
    · exact least.trans ((pairwise_cons.mp later).1 _ (mem_map_of_mem mem))

variable (upper : ∀ month ∈ after, monthIndex < month.monthIndex)
include lower upper

/-- A bucket is added. -/
theorem bucketed_added (months : state.months = before ++ after)
    (room : state.months.length < ledger.monthlyBuckets) :
    Bucketed lib ledger calls state.months monthIndex
      (state.months.insertIdx before.length (empty ledger.featureIds.length monthIndex),
        some before.length) := by
  have latest := accounts.latest
  have apart := months_ne lower upper
  rw [← months] at apart
  have unseen : monthIndex ∉ calls.filterMap (·.month lib) := by
    intro seen
    have full := (latest.rest _ seen fun mem => by
      obtain ⟨month, mem, same⟩ := mem_map.mp mem
      exact apart month mem same).1
    rw [length_map] at full
    omega
  refine ⟨before, after, ?_, ?_, fun month mem => ?_⟩
  · rw [filter_month_eq_nil unseen, bucket_nil, months, insertIdx_append]
  · rw [months, map_append] at latest
    refine latest.insert (forall_mem_map.mpr lower) (forall_mem_map.mpr upper) ?_
    rw [← map_append, ← months, length_map]
    exact room
  · rw [← months] at mem
    exact ⟨mem, apart month mem⟩

/-- The oldest bucket makes room for a later one. -/
theorem bucketed_replaced (months : state.months = first :: (before ++ after))
    (above : first.monthIndex < monthIndex)
    (full : (state.months.map (·.monthIndex)).length = ledger.monthlyBuckets) :
    Bucketed lib ledger calls state.months monthIndex
      (state.months.tail.insertIdx before.length (empty ledger.featureIds.length monthIndex),
        some before.length) := by
  have latest := accounts.latest
  have apart := months_ne lower upper
  have unseen : monthIndex ∉ calls.filterMap (·.month lib) := by
    intro seen
    have below := (latest.rest _ seen fun mem => by
      obtain ⟨month, mem, same⟩ := mem_map.mp mem
      rw [months] at mem
      obtain rfl | mem := mem_cons.mp mem
      · exact above.ne same
      · exact apart month mem same).2 first.monthIndex (mem_map_of_mem (by rw [months]; simp))
    exact absurd above (not_lt_of_gt below)
  rw [months] at latest full ⊢
  simp only [map_cons, map_append] at latest full
  refine ⟨before, after, ?_, latest.replace (forall_mem_map.mpr lower)
    (forall_mem_map.mpr upper) full above, fun month mem => ⟨.tail _ mem, apart month mem⟩⟩
  rw [filter_month_eq_nil unseen, bucket_nil, tail_cons, insertIdx_append]

end Buckets

/-- The bucket of a month is there for its next call, with the sums of its calls so far; or the
month is below a full window. -/
theorem prepareMonth_spec (accounts : Accounts lib ledger calls state)
    (some' : ledger.monthlyBuckets ≠ 0) (monthIndex) :
    Bucketed lib ledger calls state.months monthIndex
      (prepareMonth ledger state.months monthIndex) ∨
      prepareMonth ledger state.months monthIndex = (state.months, none) ∧
        Latest ledger.monthlyBuckets (calls.filterMap (·.month lib) ++ [monthIndex])
          (state.months.map (·.monthIndex)) ∧
            ∀ month ∈ state.months, month.monthIndex ≠ monthIndex := by
  obtain ⟨before, after, months, pos, lower, upper⟩ :=
    split_months accounts.latest.increasing monthIndex
  have latest := accounts.latest
  unfold prepareMonth
  rw [if_neg some', ← pos]
  dsimp only
  have at' : state.months[before.length]? = after.head? := by
    rw [months, getElem?_append_right le_rfl, Nat.sub_self, head?_eq_getElem?]
  rw [at']
  by_cases found : after.head?.any (·.monthIndex = monthIndex) = true
  · rw [if_pos found]
    cases after with
    | nil => cases found
    | cons month after =>
      obtain rfl : month.monthIndex = monthIndex := of_decide_eq_true found
      exact .inl (bucketed_found accounts lower months)
  rw [if_neg found]
  have upper := months_later accounts months upper found
  by_cases room : state.months.length < ledger.monthlyBuckets
  · rw [if_pos room]
    exact .inl (bucketed_added accounts lower upper months room)
  rw [if_neg room]
  have full : (state.months.map (·.monthIndex)).length = ledger.monthlyBuckets := by
    have := latest.length_le
    rw [length_map] at this ⊢
    omega
  cases before with
  | nil =>
    refine .inr ⟨rfl, latest.skip fun _ => ⟨full, ?_⟩, months ▸ months_ne lower upper⟩
    rw [months]
    exact forall_mem_map.mpr upper
  | cons first before =>
    obtain ⟨above, lower⟩ := forall_mem_cons.mp lower
    exact .inl (bucketed_replaced accounts lower upper months above full)

/-! ## One call -/

/-- An accepted batch is accounted for. -/
theorem Accounts.addStaged (accounts : Accounts lib ledger calls state)
    (sums : staged.Sums ledger call.increment (call.unknown ledger))
    (h : addStaged lib ledger call staged state = .ok res) :
    Accounts lib ledger (calls ++ [call]) res := by
  obtain ⟨monthIndex, month, features, active, overflow, months⟩ := addStaged_eq_ok sums h
  have total : (bucket ledger 0 calls).add ledger call = bucket ledger 0 (calls ++ [call]) :=
    add_bucket 0 calls call
  have windows : Latest ledger.monthlyBuckets ((calls ++ [call]).filterMap (·.month lib))
      (res.months.map (·.monthIndex)) ∧ ∀ month ∈ res.months, month = bucket ledger month.monthIndex
        ((calls ++ [call]).filter (·.month lib = some month.monthIndex)) := by
    by_cases zero : ledger.monthlyBuckets = 0
    · -- no months are kept
      have none : state.months = [] := by
        have := accounts.latest.length_le
        rw [length_map, zero] at this
        exact eq_nil_of_length_eq_zero (Nat.le_zero.mp this)
      have none' : res.months = [] := by
        rw [months]
        unfold prepareMonth
        rw [if_pos zero]
        exact none
      rw [none', zero]
      exact ⟨.zero _, nofun⟩
    · have seen : (calls ++ [call]).filterMap (·.month lib) =
          calls.filterMap (·.month lib) ++ [monthIndex] := by
        rw [filterMap_append]
        simp [month zero]
      have here : (calls ++ [call]).filter (·.month lib = some monthIndex) =
          calls.filter (·.month lib = some monthIndex) ++ [call] := by
        rw [filter_append]
        simp [month zero]
      have elsewhere : ∀ month ∈ state.months, month.monthIndex ≠ monthIndex →
          month = bucket ledger month.monthIndex
            ((calls ++ [call]).filter (·.month lib = some month.monthIndex)) := by
        intro other mem ne
        rw [filter_append]
        simpa [month zero, Ne.symm ne] using accounts.months other mem
      rw [seen]
      obtain ⟨before, after, eq, latest, others⟩ | ⟨eq, latest, others⟩ :=
        prepareMonth_spec accounts zero monthIndex
      · rw [eq] at months
        have months : res.months = before ++ bucket ledger monthIndex
            ((calls ++ [call]).filter (·.month lib = some monthIndex)) :: after := by
          rw [months, here, ← add_bucket]
          exact modify_append_cons before after _ _
        rw [months]
        constructor
        · rw [map_append]
          exact latest
        · intro other mem
          obtain rfl | mem := Latest.mem_insert.mp mem
          · rfl
          · exact elsewhere other (others other mem).1 (others other mem).2
      · rw [eq] at months
        have months : res.months = state.months := months
        rw [months]
        exact ⟨latest, fun other mem => elsewhere other mem (others other mem)⟩
  refine ⟨?_, ?_, ?_, windows.1, windows.2⟩
  · rw [features, accounts.featureCounts, ← total]
    rfl
  · rw [active, accounts.activeSeconds, ← total]
    rfl
  · rw [overflow, accounts.overflowFeatureEvents, ← total]
    rfl

/-! ## All calls -/

/-- The calls that record something. -/
def recorded (calls : List Call) : List Call := calls.filter (!·.isEmpty)

theorem sum_recorded (none : ∀ call, call.isEmpty = true → amount call = 0)
    (calls) : ((recorded calls).map amount).sum = (calls.map amount).sum := by
  unfold recorded
  induction calls with
  | nil => rfl
  | cons call calls ih =>
    cases empty : call.isEmpty with
    | false => simp [empty, ih]
    | true => simp [empty, ih, none call empty]

theorem bucket_recorded (monthIndex) (calls) :
    bucket ledger monthIndex (recorded calls) = bucket ledger monthIndex calls := by
  have zeros : ∀ {call : Call}, call.isEmpty = true → ∀ keep : FeatureId × Nat → Bool,
      ((call.featureIncrements.filter keep).map (·.2)).sum = 0 := by
    intro call empty keep
    have all := all_eq_true.mp (Bool.and_eq_true_iff.mp empty).2
    apply List.sum_eq_zero_iff_forall_eq_nat.mpr
    intro amount mem
    obtain ⟨update, held, rfl⟩ := mem_map.mp mem
    exact of_decide_eq_true (all update (mem_filter.mp held).1)
  unfold bucket
  congr 1
  · apply map_congr_left
    intro id _
    exact sum_recorded (fun call empty => zeros empty _) calls
  · exact sum_recorded (fun call empty => of_decide_eq_true (Bool.and_eq_true_iff.mp empty).1) calls
  · exact sum_recorded (fun call empty => zeros empty _) calls

/-- The state accounts for the calls that were accepted.  Only those that recorded something count
for the window of months. -/
structure Accounted (lib : Libraries) (ledger : EmbeddedUsageLedger) (accepted : List Call)
    (state : PersistedState) : Prop where
  featureCounts :
    state.featureCounts = ledger.featureIds.map fun id => (accepted.map (·.increment id)).sum
  activeSeconds : state.activeSeconds = (accepted.map (·.activeSeconds)).sum
  overflowFeatureEvents : state.overflowFeatureEvents = (accepted.map (·.unknown ledger)).sum
  latest : Latest ledger.monthlyBuckets ((recorded accepted).filterMap (·.month lib))
    (state.months.map (·.monthIndex))
  months : ∀ month ∈ state.months, month = bucket ledger month.monthIndex
    (accepted.filter (·.month lib = some month.monthIndex))

theorem Accounts.accounted {acc : List Call}
    (h : Accounts lib ledger (recorded acc) state) : Accounted lib ledger acc state where
  featureCounts := by
    rw [h.featureCounts, bucket_recorded]
    rfl
  activeSeconds := by
    rw [h.activeSeconds, bucket_recorded]
    rfl
  overflowFeatureEvents := by
    rw [h.overflowFeatureEvents, bucket_recorded]
    rfl
  latest := h.latest
  months month mem := by
    have sums := h.months month mem
    rw [recorded, filter_comm, ← recorded, bucket_recorded] at sums
    exact sums

/-- What a call can do: it is rejected and memory stays as it was, or it records nothing, or its
batch is added. -/
theorem recordBatchAt_cases (lib) (reg : ledger.Registered) (inner) (call) :
    (∃ error file, recordBatchAt lib ledger inner call = (.error error, { inner with file })) ∨
      call.isEmpty = true ∧ recordBatchAt lib ledger inner call = (.ok (), inner) ∨
      call.isEmpty = false ∧ ∃ staged state inner',
        staged.Sums ledger call.increment (call.unknown ledger) ∧
        addStaged lib ledger call staged inner.state = .ok state ∧ inner'.state = state ∧
        recordBatchAt lib ledger inner call = (.ok (), inner') := by
  unfold recordBatchAt
  cases stage : stageUpdates ledger 0 ⟨replicate ledger.featureIds.length 0, 0⟩
      call.featureIncrements with
  | error error => exact Or.inl ⟨error, inner.file, rfl⟩
  | ok staged =>
    have sums := staged_of_call reg stage
    dsimp only
    rw [isEmpty_of_call sums]
    cases call.isEmpty with
    | true => exact Or.inr (Or.inl ⟨rfl, rfl⟩)
    | false =>
      cases add : addStaged lib ledger call staged inner.state with
      | error error => exact Or.inl ⟨error, inner.file, rfl⟩
      | ok state =>
        dsimp only
        obtain ⟨error, eq⟩ | ⟨enc, -, ⟨error, eq⟩ | ⟨gen, hdr, -, -, eq⟩⟩ :=
          persistLocked_cases lib ledger inner state
        · exact Or.inl ⟨error, inner.file, eq⟩
        · exact Or.inl ⟨error, _, eq⟩
        · exact Or.inr (Or.inr ⟨rfl, staged, state, _, sums, add, rfl, eq⟩)

theorem Holds.recordBatchAt (sized : ledger.Sized) (h : Holds lib ledger inner) (call) :
    Holds lib ledger (recordBatchAt lib ledger inner call).2 := by
  unfold Usage.recordBatchAt
  split
  · exact h
  · split
    · exact h
    · split
      · exact h
      · exact h.persistLocked sized _

/-- One call after another, with those that were accepted so far. -/
def record (lib : Libraries) (ledger : EmbeddedUsageLedger) (run : LedgerInner × List Call)
    (call : Call) : LedgerInner × List Call :=
  match recordBatchAt lib ledger run.1 call with
  | (.ok _, inner) => (inner, run.2 ++ [call])
  | (.error _, inner) => (inner, run.2)

def recordAll (lib : Libraries) (ledger : EmbeddedUsageLedger) (inner : LedgerInner)
    (calls : List Call) : LedgerInner × List Call :=
  calls.foldl (record lib ledger) (inner, [])

/-- One call keeps the accounts and the file that holds them. -/
theorem record_spec (sized : ledger.Sized) (reg : ledger.Registered)
    (h : Holds lib ledger run.1 ∧ Accounts lib ledger (recorded run.2) run.1.state) (call) :
    Holds lib ledger (record lib ledger run call).1 ∧
      Accounts lib ledger (recorded (record lib ledger run call).2)
        (record lib ledger run call).1.state := by
  have holds := h.1.recordBatchAt sized call
  unfold record
  obtain ⟨error, file, eq⟩ | ⟨empty, eq⟩ | ⟨empty, staged, state, inner', sums, add, rfl, eq⟩ :=
    recordBatchAt_cases lib reg run.1 call
  · rw [eq] at holds ⊢
    exact ⟨holds, h.2⟩
  · rw [eq] at holds ⊢
    refine ⟨holds, ?_⟩
    have same : recorded (run.2 ++ [call]) = recorded run.2 := by
      unfold recorded
      simp [empty]
    rw [same]
    exact h.2
  · rw [eq] at holds ⊢
    refine ⟨holds, ?_⟩
    have more : recorded (run.2 ++ [call]) = recorded run.2 ++ [call] := by
      unfold recorded
      simp [empty]
    rw [more]
    exact h.2.addStaged sums add

/-- A new ledger has counted nothing. -/
theorem accounts_of_create (sized : ledger.Sized)
    (created : openFile lib ledger [] now = .ok inner) :
    Holds lib ledger inner ∧ Accounts lib ledger [] inner.state := by
  obtain ⟨holds, eq⟩ := holds_of_create sized created
  rw [eq]
  refine ⟨holds, ?_, rfl, rfl, .empty _, nofun⟩
  rw [bucket_nil]
  rfl

/-- A ledger in use, with the calls that it accepted: it was created, calls were made, and writes or
syncs failed with the header of the next generation not in the file as a whole. -/
inductive Uses (lib : Libraries) (ledger : EmbeddedUsageLedger) : LedgerInner × List Call → Prop
  | create {now : Nat} {inner : LedgerInner} (created : openFile lib ledger [] now = .ok inner) :
    Uses lib ledger (inner, [])
  | record {run : LedgerInner × List Call} (before : Uses lib ledger run) (call : Call) :
    Uses lib ledger (record lib ledger run call)
  | fail {run : LedgerInner × List Call} {state : PersistedState} {file : List UInt8}
    (before : Uses lib ledger run) (failed : Crashed lib ledger run.1 state file)
    (hidden : ¬ Activated lib ledger run.1 state file) :
    Uses lib ledger ({ run.1 with file }, run.2)

theorem Uses.recordAll (created : openFile lib ledger [] now = .ok inner) (calls) :
    Uses lib ledger (recordAll lib ledger inner calls) := by
  have uses := Uses.create created
  unfold Usage.recordAll
  generalize (inner, ([] : List Call)) = run at uses ⊢
  induction calls generalizing run with
  | nil => exact uses
  | cons call calls ih => exact ih _ (uses.record call)

/-- A ledger in use has counted what it accepted, and its file holds it. -/
theorem Uses.spec (sized : ledger.Sized) (reg : ledger.Registered) (uses : Uses lib ledger run) :
    Holds lib ledger run.1 ∧ Accounts lib ledger (recorded run.2) run.1.state := by
  induction uses with
  | create created => exact accounts_of_create sized created
  | record _ call ih => exact record_spec sized reg ih call
  | fail _ failed hidden ih =>
    exact ⟨(ih.1.of_crashed sized failed).resolve_right fun written => hidden written.1, ih.2⟩

/-- A write or a sync fails while a state is written, and the ledger in memory stays as it was over
what the file is left with.  The ledger in use has counted the calls that it accepted, and opening
the file gives this ledger if and only if the header of the failed generation is not in the file as
a whole. -/
theorem failed_update_hidden_iff {conf : EmbeddedUsageLedgerConfig}
    (new : new lib conf = .ok ledger) {run : LedgerInner × List Call}
    (uses : Uses lib ledger run) {state : PersistedState} {file : List UInt8}
    (failed : Crashed lib ledger run.1 state file) (now : Nat) :
    Accounted lib ledger run.2 run.1.state ∧
      (openFile lib ledger file now = .ok { run.1 with file } ↔
        ¬ Activated lib ledger run.1 state file) := by
  have sized := sized_of_new new
  obtain ⟨holds, accounts⟩ := uses.spec sized (registered_of_new new)
  refine ⟨accounts.accounted, ?_⟩
  obtain before | ⟨activated, after⟩ := holds.of_crashed sized failed
  · refine iff_of_true (before.openFile_eq sized now) fun activated => ?_
    obtain ⟨found, read, next⟩ := activated.slotHeader_eq sized
    have older : found.generation < run.1.generation := before.older found read
    omega
  · refine iff_of_false (fun opened => ?_) (not_not.mpr activated)
    -- the failed generation is the one that is opened
    have same := Except.ok.inj ((after.openFile_eq sized now).symm.trans opened)
    exact absurd (congrArg LedgerInner.generation same) (Nat.succ_ne_self _)

/-- After every sequence of calls the state accounts for those that were accepted, and the file
holds the state.  A call that is rejected changes neither. -/
theorem usage_accounted {conf : EmbeddedUsageLedgerConfig}
    (new : new lib conf = .ok ledger) {now : Nat} {start : LedgerInner}
    (created : openFile lib ledger [] now = .ok start) (calls : List Call) :
    Accounted lib ledger (recordAll lib ledger start calls).2
      (recordAll lib ledger start calls).1.state ∧
      (∀ now, openFile lib ledger (recordAll lib ledger start calls).1.file now =
        .ok (recordAll lib ledger start calls).1) ∧
      ∀ call error inner, recordBatchAt lib ledger (recordAll lib ledger start calls).1 call =
          (.error error, inner) → inner.state = (recordAll lib ledger start calls).1.state ∧
          inner.generation = (recordAll lib ledger start calls).1.generation ∧
          inner.activeSlot = (recordAll lib ledger start calls).1.activeSlot ∧
          ∀ now, openFile lib ledger inner.file now = .ok inner := by
  have sized := sized_of_new new
  have reg := registered_of_new new
  obtain ⟨holds, accounts⟩ := (Uses.recordAll created calls).spec sized reg
  refine ⟨accounts.accounted, fun now => holds.openFile_eq sized now,
    fun call error inner rejected => ?_⟩
  have after := holds.recordBatchAt sized call
  rw [rejected] at after
  obtain ⟨_, file, eq⟩ | ⟨-, eq⟩ | ⟨-, _, _, _, -, -, -, eq⟩ :=
    recordBatchAt_cases lib reg (recordAll lib ledger start calls).1 call
  · cases rejected.symm.trans eq
    exact ⟨rfl, rfl, rfl, fun now => after.openFile_eq sized now⟩
  · cases rejected.symm.trans eq
  · cases rejected.symm.trans eq

/-- One use of the feature, and one call without anything to record. -/
theorem usage_accounted_sample : Accounted sampleLibraries sampleLedger
      (recordAll sampleLibraries sampleLedger sampleInner
        [⟨0, 0, 0, [([97], 1)]⟩, ⟨0, 0, 0, []⟩, ⟨0, 0, 0, [([98], 1)]⟩]).2
      ⟨[1], 0, 0, [⟨23640, [1], 0, 0⟩], 0⟩ := by
  have new : new sampleLibraries sampleConfig = .ok sampleLedger := by rfl
  have all := (usage_accounted new sampleInner_created
    [⟨0, 0, 0, [([97], 1)]⟩, ⟨0, 0, 0, []⟩, ⟨0, 0, 0, [([98], 1)]⟩]).1
  have state : (recordAll sampleLibraries sampleLedger sampleInner
      [⟨0, 0, 0, [([97], 1)]⟩, ⟨0, 0, 0, []⟩, ⟨0, 0, 0, [([98], 1)]⟩]).1.state =
        ⟨[1], 0, 0, [⟨23640, [1], 0, 0⟩], 0⟩ := by decide +kernel
  exact all

/-- The use of a feature is written, and its payload fails to sync. -/
theorem failed_update_hidden_sample : Accounted sampleLibraries sampleLedger [] sampleInner.state ∧
    openFile sampleLibraries sampleLedger (sampleInner.writePayload sampleLedger [1]) 0 =
      .ok { sampleInner with file := sampleInner.writePayload sampleLedger [1] } := by
  have new : new sampleLibraries sampleConfig = .ok sampleLedger := by rfl
  obtain ⟨accounted, hidden⟩ :=
    failed_update_hidden_iff new (.create sampleInner_created) sample_crashed 0
  refine ⟨accounted, hidden.mpr fun activated => ?_⟩
  obtain ⟨found, read, -⟩ := activated.slotHeader_eq (sized_of_new new)
  have unwritten :
      slotHeader sampleLibraries sampleLedger (sampleInner.writePayload sampleLedger [1])
      sampleInner.targetSlot = none := by decide +kernel
  cases unwritten.symm.trans read

/-- The last sync of a call fails after its header was written: the ledger goes on without the call,
and finds it when it is opened again. -/
theorem failed_sync_recovered :
    ¬ ∀ (lib : Libraries) (conf : EmbeddedUsageLedgerConfig) (ledger : EmbeddedUsageLedger)
      (run : LedgerInner × List Call) (state : PersistedState) (file : List UInt8) (now : Nat),
        new lib conf = .ok ledger → Uses lib ledger run →
          Crashed lib ledger run.1 state file →
            openFile lib ledger file now = .ok { run.1 with file } := by
  intro all
  have opened := all _ sampleConfig _ _ _ _ 0 rfl (.create sampleInner_created) sample_failed
  exact absurd opened (by decide +kernel)

/-- A call that records nothing is accepted, and its month is not kept. -/
theorem empty_call_month_not_kept :
    ¬ ∀ (lib : Libraries) (conf : EmbeddedUsageLedgerConfig)
      (ledger : EmbeddedUsageLedger) (now : Nat)
      (start : LedgerInner) (calls : List Call), new lib conf = .ok ledger →
        openFile lib ledger [] now = .ok start →
          Latest ledger.monthlyBuckets
            ((recordAll lib ledger start calls).2.filterMap (·.month lib))
            ((recordAll lib ledger start calls).1.state.months.map (·.monthIndex)) := by
  intro all
  have latest := all sampleLibraries sampleConfig sampleLedger 0 sampleInner [⟨0, 0, 0, []⟩] rfl
    sampleInner_created
  have full := (latest.rest 23640 (by decide +kernel) (by decide +kernel)).1
  exact absurd full (by decide +kernel)

end ShardTelemetry.Usage
