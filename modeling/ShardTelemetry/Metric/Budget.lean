import Mathlib.Algebra.Order.BigOperators.Group.List
import ShardTelemetry.Metric.StripeHolds

/-!
# The head budget

A stripe counts the bytes of the points in its heads, each head for itself and all of them together.
The counts change with the heads: every operation replaces the head of one series
(`Budgeted.setHead`), also where it then fails.
-/

namespace ShardTelemetry.Metric

open List MetricStripe

variable {I A E : Type}

section Sizes

variable (settings : Settings I A E)

/-- The estimated sizes of the points in a head. -/
def SeriesHead.size (head : SeriesHead I A E) : Nat :=
  (head.points.map settings.estimatedHeadBytes).sum

/-- The estimated sizes of the points in all heads. -/
def MetricStripe.heldBytes (stripe : MetricStripe I A E) : Nat :=
  (stripe.series.map fun entry => entry.2.size settings).sum

/-- A head has one point for a time and counts their sizes. -/
structure Counted (head : SeriesHead I A E) : Prop where
  increasing : head.points.Pairwise (·.timestamp < ·.timestamp)
  bytes : head.bytes = head.size settings

structure Budgeted (stripe : MetricStripe I A E) : Prop where
  nodup : (stripe.series.map (·.1)).Nodup
  heads : ∀ entry ∈ stripe.series, Counted settings entry.2
  counted : stripe.headBytes = stripe.heldBytes settings
  within : stripe.headBytes ≤ settings.headBudgetBytes

end Sizes

variable {st : MetricStripe I A E} {series : BitVec 128} {head : SeriesHead I A E}

theorem heldBytes_setHead (nodup : (st.series.map (·.1)).Nodup) (settings) (series) (head) :
    (st.setHead series head).heldBytes settings + (st.head? series).elim 0 (·.size settings) =
      st.heldBytes settings + head.size settings := by
  simp only [heldBytes, MetricStripe.setHead, MetricStripe.head?, map_cons, sum_cons]
  generalize st.series = ents at nodup
  suffices ((ents.filter (·.1 ≠ series)).map fun entry => entry.2.size settings).sum +
      ((ents.find? (·.1 = series)).map (·.2)).elim 0 (·.size settings) =
        (ents.map fun entry => entry.2.size settings).sum by omega
  induction ents with
  | nil => rfl
  | cons entry rest ih =>
    obtain ⟨fresh, nodup⟩ := nodup_cons.mp nodup
    by_cases same : entry.1 = series
    · have kept : rest.filter (·.1 ≠ series) = rest := by
        refine filter_eq_self.mpr fun other mem => decide_eq_true fun eq => fresh ?_
        exact mem_map.mpr ⟨other, mem, eq.trans same.symm⟩
      rw [filter_cons_of_neg (by simpa using same), kept, find?_cons_of_pos (by simpa using same),
        map_cons, sum_cons]
      exact Nat.add_comm _ _
    · rw [filter_cons_of_pos (by simpa using same),
        find?_cons_of_neg (by simpa using same), map_cons, sum_cons, map_cons, sum_cons, ← ih nodup]
      exact Nat.add_assoc _ _ _

/-- The head of one series is replaced. -/
theorem Budgeted.setHead (h : Budgeted settings st) (head)
    (ok : Counted settings head) (heads : st'.series = (st.setHead series head).series)
    (counted : st'.headBytes + (st.head? series).elim 0 (·.size settings) =
      st.headBytes + head.size settings) (within : st'.headBytes ≤ settings.headBudgetBytes) :
    Budgeted settings st' where
  nodup := heads ▸ nodup_setHead h.nodup
  heads entry mem := by
    rcases mem_setHead.mp (heads ▸ mem) with rfl | ⟨mem, -⟩
    · exact ok
    · exact h.heads entry mem
  counted := by
    have total := heldBytes_setHead h.nodup settings series head
    have same : st'.heldBytes settings = (st.setHead series head).heldBytes settings := by
      rw [heldBytes, heads, heldBytes]
    rw [h.counted] at counted
    omega
  within := within

theorem Budgeted.size_le (h : Budgeted settings st) (mem : (series, head) ∈ st.series) :
    head.size settings ≤ st.headBytes := by
  rw [h.counted]
  exact le_sum_of_mem (mem_map.mpr ⟨_, mem, rfl⟩)

variable [DecidableEq I] [DecidableEq A] [DecidableEq E]

/-! ## Sealing -/

/-- A head is emptied, and what it counted is taken off, whether its points can be stored or not. -/
theorem Budgeted.sealSeries (h : Budgeted settings st) (series) :
    Budgeted settings (st.sealSeries settings series).2 := by
  rcases sealSeries_cases st series with ⟨eq, -⟩ | ⟨head, more, found, eq⟩ <;> rw [eq]
  · exact h
  · have mem := mem_of_head? found
    refine h.setHead { head with points := [], bytes := 0 } ⟨.nil, rfl⟩ rfl ?_
      ((Nat.sub_le _ _).trans h.within)
    rw [found, Option.elim_some, (h.heads _ mem).bytes]
    exact Nat.sub_add_cancel (h.size_le mem)

/-! ## Applying a point -/

section

omit [DecidableEq I] [DecidableEq A] [DecidableEq E]

/-- The points of its time make room for a point. -/
theorem Counted.insert (h : Counted settings head) (pt) :
      Counted settings (head.insert settings pt) ∧ ∃ kept, head.size settings = kept +
          ((head.points.filter (·.timestamp = pt.timestamp)).map settings.estimatedHeadBytes).sum ∧
        (head.insert settings pt).size settings = kept + settings.estimatedHeadBytes pt := by
  have increasing : (head.without pt.timestamp).points.Pairwise (·.timestamp < ·.timestamp) :=
    h.increasing.sublist filter_sublist
  have fresh := head.fresh_without pt.timestamp
  obtain ⟨before, after, split, inserted, -, -⟩ := insertPoint_eq increasing fresh
  have parted : head.size settings =
      ((head.without pt.timestamp).points.map settings.estimatedHeadBytes).sum +
        ((head.points.filter (·.timestamp = pt.timestamp)).map
          settings.estimatedHeadBytes).sum := by
    have perm := ((filter_append_perm (·.timestamp ≠ pt.timestamp) head.points).map
      settings.estimatedHeadBytes).sum_eq
    simp only [map_append, sum_append, ne_eq, decide_not, Bool.not_not] at perm
    simpa only [SeriesHead.size, SeriesHead.without, ne_eq, decide_not] using perm.symm
  have size : (head.insert settings pt).size settings =
      ((head.without pt.timestamp).points.map settings.estimatedHeadBytes).sum +
        settings.estimatedHeadBytes pt := by
    show ((insertPoint _ pt).map settings.estimatedHeadBytes).sum = _
    rw [inserted, split]
    simp only [map_append, map_cons, sum_append, sum_cons]
    omega
  refine ⟨⟨insertPoint_increasing increasing fresh, ?_⟩, _, parted, size⟩
  show head.bytes - _ + settings.estimatedHeadBytes pt = _
  rw [h.bytes, parted, Nat.add_sub_cancel, size]

end

/-- A point for which there is room is taken into its head. -/
theorem Budgeted.insertInto (h : Budgeted settings st) (found : st.head? series = some head)
    (room : st.headBytes + settings.estimatedHeadBytes pt ≤ settings.headBudgetBytes) (out) :
    Budgeted settings (st.insertInto settings pt series head out).2 := by
  have mem := mem_of_head? found
  have le := h.size_le mem
  have old : Counted settings head := h.heads _ mem
  obtain ⟨ok, kept, size, size'⟩ := old.insert pt
  have inserted : Budgeted settings { st.setHead series (head.insert settings pt) with
      headBytes := st.headBytes -
        ((head.points.filter (·.timestamp = pt.timestamp)).map settings.estimatedHeadBytes).sum +
          settings.estimatedHeadBytes pt } := by
    refine h.setHead (head.insert settings pt) ok rfl ?_ ?_
    · rw [found, Option.elim_some]
      dsimp only
      omega
    · dsimp only
      omega
  unfold MetricStripe.insertInto
  dsimp only
  split
  · have next := inserted.sealSeries series
    split
    · next eq => exact congrArg Prod.snd eq ▸ next
    · next eq => exact congrArg Prod.snd eq ▸ next
  · exact inserted

theorem Budgeted.applyToHead (h : Budgeted settings st)
    (room : st.headBytes + settings.estimatedHeadBytes pt ≤ settings.headBudgetBytes) (sealedPoints)
    (protocol) : Budgeted settings (st.applyToHead settings pt series sealedPoints protocol).2 := by
  have made : Budgeted settings (st.setHead series (st.headFor pt series)) := by
    refine h.setHead (st.headFor pt series) ?_ rfl ?_ h.within
    all_goals
      unfold headFor
      cases found : st.head? series with
      | none => first | exact ⟨.nil, rfl⟩ | rfl
      | some head => first | exact h.heads _ (mem_of_head? found) | rfl
  have found :
      (st.setHead series (st.headFor pt series)).head? series = some (st.headFor pt series) :=
    head?_of_mem made.nodup (mem_setHead.mpr (.inl rfl))
  unfold MetricStripe.applyToHead
  dsimp only
  split
  · exact made
  split
  · exact made
  split
  · split
    · exact made
    split
    · exact made
    · exact made.insertInto found room .replaced
  · exact made.insertInto found room _

theorem Budgeted.applyRef (h : Budgeted settings st) (pt)
    (protocol) : Budgeted settings (st.applyRef settings pt protocol).2 := by
  unfold MetricStripe.applyRef
  dsimp only
  split
  · exact h
  split
  · exact h
  have indexed :
      Budgeted settings (st.indexed settings pt (settings.backend.fingerprint pt.identity)) := by
    unfold MetricStripe.indexed
    split
    · exact h
    · exact ⟨h.nodup, h.heads, h.counted, h.within⟩
  split
  · exact indexed
  have reserved := reserve_invariant (P := Budgeted settings)
    (fun _ series h => h.sealSeries series)
    (settings.estimatedHeadBytes pt) indexed
  split
  · next eq => exact congrArg Prod.snd eq ▸ reserved
  next eq =>
  rw [eq] at reserved
  split
  · exact reserved
  next room =>
  split
  · exact reserved
  · exact reserved.applyToHead (Nat.not_lt.mp room) _ protocol

/-! ## Histories -/

theorem Budgeted.step (h : Budgeted settings hist.1)
    (op : MetricOp I A E) : Budgeted settings (step settings hist op).1 := by
  cases op with
  | apply pt protocol => exact h.applyRef pt protocol
  | sealPartition part => exact sealEach_invariant (fun _ series h => h.sealSeries series) _ h

theorem Budgeted.run (settings : Settings I A E) (ops : List (MetricOp I A E)) :
    Budgeted settings (run settings ops).1 := by
  refine foldlRecOn (motive := fun hist => Budgeted settings hist.1) ops
    (MetricStripe.step settings) ?_
    fun hist h op _ => h.step op
  exact ⟨.nil, nofun, rfl, Nat.zero_le _⟩

/-- After every operation, failed or not, the bytes of the heads are those of the points in them and
within the budget. -/
theorem run_headBytes (settings : Settings I A E) (ops : List (MetricOp I A E)) :
    (run settings ops).1.headBytes = (run settings ops).1.heldBytes settings ∧
      (run settings ops).1.headBytes ≤ settings.headBudgetBytes :=
  have h := Budgeted.run settings ops
  ⟨h.counted, h.within⟩

/-- A series has one head then, and a head has one point for a time, in their order. -/
theorem run_heads_increasing (settings : Settings I A E) (ops : List (MetricOp I A E)) :
    ((run settings ops).1.series.map (·.1)).Nodup ∧
      ∀ entry ∈ (run settings ops).1.series, entry.2.points.Pairwise (·.timestamp < ·.timestamp) :=
  have h := Budgeted.run settings ops
  ⟨h.nodup, fun entry mem => (h.heads entry mem).increasing⟩

end ShardTelemetry.Metric
