import Mathlib.Algebra.BigOperators.Group.Multiset.Basic
import Mathlib.Tactic.Abel
import ShardTelemetry.Lib.Holdings
import ShardTelemetry.Stripe.Blocks

/-!
# What becomes of the records of a block

The records that the blocks of a partition hold, active and sealed, are a bag
(`BlockState.members`).  A block that is rebalanced or sealed without an error has all its records
in that bag afterwards, each as often as before.

After an error this is only so for a block of one record that no active block could take in; the
groups of any other block are in neither map while the loop runs.
-/

namespace ShardTelemetry.Stripe

open Holdings List ActiveBlock

/-! ## Groups -/

namespace Scoring

variable (scoring : Scoring) (conf : CompressionLocalityConfig)

theorem splitMembership_perm (h : scoring.splitMembership conf membership = some (left, right)) :
    (left ++ right).Perm membership := by
  simp only [splitMembership] at h
  split at h
  · cases h
  · split at h
    · cases h
    · cases h
      exact filter_append_perm _ _

/-- A group of fewer records than two parts need is not split. -/
theorem splitMembership_of_length_lt (small : membership.length < 2 * conf.minSplitRecords) :
    scoring.splitMembership conf membership = none := by
  cases h : scoring.splitMembership conf membership with
  | none => rfl
  | some parts =>
    have length := (scoring.splitMembership_perm conf h).length_eq
    simp only [splitMembership] at h
    split at h
    · cases h
    · split at h
      · cases h
      · cases h
        simp only [length_append] at length
        omega

/-- Every record is in one group. -/
theorem leaves_perm (depth) (blocks) :
    (scoring.leaves conf depth blocks).flatten.Perm blocks.flatten := by
  induction depth generalizing blocks with
  | zero => exact .refl _
  | succ depth ih =>
    rw [leaves, flatten_append]
    refine ((ih _).append_left _).trans ?_
    induction blocks with
    | nil => exact .refl _
    | cons block blocks ih =>
      rw [flatMap_cons, flatten_append, flatten_cons]
      cases h : scoring.splitMembership conf block with
      | none =>
        simp only [filter_cons, h, Option.isNone_none, if_true, flatten_cons,
          flatten_nil, nil_append, append_assoc]
        exact ih.append_left block
      | some parts =>
        simp only [filter_cons, h, Option.isNone_some, Bool.false_eq_true, if_false,
          flatten_cons, flatten_nil, append_nil]
        refine (perm_append_comm_assoc _ _ _).trans ?_
        exact (scoring.splitMembership_perm conf h).append ih

theorem leaves_of_length_lt (small : membership.length < 2 * conf.minSplitRecords) (depth) :
    scoring.leaves conf depth [membership] = [membership] := by
  have none := scoring.splitMembership_of_length_lt conf small
  have nil : ∀ depth, scoring.leaves conf depth [] = [] := by
    intro depth
    induction depth with
    | zero => rfl
    | succ depth ih => simpa [leaves] using ih
  cases depth with
  | zero => rfl
  | succ depth => simp [leaves, none, nil]

theorem collate_perm (count) :
    ((scoring.collate conf count).flatMap (·.recordIndices)).Perm (range count) := by
  unfold collate
  split
  · next h => subst h; exact .refl _
  · rw [flatMap_map, flatMap_id']
    exact ((perm_insertionSort _ _).flatten).trans
      ((scoring.leaves_perm conf _ _).trans (by simp))

/-- A block of one record is one group. -/
theorem collate_one :
    scoring.collate conf 1 = [⟨scoring.placement [0], scoring.stable [0], [0]⟩] := by
  have small : [0].length < 2 * conf.minSplitRecords := by
    have := conf.two_le_minSplitRecords
    simp only [length_singleton]
    omega
  simp [collate, scoring.leaves_of_length_lt conf small]

theorem filterMap_getElem?_range (recs : List PendingRecord) :
    (range recs.length).filterMap (recs[·]?) = recs := by
  induction recs with
  | nil => rfl
  | cons record recs ih =>
    rw [length_cons, range_succ_eq_map, filterMap_cons, filterMap_map]
    simp only [getElem?_cons_zero, Function.comp_def, Nat.succ_eq_add_one, getElem?_cons_succ, ih]

/-- The records of the groups are the records of the block. -/
theorem groups_perm (recs : List PendingRecord) :
    ((scoring.collate conf recs.length).flatMap fun asg =>
      asg.recordIndices.filterMap (recs[·]?)).Perm recs := by
  have indices := (scoring.collate_perm conf recs.length).filterMap (recs[·]?)
  rw [filterMap_flatMap] at indices
  rwa [filterMap_getElem?_range] at indices

end Scoring

/-! ## The records of a partition's blocks -/

/-- What a block with this key holds of a partition. -/
def share (part : TopicPartition) (key : ActiveBlockKey) (records : List PendingRecord) :
    Multiset PendingRecord :=
  if key.topicPartition = part then records else 0

section Share

theorem share_congr (same : key'.topicPartition = key.topicPartition) (perm : recs'.Perm recs) :
    share part key' recs' = share part key recs := by
  unfold share
  rw [same]
  split
  · exact Multiset.coe_eq_coe.mpr perm
  · rfl

theorem share_append (recs recs' : List PendingRecord) :
    share part key (recs ++ recs') = share part key recs + share part key recs' := by
  unfold share
  split
  · rfl
  · rfl

end Share

namespace ActiveBlock

theorem fromRecords_records (recs) (passes) : (fromRecords recs passes).records.Perm recs :=
  perm_insertionSort _ _

theorem appendBlock_records (block other : ActiveBlock) :
    (block.appendBlock other).records.Perm (block.records ++ other.records) :=
  merge_perm_append _

end ActiveBlock

namespace BlockState

variable (part : TopicPartition)

/-- The records in the blocks of a partition. -/
def members (state : BlockState) : Multiset PendingRecord :=
  total (fun key block => share part key block.records) state.activeBlocks +
    (state.catalog.map fun block => share part block.key block.records).sum

/-- The records in blocks on their way. -/
def inFlight (blocks : List (ActiveBlockKey × ActiveBlock)) : Multiset PendingRecord :=
  (blocks.map fun block => share part block.1 block.2.records).sum

theorem inFlight_cons (block) (blocks) :
    inFlight part (block :: blocks) =
      share part block.1 block.2.records + inFlight part blocks := rfl

theorem inFlight_reverse (blocks : List (ActiveBlockKey × ActiveBlock)) :
    inFlight part blocks.reverse = inFlight part blocks :=
  (Perm.map _ blocks.reverse_perm).sum_eq

/-- The states have the same blocks. -/
structure SameBlocks (state' state : BlockState) : Prop where
  activeBlocks : state'.activeBlocks = state.activeBlocks
  catalog : state'.catalog = state.catalog

namespace SameBlocks

protected theorem refl (state : BlockState) : state.SameBlocks state := ⟨rfl, rfl⟩

protected theorem tick (state : BlockState) : state.tick.SameBlocks state := ⟨rfl, rfl⟩

theorem trans {state₁ state₂ state₃ : BlockState} (h : state₁.SameBlocks state₂)
    (h' : state₂.SameBlocks state₃) : state₁.SameBlocks state₃ :=
  ⟨h.activeBlocks.trans h'.activeBlocks, h.catalog.trans h'.catalog⟩

variable {part} in
theorem members_eq {state state' : BlockState} (h : state'.SameBlocks state) :
    state'.members part = state.members part := by
  rw [members, members, h.activeBlocks, h.catalog]

end SameBlocks

variable {state state' : BlockState}

/-- Staging a block adds it to the catalog, or fails and changes no block. -/
theorem stageActiveBlock_cases (env : Environment) (state : BlockState) (key : ActiveBlockKey)
    (active : ActiveBlock) :
    (∃ error, state.stageActiveBlock env key active = (.error error, state.tick)) ∨
      state.stageActiveBlock env key active = (.ok ⟨key, active.records⟩,
          { state.tick with catalog := state.catalog ++ [⟨key, active.records⟩] }) := by
  unfold stageActiveBlock
  split
  · next error _ => exact .inl ⟨error, rfl⟩
  · exact .inr rfl

theorem members_staged (key : ActiveBlockKey) (recs : List PendingRecord) :
    members part { state.tick with catalog := state.catalog ++ [⟨key, recs⟩] } =
      state.members part + share part key recs := by
  simp only [members, tick, map_append, map_cons, map_nil, sum_append, sum_singleton, add_assoc]

/-- Taking the active block of a key out and merging the group into it. -/
theorem members_merged (state : BlockState) (key : ActiveBlockKey) (group : ActiveBlock) :
    members part { state with activeBlocks := state.activeBlocks.erase key } +
        share part key ((state.activeBlocks.lookup key).elim group
          fun existing => existing.appendBlock group).records =
      state.members part + share part key group.records := by
  have out := total_erase_elim (fun key block => share part key (records block))
    state.activeBlocks key
  cases found : state.activeBlocks.lookup key with
  | none =>
    rw [Option.elim_none]
    rw [erase_of_lookup_eq_none found]
  | some existing =>
    rw [found, Option.elim_some] at out
    rw [Option.elim_some, share_congr rfl (existing.appendBlock_records group), share_append]
    simp only [members, ← out]
    abel

variable {targetKey : ActiveBlockKey}

theorem sealGroup_ok (h : sealGroup env targetKey group prog state = (.ok prog', state')) :
    state'.members part + inFlight part prog'.pushed =
      state.members part + inFlight part prog.pushed + share part targetKey group.records := by
  unfold sealGroup at h
  obtain ⟨error, eq⟩ | eq := stageActiveBlock_cases env state targetKey group
  · rw [eq] at h
    cases h
  · rw [eq] at h
    cases h
    rw [members_staged]
    exact add_right_comm _ _ _

/-- A group whose round is over without an error is sealed, active, or on the stack. -/
theorem placeGroup_ok
    (h : placeGroup env conf forceSeal n homeKey asg targetKey group prog state =
      (.ok prog', state')) :
    state'.members part + inFlight part prog'.pushed =
      state.members part + inFlight part prog.pushed + share part targetKey group.records := by
  unfold placeGroup at h
  split at h
  · exact sealGroup_ok part h
  · rw [add_right_comm, ← members_merged part state targetKey group]
    dsimp only at h
    split at h
    · cases h
      -- the merged group goes back into the map, where its key is free
      have free := AList.lookup_erase targetKey state.activeBlocks
      simp only [members, total_insert, erase_of_lookup_eq_none free]
      abel
    · split at h
      · rw [sealGroup_ok part h]
        exact add_right_comm _ _ _
      · cases h
        simp only [inFlight, map_append, sum_append, map_singleton, sum_singleton]
        abel

theorem targetKey_ok (h : state.targetKey env homeKey placementId = (.ok targetKey, state')) :
    targetKey.topicPartition = homeKey.topicPartition ∧
      targetKey.sourceCompressionCohort = homeKey.sourceCompressionCohort ∧
        state'.SameBlocks state := by
  unfold BlockState.targetKey at h
  split at h
  · cases h
    exact ⟨rfl, rfl, .refl _⟩
  · split at h
    · cases h
    · cases h
      exact ⟨rfl, rfl, .tick _⟩

theorem targetKey_error (h : state.targetKey env homeKey placementId = (.error error, state')) :
    state'.SameBlocks state := by
  unfold BlockState.targetKey at h
  split at h
  · cases h
  · split at h
    · cases h
      exact .tick _
    · cases h

theorem placeGroups_ok
    (h : placeGroups env conf forceSeal n homeKey nextPass recs asgs prog state =
      (.ok prog', state')) :
    state'.members part + inFlight part prog'.pushed = state.members part +
        inFlight part prog.pushed +
        share part homeKey (asgs.flatMap fun asg => asg.recordIndices.filterMap (recs[·]?)) := by
  induction asgs generalizing prog state with
  | nil =>
    cases h
    simp [share]
  | cons asg asgs ih =>
    unfold placeGroups at h
    split at h
    · cases h
    · next targetKey placed target =>
      obtain ⟨same, -, blocks⟩ := targetKey_ok target
      dsimp only at h
      split at h
      · cases h
      · next progress₁ state₁ place =>
        rw [ih h, placeGroup_ok part place, blocks.members_eq,
          flatMap_cons, share_append, share_congr same (fromRecords_records _ _)]
        abel

/-! ## The stack

A block that goes back on the stack has been through one more round, and after `maxRebalancePasses`
none goes back. -/

/-- The block has rounds left, and there is depth enough for them. -/
def Bounded (depth : Nat) (block : ActiveBlock) : Prop :=
  0 < depth ∧ maxRebalancePasses < block.rebalancePasses + depth

theorem sealGroup_pushed (h : sealGroup env targetKey group prog state = (.ok prog', state')) :
    prog'.pushed = prog.pushed := by
  unfold sealGroup at h
  split at h
  · cases h
    rfl
  · cases h

theorem placeGroup_pushed
    (h : placeGroup env conf forceSeal n homeKey asg targetKey group prog state =
      (.ok prog', state'))
    (bounded : maxRebalancePasses < group.rebalancePasses + depth)
    (before : ∀ block ∈ prog.pushed, Bounded depth block.2) :
    ∀ block ∈ prog'.pushed, Bounded depth block.2 := by
  unfold placeGroup at h
  split at h
  · rw [sealGroup_pushed h]
    exact before
  · dsimp only at h
    split at h
    · cases h
      exact before
    · split at h
      · rw [sealGroup_pushed h]
        exact before
      · next unsealed =>
        cases h
        intro block mem
        obtain mem | rfl := mem_append.mp mem |>.imp_right mem_singleton.mp
        · exact before block mem
        · have more : group.rebalancePasses ≤ ((state.activeBlocks.lookup targetKey).elim group
              fun existing => existing.appendBlock group).rebalancePasses := by
            cases state.activeBlocks.lookup targetKey with
            | none => exact le_rfl
            | some existing => exact le_max_right _ _
          simp only [Bool.or_eq_true, decide_eq_true_eq, not_or, not_le] at unsealed
          exact ⟨by omega, by dsimp only; omega⟩

theorem placeGroups_pushed (h : placeGroups env conf forceSeal n homeKey nextPass recs asgs
      prog state = (.ok prog', state')) (bounded : maxRebalancePasses < nextPass + depth)
    (before : ∀ block ∈ prog.pushed, Bounded depth block.2) :
    ∀ block ∈ prog'.pushed, Bounded depth block.2 := by
  induction asgs generalizing prog state with
  | nil =>
    cases h
    exact before
  | cons asg asgs ih =>
    unfold placeGroups at h
    split at h
    · cases h
    · dsimp only at h
      split at h
      · cases h
      · next place => exact ih h (placeGroup_pushed place bounded before)

theorem popAll_ok {round : ActiveBlockKey × ActiveBlock → List SealedBlock → BlockState →
      TelemetryResult (List SealedBlock) × BlockState}
    (step : ∀ block ∈ blocks, ∀ {sealed sealed' state state'},
      round block sealed state = (.ok sealed', state') → state'.members part =
          state.members part + share part block.1 block.2.records)
    (h : popAll round blocks sealed state = (.ok sealed', state')) :
    state'.members part = state.members part + inFlight part blocks := by
  induction blocks generalizing sealed state with
  | nil =>
    cases h
    exact (add_zero _).symm
  | cons block blocks ih =>
    unfold popAll at h
    split at h
    · cases h
    · next ok =>
      rw [ih (forall_mem_cons.mp step).2 h,
        step block mem_cons_self ok, inFlight_cons, add_assoc]

/-- A block that is rebalanced without an error keeps its records in the blocks of its partition. -/
theorem rebalance_ok {block : ActiveBlockKey × ActiveBlock} (bounded : Bounded depth block.2)
    (h : rebalance env conf forceSeal depth block sealed state = (.ok sealed', state')) :
    state'.members part = state.members part + share part block.1 block.2.records := by
  induction depth generalizing block sealed sealed' state state' with
  | zero => exact absurd bounded.1 (lt_irrefl 0)
  | succ depth ih =>
    obtain ⟨homeKey, active⟩ := block
    unfold rebalance at h
    dsimp only at h
    split at h
    · cases h
    · next prog state₁ place =>
      have pushed : ∀ block ∈ prog.pushed, Bounded depth block.2 :=
        placeGroups_pushed place (by have := bounded.2; dsimp only at this; omega) (by simp)
      have flow := placeGroups_ok part place
      rw [popAll_ok part (fun block mem => ih (pushed block (mem_reverse.mp mem))) h,
        inFlight_reverse, flow, (SameBlocks.tick state).members_eq,
        share_congr rfl (Scoring.groups_perm _ _ active.records)]
      simp [inFlight]

theorem rebalanceBlock_ok
    (h : state.rebalanceBlock env conf key block forceSeal = (.ok sealed, state')) :
    state'.members part = state.members part + share part key block.records := by
  unfold rebalanceBlock at h
  split at h
  · obtain ⟨error, eq⟩ | eq := stageActiveBlock_cases env state key block
    · rw [eq] at h
      cases h
    · rw [eq] at h
      cases h
      exact members_staged part key block.records
  · exact rebalance_ok part ⟨by decide, by dsimp only; omega⟩ h

theorem sealBlocks_ok (h : sealBlocks env conf blocks sealed state = (.ok sealed', state')) :
    state'.members part = state.members part + inFlight part blocks := by
  induction blocks generalizing sealed state with
  | nil =>
    cases h
    exact (add_zero _).symm
  | cons block blocks ih =>
    unfold sealBlocks at h
    split at h
    · cases h
    · next ok => rw [ih h, rebalanceBlock_ok part ok, inFlight_cons, add_assoc]

/-- Sealing every active block without an error keeps the records of every partition. -/
theorem sealActiveBlocks_ok (h : state.sealActiveBlocks env conf = (.ok sealed, state')) :
    state'.members part = state.members part := by
  rw [sealBlocks_ok part h, inFlight, ((env.drain_perm _).map _).sum_eq]
  simp only [members, total_empty, zero_add, map_map]
  exact add_comm _ _

/-! ## A lone record

A block of one record is never divided.  While no active block has its partition and cohort, nothing
is merged into it either, and an error that ends the loop takes away only this record. -/

/-- No active block has the partition and the cohort of the key. -/
def Lone (state : BlockState) (key : ActiveBlockKey) : Prop :=
  ∀ other, other.topicPartition = key.topicPartition →
    other.sourceCompressionCohort = key.sourceCompressionCohort →
      state.activeBlocks.lookup other = none

theorem sealGroup_error (h : sealGroup env key group prog state = (.error error, state')) :
    state'.SameBlocks state := by
  unfold sealGroup at h
  obtain ⟨error, eq⟩ | eq := stageActiveBlock_cases env state key group
  · rw [eq] at h
    cases h
    exact .tick _
  · rw [eq] at h
    cases h

section

variable (absent : state.activeBlocks.lookup key = none)
include absent

theorem sameBlocks_erase :
    SameBlocks { state with activeBlocks := state.activeBlocks.erase key } state :=
  ⟨erase_of_lookup_eq_none absent, rfl⟩

/-- What the round of a group does with an error, if no active block has its key. -/
theorem placeGroup_error
    (h : placeGroup env conf forceSeal n homeKey asg key group prog state =
      (.error error, state')) :
    state'.SameBlocks state := by
  unfold placeGroup at h
  split at h
  · exact sealGroup_error h
  · dsimp only at h
    split at h
    · cases h
    · split at h
      · exact (sealGroup_error h).trans (sameBlocks_erase absent)
      · cases h

/-- What the round of a group pushes, if no active block has its key. -/
theorem placeGroup_push
    (h : placeGroup env conf forceSeal n homeKey asg key group prog state = (.ok prog', state')) :
    prog'.pushed = prog.pushed ∨ prog'.pushed = prog.pushed ++ [(key, group)] ∧
      state'.SameBlocks state := by
  unfold placeGroup at h
  split at h
  · exact .inl (sealGroup_pushed h)
  · dsimp only at h
    split at h
    · cases h
      exact .inl rfl
    · split at h
      · exact .inl (sealGroup_pushed h)
      · cases h
        refine .inr ⟨?_, sameBlocks_erase absent⟩
        rw [absent, Option.elim_none]

end

theorem Lone.lookup (lone : state.Lone key) (part : other.topicPartition = key.topicPartition)
    (cohort : other.sourceCompressionCohort = key.sourceCompressionCohort)
    (same : state'.SameBlocks state) : state'.Lone other := by
  intro third part' cohort'
  rw [same.activeBlocks]
  exact lone third (part'.trans part) (cohort'.trans cohort)

theorem rebalance_error {active : ActiveBlock} (one : active.records = [record])
    (lone : state.Lone key)
    (h : rebalance env conf forceSeal depth (key, active) sealed state = (.error error, state')) :
    state'.SameBlocks state := by
  induction depth generalizing key active sealed state with
  | zero => cases h
  | succ depth ih =>
    unfold rebalance at h
    simp only [one, length_singleton, Scoring.collate_one, placeGroups] at h
    split at h
    · next place =>
      -- the error comes from the only group
      cases h
      split at place
      · next target =>
        cases place
        exact (targetKey_error target).trans (.tick _)
      · next target =>
        obtain ⟨part, cohort, same⟩ := targetKey_ok target
        split at place
        · next placed =>
          cases place
          have absent := lone.lookup part cohort (same.trans (.tick _)) _ rfl rfl
          exact (placeGroup_error absent placed).trans (same.trans (.tick _))
        · cases place
    · next place =>
      -- the group went back on the stack, or the loop is over
      split at place
      · cases place
      · next target =>
        obtain ⟨part, cohort, same⟩ := targetKey_ok target
        split at place
        · cases place
        · next placed =>
          cases place
          have lone' := lone.lookup part cohort (same.trans (.tick _))
          obtain none | ⟨pushed, same'⟩ := placeGroup_push (lone' _ rfl rfl) placed
          · rw [none] at h
            cases h
          · rw [pushed] at h
            simp only [nil_append, reverse_singleton, popAll] at h
            split at h
            · next again =>
              cases h
              have alone := lone'.lookup rfl rfl same'
              exact (ih rfl alone again).trans (same'.trans (same.trans (.tick _)))
            · cases h

/-- When rebalancing a lone record fails, no block has changed. -/
theorem rebalanceBlock_error {active : ActiveBlock} (one : active.records = [record])
    (lone : state.Lone key)
    (h : state.rebalanceBlock env conf key active forceSeal = (.error error, state')) :
    state'.SameBlocks state := by
  unfold rebalanceBlock at h
  split at h
  · obtain ⟨error, eq⟩ | eq := stageActiveBlock_cases env state key active
    · rw [eq] at h
      cases h
      exact .tick _
    · rw [eq] at h
      cases h
  · exact rebalance_error one lone h

/-! ## A new record -/

theorem append_records (existing : Option ActiveBlock) (pending : PendingRecord) :
    (existing.elim (new pending) fun active => active.append pending).records =
      (existing.elim [] records) ++ [pending] := by
  cases existing with
  | none => rfl
  | some active => rfl

theorem appendActive_ok (h : state.appendActive env conf key pending = (.ok sealed, state')) :
    state'.members part = state.members part + share part key [pending] := by
  have out := total_erase_elim (fun key block => share part key (records block))
    state.activeBlocks key
  have taken : members part { state with activeBlocks := state.activeBlocks.erase key } +
      share part key ((state.activeBlocks.lookup key).elim [] records) = state.members part := by
    simp only [members, ← out]
    cases state.activeBlocks.lookup key with
    | none => simp [share]
    | some active =>
      abel
  unfold appendActive at h
  dsimp only at h
  split at h
  · rw [rebalanceBlock_ok part h, append_records, share_append, ← add_assoc, taken]
  · cases h
    rw [← taken, add_assoc, ← share_append, ← append_records]
    simp only [members, total_insert]
    abel

theorem appendActive_error (lone : state.Lone key)
    (h : state.appendActive env conf key pending = (.error error, state')) :
    state'.SameBlocks state := by
  have absent := lone key rfl rfl
  have same := sameBlocks_erase absent
  unfold appendActive at h
  simp only [absent, Option.elim_none] at h
  split at h
  · exact (rebalanceBlock_error rfl (lone.lookup rfl rfl same) h).trans same
  · cases h

end BlockState

/-! ## Without failures -/

/-- Nothing that rebalancing calls fails. -/
structure Environment.Faultless (env : Environment) : Prop where
  dictionary :
    ∀ clock placementId, ∃ dictionaryId, env.resolveDictionary clock placementId = .ok dictionaryId
  encoding : ∀ clock key records, env.failure clock key records = none

namespace BlockState

variable {env : Environment} (faultless : env.Faultless) (conf : StripeConfig)

include faultless

theorem Faultless.sealGroup (targetKey : ActiveBlockKey) (group : ActiveBlock) (prog : Progress)
    (state : BlockState) :
    ∃ prog' state', sealGroup env targetKey group prog state = (.ok prog', state') := by
  unfold BlockState.sealGroup stageActiveBlock
  rw [faultless.encoding]
  exact ⟨_, _, rfl⟩

theorem Faultless.placeGroup (forceSeal : Bool) (n : Nat) (homeKey targetKey : ActiveBlockKey)
    (asg : CompressionBlockAssignment) (group : ActiveBlock) (prog : Progress)
    (state : BlockState) : ∃ prog' state', placeGroup env conf forceSeal n homeKey asg targetKey
      group prog state = (.ok prog', state') := by
  unfold BlockState.placeGroup
  split
  · exact sealGroup faultless _ _ _ _
  · dsimp only
    split
    · exact ⟨_, _, rfl⟩
    · split
      · exact sealGroup faultless _ _ _ _
      · exact ⟨_, _, rfl⟩

theorem Faultless.targetKey (homeKey : ActiveBlockKey) (placementId : Nat) (state : BlockState) :
    ∃ targetKey state', state.targetKey env homeKey placementId = (.ok targetKey, state') := by
  unfold BlockState.targetKey
  split
  · exact ⟨_, _, rfl⟩
  · obtain ⟨dictionaryId, eq⟩ := faultless.dictionary state.clock placementId
    rw [eq]
    exact ⟨_, _, rfl⟩

theorem Faultless.placeGroups (forceSeal : Bool) (n : Nat) (homeKey : ActiveBlockKey)
    (nextPass : Nat) (recs : List PendingRecord) (asgs : List CompressionBlockAssignment)
    (prog : Progress) (state : BlockState) :
    ∃ prog' state', placeGroups env conf forceSeal n homeKey nextPass recs
      asgs prog state = (.ok prog', state') := by
  induction asgs generalizing prog state with
  | nil => exact ⟨_, _, rfl⟩
  | cons asg asgs ih =>
    unfold BlockState.placeGroups
    obtain ⟨targetKey, state₁, target⟩ :=
      Faultless.targetKey faultless homeKey asg.placementId state
    rw [target]
    dsimp only
    obtain ⟨progress₂, state₂, placed⟩ := Faultless.placeGroup faultless conf forceSeal
      n homeKey targetKey asg
      (fromRecords (asg.recordIndices.filterMap (recs[·]?)) nextPass) prog
      state₁
    rw [placed]
    exact ih progress₂ state₂

theorem Faultless.rebalance (forceSeal : Bool) (depth : Nat) (block : ActiveBlockKey × ActiveBlock)
    (sealed : List SealedBlock) (state : BlockState) :
    ∃ sealed' state', rebalance env conf forceSeal depth block sealed
      state = (.ok sealed', state') := by
  induction depth generalizing block sealed state with
  | zero => exact ⟨_, _, rfl⟩
  | succ depth ih =>
    have pops : ∀ blocks sealed state, ∃ sealed' state',
        popAll (BlockState.rebalance env conf forceSeal depth) blocks sealed state =
          (.ok sealed', state') := by
      intro blocks
      induction blocks with
      | nil => exact fun _ _ => ⟨_, _, rfl⟩
      | cons block blocks next =>
        intro sealed state
        obtain ⟨sealed₁, state₁, eq⟩ := ih block sealed state
        unfold popAll
        rw [eq]
        exact next sealed₁ state₁
    unfold BlockState.rebalance
    obtain ⟨prog, state₁, eq⟩ := Faultless.placeGroups faultless conf forceSeal _
      block.1 (block.2.rebalancePasses + 1) block.2.records
      ((env.scoring state.clock block.1 block.2.records).collate conf.compressionLocality
        block.2.records.length) ⟨sealed, []⟩ state.tick
    dsimp only
    rw [eq]
    exact pops _ _ _

theorem Faultless.rebalanceBlock (key : ActiveBlockKey) (block : ActiveBlock) (forceSeal : Bool)
    (state : BlockState) :
    ∃ sealed state', state.rebalanceBlock env conf key block forceSeal = (.ok sealed, state') := by
  unfold BlockState.rebalanceBlock
  split
  · unfold stageActiveBlock
    rw [faultless.encoding]
    exact ⟨_, _, rfl⟩
  · exact rebalance faultless _ _ _ _ _ _

theorem Faultless.appendActive (key : ActiveBlockKey) (pending : PendingRecord)
    (state : BlockState) :
    ∃ sealed state', state.appendActive env conf key pending = (.ok sealed, state') := by
  unfold BlockState.appendActive
  dsimp only
  split
  · exact rebalanceBlock faultless _ _ _ _ _
  · exact ⟨_, _, rfl⟩

theorem Faultless.sealActiveBlocks (state : BlockState) :
    ∃ sealed state', state.sealActiveBlocks env conf = (.ok sealed, state') := by
  have loop : ∀ blocks sealed state, ∃ sealed' state',
      sealBlocks env conf blocks sealed state = (.ok sealed', state') := by
    intro blocks
    induction blocks with
    | nil => exact fun _ _ => ⟨_, _, rfl⟩
    | cons block blocks ih =>
      intro sealed state
      obtain ⟨more, state₁, eq⟩ :=
        Faultless.rebalanceBlock faultless conf block.1 block.2 true state
      unfold sealBlocks
      rw [eq]
      exact ih _ state₁
  exact loop _ _ _

end BlockState

end ShardTelemetry.Stripe
