import Mathlib.Data.List.Induction
import ShardTelemetry.Correlation.Intersection
import ShardTelemetry.Correlation.Stripe

/-!
# The postings of one tenant

Whatever is dropped, the postings of a tenant are in order and come from records that were indexed
(`lists_ok`).  While nothing is dropped, they are those that its own records put there: the index
follows an unbounded one that is fed with the records of this tenant alone (`listsOf_stripeOf`).
-/

namespace ShardTelemetry.Correlation

open Function
open List hiding after lookup

open Query (Text)

/-! ## Unbounded postings -/

/-- A record added under its keys. -/
def Lists.add (lists : Lists) (record : SignalRecord) : Lists :=
  record.indexedKeys.foldl (fun lists key => update lists key
    (placed ⟨record.recordRef, record.timestampUnixNanos⟩ (lists key))) lists

/-- What an event does to the postings of a tenant. -/
def Lists.after (tenant : Text) (lists : Lists) : StripeEvent → Lists
  | .indexed record => if record.tenant = tenant then lists.add record else lists
  | .expired cutoff => fun key => (lists key).filter (cutoff ≤ ·.timestampUnixNanos)
  | .logged _ => lists
  | .published _ => lists

/-- The events that the postings of a tenant depend on. -/
def concerns (tenant : Text) : StripeEvent → Bool
  | .indexed record => record.tenant = tenant
  | .expired _ => true
  | .logged _ => false
  | .published _ => false

variable {lists : Lists} {st : StripeState}

theorem Lists.after_of_not_concerns (h : concerns tenant ev = false)
    (lists : Lists) : lists.after tenant ev = lists := by
  cases ev with
  | logged append => rfl
  | published block => rfl
  | expired cutoff => cases h
  | indexed record => exact if_neg (of_decide_eq_false h)

theorem foldl_after_filter (tenant : Text) (evs : List StripeEvent) (lists : Lists) :
    (evs.filter (concerns tenant)).foldl (Lists.after tenant) lists =
      evs.foldl (Lists.after tenant) lists := by
  induction evs generalizing lists with
  | nil => rfl
  | cons ev evs ih =>
    cases h : concerns tenant ev with
    | true => rw [filter_cons_of_pos h, foldl_cons, foldl_cons, ih]
    | false =>
      rw [filter_cons_of_neg (by rw [h]; exact Bool.false_ne_true), ih, foldl_cons,
        Lists.after_of_not_concerns h]

/-! ## What the index holds -/

namespace CorrelationIndex

/-- The list of a slot, which is empty if there is none. -/
def listAt (index : CorrelationIndex) (lookup : Nat × CorrelationKey) : List CorrelationPosting :=
  (index.postings.lookup lookup).getD []

/-- The postings of a tenant. -/
def listsOf (index : CorrelationIndex) (tenant : Text) : Lists := fun key =>
  match index.tenants.idxOf? tenant with
  | none => []
  | some id => index.listAt (id, key)

/-- Numbers that no tenant has been given have no postings. -/
def Ok (index : CorrelationIndex) : Prop :=
  ∀ id key, index.tenants.length ≤ id → index.listAt (id, key) = []

theorem queryInto_eq (ix : CorrelationIndex) (q : CorrelationQuery) : ix.queryInto q =
      if q.limit = 0 then [] else queryPostings q (ix.listsOf q.tenant) := by
  unfold queryInto listsOf
  split
  · rfl
  · cases ix.tenants.idxOf? q.tenant with
    | none =>
      -- without postings nothing is found
      have ok : Lists.Ok fun _ => [] := ⟨fun _ => .nil, nofun⟩
      obtain ⟨found, eq, -, mem⟩ := queryPostings_spec ok q
      have none : found = [] := eq_nil_iff_forall_not_mem.mpr fun ref member => by
        obtain ⟨⟨some, all⟩, -⟩ := (mem ref).mp member
        obtain ⟨key, asked⟩ := exists_mem_of_ne_nil _ some
        obtain ⟨post, held, -⟩ := all key asked
        cases held
      exact (eq.trans (by rw [none, take_nil])).symm
    | some id => rfl

variable {ix : CorrelationIndex} {next : CorrelationIndex}

theorem slot_spec {refs : List CorrelationPosting} (h : ix.slot lookup = some (next, refs)) :
    refs = ix.listAt lookup ∧ next.tenants = ix.tenants ∧
      next.droppedPostings = ix.droppedPostings ∧ ∀ other, next.listAt other = ix.listAt other := by
  unfold slot at h
  split at h
  · next found =>
    cases h
    refine ⟨?_, rfl, rfl, fun _ => rfl⟩
    unfold listAt
    rw [found]
    rfl
  · next missing =>
    split at h
    · cases h
      refine ⟨?_, rfl, rfl, fun other => ?_⟩
      · unfold listAt
        rw [missing]
        rfl
      · unfold listAt
        dsimp only
        by_cases same : other = lookup
        · rw [same, AList.lookup_insert, missing]
          rfl
        · rw [AList.lookup_insert_ne same]
    · cases h

theorem drop_droppedPostings (ix : CorrelationIndex) : ix.drop.droppedPostings ≠ 0 := by
  unfold drop saturatingAdd u64Bound
  dsimp only
  omega

variable {id : Nat}

/-- An insertion drops the posting or places it. -/
theorem insert_spec (ix : CorrelationIndex) (id key post) :
      (ix.insert id key post).tenants = ix.tenants ∧ ((ix.insert id key post).droppedPostings ≠ 0 ∧
          (∀ other, (ix.insert id key post).listAt other = ix.listAt other) ∨
        (ix.insert id key post).droppedPostings = ix.droppedPostings ∧
          ∀ other, (ix.insert id key post).listAt other =
            if other = (id, key) then placed post (ix.listAt (id, key)) else ix.listAt other) := by
  unfold insert
  cases found : ix.slot (id, key) with
  | none => exact ⟨rfl, .inl ⟨drop_droppedPostings ix, fun _ => rfl⟩⟩
  | some slot =>
    obtain ⟨next, refs⟩ := slot
    obtain ⟨rfl, tenants, dropped, same⟩ := slot_spec found
    dsimp only
    -- the list is left as it is
    have unchanged (eq : placed post (ix.listAt (id, key)) = ix.listAt (id, key)) (other) :
        next.listAt other =
        if other = (id, key) then placed post (ix.listAt (id, key)) else ix.listAt other := by
      split
      · next at' => rw [same, at', eq]
      · exact same other
    split
    · next last => exact ⟨tenants, .inr ⟨dropped, unchanged (if_pos last)⟩⟩
    · next last =>
      split
      · exact ⟨tenants, .inl ⟨drop_droppedPostings next, same⟩⟩
      · have eq : placed post (ix.listAt (id, key)) =
            (place post (ix.listAt (id, key))).getD (ix.listAt (id, key)) := if_neg last
        cases there : place post (ix.listAt (id, key)) with
        | none =>
          rw [there] at eq
          exact ⟨tenants, .inr ⟨dropped, unchanged eq⟩⟩
        | some refs =>
          rw [there] at eq
          refine ⟨tenants, .inr ⟨dropped, fun other => ?_⟩⟩
          show ((next.postings.insert (id, key) refs).lookup other).getD [] = _
          split
          · next at' =>
            rw [at', AList.lookup_insert, eq]
            rfl
          · next elsewhere =>
            rw [AList.lookup_insert_ne elsewhere]
            exact same other

/-- The insertions of one record. -/
theorem foldl_insert_spec (keys : List CorrelationKey)
    (kept : (keys.foldl (fun ix key => ix.insert id key post) ix).droppedPostings = 0) :
    ix.droppedPostings = 0 ∧
      (keys.foldl (fun ix key => ix.insert id key post) ix).tenants = ix.tenants ∧
      ∀ other key, (keys.foldl (fun ix key => ix.insert id key post) ix).listAt (other, key) =
        if other = id then keys.foldl (fun (lists : Lists) key =>
          update lists key (placed post (lists key))) (fun key => ix.listAt (id, key)) key
        else ix.listAt (other, key) := by
  induction keys generalizing ix with
  | nil =>
    refine ⟨kept, rfl, fun other key => ?_⟩
    split
    · next eq => rw [eq]; rfl
    · rfl
  | cons first rest ih =>
    obtain ⟨dropped, tenants, lists⟩ := ih kept
    obtain ⟨tenants', ⟨lost, -⟩ | ⟨dropped', lists'⟩⟩ := insert_spec ix id first post
    · exact absurd dropped lost
    refine ⟨dropped'.symm.trans dropped, tenants.trans tenants', fun other key => ?_⟩
    rw [foldl_cons, lists other key]
    split
    · have start : (fun key => (ix.insert id first post).listAt (id, key)) =
          update (fun key => ix.listAt (id, key)) first
            (placed post (ix.listAt (id, first))) := by
        funext key
        rw [lists']
        by_cases same : key = first
        · rw [same, update_self, if_pos rfl]
        · rw [update_of_ne same, if_neg fun eq => same (Prod.mk.inj eq).2]
      rw [start, foldl_cons]
    · next ne => rw [lists', if_neg fun eq => ne (Prod.mk.inj eq).1]

theorem tenantId_grows (h : ix.tenantId tenant = (next, some id)) :
    next.droppedPostings = ix.droppedPostings ∧ ix.tenants.length ≤ next.tenants.length := by
  unfold tenantId at h
  split at h
  · cases h
    exact ⟨rfl, le_rfl⟩
  · split at h
    · cases h
    · split at h
      · cases h
        refine ⟨rfl, ?_⟩
        rw [length_append]
        exact Nat.le_add_right _ _
      · cases h

/-- The number of a tenant in a list that another one was added to. -/
theorem idxOf?_concat (tenants) (tenant other : Text) : (tenants ++ [tenant]).idxOf? other =
      (tenants.idxOf? other).or (if tenant = other then some tenants.length else none) := by
  unfold idxOf?
  rw [findIdx?_append]
  by_cases same : tenant = other
  · simp
  · rw [if_neg same, findIdx?_cons, if_neg fun eq => same (beq_iff_eq.mp eq)]
    rfl

theorem tenantId_spec (ok : ix.Ok) (h : ix.tenantId tenant = (next, some id)) :
    next.Ok ∧ next.tenants.idxOf? tenant = some id ∧
      ∀ other, next.listsOf other = ix.listsOf other := by
  unfold tenantId at h
  split at h
  · next found =>
    cases h
    exact ⟨ok, found, fun _ => rfl⟩
  · next missing =>
    split at h
    · cases h
    · split at h
      · cases h
        refine ⟨?_, ?_, fun other => ?_⟩
        · intro id key le
          rw [length_append] at le
          exact ok id key (Nat.le_of_succ_le le)
        · rw [idxOf?_concat, missing, if_pos rfl]
          rfl
        · funext key
          unfold listsOf
          dsimp only
          rw [idxOf?_concat]
          cases ix.tenants.idxOf? other with
          | some id => rfl
          | none =>
            by_cases same : tenant = other
            · rw [if_pos same]
              exact ok _ key le_rfl
            · rw [if_neg same]
              rfl
      · cases h

/-- Distinct tenants have distinct numbers. -/
theorem idxOf?_inj {tenants : List Text} (h : tenants.idxOf? tenant = some id)
    (h' : tenants.idxOf? other = some id) : tenant = other := by
  obtain ⟨lt, eq, -⟩ := idxOf?_eq_some_iff.mp h
  obtain ⟨lt', eq', -⟩ := idxOf?_eq_some_iff.mp h'
  exact eq.symm.trans eq'

section

variable (kept : (ix.indexRecord record).droppedPostings = 0)
  (few : (ix.indexRecord record).tenants.length < 2 ^ 32)
include kept few

/-- A record that is indexed without a loss has got a number for its tenant. -/
theorem tenantId_of_kept : ∃ next id, ix.tenantId record.tenant = (next, some id) ∧
      ix.indexRecord record = record.indexedKeys.foldl (fun ix key =>
        ix.insert id key ⟨record.recordRef, record.timestampUnixNanos⟩) next := by
  unfold indexRecord at kept few ⊢
  cases given : ix.tenantId record.tenant with
  | mk next id =>
    rw [given] at kept few
    cases id with
    | some id => exact ⟨next, id, rfl, rfl⟩
    | none =>
      exfalso
      unfold tenantId at given
      split at given
      · cases given
      · split at given
        · cases given
          exact drop_droppedPostings ix kept
        · split at given
          · cases given
          · next many =>
            cases given
            exact many few

theorem indexRecord_grows :
    ix.droppedPostings = 0 ∧ ix.tenants.length ≤ (ix.indexRecord record).tenants.length := by
  obtain ⟨next, id, given, eq⟩ := tenantId_of_kept kept few
  rw [eq] at kept
  obtain ⟨dropped, grows⟩ := tenantId_grows given
  obtain ⟨dropped', tenants, -⟩ := foldl_insert_spec record.indexedKeys kept
  rw [eq, tenants]
  exact ⟨dropped ▸ dropped', grows⟩

end

/-- Unless it drops a posting, a record is added to the postings of its tenant and to no others. -/
theorem indexRecord_spec (ok : ix.Ok) (kept : (ix.indexRecord record).droppedPostings = 0)
    (few : (ix.indexRecord record).tenants.length < 2 ^ 32) : (ix.indexRecord record).Ok ∧
      ∀ tenant, (ix.indexRecord record).listsOf tenant =
        (ix.listsOf tenant).after tenant (.indexed record) := by
  obtain ⟨next, id, given, eq⟩ := tenantId_of_kept kept few
  rw [eq] at kept ⊢
  obtain ⟨ok', place, same⟩ := tenantId_spec ok given
  obtain ⟨-, tenants, lists⟩ := foldl_insert_spec record.indexedKeys kept
  refine ⟨?_, fun tenant => ?_⟩
  · intro other key le
    rw [tenants] at le
    rw [lists, if_neg]
    · exact ok' other key le
    · rintro rfl
      obtain ⟨lt, -⟩ := idxOf?_eq_some_iff.mp place
      exact absurd lt (Nat.not_lt.mpr le)
  · rw [← same]
    funext key
    unfold listsOf
    rw [tenants]
    show _ = (if record.tenant = tenant then (next.listsOf tenant).add record
      else next.listsOf tenant) key
    by_cases own : record.tenant = tenant
    · have start : (fun key => next.listAt (id, key)) = next.listsOf tenant := by
        funext key
        unfold listsOf
        rw [← own, place]
      rw [if_pos own, ← own, place]
      dsimp only
      rw [lists, if_pos rfl, start, ← own]
      rfl
    · rw [if_neg own]
      unfold listsOf
      cases known : next.tenants.idxOf? tenant with
      | none => rfl
      | some other =>
        dsimp only
        rw [lists, if_neg]
        rintro rfl
        exact own (idxOf?_inj place known)

theorem retainSinceTimestamp_listAt (ix : CorrelationIndex) (cutoff : Nat)
    (lookup : Nat × CorrelationKey) : (ix.retainSinceTimestamp cutoff).listAt lookup =
      (ix.listAt lookup).filter (cutoff ≤ ·.timestampUnixNanos) := by
  have found : ∀ refs, (ix.retainSinceTimestamp cutoff).postings.lookup lookup = some refs ↔
      ∃ all, ix.postings.lookup lookup = some all ∧
        all.filter (cutoff ≤ ·.timestampUnixNanos) = refs ∧ refs ≠ [] := by
    intro refs
    have mem : ∀ (posts : AList fun _ : Nat × CorrelationKey => List CorrelationPosting) refs,
        posts.lookup lookup = some refs ↔ (⟨lookup, refs⟩ : Sigma _) ∈ posts.entries :=
      fun posts refs => mem_dlookup_iff posts.nodupKeys
    rw [mem]
    show _ ∈ ix.postings.entries.filterMap (retained cutoff) ↔ _
    rw [mem_filterMap]
    constructor
    · rintro ⟨⟨other, all⟩, member, eq⟩
      unfold retained at eq
      dsimp only at eq
      split at eq
      · cases eq
      · next some =>
        cases eq
        exact ⟨all, (mem _ _).mpr member, rfl, fun none => some (isEmpty_iff.mpr none)⟩
    · rintro ⟨all, member, rfl, some⟩
      refine ⟨⟨lookup, all⟩, (mem _ _).mp member, ?_⟩
      unfold retained
      dsimp only
      rw [if_neg fun none => some (isEmpty_iff.mp none)]
  unfold listAt
  cases kept : (ix.retainSinceTimestamp cutoff).postings.lookup lookup with
  | some refs =>
    obtain ⟨all, held, eq, -⟩ := (found refs).mp kept
    rw [held]
    exact eq.symm
  | none =>
    cases held : ix.postings.lookup lookup with
    | none => rfl
    | some all =>
      by_contra ne
      have some := (found (all.filter (cutoff ≤ ·.timestampUnixNanos))).mpr
        ⟨all, held, rfl, fun none => ne none.symm⟩
      rw [kept] at some
      cases some

/-- The lists are in order, and every posting has an origin. -/
def Holds (index : CorrelationIndex) (origin : CorrelationPosting → Prop) : Prop :=
  ∀ lookup, Increasing (index.listAt lookup) ∧ ∀ posting ∈ index.listAt lookup, origin posting

namespace Holds

variable {origin : CorrelationPosting → Prop} (h : ix.Holds origin)
include h

theorem insert (new : origin post) (id key) : (ix.insert id key post).Holds origin := by
  intro lookup
  obtain ⟨-, ⟨-, same⟩ | ⟨-, lists⟩⟩ := insert_spec ix id key post
  · rw [same]
    exact h lookup
  · rw [lists]
    split
    · exact ⟨(h _).1.placed, fun other mem => (mem_placed mem).elim (· ▸ new) ((h _).2 other)⟩
    · exact h lookup

theorem indexRecord {record : SignalRecord}
    (new : origin ⟨record.recordRef, record.timestampUnixNanos⟩) :
    (ix.indexRecord record).Holds origin := by
  have numbered : (ix.tenantId record.tenant).1.Holds origin := by
    unfold tenantId
    split
    · exact h
    · split
      · exact h
      · split <;> exact h
  unfold CorrelationIndex.indexRecord
  generalize ix.tenantId record.tenant = given at numbered
  obtain ⟨next, _ | id⟩ := given
  · exact numbered
  · exact foldlRecOn (motive := (Holds · origin)) _ _ numbered fun _ held key _ =>
      held.insert new id key

theorem retainSinceTimestamp (cutoff) : (ix.retainSinceTimestamp cutoff).Holds origin := by
  intro lookup
  rw [retainSinceTimestamp_listAt]
  exact ⟨(h lookup).1.filter _, fun post mem => (h lookup).2 post (mem_filter.mp mem).1⟩

end Holds

end CorrelationIndex

/-! ## Runs -/

/-- Nothing was dropped, and there are numbers for more tenants. -/
structure Undropped (index : CorrelationIndex) : Prop where
  dropped : index.droppedPostings = 0
  tenants : index.tenants.length < 2 ^ 32

theorem StripeState.apply_undropped (kept : Undropped (st.apply ev).correlations) :
    Undropped st.correlations := by
  cases ev with
  | logged append => exact kept
  | published block => exact kept
  | expired cutoff => exact ⟨kept.dropped, kept.tenants⟩
  | indexed record =>
    obtain ⟨dropped, grows⟩ := CorrelationIndex.indexRecord_grows kept.dropped kept.tenants
    exact ⟨dropped, Nat.lt_of_le_of_lt grows kept.tenants⟩

/-- Whatever is dropped, the postings are those of records that were indexed. -/
theorem holds_stripeOf (setting : Setting) (evs) :
    (stripeOf setting evs).correlations.Holds fun post =>
    ∃ record, .indexed record ∈ evs ∧ post = ⟨record.recordRef, record.timestampUnixNanos⟩ := by
  refine foldlRecOn (motive := fun st : StripeState => st.correlations.Holds _) _ _ ?_
    fun st held ev mem => ?_
  · exact fun _ => ⟨.nil, nofun⟩
  · cases ev with
    | logged append => exact held
    | published block => exact held
    | expired cutoff => exact held.retainSinceTimestamp cutoff
    | indexed record => exact held.indexRecord ⟨record, mem, rfl⟩

/-- What is indexed at one address has one time. -/
def Timed (events : List StripeEvent) : Prop :=
  ∀ record record', .indexed record ∈ events → .indexed record' ∈ events →
    record.recordRef = record'.recordRef → record.timestampUnixNanos = record'.timestampUnixNanos

theorem mem_listsOf (mem : post ∈ (stripeOf setting evs).correlations.listsOf tenant key) :
    ∃ record, .indexed record ∈ evs ∧ post = ⟨record.recordRef, record.timestampUnixNanos⟩ := by
  unfold CorrelationIndex.listsOf at mem
  split at mem
  · cases mem
  · exact (holds_stripeOf setting evs _).2 post mem

theorem lists_ok (timed : Timed evs) (tenant) :
    ((stripeOf setting evs).correlations.listsOf tenant).Ok where
  increasing key := by
    unfold CorrelationIndex.listsOf
    split
    · exact .nil
    · exact (holds_stripeOf setting evs _).1
  unique key key' post mem post' mem' same := by
    obtain ⟨record, indexed, rfl⟩ := mem_listsOf mem
    obtain ⟨record', indexed', rfl⟩ := mem_listsOf mem'
    rw [timed record record' indexed indexed' same,
      show record.recordRef = record'.recordRef from same]

/-- One event, unless a posting is dropped. -/
theorem StripeState.apply_lists (ok : st.correlations.Ok)
    (kept : Undropped (st.apply ev).correlations) :
    (st.apply ev).correlations.Ok ∧
      ∀ tenant, (st.apply ev).correlations.listsOf tenant =
        (st.correlations.listsOf tenant).after tenant ev := by
  cases ev with
  | logged append => exact ⟨ok, fun _ => rfl⟩
  | published block => exact ⟨ok, fun _ => rfl⟩
  | indexed record => exact CorrelationIndex.indexRecord_spec ok kept.dropped kept.tenants
  | expired cutoff =>
    refine ⟨fun id key le => ?_, fun tenant => ?_⟩
    · show (st.correlations.retainSinceTimestamp cutoff).listAt (id, key) = []
      rw [CorrelationIndex.retainSinceTimestamp_listAt, ok id key le]
      rfl
    · funext key
      show (match st.correlations.tenants.idxOf? tenant with
        | none => []
        | some id => (st.correlations.retainSinceTimestamp cutoff).listAt (id, key)) =
          (match st.correlations.tenants.idxOf? tenant with
            | none => []
            | some id => st.correlations.listAt (id, key)).filter (cutoff ≤ ·.timestampUnixNanos)
      cases st.correlations.tenants.idxOf? tenant with
      | none => rfl
      | some id => exact CorrelationIndex.retainSinceTimestamp_listAt _ _ _

/-- The postings of a tenant after a run that dropped nothing. -/
theorem listsOf_stripeOf (evs) (kept : Undropped (stripeOf setting evs).correlations) :
    (stripeOf setting evs).correlations.Ok ∧
        ∀ tenant, (stripeOf setting evs).correlations.listsOf tenant =
        evs.foldl (Lists.after tenant) fun _ => [] := by
  induction evs using reverseRecOn with
  | nil => exact ⟨fun _ _ _ => rfl, fun _ => rfl⟩
  | append_singleton evs ev ih =>
    unfold stripeOf at kept ih ⊢
    rw [foldl_append] at kept ⊢
    obtain ⟨ok, lists⟩ := ih (StripeState.apply_undropped kept)
    obtain ⟨ok', lists'⟩ := StripeState.apply_lists ok kept
    refine ⟨ok', fun tenant => ?_⟩
    rw [foldl_append, ← lists]
    exact lists' tenant

end ShardTelemetry.Correlation
