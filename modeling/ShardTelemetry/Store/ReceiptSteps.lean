import ShardTelemetry.Store.Receipts

/-!
# What the catalog does to one identifier

Pruning, persisting and opening, as far as they concern the receipt of one retry identifier: what
belongs to other identifiers never touches it, and while it is within its lifetime and the catalog
within its capacity its own receipt is neither pruned nor lost.
-/

namespace ShardTelemetry.Store

open List AppendReceiptState ReceiptDirectory

/-! ## The catalog, for one identifier -/

/-- Each complete receipt is kept under its own identifier. -/
def Keyed (receipts : AList fun _ : Nat => AppendReceiptStateEntry) : Prop :=
  ∀ id receipt, receipts.lookup id = some (.complete receipt) → receipt.requestId = id

variable {receipts : AList fun _ : Nat => AppendReceiptStateEntry}

theorem Keyed.erase (h : Keyed receipts) (id) : Keyed (receipts.erase id) := by
  intro other rcpt hget
  by_cases hother : other = id
  · subst hother
    rw [AList.lookup_erase] at hget
    cases hget
  · rw [AList.lookup_erase_ne hother] at hget
    exact h other rcpt hget

theorem Keyed.insert (h : Keyed receipts) {id : Nat}
    (hentry : ∀ rcpt, entry = .complete rcpt → rcpt.requestId = id) :
    Keyed (receipts.insert id entry) := by
  intro other rcpt hget
  by_cases hother : other = id
  · subst hother
    rw [AList.lookup_insert] at hget
    exact hentry rcpt (Option.some.inj hget)
  · rw [AList.lookup_insert_ne hother] at hget
    exact h other rcpt hget

variable {state : AppendReceiptState}

theorem Keyed.lookup_of_mem_completed (h : Keyed state.receipts) (hmem : rcpt ∈ state.completed) :
    state.receipts.lookup rcpt.requestId = some (.complete rcpt) := by
  obtain ⟨⟨id, entry⟩, hentry, hsome⟩ := mem_filterMap.mp hmem
  cases entry with
  | pending payloadDigest => cases hsome
  | complete other =>
    cases hsome
    have hget := AList.mem_lookup_iff.mpr hentry
    rw [h id rcpt hget]
    exact hget

/-- The index by time knows the identifier by its complete receipt only. -/
structure AppendReceiptState.Ok (requestId : Nat) (state : AppendReceiptState) : Prop where
  keyed : Keyed state.receipts
  timed : ∀ recordedAt, (recordedAt, requestId) ∈ state.completedByTime →
    ∃ receipt, state.receipts.lookup requestId = some (.complete receipt) ∧
      receipt.recordedAtUnixNanos = recordedAt

theorem mem_insertByTime {entry other : Nat × Nat} :
    other ∈ insertByTime entry ix ↔ other = entry ∨ other ∈ ix := by
  unfold insertByTime
  split
  · constructor
    · exact .inr
    · rintro (rfl | h)
      · assumption
      · exact h
  · exact mem_orderedInsert _

/-- A receipt is completed: it is kept, and the index by time knows it. -/
theorem AppendReceiptState.Ok.insert_complete (hok : state.Ok rid) (rcpt) (hkeyed : Keyed receipts)
    (hsame : rid ≠ rcpt.requestId → receipts.lookup rid = state.receipts.lookup rid)
    (hnew : ∀ other, state.receipts.lookup rcpt.requestId ≠ some (.complete other)) :
    Ok rid ⟨receipts.insert rcpt.requestId (.complete rcpt),
      insertByTime (rcpt.recordedAtUnixNanos, rcpt.requestId) state.completedByTime⟩ := by
  refine ⟨hkeyed.insert (by rintro _ ⟨⟩; rfl), fun when hmem => ?_⟩
  by_cases heq : rid = rcpt.requestId
  · subst heq
    refine ⟨rcpt, AList.lookup_insert _, ?_⟩
    rcases mem_insertByTime.mp hmem with hentry | hold
    · exact (Prod.mk.inj hentry).1.symm
    · obtain ⟨other, hget, -⟩ := hok.timed when hold
      exact absurd hget (hnew other)
  · rcases mem_insertByTime.mp hmem with hentry | hold
    · exact absurd (Prod.mk.inj hentry).2 heq
    · rw [AList.lookup_insert_ne heq, hsame heq]
      exact hok.timed when hold

namespace ReceiptDirectory

/-- Two directories hold the same for an identifier. -/
structure Agrees (requestId : Nat) (directory directory' : ReceiptDirectory) : Prop where
  files : ofRequest requestId directory'.files = ofRequest requestId directory.files
  synced : ofRequest requestId directory'.synced = ofRequest requestId directory.synced ∨
    ofRequest requestId directory'.synced = ofRequest requestId directory.files
  legacy : directory'.legacy = directory.legacy

theorem Agrees.refl (dir) : Agrees rid dir dir :=
  ⟨rfl, .inl rfl, rfl⟩

theorem Agrees.trans {first second third : ReceiptDirectory} (h : Agrees rid first second)
    (h' : Agrees rid second third) : Agrees rid first third := by
  refine ⟨h'.files.trans h.files, ?_, h'.legacy.trans h.legacy⟩
  rcases h'.synced with hsync | hsync
  · rw [hsync]
    exact h.synced
  · rw [hsync, h.files]
    exact .inr rfl

/-- Files chosen by their identifier. -/
theorem ofRequest_filter (kept : Nat → Bool) (files : List PersistedAppendReceipt) :
    ofRequest rid (files.filter (kept ·.requestId)) = if kept rid then ofRequest rid files
      else [] := by
  unfold ofRequest
  rw [filter_filter]
  split
  · rename_i hkept
    refine filter_congr fun rcpt _ => ?_
    by_cases heq : rcpt.requestId = rid
    · simp [heq, hkept]
    · simp [heq]
  · rename_i hkept
    rw [filter_eq_nil_iff]
    intro rcpt _
    by_cases heq : rcpt.requestId = rid
    · simp [heq, hkept]
    · simp [heq]

theorem ofRequest_filter_ne (h : rid ≠ other) (files) :
    ofRequest rid (files.filter (·.requestId ≠ other)) = ofRequest rid files := by
  rw [ofRequest_filter (· ≠ other), if_pos (by simpa using h)]

theorem ofRequest_cons_of_ne (h : rcpt.requestId ≠ rid) (files) :
    ofRequest rid (rcpt :: files) = ofRequest rid files := by
  simp [ofRequest, h]

/-- Removing the file of another identifier. -/
theorem remove_agrees (io) (h : rid ≠ other) (dir) : Agrees rid dir (dir.remove io other).2 := by
  unfold remove
  split
  · exact ⟨ofRequest_filter_ne h _, .inl rfl, rfl⟩
  · exact .refl dir

/-- Writing the file of another identifier. -/
theorem persistReceipt_agrees (io) (h : rcpt.requestId ≠ rid) (dir) :
    Agrees rid dir (dir.persistReceipt io rcpt).2 := by
  have hfiles : ofRequest rid (rcpt :: dir.files.filter (·.requestId ≠ rcpt.requestId)) =
        ofRequest rid dir.files := by
    rw [ofRequest_cons_of_ne h, ofRequest_filter_ne (Ne.symm h)]
  unfold persistReceipt
  split
  · exact ⟨hfiles, .inr hfiles, rfl⟩
  · split
    · exact ⟨hfiles, .inl rfl, rfl⟩
    · exact .refl dir

/-- Writing the missing files does not touch an identifier that has its file, or none to write. -/
theorem persistMissing_agrees {receipts : List PersistedAppendReceipt}
    (h : ∀ rcpt ∈ receipts, rcpt.requestId = rid → ofRequest rid dir.files ≠ []) :
    Agrees rid dir (persistMissing io receipts dir).2 := by
  induction receipts generalizing dir with
  | nil => exact .refl dir
  | cons rcpt rest ih =>
    obtain ⟨hfirst, hrest⟩ := forall_mem_cons.mp h
    unfold persistMissing
    split
    · rename_i hmissing
      have hne : rcpt.requestId ≠ rid := by
        intro heq
        refine hfirst heq ?_
        rwa [heq] at hmissing
      have hagree := persistReceipt_agrees io hne dir
      cases hpersist : dir.persistReceipt io rcpt with
      | mk res dir' =>
        rw [hpersist] at hagree
        cases res with
        | error error => exact hagree
        | ok => exact hagree.trans (ih (by rw [hagree.files]; exact hrest))
    · exact ih hrest

end ReceiptDirectory

open ReceiptDirectory (ofRequest Agrees)

/-- Pruning spares an identifier that is within its lifetime, as long as the catalog is within its
capacity. -/
theorem pruneLoop_spares {maximum : Nat} (hkeyed : Keyed receipts)
    (hlen : ix.length ≤ maximum) (htimes : ∀ when, (when, rid) ∈ ix → cutoff ≤ when)
    (h : pruneLoop io cutoff maximum ix receipts dir = (res, state, dir')) :
    state.receipts.lookup rid = receipts.lookup rid ∧ Keyed state.receipts ∧
      (∀ entry ∈ state.completedByTime, entry ∈ ix) ∧ Agrees rid dir dir' := by
  induction ix generalizing receipts dir with
  | nil =>
    cases h
    exact ⟨rfl, hkeyed, fun _ h => h, .refl _⟩
  | cons entry rest ih =>
    obtain ⟨when, other⟩ := entry
    simp only [length_cons] at hlen
    unfold pruneLoop at h
    split at h
    · have hexpired : when < cutoff := by omega
      -- the first entry has expired, so it is not the one of this identifier
      have hother : rid ≠ other := by
        rintro rfl
        have hle := htimes when mem_cons_self
        omega
      have herase : (receipts.erase other).lookup rid = receipts.lookup rid :=
        AList.lookup_erase_ne hother
      split at h
      · rename_i rcpt hget
        have hrcpt : rcpt.requestId = other := hkeyed other rcpt hget
        have hagree := remove_agrees io (hrcpt ▸ hother) dir
        cases hremove : dir.remove io rcpt.requestId with
        | mk removed directory'' =>
          rw [hremove] at h hagree
          cases removed with
          | error error =>
            cases h
            exact ⟨herase, hkeyed.erase other, fun _ h => .tail _ h, hagree⟩
          | ok =>
            obtain ⟨hsame, hkeyed', hindex, hagrees'⟩ := ih (hkeyed.erase other) (by omega)
              (fun time hmem => htimes time (.tail _ hmem)) h
            exact ⟨hsame.trans herase, hkeyed', fun entry hmem => .tail _ (hindex entry hmem),
              hagree.trans hagrees'⟩
      · cases h
        exact ⟨herase, hkeyed.erase other, fun _ h => .tail _ h, .refl _⟩
    · cases h
      exact ⟨rfl, hkeyed, fun _ h => h, .refl _⟩

/-- Pruning spares the identifier. -/
theorem AppendReceiptState.Ok.prune {maximum : Nat} {dir : ReceiptDirectory} (hok : state.Ok rid)
    (hlen : state.completedByTime.length ≤ maximum)
    (htimes : ∀ when, (when, rid) ∈ state.completedByTime → cutoff ≤ when)
    (h : state.pruneLocked io cutoff maximum dir = (res, state', dir')) :
    state'.Ok rid ∧ state'.receipts.lookup rid = state.receipts.lookup rid ∧
      Agrees rid dir dir' := by
  obtain ⟨hsame, hkeyed, hkept, hagree⟩ := pruneLoop_spares hok.keyed hlen htimes h
  refine ⟨⟨hkeyed, fun when hmem => ?_⟩, hsame, hagree⟩
  rw [hsame]
  exact hok.timed when (hkept _ hmem)

theorem length_insertByTime_le (entry) (ix) : (insertByTime entry ix).length ≤ ix.length + 1 := by
  unfold insertByTime
  split
  · omega
  · exact (orderedInsert_length ..).le

/-- Recovering receipts finds the one of the identifier, unless it is already there. -/
theorem insertRecovered_lookup {receipts : List PersistedAppendReceipt} (hok : state.Ok rid)
    (h : receipts.foldlM insertRecovered state = .ok state') : state'.Ok rid ∧
      state'.completedByTime.length ≤ state.completedByTime.length + receipts.length ∧
        state'.receipts.lookup rid =
        (state.receipts.lookup rid).or ((ofRequest rid receipts).head?.map .complete) := by
  induction receipts generalizing state with
  | nil =>
    cases h
    exact ⟨hok, le_rfl, by simp [ofRequest]⟩
  | cons rcpt rest ih =>
    rw [foldlM_cons] at h
    unfold insertRecovered at h
    by_cases hmem : rcpt.requestId ∈ state.receipts
    · rw [if_pos hmem] at h
      cases h
    · rw [if_neg hmem] at h
      have hnone : state.receipts.lookup rcpt.requestId = none := AList.lookup_eq_none.mpr hmem
      obtain ⟨hok', hle, hget⟩ :=
        ih (hok.insert_complete rcpt hok.keyed (fun _ => rfl) (by simp [hnone])) h
      have hinsert :=
        length_insertByTime_le (rcpt.recordedAtUnixNanos, rcpt.requestId) state.completedByTime
      refine ⟨hok', by simp only [length_cons] at *; omega, hget.trans ?_⟩
      by_cases heq : rcpt.requestId = rid
      · subst heq
        rw [AList.lookup_insert, hnone]
        simp [ofRequest]
      · rw [AList.lookup_insert_ne (Ne.symm heq), ofRequest_cons_of_ne heq]

theorem AppendReceiptState.empty_ok (rid) : empty.Ok rid :=
  ⟨nofun, nofun⟩

/-- The receipts start-up reads are, for an identifier the older journal does not know, those of its
file. -/
theorem ReceiptDirectory.recovered_ofRequest {dir : ReceiptDirectory}
    {receipts : List PersistedAppendReceipt} (h : dir.recovered = .ok receipts)
    (hlegacy : ∀ ver old, dir.legacy = some (ver, old) → ofRequest rid old = []) :
    ofRequest rid receipts = ofRequest rid dir.files := by
  unfold recovered at h
  split at h
  · rename_i ver old hfiles hold
    split at h
    · cases h
      rw [hlegacy ver _ hold, hfiles]
      rfl
    · cases h
  · cases h
    rfl

/-- Opening the catalog finds the receipt of an identifier that is within its lifetime. -/
theorem openCatalog_finds {now : Nat} {dir dir' : ReceiptDirectory}
    (h : dir.openCatalog io now = (res, dir'))
    (hlegacy : ∀ ver old, dir.legacy = some (ver, old) → ofRequest rid old = [])
    (hwindow : ∀ receipts, dir.recovered = .ok receipts →
      receipts.length ≤ maxNativeAppendReceipts ∧ ∀ rcpt ∈ receipts, rcpt.requestId = rid →
          now - nativeAppendReceiptRetention ≤ rcpt.recordedAtUnixNanos) :
    Agrees rid dir dir' ∧ ∀ state, res = .ok state →
      state.Ok rid ∧ state.receipts.lookup rid = (ofRequest rid dir.files).head?.map .complete := by
  unfold openCatalog at h
  cases hback : dir.recovered with
  | error error =>
    rw [hback] at h
    cases h
    exact ⟨.refl dir, nofun⟩
  | ok receipts =>
    obtain ⟨hlen, hlife⟩ := hwindow receipts hback
    have hfiles := recovered_ofRequest hback hlegacy
    rw [hback] at h
    simp only [Except.bind] at h
    cases hinserted : receipts.foldlM insertRecovered .empty with
    | error error =>
      rw [hinserted] at h
      cases h
      exact ⟨.refl dir, nofun⟩
    | ok state =>
      rw [hinserted] at h
      simp only at h
      obtain ⟨hok, hindex, hget⟩ := insertRecovered_lookup (empty_ok rid) hinserted
      rw [hfiles, empty, AList.lookup_empty, Option.none_or] at hget
      have htimes : ∀ when, (when, rid) ∈ state.completedByTime →
          now - nativeAppendReceiptRetention ≤ when := by
        intro when hmem
        obtain ⟨rcpt, hrcpt, rfl⟩ := hok.timed when hmem
        rw [hget, ← hfiles] at hrcpt
        obtain ⟨found, hhead, hfound⟩ := Option.map_eq_some_iff.mp hrcpt
        cases hfound
        have hmem' := mem_filter.mp (mem_of_mem_head? hhead)
        exact hlife rcpt hmem'.1 (by simpa using hmem'.2)
      cases hprune : state.pruneLocked io (now - nativeAppendReceiptRetention)
          maxNativeAppendReceipts dir with
      | mk pruned rest =>
        obtain ⟨state', directory''⟩ := rest
        obtain ⟨hok', hsame, hagree⟩ :=
          hok.prune (hindex.trans (by simpa [empty] using hlen)) htimes hprune
        rw [hprune] at h
        cases pruned with
        | error error =>
          cases h
          exact ⟨hagree, nofun⟩
        | ok =>
          simp only at h
          -- the file of the identifier is there if its receipt is complete
          have hmissing :
              Agrees rid directory'' (persistMissing io state'.completed directory'').2 := by
            refine persistMissing_agrees fun rcpt hmem heq => ?_
            rw [hagree.files]
            intro hempty
            have hcomplete := hok'.keyed.lookup_of_mem_completed hmem
            rw [heq, hsame, hget, hempty] at hcomplete
            cases hcomplete
          cases hpersist : persistMissing io state'.completed directory'' with
          | mk persisted wrote =>
            rw [hpersist] at h hmissing
            cases persisted with
            | error error =>
              cases h
              exact ⟨hagree.trans hmissing, nofun⟩
            | ok =>
              cases h
              refine ⟨hagree.trans hmissing, fun state hstate => ?_⟩
              cases hstate
              exact ⟨hok', hsame.trans hget⟩

/-! ## Reserving, completing and giving up -/

namespace AppendReceiptState

variable {dir dir' : ReceiptDirectory}

/-- Changing the entry of another identifier. -/
theorem Ok.of_lookup (hok : state.Ok rid) (hkeyed : Keyed receipts)
    (hget : receipts.lookup rid = state.receipts.lookup rid) : Ok rid { state with receipts } := by
  refine ⟨hkeyed, fun when hmem => ?_⟩
  rw [hget]
  exact hok.timed when hmem

/-- What is known before `reserve` looks for room: pruning will spare the identifier. -/
def RoomFor (requestId now key : Nat) (state : AppendReceiptState) : Prop :=
  state.receipts.lookup key = none →
    state.completedByTime.length < maxNativeAppendReceipts ∧
      ∀ recordedAt, (recordedAt, requestId) ∈ state.completedByTime →
        now - nativeAppendReceiptRetention ≤ recordedAt

section

variable (hok : state.Ok rid)
include hok

/-- A reservation of another identifier. -/
theorem Ok.reserve_other {res : Except LokiApiError Reservation}
    (hne : rid ≠ other) (hroom : RoomFor rid now other state)
    (h : state.reserve io now other payloadDigest dir = (res, state', dir')) :
    state'.Ok rid ∧ state'.receipts.lookup rid = state.receipts.lookup rid ∧
      Agrees rid dir dir' := by
  unfold reserve at h
  split at h
  · split at h <;> (cases h; exact ⟨hok, rfl, .refl _⟩)
  · split at h <;> (cases h; exact ⟨hok, rfl, .refl _⟩)
  · rename_i hnone
    obtain ⟨hlen, htimes⟩ := hroom hnone
    split at h
    · rename_i hprune
      cases h
      exact hok.prune (Nat.le_sub_one_of_lt hlen) htimes hprune
    · rename_i pruned _ hprune
      obtain ⟨hok', hsame, hagree⟩ := hok.prune (Nat.le_sub_one_of_lt hlen) htimes hprune
      split at h
      · cases h
        exact ⟨hok', hsame, hagree⟩
      · cases h
        have hinsert : (pruned.receipts.insert other (.pending payloadDigest)).lookup rid =
            pruned.receipts.lookup rid := AList.lookup_insert_ne hne
        exact ⟨hok'.of_lookup (hok'.keyed.insert nofun) hinsert,
          hinsert.trans hsame, hagree⟩

/-- A reservation of the identifier finds the receipt, holds the identifier from now on, waits for
the call that holds it, or fails. -/
theorem Ok.reserve_self {res : Except LokiApiError Reservation} (hroom : RoomFor rid now rid state)
    (h : state.reserve io now rid payloadDigest dir = (res, state', dir')) :
    state'.Ok rid ∧ Agrees rid dir dir' ∧
      ((∃ rcpt, state.receipts.lookup rid = some (.complete rcpt) ∧
          rcpt.payloadDigest = payloadDigest ∧ res = .ok (.existing rcpt.acknowledgement) ∧
          state'.receipts.lookup rid = state.receipts.lookup rid) ∨
        (res = .ok .reserved ∧ state.receipts.lookup rid = none ∧
          state'.receipts.lookup rid = some (.pending payloadDigest)) ∨
        (res = .ok .waits ∧ state'.receipts.lookup rid = state.receipts.lookup rid) ∨
        ∃ error, res = .error error ∧ state'.receipts.lookup rid = state.receipts.lookup rid ∧
          ∀ rcpt, state.receipts.lookup rid = some (.complete rcpt) →
            rcpt.payloadDigest ≠ payloadDigest) := by
  unfold reserve at h
  split at h
  · rename_i rcpt hget
    split at h
    · rename_i hdig
      cases h
      refine ⟨hok, .refl _, .inr (.inr (.inr ⟨_, rfl, rfl, fun other hother => ?_⟩))⟩
      rw [hget] at hother
      cases hother
      exact hdig
    · rename_i hdig
      cases h
      exact ⟨hok, .refl _, .inl ⟨rcpt, hget, not_not.mp hdig, rfl, rfl⟩⟩
  · rename_i pendingDigest hget
    split at h
    · cases h
      exact ⟨hok, .refl _, .inr (.inr (.inr ⟨_, rfl, rfl, by simp [hget]⟩))⟩
    · cases h
      exact ⟨hok, .refl _, .inr (.inr (.inl ⟨rfl, rfl⟩))⟩
  · rename_i hnone
    obtain ⟨hlen, htimes⟩ := hroom hnone
    split at h
    · rename_i hprune
      cases h
      obtain ⟨hok', hsame, hagree⟩ := hok.prune (Nat.le_sub_one_of_lt hlen) htimes hprune
      exact ⟨hok', hagree, .inr (.inr (.inr ⟨_, rfl, hsame, by simp [hnone]⟩))⟩
    · rename_i pruned _ hprune
      obtain ⟨hok', hsame, hagree⟩ := hok.prune (Nat.le_sub_one_of_lt hlen) htimes hprune
      split at h
      · cases h
        exact ⟨hok', hagree, .inr (.inr (.inr ⟨_, rfl, hsame, by simp [hnone]⟩))⟩
      · cases h
        refine ⟨⟨hok'.keyed.insert nofun, ?_⟩, hagree,
          .inr (.inl ⟨rfl, hnone, AList.lookup_insert _⟩)⟩
        -- the index by time does not know an identifier without a receipt
        intro when hmem
        obtain ⟨rcpt, hget, -⟩ := hok'.timed when hmem
        rw [hsame, hnone] at hget
        cases hget

/-- Completing the receipt of another identifier. -/
theorem Ok.completeLocked_other (rcpt) (hne : rid ≠ rcpt.requestId) :
    (state.completeLocked rcpt).2.Ok rid ∧
      (state.completeLocked rcpt).2.receipts.lookup rid = state.receipts.lookup rid := by
  have herase : (state.receipts.erase rcpt.requestId).lookup rid =
      state.receipts.lookup rid := AList.lookup_erase_ne hne
  unfold completeLocked
  split
  · have hinsert : ((state.receipts.erase rcpt.requestId).insert rcpt.requestId
        (.complete rcpt)).lookup rid = state.receipts.lookup rid :=
      (AList.lookup_insert_ne hne).trans herase
    exact ⟨hok.insert_complete rcpt (hok.keyed.erase _) (fun _ => herase) (by simp [*]), hinsert⟩
  · exact ⟨hok.of_lookup (hok.keyed.erase _) herase, herase⟩
  · exact ⟨hok.of_lookup (hok.keyed.erase _) herase, herase⟩

/-- Completing the receipt of an identifier that is reserved. -/
theorem Ok.completeLocked_self {rcpt : PersistedAppendReceipt} (hrcpt : rcpt.requestId = rid)
    (hpend : state.receipts.lookup rid = some (.pending payloadDigest)) :
    (state.completeLocked rcpt).1 = .ok () ∧ (state.completeLocked rcpt).2.Ok rid ∧
      (state.completeLocked rcpt).2.receipts.lookup rid = some (.complete rcpt) := by
  subst hrcpt
  unfold completeLocked
  rw [hpend]
  simp only
  exact ⟨trivial, hok.insert_complete rcpt (hok.keyed.erase _) (absurd rfl) (by simp [hpend]),
    AList.lookup_insert _⟩

/-- Giving up the reservation of another identifier. -/
theorem Ok.abandon_other (hne : rid ≠ other) :
    (state.abandon other).Ok rid ∧
      (state.abandon other).receipts.lookup rid = state.receipts.lookup rid := by
  unfold abandon
  split
  · have herase : (state.receipts.erase other).lookup rid = state.receipts.lookup rid :=
      AList.lookup_erase_ne hne
    exact ⟨hok.of_lookup (hok.keyed.erase _) herase, herase⟩
  · exact ⟨hok, rfl⟩

/-- Giving up a reservation. -/
theorem Ok.abandon_self (hpend : state.receipts.lookup rid = some (.pending payloadDigest)) :
    (state.abandon rid).Ok rid ∧ (state.abandon rid).receipts.lookup rid = none := by
  unfold abandon
  rw [hpend]
  refine ⟨⟨hok.keyed.erase _, fun when hmem => ?_⟩, AList.lookup_erase _ _⟩
  obtain ⟨_, hget, -⟩ := hok.timed when hmem
  rw [hpend] at hget
  cases hget

end

end AppendReceiptState

namespace ReceiptDirectory

variable {dir : ReceiptDirectory}

/-- A crash keeps the file of an identifier that is synced. -/
theorem crash_ofRequest (kept : Nat → Bool)
    (h : ofRequest rid dir.synced = ofRequest rid dir.files) :
    ofRequest rid (dir.crash kept).files = ofRequest rid dir.files := by
  have happ : ofRequest rid (dir.crash kept).files =
      ofRequest rid (dir.files.filter (kept ·.requestId)) ++
        ofRequest rid (dir.synced.filter (!kept ·.requestId)) := filter_append ..
  rw [happ, ofRequest_filter, ofRequest_filter fun id => !kept id, h]
  cases kept rid <;> simp

/-- Writing the file of an identifier. -/
theorem persistReceipt_self (hdone : io.persists rcpt.requestId = .done) :
    ∃ files, dir.persistReceipt io rcpt = (.ok (), { dir with files, synced := files }) ∧
      ofRequest rcpt.requestId files = [rcpt] :=
  ⟨_, by rw [persistReceipt, hdone], by simp [ofRequest]⟩

end ReceiptDirectory

end ShardTelemetry.Store
