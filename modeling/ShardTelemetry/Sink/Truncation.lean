import ShardTelemetry.Sink.Recovery

/-!
# A journal with a truncated tail

`append` takes any transaction its caller hands over; it does not compare the physical shard of the
appends with the one the journal belongs to, while `open` does.  `JournalRun` is the life of one
journal file: it is created, appended to, cut at any byte behind its header and opened again.  The
frames are recovered from every cut exactly if none of them holds an append of another shard.
-/

namespace ShardTelemetry.Sink

open Bytes List SinkJournal JournalCall

/-! ## Frames that were written -/

/-- A frame that `append` wrote, with the transaction it was called with. -/
structure WrittenFrame where
  call : JournalCall
  payload : List UInt8
  encodes : encodeTransaction call.expected call.appends call.next = .ok payload

/-- What is read back of a written frame. -/
def WrittenFrame.recovered (self : WrittenFrame) : RecoveredTransaction := self.call.recovered

/-- The bytes of some frames, one after the other. -/
def writtenFrames (hash : Hash) (written : List WrittenFrame) : List UInt8 :=
  written.flatMap fun entry => frame hash entry.payload

/-- The first `kept` frames are those that are complete within the first `count` bytes. -/
structure Longest (hash : Hash) (written : List WrittenFrame) (count kept : Nat) : Prop where
  le : kept ≤ written.length
  complete : (writtenFrames hash (written.take kept)).length ≤ count
  longest : ∀ more, kept < more → more ≤ written.length →
    count < (writtenFrames hash (written.take more)).length

/-- Each transaction continues what the ones before it left. -/
def Follows [StreamEngine] : Checkpoints → List RecoveredTransaction → Prop
  | _, [] => True
  | checkpoints, transaction :: rest =>
    checkpointAllowsLaneGap (checkpoints.actual transaction.partition) transaction.expected = true ∧
      Follows (checkpoints.insert transaction.next) rest

theorem Follows.append_iff [StreamEngine] {checkpoints : Checkpoints} :
      Follows checkpoints (txs ++ rest) ↔
      Follows checkpoints txs ∧ Follows (checkpoints.insertAll (txs.map (·.next))) rest := by
  induction txs generalizing checkpoints with
  | nil => simp [Follows, Checkpoints.insertAll]
  | cons tx txs ih =>
    simp only [cons_append, Follows, ih, map_cons, Checkpoints.insertAll, foldl_cons, and_assoc]

section Frames

variable {hash : Hash}

theorem WrittenFrame.length_pos (entry : WrittenFrame) : 0 < entry.payload.length :=
  (length_of_encode entry.encodes).1

theorem WrittenFrame.length_le (entry : WrittenFrame) : entry.payload.length ≤ maxFrameBytes :=
  (length_of_encode entry.encodes).2

theorem writtenFrames_cons (entry : WrittenFrame) (wrote : List WrittenFrame) :
    writtenFrames hash (entry :: wrote) =
      frame hash entry.payload ++ writtenFrames hash wrote := rfl

/-- Only one number of frames is the longest. -/
theorem Longest.unique {count kept kept' : Nat} (h : Longest hash wrote count kept)
    (h' : Longest hash wrote count kept') : kept = kept' := by
  rcases Nat.lt_trichotomy kept kept' with hlt | heq | hlt
  · exact absurd (h.longest kept' hlt h'.le) (Nat.not_lt.mpr h'.complete)
  · exact heq
  · exact absurd (h'.longest kept hlt h.le) (Nat.not_lt.mpr h.complete)

/-- What is left behind the last complete frame: nothing, or a part of the next frame. -/
def CutFrame (hash : Hash) (tail : List UInt8) : Prop :=
  tail = [] ∨ ∃ (entry : WrittenFrame) (count : Nat),
    count < (frame hash entry.payload).length ∧ tail = (frame hash entry.payload).take count

/-- The frames cut at any byte: the complete ones, and a part of the next one. -/
theorem writtenFrames_take (hash) (wrote) (count) :
    ∃ kept tail, Longest hash wrote count kept ∧ CutFrame hash tail ∧
        (writtenFrames hash wrote).take count = writtenFrames hash (wrote.take kept) ++ tail := by
  obtain ⟨kept, tail, ⟨hle, hcomplete, hlong⟩, htail, htake⟩ :=
    Bytes.exists_take_flatMap (fun entry => frame hash entry.payload) wrote count
  exact ⟨kept, tail, ⟨hle, hcomplete, hlong⟩, htail, htake⟩

/-! ## Reading them back -/

variable {tail : List UInt8} {checkpoints : Checkpoints}

theorem recoverFrames_cut (h : CutFrame hash tail) (fuel pos : Nat) (checkpoints : Checkpoints) :
    recoverFrames hash shardId fuel pos tail checkpoints = .ok ([], pos) := by
  rcases h with rfl | ⟨entry, count, hcount, rfl⟩
  · cases fuel <;> rfl
  · exact recoverFrames_take entry.length_pos entry.length_le hcount fuel pos checkpoints

/-- Frames whose appends all belong to the shard are read back. -/
theorem recoverFrames_written [StreamEngine] (htail : CutFrame hash tail) (fuel pos : Nat)
    (hfuel : (writtenFrames hash wrote).length < fuel)
    (hfollows : Follows checkpoints (wrote.map WrittenFrame.recovered))
    (howned : ∀ entry ∈ wrote, entry.call.Owned shardId) :
    recoverFrames hash shardId fuel pos (writtenFrames hash wrote ++ tail) checkpoints =
      .ok (wrote.map WrittenFrame.recovered, pos + (writtenFrames hash wrote).length) := by
  induction wrote generalizing fuel pos checkpoints with
  | nil => exact recoverFrames_cut htail fuel pos checkpoints
  | cons entry wrote ih =>
    obtain ⟨hgap, hrest⟩ := hfollows
    rw [writtenFrames_cons, length_append, length_frame] at hfuel
    cases fuel with
    | zero => omega
    | succ fuel =>
      have hdecode : decodeTransaction entry.payload shardId = .ok entry.recovered :=
        decode_encode (howned entry mem_cons_self) entry.encodes
      have hloop := ih fuel (pos + (frame hash entry.payload).length) (by omega) hrest
        (forall_mem_cons.mp howned).2
      rw [writtenFrames_cons, append_assoc,
        recoverFrames_step entry.length_pos entry.length_le, hdecode]
      simp only [bind, Except.bind, ensure, not_regressed hgap, if_true, hloop, length_append,
        map_cons, ← Nat.add_assoc]
      rfl

/-- An append that is read back belongs to the shard of the journal. -/
theorem readAppend_eq_ok {append : DurableAppend} (hrange : append.physicalShardId < 2 ^ 32)
    (h : readAppend shardId part (appendBytes append ++ rest) = .ok res) :
    append.physicalShardId = shardId := by
  unfold readAppend appendBytes at h
  simp only [append_assoc] at h
  rw [(reads_readUint (by simpa using hrange)).bind_apply] at h
  exact of_decide_eq_true (Reads.require_bind_eq_ok h).1

theorem many_readAppend_eq_ok {appends : List DurableAppend} (hrange : ∀ append ∈ appends,
      append.physicalShardId < 2 ^ 32 ∧ append.reservation.firstOffset < 2 ^ 64)
    (hlengths : ∀ append ∈ appends, append.payload.length < 2 ^ 32)
    (h : many (readAppend shardId part) appends.length (appends.flatMap appendBytes ++ rest) =
      .ok res) : ∀ append ∈ appends, append.physicalShardId = shardId := by
  induction appends generalizing res with
  | nil => simp
  | cons append appends ih =>
    rw [flatMap_cons, append_assoc] at h
    obtain ⟨first, hfirst, h⟩ := bind_eq_ok.mp h
    obtain ⟨others, hoth, -⟩ := bind_eq_ok.mp h
    obtain ⟨hshard, hoffset⟩ := hrange append List.mem_cons_self
    have howned := readAppend_eq_ok hshard hfirst
    rw [reads_readAppend howned (howned ▸ hshard) hoffset (hlengths append List.mem_cons_self)]
      at hfirst
    cases hfirst
    exact forall_mem_cons.mpr
      ⟨howned, ih (forall_mem_cons.mp hrange).2 (forall_mem_cons.mp hlengths).2 hoth⟩

/-- A transaction that is read back belongs to the shard of the journal. -/
theorem WrittenFrame.owned_of_decode (entry : WrittenFrame) {tx : RecoveredTransaction}
    (h : decodeTransaction entry.payload shardId = .ok tx) : entry.call.Owned shardId := by
  obtain ⟨-, hlt, hlengths, hpayload, -⟩ := encode_eq_ok entry.encodes
  obtain ⟨res, hread, -⟩ := bind_eq_ok.mp h
  rw [hpayload] at hread
  unfold readTransaction at hread
  rw [(reads_readCheckpoint entry.call.expected_inRange).bind_apply,
    (reads_readCheckpoint entry.call.next_inRange).bind_apply] at hread
  have hcount := (Reads.require_bind_eq_ok hread).2
  rw [(reads_readUint (by simpa using hlt)).bind_apply] at hcount
  obtain ⟨appends, hmany, -⟩ := bind_eq_ok.mp hcount
  rw [← append_nil (entry.call.appends.flatMap appendBytes)] at hmany
  exact many_readAppend_eq_ok entry.call.appends_inRange hlengths hmany

/-- Frames that are read back belong to the shard of the journal. -/
theorem owned_of_recoverFrames (hfuel : (writtenFrames hash wrote).length < fuel)
    (h : recoverFrames hash shardId fuel pos (writtenFrames hash wrote ++ tail) checkpoints =
      .ok res) : ∀ entry ∈ wrote, entry.call.Owned shardId := by
  induction wrote generalizing fuel pos checkpoints res with
  | nil => simp
  | cons entry wrote ih =>
    rw [writtenFrames_cons, length_append, length_frame] at hfuel
    cases fuel with
    | zero => omega
    | succ fuel =>
      rw [writtenFrames_cons, append_assoc, recoverFrames_step entry.length_pos entry.length_le]
        at h
      obtain ⟨tx, hdecode, h⟩ := bind_eq_ok.mp h
      obtain ⟨_, -, h⟩ := bind_eq_ok.mp h
      obtain ⟨_, hloop, -⟩ := bind_eq_ok.mp h
      exact forall_mem_cons.mpr ⟨entry.owned_of_decode hdecode, ih (by omega) hloop⟩

end Frames

/-! ## Runs of a journal -/

section Run

variable (hash : Hash) (shardId maxBytes : Nat) (syncEachAppend : Bool)

/-- The life of a journal file, with the frames that are in it. -/
inductive JournalRun [StreamEngine] : SinkJournal → List WrittenFrame → Prop
  | /-- The file is created. -/
    create {journal : SinkJournal} {transactions : List RecoveredTransaction} :
      openFile hash [] shardId maxBytes syncEachAppend = .ok (journal, transactions) →
      JournalRun journal []
  | /-- An append succeeds without a write: its checkpoint is covered. -/
    covered {journal journal' : SinkJournal} {written : List WrittenFrame} {io : JournalIo}
      (call : JournalCall) : JournalRun journal written →
      checkpointCovers (journal.checkpoints.actual call.expected.topicPartition) call.next = true →
      journal.append hash io call.expected call.appends call.next = (.ok (), journal') →
      JournalRun journal' written
  | /-- An append succeeds and writes a frame. -/
    append {journal journal' : SinkJournal} {written : List WrittenFrame} {io : JournalIo}
      (entry : WrittenFrame) : JournalRun journal written →
      checkpointCovers (journal.checkpoints.actual entry.call.expected.topicPartition)
        entry.call.next = false →
      journal.append hash io entry.call.expected entry.call.appends entry.call.next =
        (.ok (), journal') →
      JournalRun journal' (written ++ [entry])
  | /-- The file is cut behind its header and opened again. -/
    reopen {journal journal' : SinkJournal} {written : List WrittenFrame} {count kept : Nat}
      {transactions : List RecoveredTransaction} : JournalRun journal written →
      magic.length ≤ count → Longest hash written (count - magic.length) kept →
      openFile hash (journal.file.contents.take count) shardId maxBytes syncEachAppend =
        .ok (journal', transactions) →
      JournalRun journal' (written.take kept)

/-- What a journal remembers of the frames in its file. -/
structure SinkJournal.Keeps [StreamEngine] (journal : SinkJournal) (written : List WrittenFrame) :
    Prop where
  contents : journal.file.contents = magic ++ writtenFrames hash written
  bytes : journal.bytes = journal.file.contents.length
  fits : journal.bytes ≤ maxBytes
  maxBytes : journal.maxBytes = maxBytes
  checkpoints : journal.checkpoints = lastCheckpoints (written.map WrittenFrame.recovered)
  follows : Follows (fun _ => none) (written.map WrittenFrame.recovered)

/-- The journal over the complete frames of a file. -/
def SinkJournal.reopened (written : List WrittenFrame) : SinkJournal where
  maxBytes
  syncEachAppend
  file := ⟨magic ++ writtenFrames hash written, (magic ++ writtenFrames hash written).length⟩
  bytes := (magic ++ writtenFrames hash written).length
  unsyncedBytes := 0
  checkpoints := lastCheckpoints (written.map WrittenFrame.recovered)

variable {hash shardId maxBytes syncEachAppend} {jnl : SinkJournal}

/-- Opening a file that has its header comes down to the loop over its frames. -/
theorem SinkJournal.openFile_eq {rest : List UInt8} (hmax : (magic ++ rest).length ≤ maxBytes) :
    openFile hash (magic ++ rest) shardId maxBytes syncEachAppend =
      (recoverFrames hash shardId ((magic ++ rest).length + 1) magic.length rest fun _ => none).map
        fun res =>
          ({ maxBytes, syncEachAppend,
             file := ⟨(magic ++ rest).take res.2, ((magic ++ rest).take res.2).length⟩,
             bytes := ((magic ++ rest).take res.2).length, unsyncedBytes := 0,
             checkpoints := lastCheckpoints res.1 }, res.1) := by
  have hheader : magic.length ≤ (magic ++ rest).length := by simp
  have hmagic : magic.length ≤ maxBytes := hheader.trans hmax
  have hinitialized : initialized (magic ++ rest) = magic ++ rest := rfl
  unfold openFile recover
  rw [hinitialized, take_left' rfl, drop_left' rfl]
  simp only [ensure, hmagic, hmax, hheader, decide_true, if_true, bind, Except.bind]
  cases recoverFrames hash shardId ((magic ++ rest).length + 1) magic.length rest fun _ => none with
  | error error => rfl
  | ok res => rfl

/-- The loop has fuel for all frames of the file. -/
theorem length_writtenFrames_lt (wrote) (tail) :
    (writtenFrames hash wrote).length <
      (magic ++ (writtenFrames hash wrote ++ tail)).length + 1 := by
  simp only [length_append]
  omega

variable [StreamEngine]

/-- The bytes of a file that was cut. -/
theorem SinkJournal.Keeps.take (h : jnl.Keeps hash maxBytes wrote) {count : Nat}
    (hcount : magic.length ≤ count) :
    ∃ kept tail, Longest hash wrote (count - magic.length) kept ∧ CutFrame hash tail ∧
      jnl.file.contents.take count = magic ++ (writtenFrames hash (wrote.take kept) ++ tail) ∧
      (magic ++ (writtenFrames hash (wrote.take kept) ++ tail)).length ≤ maxBytes := by
  obtain ⟨kept, tail, hlong, htail, htake⟩ := writtenFrames_take hash wrote (count - magic.length)
  have hcont : jnl.file.contents.take count =
      magic ++ (writtenFrames hash (wrote.take kept) ++ tail) := by
    rw [h.contents, take_append, take_of_length_le hcount, htake]
  refine ⟨kept, tail, hlong, htail, hcont, ?_⟩
  have hfits := h.fits
  rw [h.bytes] at hfits
  rw [← hcont, length_take]
  omega

/-- A cut file whose frames belong to the shard is opened with exactly its complete frames. -/
theorem SinkJournal.Keeps.openFile_owned (h : jnl.Keeps hash maxBytes wrote) {count kept : Nat}
    (hcount : magic.length ≤ count) (hlong : Longest hash wrote (count - magic.length) kept)
    (howned : ∀ entry ∈ wrote.take kept, entry.call.Owned shardId) (syncEachAppend) :
    openFile hash (jnl.file.contents.take count) shardId maxBytes syncEachAppend =
      .ok (.reopened hash maxBytes syncEachAppend (wrote.take kept),
        (wrote.take kept).map WrittenFrame.recovered) := by
  obtain ⟨kept', tail, hlongest', htail, hcont, hmax⟩ := h.take hcount
  obtain rfl := hlong.unique hlongest'
  have hfollows : Follows (fun _ => none) ((wrote.take kept).map WrittenFrame.recovered) := by
    have hsplit := h.follows
    rw [← take_append_drop kept wrote, map_append, Follows.append_iff] at hsplit
    exact hsplit.1
  have hloop :=
    recoverFrames_written htail _ magic.length (length_writtenFrames_lt _ tail) hfollows howned
  have hcut : (magic ++ (writtenFrames hash (wrote.take kept) ++ tail)).take
      (magic.length + (writtenFrames hash (wrote.take kept)).length) =
      magic ++ writtenFrames hash (wrote.take kept) :=
    take_left' length_append
  rw [hcont, openFile_eq hmax, hloop]
  simp only [Except.map, hcut]
  rfl

/-- A cut file that can be opened holds only frames of the shard. -/
theorem SinkJournal.Keeps.owned_of_openFile (h : jnl.Keeps hash maxBytes wrote) {count kept : Nat}
    (hcount : magic.length ≤ count) (hlong : Longest hash wrote (count - magic.length) kept)
    (hopen : openFile hash (jnl.file.contents.take count) shardId maxBytes
      syncEachAppend = .ok res) :
    ∀ entry ∈ wrote.take kept, entry.call.Owned shardId := by
  obtain ⟨kept', tail, hlongest', -, hcont, hmax⟩ := h.take hcount
  obtain rfl := hlong.unique hlongest'
  rw [hcont, openFile_eq hmax] at hopen
  cases hloop : recoverFrames hash shardId
      ((magic ++ (writtenFrames hash (wrote.take kept) ++ tail)).length + 1) magic.length
      (writtenFrames hash (wrote.take kept) ++ tail) fun _ => none with
  | error error =>
    rw [hloop] at hopen
    cases hopen
  | ok frames => exact owned_of_recoverFrames (length_writtenFrames_lt _ tail) hloop

/-- A reopened journal remembers its frames. -/
theorem SinkJournal.Keeps.reopened (h : jnl.Keeps hash maxBytes wrote) (kept) (syncEachAppend) :
    (reopened hash maxBytes syncEachAppend (wrote.take kept)).Keeps hash maxBytes
      (wrote.take kept) where
  contents := rfl
  bytes := rfl
  fits := by
    have hfits := h.fits
    rw [h.bytes, h.contents, ← take_append_drop kept wrote] at hfits
    simp only [writtenFrames, flatMap_append, length_append] at hfits
    simp only [SinkJournal.reopened, writtenFrames, length_append]
    omega
  maxBytes := rfl
  checkpoints := rfl
  follows := by
    have hsplit := h.follows
    rw [← take_append_drop kept wrote, map_append, Follows.append_iff] at hsplit
    exact hsplit.1

/-- Writing a frame that continues the journal. -/
theorem SinkJournal.Keeps.extend (h : jnl.Keeps hash maxBytes wrote) (entry)
      (hgap : checkpointAllowsLaneGap
      (jnl.checkpoints.actual entry.call.expected.topicPartition) entry.call.expected = true)
    (hext : jnl.Extends hash jnl' entry.payload entry.call.next) :
    jnl'.Keeps hash maxBytes (wrote ++ [entry]) where
  contents := by
    rw [hext.contents, h.contents]
    simp [writtenFrames]
  bytes := by
    rw [hext.bytes, hext.contents, h.bytes, length_append]
  fits := h.maxBytes ▸ hext.fits
  maxBytes := hext.maxBytes.trans h.maxBytes
  checkpoints := by
    rw [hext.checkpoints, h.checkpoints, map_append, map_singleton, lastCheckpoints_append]
    rfl
  follows := by
    rw [map_append, map_singleton, Follows.append_iff]
    rw [h.checkpoints] at hgap
    exact ⟨h.follows, hgap, trivial⟩

/-- A journal remembers the frames of its file, however often it was cut and opened again. -/
theorem JournalRun.keeps (h : JournalRun hash shardId maxBytes syncEachAppend jnl wrote) :
    jnl.Keeps hash maxBytes wrote := by
  induction h with
  | @create jnl txs hopen =>
    have hmagic : magic.length ≤ maxBytes := by
      obtain ⟨_, hfits, -⟩ := bind_eq_ok.mp hopen
      exact of_decide_eq_true (ensure_eq_ok.mp hfits)
    have hempty : openFile hash [] shardId maxBytes syncEachAppend =
        openFile hash (magic ++ []) shardId maxBytes syncEachAppend := rfl
    rw [hempty, openFile_eq (by simpa using hmagic)] at hopen
    cases hopen
    exact ⟨rfl, rfl, hmagic, rfl, rfl, trivial⟩
  | @covered jnl jnl' wrote io call hrun hcov happ ih =>
    obtain ⟨error, hrefused⟩ | ⟨hcovered, -⟩ | ⟨_, _, -, hnot, -⟩ :=
      append_eq_write hash jnl io call.expected call.appends call.next
    · rw [hrefused] at happ
      cases happ
    · rw [hcovered] at happ
      cases happ
      exact ih
    · rw [hcov] at hnot
      cases hnot
  | @append jnl jnl' wrote io entry hrun hcov happ ih =>
    obtain ⟨error, hrefused⟩ | ⟨-, hcovered⟩ |
        ⟨load, nextBytes, hwrite, -, hgap, hencode, hsum, hfits⟩ :=
      append_eq_write hash jnl io entry.call.expected entry.call.appends
        entry.call.next
    · rw [hrefused] at happ
      cases happ
    · rw [hcov] at hcovered
      cases hcovered
    · obtain rfl : entry.payload = load := Except.ok.inj (entry.encodes.symm.trans hencode)
      exact ih.extend entry hgap (write_eq_ok hsum hfits (hwrite ▸ happ))
  | @reopen jnl jnl' wrote count kept txs hrun hcount hlong hopen ih =>
    have howned := ih.owned_of_openFile hcount hlong hopen
    rw [ih.openFile_owned hcount hlong howned] at hopen
    cases hopen
    exact ih.reopened kept syncEachAppend

/-- In every run the file is its header and the frames that are left, within its size, and the
checkpoints in memory are the last ones of the frames. -/
theorem journal_of_run (h : JournalRun hash shardId maxBytes syncEachAppend jnl wrote) :
    jnl.file.contents = magic ++ writtenFrames hash wrote ∧ jnl.file.contents.length ≤ maxBytes ∧
      jnl.checkpoints = lastCheckpoints (wrote.map WrittenFrame.recovered) :=
  have keeps := h.keeps
  ⟨keeps.contents, keeps.bytes ▸ keeps.fits, keeps.checkpoints⟩

/-- Every cut of the file behind its header is opened with exactly the transactions of its complete
frames, and the file then ends behind them. -/
def TailRecovered (hash : Hash) (shardId maxBytes : Nat) (syncEachAppend : Bool)
    (journal : SinkJournal) (written : List WrittenFrame) : Prop :=
  ∀ count, magic.length ≤ count →
    ∃ kept journal', Longest hash written (count - magic.length) kept ∧
      openFile hash (journal.file.contents.take count) shardId maxBytes syncEachAppend =
        .ok (journal', (written.take kept).map WrittenFrame.recovered) ∧
      journal'.file.contents = magic ++ writtenFrames hash (written.take kept)

/-- Not cut at all, the file is opened only if all its frames belong to the shard. -/
theorem SinkJournal.Keeps.owned (h : jnl.Keeps hash maxBytes wrote)
    (hback : TailRecovered hash shardId maxBytes syncEachAppend jnl wrote) :
    ∀ entry ∈ wrote, entry.call.Owned shardId := by
  obtain ⟨kept, jnl', hlong, hopen, -⟩ :=
    hback (magic.length + (writtenFrames hash wrote).length) (Nat.le_add_right ..)
  have howned := h.owned_of_openFile (Nat.le_add_right ..) hlong hopen
  have hkept : kept = wrote.length := by
    by_contra hne
    have hle := hlong.le
    have hlt := hlong.longest wrote.length (by omega) le_rfl
    rw [take_length] at hlt
    omega
  rwa [hkept, take_length] at howned

/-- A journal file survives every cut of its tail exactly if every append in it carries the physical
shard of the journal.  The run may have been cut, opened and appended to before, so that what is
appended behind a cut is recovered behind what the cut left. -/
theorem tail_recovered_iff_owned (h : JournalRun hash shardId maxBytes syncEachAppend jnl wrote) :
    TailRecovered hash shardId maxBytes syncEachAppend jnl wrote ↔
      ∀ entry ∈ wrote, entry.call.Owned shardId := by
  have hkeeps := h.keeps
  constructor
  · intro hback
    exact hkeeps.owned hback
  · intro howned count hcount
    obtain ⟨kept, tail, hlong, -⟩ := hkeeps.take hcount
    exact ⟨kept, _, hlong, hkeeps.openFile_owned hcount hlong
      (fun entry hmem => howned entry (mem_of_mem_take hmem)) syncEachAppend, rfl⟩

end Run

/-! ## An append of another shard -/

open Sample

/-- The first transaction of a partition, with one empty append of the given shard. -/
def sampleCall (shard : Fin 2) : JournalCall where
  expected := StreamEngine.initial ⟨0, 0⟩
  appends := [⟨shard, ⟨0, 0, 0, 1⟩, [], none⟩]
  next := ⟨⟨0, 0⟩, 1, 1⟩
  expected_inRange := by decide
  next_inRange := by decide
  appends_inRange := by
    revert shard
    decide

def sampleFrame (shard : Fin 2) : WrittenFrame where
  call := sampleCall shard
  payload := encodeCheckpoint ⟨⟨0, 0⟩, 0, 0⟩ ++ encodeCheckpoint ⟨⟨0, 0⟩, 1, 1⟩ ++ toLE 4 1 ++
    (toLE 4 shard ++ toLE 8 0 ++ toLE 4 0)
  encodes := by
    revert shard
    decide

/-- The journal of shard 0 after the append. -/
def sampleJournal (shard : Fin 2) : SinkJournal :=
  ((reopened sampleHash 1024 true []).append sampleHash .done (sampleCall shard).expected
    (sampleCall shard).appends (sampleCall shard).next).2

theorem sampleJournal_run (shard) :
    JournalRun sampleHash 0 1024 true (sampleJournal shard) [sampleFrame shard] := by
  have hcreate :
    openFile sampleHash [] 0 1024 true = .ok (reopened sampleHash 1024 true [], []) := rfl
  have hok : ((reopened sampleHash 1024 true []).append sampleHash .done
      (sampleCall shard).expected (sampleCall shard).appends
        (sampleCall shard).next).1 = .ok () := by
    revert shard
    decide
  have happ : (reopened sampleHash 1024 true []).append sampleHash .done
      (sampleCall shard).expected (sampleCall shard).appends (sampleCall shard).next =
      (.ok (), sampleJournal shard) := by
    rw [sampleJournal, ← hok]
  exact .append (sampleFrame shard) (.create hcreate) rfl happ

theorem sampleJournal_fits : (sampleJournal 0).file.contents.length ≤ 1024 :=
  (journal_of_run (sampleJournal_run 0)).2.1

theorem foreign_append_not_recovered :
    ¬ ∀ (hash : Hash) (shardId maxBytes : Nat) (syncEachAppend : Bool) (jnl : SinkJournal)
        (wrote : List WrittenFrame), JournalRun hash shardId maxBytes syncEachAppend jnl wrote →
      TailRecovered hash shardId maxBytes syncEachAppend jnl wrote := by
  intro h
  have hrun := sampleJournal_run 1
  have howned := hrun.keeps.owned (h sampleHash 0 1024 true _ _ hrun)
  exact absurd (howned _ (mem_singleton.mpr rfl)) (by decide)

theorem tail_recovered_sample :
    TailRecovered sampleHash 0 1024 true (sampleJournal 0) [sampleFrame 0] :=
  (tail_recovered_iff_owned (sampleJournal_run 0)).mpr fun entry hmem => by
    rw [mem_singleton.mp hmem]
    decide

end ShardTelemetry.Sink
