import ShardTelemetry.Sink.Journal

/-!
# What the journal recovers

A journal file that was only appended to is a header followed by the frames of its entries.  Cut
anywhere behind the header, it is the frames of some of the first entries and a part of the next
one; `recover` returns exactly the transactions of the complete frames.  `SinkJournal.Holds` relates
a journal to its entries and is kept by `append` and by a crash followed by `openFile`.
-/

namespace ShardTelemetry.Sink

open Bytes List

/-! ## Round trip of a transaction -/

theorem reads_readUint {width n : Nat} (h : n < 256 ^ width) :
    Reads (readUint width) (toLE width n) n :=
  Reads.uint h

theorem reads_readCheckpoint {cp : DurableSinkCheckpoint} (h : cp.InRange) :
    Reads readCheckpoint (encodeCheckpoint cp) cp := by
  obtain ⟨htopic, hpart, hseq, hoffset⟩ := h
  unfold encodeCheckpoint readCheckpoint
  refine (reads_readUint (by simpa using htopic)).bind ?_
  refine (reads_readUint (by simpa using hpart)).bind ?_
  refine (reads_readUint (by simpa using hseq)).bind ?_
  exact (reads_readUint (by simpa using hoffset)).map _

@[simp] theorem length_encodeCheckpoint (cp) : (encodeCheckpoint cp).length = 36 := by
  simp [encodeCheckpoint]

variable {bytes : List UInt8}

theorem encodeLength_eq_ok {length : Nat} (h : encodeLength length = .ok bytes) :
    length < 2 ^ 32 ∧ bytes = toLE 4 length := by
  unfold encodeLength at h
  split at h
  · exact ⟨‹_›, (Except.ok.inj h).symm⟩
  · cases h

/-- The bytes of one append. -/
def appendBytes (append : DurableAppend) : List UInt8 :=
  toLE 4 append.physicalShardId ++ toLE 8 append.reservation.firstOffset ++
    toLE 4 append.payload.length ++ append.payload

theorem reads_readAppend {append : DurableAppend}
    (hshard : append.physicalShardId = sid) (hrange : sid < 2 ^ 32)
    (hoffset : append.reservation.firstOffset < 2 ^ 64) (hlen : append.payload.length < 2 ^ 32) :
    Reads (readAppend sid part) (appendBytes append)
      ⟨part, append.reservation.firstOffset, append.payload⟩ := by
  subst hshard
  unfold readAppend appendBytes
  refine (reads_readUint (by simpa using hrange)).bind (.require (by simp) ?_)
  refine (reads_readUint (by simpa using hoffset)).bind ?_
  refine (reads_readUint (by simpa using hlen)).bind ?_
  exact (Reads.take rfl).map _

/-- The appends of a transaction are encoded one after the other. -/
theorem encodeAppends_eq_ok {appends : List DurableAppend}
    (h : encodeAppends part appends = .ok bytes) :
    bytes = appends.flatMap appendBytes ∧ ∀ append ∈ appends, append.payload.length < 2 ^ 32 := by
  induction appends generalizing bytes with
  | nil =>
    cases h
    simp
  | cons append appends ih =>
    obtain ⟨-, -, h⟩ := bind_eq_ok.mp h
    obtain ⟨length, hlen, h⟩ := bind_eq_ok.mp h
    obtain ⟨enc, hencoded, h⟩ := bind_eq_ok.mp h
    obtain ⟨hlt, rfl⟩ := encodeLength_eq_ok hlen
    obtain ⟨rfl, hrest⟩ := ih hencoded
    cases h
    exact ⟨by simp [appendBytes], forall_mem_cons.mpr ⟨hlt, hrest⟩⟩

/-- A transaction as it is handed to the journal: its numbers fit the engine's integer types, and
nothing else is known of it. -/
structure JournalCall where
  expected : DurableSinkCheckpoint
  appends : List DurableAppend
  next : DurableSinkCheckpoint
  expected_inRange : expected.InRange
  next_inRange : next.InRange
  appends_inRange : ∀ append ∈ appends,
    append.physicalShardId < 2 ^ 32 ∧ append.reservation.firstOffset < 2 ^ 64

namespace JournalCall

variable {call : JournalCall} {load : List UInt8}

/-- What the journal keeps of the transaction. -/
def recovered (call : JournalCall) : RecoveredTransaction where
  expected := call.expected
  next := call.next
  appends := call.appends.map fun append =>
    ⟨call.expected.topicPartition, append.reservation.firstOffset, append.payload⟩

/-- Every append carries the physical shard of the journal. -/
def Owned (shardId : Nat) (call : JournalCall) : Prop :=
  ∀ append ∈ call.appends, append.physicalShardId = shardId

instance (shardId : Nat) (call : JournalCall) : Decidable (call.Owned shardId) :=
  inferInstanceAs (Decidable (∀ append ∈ call.appends, _))

section

variable (h : encodeTransaction call.expected call.appends call.next = .ok load)
include h

/-- The bytes of an encoded transaction, and the bounds its encoder has checked. -/
theorem encode_eq_ok :
    call.expected.topicPartition = call.next.topicPartition ∧ call.appends.length < 2 ^ 32 ∧
      (∀ append ∈ call.appends, append.payload.length < 2 ^ 32) ∧
      load = encodeCheckpoint call.expected ++ (encodeCheckpoint call.next ++
        (toLE 4 call.appends.length ++ call.appends.flatMap appendBytes)) ∧
          load.length ≤ maxFrameBytes := by
  obtain ⟨_, hpart, h⟩ := bind_eq_ok.mp h
  obtain ⟨count, hcount, h⟩ := bind_eq_ok.mp h
  obtain ⟨enc, hencoded, h⟩ := bind_eq_ok.mp h
  obtain ⟨_, hfits, h⟩ := bind_eq_ok.mp h
  obtain ⟨hlt, rfl⟩ := encodeLength_eq_ok hcount
  obtain ⟨rfl, hlengths⟩ := encodeAppends_eq_ok hencoded
  cases h
  refine ⟨of_decide_eq_true (ensure_eq_ok.mp hpart), hlt, hlengths, ?_,
    of_decide_eq_true (ensure_eq_ok.mp hfits)⟩
  simp only [append_assoc]

theorem length_of_encode : 0 < load.length ∧ load.length ≤ maxFrameBytes := by
  obtain ⟨-, -, -, hpayload, hle⟩ := encode_eq_ok h
  refine ⟨?_, hle⟩
  rw [hpayload, length_append, length_encodeCheckpoint]
  omega

end

/-- What is encoded is decoded to what the journal keeps of the transaction. -/
theorem decode_encode (howned : call.Owned sid)
    (h : encodeTransaction call.expected call.appends call.next = .ok load) :
    decodeTransaction load sid = .ok call.recovered := by
  obtain ⟨hpart, hlt, hlengths, rfl, -⟩ := encode_eq_ok h
  have hreads : Reads (readTransaction sid)
      (encodeCheckpoint call.expected ++ (encodeCheckpoint call.next ++
        (toLE 4 call.appends.length ++ call.appends.flatMap appendBytes))) call.recovered := by
    refine (reads_readCheckpoint call.expected_inRange).bind ?_
    refine (reads_readCheckpoint call.next_inRange).bind (.require (by simp [hpart]) ?_)
    refine (reads_readUint (by simpa using hlt)).bind (Reads.map _ (Reads.many ?_))
    intro append hmem
    obtain ⟨hshard, hoffset⟩ := call.appends_inRange append hmem
    exact reads_readAppend (howned append hmem)
      (howned append hmem ▸ hshard) hoffset (hlengths append hmem)
  have hrun := hreads.run
  unfold decodeTransaction
  rw [hrun]
  rfl

end JournalCall

/-- A transaction of the engine, without what the engine guarantees of it. -/
def DurableTransaction.call {shardId : Nat} (transaction : DurableTransaction shardId) :
    JournalCall where
  expected := transaction.expected
  appends := transaction.appends
  next := transaction.next
  expected_inRange := transaction.expected_inRange
  next_inRange := transaction.next_inRange
  appends_inRange := by
    intro append hmem
    rw [(transaction.owned append hmem).2]
    exact ⟨transaction.shard_inRange, transaction.offsets_inRange append hmem⟩

theorem DurableTransaction.decode_encode {sid : Nat} (tx : DurableTransaction sid)
    (h : encodeTransaction tx.expected tx.appends tx.next = .ok load) :
    decodeTransaction load sid = .ok tx.recovered ∧ 0 < load.length ∧
      load.length ≤ maxFrameBytes := by
  have howned : tx.call.Owned sid := fun append hmem =>
    (tx.owned append hmem).2
  exact ⟨JournalCall.decode_encode howned h, @JournalCall.length_of_encode tx.call load h⟩

/-! ## Frames -/

/-- An encoded transaction that can be read back. -/
structure JournalEntry (shardId : Nat) where
  payload : List UInt8
  transaction : RecoveredTransaction
  decodes : decodeTransaction payload shardId = .ok transaction
  length_pos : 0 < payload.length
  length_le : payload.length ≤ maxFrameBytes

section Frames

variable {hash : Hash}

@[simp] theorem length_frame (load) :
    (frame hash load).length = 4 + load.length + checksumBytes := by
  simp only [frame, length_append, length_toLE, hash.length_digest]

/-- The frames of some entries, one after the other. -/
def frames (hash : Hash) (entries : List (JournalEntry shardId)) : List UInt8 :=
  entries.flatMap fun entry => frame hash entry.payload

/-- The transactions of some entries. -/
def transactionsOf (entries : List (JournalEntry shardId)) : List RecoveredTransaction :=
  entries.map (·.transaction)

/-- What may be left behind the last complete frame: a part of a frame that is not the whole of
it. -/
def PartialFrame (hash : Hash) (shardId : Nat) (tail : List UInt8) : Prop :=
  tail = [] ∨ ∃ (entry : JournalEntry shardId) (count : Nat),
    count < (frame hash entry.payload).length ∧ tail = (frame hash entry.payload).take count

/-- The length that a frame begins with. -/
theorem ofLE_take_frame (hash) (hle : load.length ≤ maxFrameBytes)
    (rest) : ofLE ((frame hash load ++ rest).take 4) = load.length := by
  have hlt : load.length < 256 ^ 4 := by
    simp only [maxFrameBytes] at hle
    omega
  rw [frame, append_assoc, append_assoc, take_left' (length_toLE 4 _), ofLE_toLE hlt]

/-- A frame that is not there as a whole is cut off, whatever it holds. -/
theorem recoverFrames_take (hpos : 0 < load.length) (hle : load.length ≤ maxFrameBytes)
    {count : Nat} (hcount : count < (frame hash load).length) (fuel pos) (checkpoints) :
    recoverFrames hash sid fuel pos ((frame hash load).take count) checkpoints = .ok ([], pos) := by
  cases fuel with
  | zero => rfl
  | succ fuel =>
    rw [length_frame] at hcount
    unfold recoverFrames
    by_cases hheader : count < 4
    · rw [if_pos (by simp; omega)]
    · have hlen : ofLE (((frame hash load).take count).take 4) = load.length := by
        rw [take_take, Nat.min_eq_left (by omega)]
        simpa using ofLE_take_frame hash hle []
      rw [if_neg (by simp; omega)]
      rw [if_neg (by omega), if_pos (by simp; omega)]

variable {tail : List UInt8} {checkpoints : Checkpoints}

/-- A partial frame is cut off. -/
theorem recoverFrames_partial (h : PartialFrame hash sid tail) (fuel pos) (checkpoints) :
    recoverFrames hash sid fuel pos tail checkpoints = .ok ([], pos) := by
  rcases h with rfl | ⟨entry, count, hcount, rfl⟩
  · cases fuel <;> rfl
  · exact recoverFrames_take entry.length_pos entry.length_le hcount fuel pos checkpoints

/-- A transaction that continues the journal is not taken for a regression. -/
theorem not_regressed [StreamEngine]
    (hgap : checkpointAllowsLaneGap (checkpoints.actual want.topicPartition) want = true) :
    ((checkpoints want.topicPartition).all fun actual =>
      actual.nextPlacementSequence ≤ want.nextPlacementSequence &&
        actual.nextOffset ≤ want.nextOffset) = true := by
  cases hactual : checkpoints want.topicPartition with
  | none => rfl
  | some actual =>
    rw [Checkpoints.actual_of_some hactual] at hgap
    obtain ⟨-, hseq, hoffset⟩ := checkpointAllowsLaneGap_iff.mp hgap
    simp [hseq, hoffset]

/-- What the loop does with a complete frame, whatever it holds. -/
theorem recoverFrames_step (hpos : 0 < load.length) (hle : load.length ≤ maxFrameBytes) (rest)
    (fuel pos) (checkpoints) :
    recoverFrames hash sid (fuel + 1) pos (frame hash load ++ rest) checkpoints = (do
      let tx ← decodeTransaction load sid
      ensure ((checkpoints tx.expected.topicPartition).all fun actual =>
          actual.nextPlacementSequence ≤ tx.expected.nextPlacementSequence &&
            actual.nextOffset ≤ tx.expected.nextOffset)
        (.corruptSinkJournal "journal checkpoint sequence or offset regressed")
      let (txs, cut) ← recoverFrames hash sid fuel
        (pos + (frame hash load).length) rest (checkpoints.insert tx.next)
      return (tx :: txs, cut)) := by
  have hdig := hash.length_digest load
  have hbody : (frame hash load ++ rest).drop 4 = load ++ (hash.digest load ++ rest) := by
    rw [frame, append_assoc, append_assoc, drop_left' (length_toLE 4 _)]
  have hrest : (load ++ (hash.digest load ++ rest)).drop (load.length + checksumBytes) =
      rest := by
    rw [← append_assoc]
    exact drop_left' (by rw [length_append, hdig])
  conv_lhs => unfold recoverFrames
  simp only [ofLE_take_frame hash hle rest, hbody, hrest]
  rw [if_neg (by rw [length_append, length_frame]; omega), if_neg (by omega),
    if_neg (by simp only [length_append, hdig]; omega),
    take_left' rfl, drop_left' rfl, take_left' hdig, if_neg (by simp), length_frame]
  simp only [Nat.add_assoc]

/-- A complete frame is read, and the loop goes on behind it. -/
theorem recoverFrames_frame [StreamEngine] (entry : JournalEntry sid) (rest : List UInt8)
    (fuel pos : Nat)
    (hgap : checkpointAllowsLaneGap (checkpoints.actual entry.transaction.partition)
      entry.transaction.expected = true) :
    recoverFrames hash sid (fuel + 1) pos (frame hash entry.payload ++ rest) checkpoints =
      (recoverFrames hash sid fuel (pos + (frame hash entry.payload).length) rest
        (checkpoints.insert entry.transaction.next)).map fun res =>
          (entry.transaction :: res.1, res.2) := by
  rw [recoverFrames_step entry.length_pos entry.length_le, entry.decodes]
  simp only [bind, Except.bind, ensure, not_regressed hgap, if_true]
  cases recoverFrames hash sid fuel (pos + (frame hash entry.payload).length) rest
    (checkpoints.insert entry.transaction.next) with
  | error error => rfl
  | ok res => rfl

/-- All complete frames are read, and what is left is cut off. -/
theorem recoverFrames_frames [StreamEngine] {ents : List (JournalEntry sid)}
    (htail : PartialFrame hash sid tail) (fuel pos : Nat) (hfuel : (frames hash ents).length < fuel)
    (hcontinues : Continues checkpoints (transactionsOf ents)) :
    recoverFrames hash sid fuel pos (frames hash ents ++ tail) checkpoints =
      .ok (transactionsOf ents, pos + (frames hash ents).length) := by
  induction ents generalizing fuel pos checkpoints with
  | nil => exact recoverFrames_partial htail fuel pos checkpoints
  | cons entry ents ih =>
    obtain ⟨hgap, -, hrest⟩ := hcontinues
    have hcons : frames hash (entry :: ents) = frame hash entry.payload ++ frames hash ents := rfl
    rw [hcons, length_append, length_frame] at hfuel
    cases fuel with
    | zero => omega
    | succ fuel =>
      rw [hcons, append_assoc, recoverFrames_frame entry _ fuel pos hgap,
        ih fuel _ (by omega) hrest, length_append, ← Nat.add_assoc]
      rfl

end Frames

/-! ## The entries of a journal -/

section Holds

variable {hash : Hash} {jnl : SinkJournal} {ents : List (JournalEntry sid)}

/-- The journal holds exactly these entries, and at least its header is on stable storage. -/
structure SinkJournal.Holds [StreamEngine] (hash : Hash) (journal : SinkJournal)
    (entries : List (JournalEntry shardId)) : Prop where
  contents : journal.file.contents = magic ++ frames hash entries
  synced : magic.length ≤ journal.file.synced
  bytes : journal.bytes = journal.file.contents.length
  checkpoints : journal.checkpoints = lastCheckpoints (transactionsOf entries)
  continues : Continues (fun _ => none) (transactionsOf entries)

/-- One frame was appended to a journal. -/
structure SinkJournal.Extends (hash : Hash) (journal journal' : SinkJournal) (payload : List UInt8)
    (next : DurableSinkCheckpoint) : Prop where
  contents : journal'.file.contents = journal.file.contents ++ frame hash payload
  synced : journal'.file.synced = journal.file.synced ∨
    journal'.file.synced = journal'.file.contents.length
  bytes : journal'.bytes = journal.bytes + (frame hash payload).length
  fits : journal'.bytes ≤ journal.maxBytes
  checkpoints : journal'.checkpoints = journal.checkpoints.insert next
  maxBytes : journal'.maxBytes = journal.maxBytes
  syncEachAppend : journal'.syncEachAppend = journal.syncEachAppend

/-- A write that reports success has added its frame to the file. -/
theorem SinkJournal.write_eq_ok {next : DurableSinkCheckpoint}
    (hbytes : nextBytes = jnl.bytes + (frame hash load).length)
    (hfits : nextBytes ≤ jnl.maxBytes)
    (h : jnl.write hash io load nextBytes next = (.ok (), jnl')) :
    jnl.Extends hash jnl' load next := by
  cases io with
  | writeFails => cases h
  | syncFails =>
    simp only [write] at h
    split at h
    · cases h
    · cases h
      exact ⟨rfl, .inl rfl, hbytes, hfits, rfl, rfl, rfl⟩
  | done =>
    cases h
    refine ⟨rfl, ?_, hbytes, hfits, rfl, rfl, rfl⟩
    split
    · exact .inr rfl
    · exact .inl rfl

/-- What an append can do: it is refused, it is already covered, or it writes one frame. -/
theorem SinkJournal.append_eq_write [StreamEngine] (hash : Hash) (jnl : SinkJournal)
    (io : JournalIo)
    (want : DurableSinkCheckpoint) (appends : List DurableAppend) (next : DurableSinkCheckpoint) :
    (∃ error, jnl.append hash io want appends next = (.error error, jnl)) ∨
    jnl.append hash io want appends next = (.ok (), jnl) ∧
      checkpointCovers (jnl.checkpoints.actual want.topicPartition) next = true ∨
    ∃ load nextBytes, jnl.append hash io want appends next = jnl.write hash io load nextBytes next ∧
      checkpointCovers (jnl.checkpoints.actual want.topicPartition) next = false ∧
      checkpointAllowsLaneGap (jnl.checkpoints.actual want.topicPartition) want = true ∧
      encodeTransaction want appends next = .ok load ∧
      nextBytes = jnl.bytes + (frame hash load).length ∧ nextBytes ≤ jnl.maxBytes := by
  unfold append
  cases hencode : encodeTransaction want appends next with
  | error error => exact .inl ⟨error, rfl⟩
  | ok load =>
    simp only
    split
    · rename_i hcov
      exact .inr (.inl ⟨rfl, hcov⟩)
    rename_i hcov
    split
    · rename_i hgap
      cases hbytes : checkedAdd jnl.bytes (4 + load.length + checksumBytes) with
      | none => exact .inl ⟨_, rfl⟩
      | some nextBytes =>
        have hsum : nextBytes = jnl.bytes + (frame hash load).length := by
          rw [length_frame]
          exact (checkedAdd_eq_some.mp hbytes).1
        simp only
        split
        · exact .inl ⟨_, rfl⟩
        · exact .inr (.inr ⟨load, nextBytes, rfl, Bool.not_eq_true _ ▸ hcov, hgap,
            rfl, hsum, by omega⟩)
    · exact .inl ⟨_, rfl⟩

/-- What an append whose writes succeed can do: it is refused, it is already covered, or it writes
one frame. -/
theorem SinkJournal.append_cases [StreamEngine] (hash : Hash) (jnl : SinkJournal)
    (want : DurableSinkCheckpoint) (appends : List DurableAppend) (next : DurableSinkCheckpoint) :
    (∃ error, jnl.append hash .done want appends next = (.error error, jnl)) ∨
    jnl.append hash .done want appends next = (.ok (), jnl) ∧
      checkpointCovers (jnl.checkpoints.actual want.topicPartition) next = true ∨
    ∃ load jnl', jnl.append hash .done want appends next = (.ok (), jnl') ∧
      checkpointAllowsLaneGap (jnl.checkpoints.actual want.topicPartition) want = true ∧
      encodeTransaction want appends next = .ok load ∧ jnl.Extends hash jnl' load next := by
  obtain hrefused | hcovered | ⟨load, nextBytes, happ, -, hgap, hencode, hbytes, hfits⟩ :=
    append_eq_write hash jnl .done want appends next
  · exact .inl hrefused
  · exact .inr (.inl hcovered)
  · have hok : jnl.write hash .done load nextBytes next =
        (.ok (), (jnl.write hash .done load nextBytes next).2) := rfl
    exact .inr (.inr ⟨load, _, happ.trans hok, hgap, hencode, write_eq_ok hbytes hfits hok⟩)

/-- The entry an encoded transaction makes. -/
def DurableTransaction.entry (transaction : DurableTransaction shardId) {payload : List UInt8}
    (h : encodeTransaction transaction.expected transaction.appends transaction.next =
      .ok payload) :
    JournalEntry shardId where
  payload
  transaction := transaction.recovered
  decodes := (transaction.decode_encode h).1
  length_pos := (transaction.decode_encode h).2.1
  length_le := (transaction.decode_encode h).2.2

theorem transactionsOf_append (ents : List (JournalEntry sid)) (entry : JournalEntry sid) :
    transactionsOf (ents ++ [entry]) = transactionsOf ents ++ [entry.transaction] := by
  simp [transactionsOf]

theorem lastCheckpoints_append (txs : List RecoveredTransaction) (tx : RecoveredTransaction) :
    lastCheckpoints (txs ++ [tx]) = (lastCheckpoints txs).insert tx.next := by
  simp [lastCheckpoints, Checkpoints.insertAll]

/-- The journal over the complete frames of some entries. -/
def SinkJournal.opened (hash : Hash) (entries : List (JournalEntry shardId)) (maxBytes : Nat)
    (syncEachAppend : Bool) : SinkJournal where
  maxBytes
  syncEachAppend
  file := ⟨magic ++ frames hash entries, (magic ++ frames hash entries).length⟩
  bytes := (magic ++ frames hash entries).length
  unsyncedBytes := 0
  checkpoints := lastCheckpoints (transactionsOf entries)

variable [StreamEngine]

/-- Writing the frame of a transaction that continues the journal adds its entry. -/
theorem SinkJournal.Holds.extend (h : jnl.Holds hash ents) {tx : DurableTransaction sid}
    (hencode : encodeTransaction tx.expected tx.appends tx.next = .ok load)
    (hgap : checkpointAllowsLaneGap (jnl.checkpoints.actual tx.expected.topicPartition)
      tx.expected = true)
    (hext : jnl.Extends hash jnl' load tx.next) : jnl'.Holds hash (ents ++ [tx.entry hencode]) where
  contents := by
    rw [hext.contents, h.contents, append_assoc]
    simp [frames, DurableTransaction.entry]
  synced := by
    rcases hext.synced with hsync | hsync
    · rw [hsync]
      exact h.synced
    · rw [hsync, hext.contents, h.contents]
      simp
  bytes := by
    rw [hext.bytes, hext.contents, h.bytes, length_append]
  checkpoints := by
    rw [hext.checkpoints, h.checkpoints, transactionsOf_append, lastCheckpoints_append]
    rfl
  continues := by
    rw [transactionsOf_append, Continues.append_iff]
    rw [h.checkpoints] at hgap
    exact ⟨h.continues, hgap, tx.recovered_advances, trivial⟩

/-- The complete frames of a file are recovered, and the file is cut behind them. -/
theorem recover_frames {tail : List UInt8} (htail : PartialFrame hash sid tail)
    (hmax : (magic ++ frames hash ents ++ tail).length ≤ cap)
    (hcontinues : Continues (fun _ => none) (transactionsOf ents)) :
    recover hash (magic ++ frames hash ents ++ tail) sid cap =
      .ok (transactionsOf ents, (magic ++ frames hash ents).length) := by
  have hframes := recoverFrames_frames htail ((magic ++ frames hash ents ++ tail).length + 1)
    magic.length (by simp; omega) hcontinues
  have hheader : magic.length ≤ (magic ++ (frames hash ents ++ tail)).length := by simp
  have hsum : (magic ++ frames hash ents).length = magic.length + (frames hash ents).length :=
    length_append
  unfold recover
  rw [append_assoc] at hmax hframes ⊢
  rw [take_left' rfl, drop_left' rfl, hframes]
  simp only [ensure, hmax, hheader, decide_true, if_true, bind, Except.bind, hsum]

theorem SinkJournal.opened_holds (hcontinues : Continues (fun _ => none) (transactionsOf ents))
    (cap) (sync) : (opened hash ents cap sync).Holds hash ents :=
  ⟨rfl, by simp [opened], rfl, rfl, hcontinues⟩

/-- Opening a journal file cut anywhere behind its header: the complete frames are kept, the rest is
cut off. -/
theorem SinkJournal.openFile_take (h : jnl.Holds hash ents) {count cap : Nat}
    (hcount : magic.length ≤ count) (hmax : jnl.file.contents.length ≤ cap) (sync)
    (hfile : initialized contents = jnl.file.contents.take count) :
    ∃ kept, (opened hash (ents.take kept) cap sync).bytes ≤ cap ∧
      Continues (fun _ => none) (transactionsOf (ents.take kept)) ∧
        openFile hash contents sid cap sync =
        .ok (.opened hash (ents.take kept) cap sync, transactionsOf (ents.take kept)) := by
  obtain ⟨kept, tail, -, htail, htake⟩ := Bytes.exists_take_flatMap
    (fun entry : JournalEntry sid => frame hash entry.payload) ents (count - magic.length)
  have hcont : jnl.file.contents.take count =
      magic ++ frames hash (ents.take kept) ++ tail := by
    rw [h.contents, take_append, take_of_length_le hcount, append_assoc]
    exact congrArg (magic ++ ·) htake
  have hlen : (magic ++ frames hash (ents.take kept) ++ tail).length ≤ cap := by
    rw [← hcont, length_take]
    omega
  have hcontinues : Continues (fun _ => none) (transactionsOf (ents.take kept)) := by
    have hsplit := h.continues
    rw [← take_append_drop kept ents, transactionsOf, map_append, Continues.append_iff] at hsplit
    exact hsplit.1
  have hbytes : (magic ++ frames hash (ents.take kept)).length ≤ cap := by
    rw [length_append] at hlen
    omega
  have hmagic : magic.length ≤ cap := by
    rw [length_append] at hbytes
    omega
  refine ⟨kept, hbytes, hcontinues, ?_⟩
  have hrecover := recover_frames htail hlen hcontinues
  have hcut : (magic ++ frames hash (ents.take kept) ++ tail).take
      (magic ++ frames hash (ents.take kept)).length = magic ++ frames hash (ents.take kept) :=
    take_left' rfl
  unfold openFile
  rw [hfile, hcont]
  simp only [hrecover, ensure, hmagic, decide_true, if_true, bind, Except.bind, hcut]
  rfl

end Holds

end ShardTelemetry.Sink
