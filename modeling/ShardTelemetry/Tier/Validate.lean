import ShardTelemetry.Tier.Catalog

/-!
# Validation of catalog objects

The checks the tier makes on what it is given and on what it reads back, and the derived metadata it
records: group entries summarise a manifest, page references summarise a page.
-/

namespace ShardTelemetry.Tier

def tierFormatVersion : Nat := 1
def checksumAlgorithm : String := "blake3"
def pointerReadLimit : Nat := 64 * 1024

/-- `u128::from_str`: an optional plus sign and decimal digits of a value below `2^128`. -/
def parseU128 (text : String) : Option Nat :=
  let digits := match text.toList with
    | '+' :: rest => rest
    | other => other
  if digits.isEmpty || !digits.all Char.isDigit then none
  else
    let value := digits.foldl (fun acc c => acc * 10 + (c.toNat - '0'.toNat)) 0
    if value < 2 ^ 128 then some value else none

def ObjectTierConfig.validate (self : ObjectTierConfig) : TelemetryResult Unit := do
  ensure (self.targetGroupPayloadBytes ≠ 0 &&
      self.targetGroupPayloadBytes ≤ self.maxGroupPayloadBytes)
    (.invalidConfig "object tier group payload limits are invalid")
  ensure (self.maxBlocksPerGroup ≠ 0)
    (.invalidConfig "object tier max_blocks_per_group must be nonzero")
  ensure (self.groupsPerPage ≠ 0)
    (.invalidConfig "object tier groups_per_page must be nonzero")
  ensure (pointerReadLimit ≤ self.maxControlObjectBytes)
    (.invalidConfig "object tier control-object limit must be at least 64 KiB")
  ensure (2 ≤ self.maxRetiredObjects)
    (.invalidConfig "object tier must allow at least two retired ownership keys")
  ensure (self.retirementGrace ≤ 24 * 60 * 60 * 10 ^ 9)
    (.invalidConfig "object tier retirement grace cannot exceed 24 hours")
  ensure (self.transactionLease ≠ 0 && self.transactionLease ≤ 24 * 60 * 60 * 10 ^ 9)
    (.invalidConfig "object tier transaction lease must be between one nanosecond and 24 hours")

def validateArtifactName (name : String) : TelemetryResult Unit :=
  ensure (!name.isEmpty && name.utf8ByteSize ≤ 128 &&
      name.toList.all fun c => c.isAlphanum || c = '.' || c = '_' || c = '-')
    (.objectStore "artifact names must be 1..=128 path-free ASCII characters")

def validateArtifact (artifact : TierArtifact) : TelemetryResult Unit := do
  validateArtifactName artifact.name
  ensure (artifact.bytes ≠ 0 && artifact.checksumAlgorithm = checksumAlgorithm &&
      validChecksum artifact.checksum)
    (.corruptTier "group artifact metadata is invalid")

/-- Two artifacts of one list share their role and name. -/
def duplicateArtifacts {α : Type} (kind : α → TierArtifactKind) (name : α → String) :
    List α → Bool
  | [] => false
  | artifact :: rest =>
    rest.any (fun other => kind artifact = kind other && name artifact = name other) ||
      duplicateArtifacts kind name rest

def validateSource (source : TierGroupSource) : TelemetryResult Unit := do
  ensure (!source.blocks.isEmpty && !source.artifacts.isEmpty)
    (.objectStore "a tier group requires blocks and artifacts")
  ensure (List.all (source.blocks.zip source.blocks.tail) fun pair =>
    pair.1.blockId < pair.2.blockId)
    (.objectStore "tier group blocks must be strictly increasing")
  source.artifacts.forM fun artifact => validateArtifactName artifact.name
  ensure (!duplicateArtifacts (·.kind) (·.name) source.artifacts)
    (.objectStore "tier group artifact names must be unique per role")

/-- Two optional bounds are in order when both are present. -/
def orderedBounds : Option Nat → Option Nat → Bool
  | some minimum, some maximum => minimum ≤ maximum
  | _, _ => true

def TierBlockEntry.validate (self : TierBlockEntry) (payloadBytes : Nat) : TelemetryResult Unit :=
  ensure (self.firstOffset ≤ self.lastOffset &&
      self.minTimestampUnixNanos ≤ self.maxTimestampUnixNanos &&
      self.recordCount ≠ 0 &&
      self.storedBytes ≠ 0 &&
      self.payloadBytes = self.storedBytes &&
      (self.compressionCodec = "zstd" || self.compressionCodec = "trace-native" ||
        self.compressionCodec = "metric-native") &&
      self.minSignalIdentity.isSome == self.maxSignalIdentity.isSome &&
      orderedBounds self.minSignalIdentity self.maxSignalIdentity &&
      decide (self.compressionCodec = "zstd") == self.minSignalIdentity.isNone &&
      decide (self.compressionCodec = "zstd") == self.correlationFilter.isNone &&
      validChecksum self.payloadChecksum &&
      (checkedAdd self.payloadOffset self.payloadBytes).any (· ≤ payloadBytes) &&
      self.dictionaryId.all fun text => (parseU128 text).isSome)
    (.corruptTier "group contains invalid block metadata")

/-- The loop over a manifest's blocks: each is valid, identifiers increase and payload extents do
not overlap. -/
def validateBlocks (payloadBytes : Nat) :
    Option Nat → Nat → List TierBlockEntry → TelemetryResult Unit
  | _, _, [] => .ok ()
  | previousBlock, previousPayloadEnd, block :: rest => do
    block.validate payloadBytes
    ensure (previousBlock.all (· < block.blockId) && previousPayloadEnd ≤ block.payloadOffset)
      (.corruptTier "group blocks are not strictly ordered")
    validateBlocks payloadBytes (some block.blockId) (block.payloadOffset + block.payloadBytes) rest

def TierGroupManifest.validate (self : TierGroupManifest) (space : Namespace)
    (config : ObjectTierConfig) : TelemetryResult Unit := do
  ensure (self.formatVersion = tierFormatVersion && self.space = space && !self.blocks.isEmpty &&
      self.blocks.length ≤ config.maxBlocksPerGroup && !self.artifacts.isEmpty &&
      self.blocks.all fun block => block.lastOffset < self.checkpoint.nextOffset)
    (.corruptTier "group manifest identity or cardinality is invalid")
  ensure (self.artifacts.countP (·.kind = .payloadPack) = 1 &&
      self.artifacts.countP (·.kind = .queryIndex) = 1)
    (.corruptTier "group requires exactly one payload and one query-index artifact")
  self.artifacts.forM validateArtifact
  ensure (!duplicateArtifacts (·.kind) (·.name) self.artifacts)
    (.corruptTier "group contains duplicate artifact names")
  let payloadBytes := ((self.artifact .payloadPack).map (·.bytes)).getD 0
  let limit := config.maxGroupPayloadBytes
  ensure (payloadBytes ≤ limit)
    (.corruptTier s!"group payload is {payloadBytes} bytes, exceeding limit {limit}")
  validateBlocks payloadBytes none 0 self.blocks

/-- `try_fold` with `checked_add`. -/
def checkedSum (values : List Nat) : Option Nat :=
  values.foldlM checkedAdd 0

def CatalogGroupEntry.fromManifest (manifest : TierGroupManifest) (manifestKey : Key)
    (metadata : ObjectMetadata) : TelemetryResult CatalogGroupEntry := do
  let firstOffset ← okOr (.corruptTier "group has no block bounds")
    (manifest.blocks.map (·.firstOffset)).min?
  let lastOffset ← okOr (.corruptTier "group has no block bounds")
    (manifest.blocks.map (·.lastOffset)).max?
  let minTimestampUnixNanos ← okOr (.corruptTier "group has no time bounds")
    (manifest.blocks.map (·.minTimestampUnixNanos)).min?
  let maxTimestampUnixNanos ← okOr (.corruptTier "group has no time bounds")
    (manifest.blocks.map (·.maxTimestampUnixNanos)).max?
  ensure (manifest.blocks.length < 2 ^ 32) (.corruptTier "group has too many blocks")
  let payloadBytes ← okOr (.corruptTier "group payload bytes overflow")
    (checkedSum (manifest.blocks.map (·.payloadBytes)))
  return {
    groupSequence := manifest.groupSequence
    checkpoint := manifest.checkpoint
    manifestKey
    manifestBytes := metadata.bytes
    manifestChecksum := metadata.contentDigest
    firstOffset
    lastOffset
    minTimestampUnixNanos
    maxTimestampUnixNanos
    blockCount := manifest.blocks.length
    payloadBytes
    minSignalIdentity := (manifest.blocks.filterMap (·.minSignalIdentity)).min?
    maxSignalIdentity := (manifest.blocks.filterMap (·.maxSignalIdentity)).max?
    correlationFilter := CorrelationBlockFilter.unionAll (manifest.blocks.map (·.correlationFilter))
  }

/-- The consistency a group entry and a page reference are both checked for. -/
def validSummary (bytes : Nat) (checksum : Digest) (firstOffset lastOffset minTimestamp maxTimestamp
    count : Nat) (checkpoint : TierCheckpoint) (minIdentity maxIdentity : Option Nat)
    (filter : Option CorrelationBlockFilter) : Bool :=
  bytes ≠ 0 && validChecksum checksum && firstOffset ≤ lastOffset && minTimestamp ≤ maxTimestamp &&
    count ≠ 0 && lastOffset < checkpoint.nextOffset && minIdentity.isSome == maxIdentity.isSome &&
    minIdentity.isSome == filter.isSome && orderedBounds minIdentity maxIdentity

def CatalogGroupEntry.validate (self : CatalogGroupEntry) : TelemetryResult Unit :=
  ensure (validSummary self.manifestBytes self.manifestChecksum self.firstOffset self.lastOffset
      self.minTimestampUnixNanos self.maxTimestampUnixNanos self.blockCount self.checkpoint
      self.minSignalIdentity self.maxSignalIdentity self.correlationFilter &&
      self.payloadBytes ≠ 0)
    (.corruptTier "catalog contains an invalid group entry")

/-- The loop over a page's groups: sequences increase and checkpoints advance. -/
def validateGroups : Option Nat → Option TierCheckpoint → List CatalogGroupEntry →
    TelemetryResult Unit
  | _, _, [] => .ok ()
  | previous, previousCheckpoint, group :: rest => do
    group.validate
    ensure (previous.all (· < group.groupSequence) &&
      previousCheckpoint.all (group.checkpoint.covers ·))
      (.corruptTier "catalog group sequences or checkpoints are not increasing")
    validateGroups (some group.groupSequence) (some group.checkpoint) rest

def CatalogPage.validate (self : CatalogPage) (space : Namespace) (groupsPerPage : Nat) :
    TelemetryResult Unit := do
  ensure (self.formatVersion = tierFormatVersion && self.space = space && !self.groups.isEmpty &&
      self.groups.length ≤ groupsPerPage)
    (.corruptTier "catalog page identity or cardinality is invalid")
  validateGroups none none self.groups

def CatalogPageRef.fromPage (page : CatalogPage) (pageKey : Key) (metadata : ObjectMetadata) :
    TelemetryResult CatalogPageRef := do
  let first ← okOr (.corruptTier "catalog page is empty") page.groups.head?
  let last ← okOr (.corruptTier "catalog page is empty") page.groups.getLast?
  ensure (page.groups.length < 2 ^ 32) (.corruptTier "catalog page is too large")
  return {
    pageSequence := page.pageSequence
    pageKey
    pageBytes := metadata.bytes
    pageChecksum := metadata.contentDigest
    firstGroupSequence := first.groupSequence
    lastGroupSequence := last.groupSequence
    lastCheckpoint := last.checkpoint
    groupCount := page.groups.length
    firstOffset := ((page.groups.map (·.firstOffset)).min?).getD 0
    lastOffset := ((page.groups.map (·.lastOffset)).max?).getD 0
    minTimestampUnixNanos := ((page.groups.map (·.minTimestampUnixNanos)).min?).getD 0
    maxTimestampUnixNanos := ((page.groups.map (·.maxTimestampUnixNanos)).max?).getD 0
    minSignalIdentity := (page.groups.filterMap (·.minSignalIdentity)).min?
    maxSignalIdentity := (page.groups.filterMap (·.maxSignalIdentity)).max?
    correlationFilter := CorrelationBlockFilter.unionAll (page.groups.map (·.correlationFilter))
  }

def CatalogPageRef.validate (self : CatalogPageRef) : TelemetryResult Unit :=
  ensure (validSummary self.pageBytes self.pageChecksum self.firstOffset self.lastOffset
      self.minTimestampUnixNanos self.maxTimestampUnixNanos self.groupCount self.lastCheckpoint
      self.minSignalIdentity self.maxSignalIdentity self.correlationFilter &&
      self.firstGroupSequence ≤ self.lastGroupSequence)
    (.corruptTier "catalog root contains an invalid page reference")

def CatalogRoot.empty (space : Namespace) : CatalogRoot where
  formatVersion := tierFormatVersion
  generation := 0
  space
  latestCheckpoint := none
  nextBlockId := 0
  pages := []
  retiredObjects := []

/-- The loop over a root's pages; the result is the last page's checkpoint. -/
def validatePages : Option Nat → Option Nat → Option TierCheckpoint → List CatalogPageRef →
    TelemetryResult (Option TierCheckpoint)
  | _, _, previousCheckpoint, [] => .ok previousCheckpoint
  | previousPage, previousGroup, previousCheckpoint, page :: rest => do
    page.validate
    ensure (previousPage.all (· < page.pageSequence) &&
        previousGroup.all (· < page.firstGroupSequence) &&
        previousCheckpoint.all (page.lastCheckpoint.covers ·))
      (.corruptTier "catalog root pages or checkpoints are not strictly increasing")
    validatePages (some page.pageSequence) (some page.lastGroupSequence) (some page.lastCheckpoint)
      rest

/-- The loop over a root's retired objects: they are immutable objects of the namespace, pairwise
different, and none of them is a page of the root. -/
def validateRetired (pages : List CatalogPageRef) : List RetiredObject → TelemetryResult Unit
  | [] => .ok ()
  | retired :: rest => do
    ensure (retired.objectKey ≠ .current && retired.objectKey ≠ .pending &&
        !rest.any (fun other => other.objectKey = retired.objectKey) &&
        !pages.any (fun page => page.pageKey = retired.objectKey))
      (.corruptTier "catalog root contains an invalid retired-object ownership set")
    validateRetired pages rest

def CatalogRoot.validate (self : CatalogRoot) (space : Namespace) : TelemetryResult Unit := do
  ensure (self.formatVersion = tierFormatVersion && self.space = space)
    (.corruptTier "catalog root belongs to a different namespace")
  let previousCheckpoint ← validatePages none none none self.pages
  ensure (self.latestCheckpoint = previousCheckpoint)
    (.corruptTier "catalog root latest checkpoint disagrees with its final page")
  validateRetired self.pages self.retiredObjects

def CatalogTransaction.validate (self : CatalogTransaction) (maxObjects : Nat) :
    TelemetryResult Unit := do
  ensure (self.formatVersion = tierFormatVersion && self.targetGeneration ≠ 0 &&
      self.reclaimAfterUnixMillis ≠ 0 && !self.ownedObjects.isEmpty &&
      self.ownedObjects.length ≤ maxObjects && self.ownedObjects.contains self.targetRootKey &&
      self.targetRootKey.ownedBy self.transactionId &&
      self.ownedObjects.all (Key.ownedBy self.transactionId))
    (.corruptTier "catalog PENDING transaction is invalid")
  ensure self.ownedObjects.Nodup
    (.corruptTier "catalog PENDING transaction repeats an owned key")

def CatalogPointer.validate (self : CatalogPointer) : TelemetryResult Unit :=
  ensure (self.formatVersion = tierFormatVersion && self.rootBytes ≠ 0 &&
    validChecksum self.rootChecksum)
    (.corruptTier "catalog CURRENT pointer is invalid")

def sameGroupContents (left right : TierGroupManifest) : Bool :=
  left.formatVersion = right.formatVersion && left.groupSequence = right.groupSequence &&
    left.checkpoint = right.checkpoint && left.space = right.space && left.blocks = right.blocks &&
    left.artifacts.length = right.artifacts.length &&
    (left.artifacts.zip right.artifacts).all fun (left, right) =>
      left.kind = right.kind && left.name = right.name && left.bytes = right.bytes &&
        left.checksumAlgorithm = right.checksumAlgorithm && left.checksum = right.checksum

def verifyObjectMetadata (observed expected : ObjectMetadata) (context : String) :
    TelemetryResult Unit :=
  ensure (observed.bytes = expected.bytes && observed.contentDigest = expected.contentDigest)
    (.corruptTier s!"object store changed {context}")

theorem verifyObjectMetadata_ok (h : verifyObjectMetadata observed expected context = .ok ()) :
    observed.bytes = expected.bytes ∧ observed.contentDigest = expected.contentDigest := by
  simpa [verifyObjectMetadata, ensure_eq_ok] using h

def ensureControlSize (bytes limit : Nat) (context : String) : TelemetryResult Unit :=
  ensure (bytes ≤ limit)
    (.objectStore s!"{context} exceeds configured control-object limit {limit}")

/-- `verify_expected_object` on the bytes of a stored object. -/
def verifyExpectedObject {β : Type} (C : Codec β) (object : Object β) (expectedBytes : Nat)
    (expectedChecksum : Digest) (context : String) : TelemetryResult Unit :=
  ensure (C.size object = expectedBytes && C.digest object = expectedChecksum)
    (.corruptTier s!"{context} failed length or BLAKE3 verification")

/-! ## What a validated transaction and root satisfy -/

variable {self : CatalogTransaction} {space : Namespace}

theorem CatalogTransaction.validate_owned (h : self.validate maxObjects = .ok ())
    (hkey : key ∈ self.ownedObjects) : ∃ path, key = .object self.transactionId path := by
  simp only [CatalogTransaction.validate, bind_eq_ok, ensure_eq_ok, Bool.and_eq_true,
    List.all_eq_true] at h
  obtain ⟨-, ⟨-, hall⟩, -⟩ := h
  have hown := hall key hkey
  cases key with
  | object owner path =>
    exact ⟨path, by simpa [Key.ownedBy] using hown⟩
  | current => simp [Key.ownedBy] at hown
  | pending => simp [Key.ownedBy] at hown

theorem CatalogTransaction.validate_nodup (h : self.validate maxObjects = .ok ()) :
    self.ownedObjects.Nodup := by
  simp only [CatalogTransaction.validate, bind_eq_ok, ensure_eq_ok] at h
  obtain ⟨-, -, hnodup⟩ := h
  simpa using hnodup

theorem validateRetired_spec (h : validateRetired pages retired = .ok ()) (hmem : entry ∈ retired) :
    (∃ tx path, entry.objectKey = .object tx path) ∧
      ∀ page ∈ pages, page.pageKey ≠ entry.objectKey := by
  induction retired with
  | nil => simp at hmem
  | cons head rest ih =>
    simp only [validateRetired, bind_eq_ok, ensure_eq_ok, Bool.and_eq_true] at h
    obtain ⟨-, ⟨⟨⟨hcurrent, hpend⟩, -⟩, hpages⟩, hrest⟩ := h
    rcases List.mem_cons.mp hmem with rfl | hmem
    · refine ⟨?_, fun page hpage heq => ?_⟩
      · cases hkey : entry.objectKey with
        | object tx path => exact ⟨tx, path, rfl⟩
        | current => simp [hkey] at hcurrent
        | pending => simp [hkey] at hpend
      · rw [Bool.not_eq_true', List.any_eq_false] at hpages
        exact hpages page hpage (decide_eq_true heq)
    · exact ih hrest hmem

theorem CatalogRoot.validate_retired {self : CatalogRoot} (h : self.validate space = .ok ()) :
    validateRetired self.pages self.retiredObjects = .ok () := by
  simp only [CatalogRoot.validate, bind_eq_ok] at h
  obtain ⟨-, -, -, -, -, -, h⟩ := h
  exact h

end ShardTelemetry.Tier
