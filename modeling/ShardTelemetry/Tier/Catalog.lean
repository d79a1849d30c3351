import ShardTelemetry.Error
import Mathlib.Data.List.Basic

/-!
# Catalog objects of the object tier

The durable objects of one catalog namespace (one physical shard and logical partition): groups and
their manifests, bounded pages of group entries, the immutable root of each generation, the
`CURRENT` pointer that selects a root and the `PENDING` record that owns the keys of an unfinished
transaction.  Field lists follow the source's structures.

Three representations differ from the source's strings.  A BLAKE3 digest is the number its lowercase
hexadecimal digits spell.  A transaction identifier is the identity tuple the source hashes, so two
identities never share one.  An object key is the tuple of the parts its text is formatted from; it
lies in the one namespace and passes the source's check on key syntax.
-/

namespace ShardTelemetry.Tier

/-- A BLAKE3 digest, as the number its hexadecimal text spells. -/
abbrev Digest := Nat

/-- The text of a digest is 64 lowercase hexadecimal digits. -/
def validChecksum (checksum : Digest) : Bool := checksum < 2 ^ 256

/-- What a process contributes to a transaction identifier. -/
structure Identity where
  /-- Process identifier. -/
  process : Nat
  /-- Wall clock in nanoseconds. -/
  timestamp : Nat
  /-- Process-wide transaction counter. -/
  sequence : Nat
  deriving DecidableEq, Repr, Ord

/-- Identifier of one catalog transaction: the identity of its start and its target generation. -/
structure TransactionId where
  identity : Identity
  generation : Nat
  deriving DecidableEq, Repr, Ord

/-- Key of an immutable object below its transaction. -/
inductive Path where
  /-- `groups/{sequence}/{label}-{digest}`; the label is the artifact's role and name. -/
  | artifact (groupSequence : Nat) (label : String) (digest : Digest)
  /-- `groups/{sequence}/manifest-{digest}.json`. -/
  | manifest (groupSequence : Nat) (digest : Digest)
  /-- `pages/page-{sequence}-{digest}.json`. -/
  | page (pageSequence : Nat) (digest : Digest)
  /-- `roots/root-{generation}-{digest}.json`. -/
  | root (generation : Nat) (digest : Digest)
  deriving DecidableEq, Ord

/-- Object key within one catalog namespace. -/
inductive Key where
  /-- The mutable pointer that selects the authoritative root. -/
  | current
  /-- The fixed record of the transaction in progress. -/
  | pending
  /-- An immutable object below `transactions/{id}`. -/
  | object (transaction : TransactionId) (path : Path)
  deriving DecidableEq, Ord

/-- `starts_with` on the prefix of a transaction's own keys. -/
def Key.ownedBy (transaction : TransactionId) : Key → Bool
  | .object owner _ => owner = transaction
  | _ => false

/-- Kind of immutable artifact attached to one block group. -/
inductive TierArtifactKind where
  /-- Concatenated compressed block payloads. -/
  | payloadPack
  /-- Independent persistent query-index segment for the group. -/
  | queryIndex
  /-- Immutable compression dictionary payload. -/
  | dictionary
  /-- Immutable placement-to-dictionary assignment catalog. -/
  | dictionaryCatalog
  deriving DecidableEq

def TierArtifactKind.keyName : TierArtifactKind → String
  | .payloadPack => "payload"
  | .queryIndex => "query-index"
  | .dictionary => "dictionary"
  | .dictionaryCatalog => "dictionary-catalog"

/-- Local source file to publish as one immutable group artifact. -/
structure TierArtifactSource where
  kind : TierArtifactKind
  name : String
  path : String
  deriving DecidableEq

/-- Immutable object metadata for one published group artifact. -/
structure TierArtifact where
  kind : TierArtifactKind
  name : String
  objectKey : Key
  bytes : Nat
  checksumAlgorithm : String
  checksum : Digest
  deriving DecidableEq

/-- Compact filter of the identities of a block; its words are united bit by bit. -/
structure CorrelationBlockFilter where
  bits : List Nat
  deriving DecidableEq

instance : Inhabited CorrelationBlockFilter := ⟨⟨List.replicate 16 0⟩⟩

def CorrelationBlockFilter.unionAssign (self other : CorrelationBlockFilter) :
    CorrelationBlockFilter :=
  ⟨List.zipWith (· ||| ·) self.bits other.bits⟩

/-- The union of the filters that are present, if any is. -/
def CorrelationBlockFilter.unionAll (filters : List (Option CorrelationBlockFilter)) :
    Option CorrelationBlockFilter :=
  (filters.filterMap id).foldl
    (fun filter block => some ((filter.getD default).unionAssign block)) none

/-- Durable block metadata and payload extent inside a block-group pack. -/
structure TierBlockEntry where
  blockId : Nat
  sourceCompressionCohort : Nat
  placementId : Nat
  dictionaryId : Option String
  compressionCodec : String
  compressionLevel : Int
  firstOffset : Nat
  lastOffset : Nat
  recordCount : Nat
  sourceBytes : Nat
  structuralBytes : Nat
  storedBytes : Nat
  minTimestampUnixNanos : Nat
  maxTimestampUnixNanos : Nat
  compressionTemperature : Nat
  compressionShapeHash : Nat
  compressionTemperatureVarianceQ8 : Nat
  maxCompressionTemperatureDeviation : Nat
  payloadOffset : Nat
  payloadBytes : Nat
  payloadChecksum : Digest
  minSignalIdentity : Option Nat
  maxSignalIdentity : Option Nat
  correlationFilter : Option CorrelationBlockFilter
  deriving DecidableEq

/-- Durable sink watermark covered by an immutable object-tier group. -/
structure TierCheckpoint where
  /-- First placement sequence not represented by this or an older group. -/
  nextPlacementSequence : Nat
  /-- First logical offset not represented by this or an older group. -/
  nextOffset : Nat
  deriving DecidableEq

def TierCheckpoint.covers (self other : TierCheckpoint) : Bool :=
  self.nextPlacementSequence ≥ other.nextPlacementSequence && self.nextOffset ≥ other.nextOffset

/-- Complete local input needed to publish one block group. -/
structure TierGroupSource where
  groupSequence : Nat
  checkpoint : TierCheckpoint
  blocks : List TierBlockEntry
  artifacts : List TierArtifactSource
  deriving DecidableEq

/-- Physical shard and logical partition whose catalog one namespace holds. -/
structure Namespace where
  shardId : Nat
  topicId : Nat
  partitionId : Nat
  deriving DecidableEq

/-- Immutable manifest for one independently queryable block group. -/
structure TierGroupManifest where
  formatVersion : Nat
  groupSequence : Nat
  checkpoint : TierCheckpoint
  space : Namespace
  blocks : List TierBlockEntry
  artifacts : List TierArtifact
  deriving DecidableEq

/-- The artifact with the requested role. -/
def TierGroupManifest.artifact (self : TierGroupManifest) (kind : TierArtifactKind) :
    Option TierArtifact :=
  self.artifacts.find? (·.kind = kind)

/-- Bounded catalog entry pointing to one immutable group manifest. -/
structure CatalogGroupEntry where
  groupSequence : Nat
  checkpoint : TierCheckpoint
  manifestKey : Key
  manifestBytes : Nat
  manifestChecksum : Digest
  firstOffset : Nat
  lastOffset : Nat
  minTimestampUnixNanos : Nat
  maxTimestampUnixNanos : Nat
  blockCount : Nat
  payloadBytes : Nat
  minSignalIdentity : Option Nat
  maxSignalIdentity : Option Nat
  correlationFilter : Option CorrelationBlockFilter
  deriving DecidableEq

/-- Immutable bounded page of group catalog entries. -/
structure CatalogPage where
  formatVersion : Nat
  pageSequence : Nat
  space : Namespace
  groups : List CatalogGroupEntry
  deriving DecidableEq

/-- Root-level coarse bounds and immutable pointer for one catalog page. -/
structure CatalogPageRef where
  pageSequence : Nat
  pageKey : Key
  pageBytes : Nat
  pageChecksum : Digest
  firstGroupSequence : Nat
  lastGroupSequence : Nat
  lastCheckpoint : TierCheckpoint
  groupCount : Nat
  firstOffset : Nat
  lastOffset : Nat
  minTimestampUnixNanos : Nat
  maxTimestampUnixNanos : Nat
  minSignalIdentity : Option Nat
  maxSignalIdentity : Option Nat
  correlationFilter : Option CorrelationBlockFilter
  deriving DecidableEq

/-- One exact object whose previous catalog generation relinquished ownership. -/
structure RetiredObject where
  objectKey : Key
  /-- Earliest wall-clock millisecond when cross-process readers cannot remain. -/
  deleteAfterUnixMillis : Nat
  deriving DecidableEq

/-- Immutable catalog root for one physical-shard logical-partition pair. -/
structure CatalogRoot where
  formatVersion : Nat
  generation : Nat
  space : Namespace
  latestCheckpoint : Option TierCheckpoint
  /-- First block identifier not used by any published group. -/
  nextBlockId : Nat
  pages : List CatalogPageRef
  /-- Exact keys retired by this generation and awaiting their final reader. -/
  retiredObjects : List RetiredObject
  deriving DecidableEq

/-- Small mutable pointer atomically selecting the authoritative catalog root. -/
structure CatalogPointer where
  formatVersion : Nat
  generation : Nat
  rootKey : Key
  rootBytes : Nat
  rootChecksum : Digest
  deriving DecidableEq

/-- Crash-replayable ownership of every object prepared before `CURRENT` moves. -/
structure CatalogTransaction where
  formatVersion : Nat
  transactionId : TransactionId
  targetGeneration : Nat
  targetRootKey : Key
  reclaimAfterUnixMillis : Nat
  ownedObjects : List Key
  deriving DecidableEq

/-- The contents of a stored object.  Control objects are stored as JSON text, which decodes to what
was encoded; an artifact holds opaque contents `β`. -/
inductive Object (β : Type) where
  | pointer (pointer : CatalogPointer)
  | transaction (transaction : CatalogTransaction)
  | root (root : CatalogRoot)
  | page (page : CatalogPage)
  | manifest (manifest : TierGroupManifest)
  | artifact (contents : β)
  deriving DecidableEq

/-- How objects are represented as bytes, as far as the tier observes it: the length of the stored
bytes and their BLAKE3 digest. -/
structure Codec (β : Type) where
  size : Object β → Nat
  digest : Object β → Digest

/-- Metadata returned for one object-store object. -/
structure ObjectMetadata where
  bytes : Nat
  versionToken : Version
  contentDigest : Digest
  deriving DecidableEq

/-- Metadata of an object stored under a version. -/
def Codec.metadata {β : Type} (C : Codec β) (object : Object β) (version : Version) :
    ObjectMetadata :=
  ⟨C.size object, version, C.digest object⟩

/-- Object-tier limits. -/
structure ObjectTierConfig where
  targetGroupPayloadBytes : Nat
  maxGroupPayloadBytes : Nat
  maxBlocksPerGroup : Nat
  groupsPerPage : Nat
  maxControlObjectBytes : Nat
  maxRetiredObjects : Nat
  /-- Safety window for readers in another process that leased the old root, in nanoseconds. -/
  retirementGrace : Nat
  /-- Maximum expected duration of one publication before failover may reclaim it, in
  nanoseconds. -/
  transactionLease : Nat
  deriving DecidableEq

end ShardTelemetry.Tier
