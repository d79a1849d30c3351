import ShardTelemetry.Tier.Store
import Mathlib.Data.List.Sort

/-!
# The catalog protocol of the object tier

`TelemetryObjectTier` as commands over its in-memory state: opening a catalog, recovering and
beginning transactions, reclaiming retired objects, publishing a group and retiring old groups.

The root is held behind an `Arc`; readers' leases share it.  An allocation is named by a handle.
`Arc::make_mut` clones the root when a lease shares it, and moves it away from weak references
otherwise.  The tier continues with an allocation that no lease and no weak reference names, so
`makeMut` takes a fresh handle.

What comes before and after the preparation of a transaction is the same code in `publish_group` and
`retain_since_timestamp`; it is `withTransaction` here.
-/

namespace ShardTelemetry.Tier

open Cmd

/-- Partition-scoped immutable object tier with a conditionally published root. -/
structure TelemetryObjectTier where
  space : Namespace
  config : ObjectTierConfig
  root : CatalogRoot
  /-- The allocation behind the tier's own `Arc` of the root. -/
  rootHandle : Nat
  /-- The next allocation not used before. -/
  nextHandle : Nat
  currentRootKey : Option Key
  currentVersion : Option Version
  /-- The weak reference that defers the deletion of each retired key. -/
  retiredLeases : Key → Option Nat

namespace TelemetryObjectTier

def maxTransactionObjects (tier : TelemetryObjectTier) : Nat := tier.config.maxRetiredObjects + 4

/-- Replace the root through `Arc::make_mut`. -/
def makeMut (f : CatalogRoot → CatalogRoot) (tier : TelemetryObjectTier) : TelemetryObjectTier :=
  { tier with
    root := f tier.root
    rootHandle := tier.nextHandle
    nextHandle := tier.nextHandle + 1 }

end TelemetryObjectTier

variable {β : Type}

/-- A method of the tier. -/
abbrev TierM (β : Type) (α : Type) : Type :=
  Cmd (Effect β) Response TelemetryError TelemetryObjectTier α

/-! ## Store operations -/

def head (key : Key) : TierM β (Option ObjectMetadata) :=
  attempt (Effect.head key) fun r => r

def getObject (key : Key) (maxBytes : Nat) : TierM β (Object β) :=
  attempt (Effect.get key maxBytes) fun r => r

def delete (key : Key) : TierM β Unit :=
  attempt (Effect.delete key) fun r => r

def putBytesIfAbsent (key : Key) (object : Object β) : TierM β ObjectMetadata :=
  attempt (Effect.putBytesIfAbsent key object) fun r => r

def putFileIfAbsent (key : Key) (path : String) : TierM β ObjectMetadata :=
  attempt (Effect.putFileIfAbsent key path) fun r => r

def compareAndSwap (key : Key) (expectedVersion : Option Version) (object : Object β) :
    TierM β ObjectMetadata :=
  attempt (Effect.compareAndSwap key expectedVersion object) fun r => r

def hashFile (path : String) : TierM β ObjectMetadata :=
  attempt (Effect.hashFile path) fun r => r

def unixTimeMillis : TierM β Nat := perform Effect.unixTimeMillis

def newTransactionId (generation : Nat) : TierM β TransactionId := do
  let identity : Identity ← perform Effect.identity
  return ⟨identity, generation⟩

def leased (handle : Nat) : TierM β Bool := perform (Effect.leased handle)

def abandon (transaction : CatalogTransaction) : TierM β Unit :=
  perform (Effect.abandon transaction)

def deleteAll : List Key → TierM β Unit
  | [] => pure ()
  | key :: rest => do
    delete key
    deleteAll rest

/-! ## Decoding control objects -/

section Decode

variable (C : Codec β)

/-- `decode_json` for the objects of one shape. -/
def decodeJson {α : Type} (select : Object β → Option α) (context : String) (object : Object β) :
    TelemetryResult α :=
  okOr (.corruptTier s!"{context} decoding failed") (select object)

def Object.pointer? : Object β → Option CatalogPointer
  | .pointer value => some value
  | _ => none

def Object.transaction? : Object β → Option CatalogTransaction
  | .transaction value => some value
  | _ => none

def Object.root? : Object β → Option CatalogRoot
  | .root value => some value
  | _ => none

def Object.page? : Object β → Option CatalogPage
  | .page value => some value
  | _ => none

def Object.manifest? : Object β → Option TierGroupManifest
  | .manifest value => some value
  | _ => none

theorem decodeJson_pointer
    (h : decodeJson Object.pointer? context obj = .ok pointer) : obj = .pointer pointer := by
  rw [decodeJson, okOr_eq_ok] at h
  cases obj <;> simp_all [Object.pointer?]

theorem decodeJson_transaction
    (h : decodeJson Object.transaction? context obj = .ok tx) : obj = .transaction tx := by
  rw [decodeJson, okOr_eq_ok] at h
  cases obj <;> simp_all [Object.transaction?]

theorem decodeJson_root (h : decodeJson Object.root? context obj = .ok root) :
    obj = .root root := by
  rw [decodeJson, okOr_eq_ok] at h
  cases obj <;> simp_all [Object.root?]

def decodePage (tier : TelemetryObjectTier) (reference : CatalogPageRef) (object : Object β) :
    TelemetryResult CatalogPage := do
  verifyExpectedObject C object reference.pageBytes reference.pageChecksum "catalog page"
  let page ← decodeJson Object.page? "catalog page" object
  page.validate tier.space tier.config.groupsPerPage
  ensure (page.pageSequence = reference.pageSequence)
    (.corruptTier "catalog root and page sequences disagree")
  return page

def loadPage (reference : CatalogPageRef) : TierM β CatalogPage := do
  let tier ← get
  Cmd.ofExcept reference.validate
  let object ← getObject reference.pageKey tier.config.maxControlObjectBytes
  Cmd.ofExcept (decodePage C tier reference object)

def decodeGroup (tier : TelemetryObjectTier) (entry : CatalogGroupEntry) (object : Object β) :
    TelemetryResult TierGroupManifest := do
  verifyExpectedObject C object entry.manifestBytes entry.manifestChecksum "group manifest"
  let manifest ← decodeJson Object.manifest? "group manifest" object
  manifest.validate tier.space tier.config
  ensure (manifest.groupSequence = entry.groupSequence)
    (.corruptTier "catalog group and manifest sequences disagree")
  return manifest

def loadGroup (entry : CatalogGroupEntry) : TierM β TierGroupManifest := do
  let tier ← get
  Cmd.ofExcept entry.validate
  let object ← getObject entry.manifestKey tier.config.maxControlObjectBytes
  Cmd.ofExcept (decodeGroup C tier entry object)

end Decode

/-! ## Reclamation of retired objects -/

/-- `Weak::upgrade` of the weak reference recorded for a key, if there is one. -/
def upgrade : Option Nat → TierM β Bool
  | none => pure false
  | some handle => do
    let tier ← get
    if handle = tier.rootHandle then return true
    leased handle

/-- The loop of `reclaim_retired_objects`: the objects still pending and the first error. -/
def reclaimLoop (now : Nat) : List RetiredObject → List RetiredObject → Option TelemetryError →
    TierM β (List RetiredObject × Option TelemetryError)
  | [], pending, firstError => pure (pending, firstError)
  | retired :: rest, pending, firstError => do
    let tier ← get
    let leased ← upgrade (tier.retiredLeases retired.objectKey)
    if leased || now < retired.deleteAfterUnixMillis then
      reclaimLoop now rest (pending ++ [retired]) firstError
    else
      match ← observe (delete retired.objectKey) with
      | .ok () => do
        modify fun tier => { tier with
          retiredLeases := Function.update tier.retiredLeases retired.objectKey none }
        reclaimLoop now rest pending firstError
      | .error error => reclaimLoop now rest (pending ++ [retired]) (firstError <|> some error)

def reclaimRetiredObjects : TierM β Unit := do
  let tier ← get
  if tier.root.retiredObjects.isEmpty then return ()
  modify (TelemetryObjectTier.makeMut fun root => { root with retiredObjects := [] })
  let now ← unixTimeMillis
  let (pending, firstError) ← reclaimLoop now tier.root.retiredObjects [] none
  modify (TelemetryObjectTier.makeMut fun root => { root with retiredObjects := pending })
  match firstError with
  | some error => throw error
  | none => return ()

/-! ## Transactions -/

def verifyCurrentPointer : TierM β Unit := do
  let tier ← get
  let observed ← head .current
  Cmd.ofExcept (ensure (observed.map (·.versionToken) = tier.currentVersion)
    (.staleCatalog tier.currentVersion (observed.map (·.versionToken))))

section Transactions

variable (C : Codec β)

/-- Delete the objects of a transaction whose target root was not selected, once the lease of its
writer has expired. -/
def discardAbandoned (transaction : CatalogTransaction) : TierM β Unit := do
  let now ← unixTimeMillis
  let id := reprStr transaction.transactionId
  Cmd.ofExcept (ensure (transaction.reclaimAfterUnixMillis ≤ now)
    (.objectStore s!"catalog transaction {id} is still owned by an active writer lease"))
  abandon transaction
  deleteAll transaction.ownedObjects

def recoverPendingTransaction : TierM β Unit := do
  match ← head .pending with
  | none => return ()
  | some metadata => do
    let tier ← get
    Cmd.ofExcept (ensure (metadata.bytes ≤ tier.config.maxControlObjectBytes)
      (.corruptTier "catalog PENDING transaction exceeds its read limit"))
    let object ← getObject .pending tier.config.maxControlObjectBytes
    Cmd.ofExcept (verifyExpectedObject C object metadata.bytes metadata.contentDigest
      "catalog PENDING transaction")
    let transaction ←
      Cmd.ofExcept (decodeJson Object.transaction? "catalog PENDING transaction" object)
    Cmd.ofExcept (transaction.validate tier.maxTransactionObjects)
    if tier.currentRootKey = some transaction.targetRootKey ∧
        tier.root.generation = transaction.targetGeneration then
      delete .pending
    else do
      discardAbandoned transaction
      delete .pending

def beginTransaction (transaction : CatalogTransaction) : TierM β Unit := do
  recoverPendingTransaction C
  verifyCurrentPointer
  let tier ← get
  Cmd.ofExcept (transaction.validate tier.maxTransactionObjects)
  Cmd.ofExcept (ensureControlSize (C.size (.transaction transaction))
    tier.config.maxControlObjectBytes "catalog PENDING transaction")
  let _ ← compareAndSwap .pending none (.transaction transaction)

/-- The loop of `abort_transaction`: every owned key is tried, the first error is kept. -/
def cleanupOwned : List Key → Option TelemetryError → TierM β (Option TelemetryError)
  | [], cleanupError => pure cleanupError
  | key :: rest, cleanupError => do
    match ← observe (delete key) with
    | .ok () => cleanupOwned rest cleanupError
    | .error error => cleanupOwned rest (cleanupError <|> some error)

def abortTransaction (transaction : CatalogTransaction) (primary : TelemetryError) :
    TierM β TelemetryError := do
  let cleanupError ← cleanupOwned transaction.ownedObjects none
  let cleanupError ← match cleanupError with
    | some error => pure (some error)
    | none => do
      match ← observe (delete .pending) with
      | .ok () => pure none
      | .error error => pure (some error)
  match cleanupError with
  | some cleanup => return .objectStore (primary.display ++
      "; exact-key transaction cleanup will retry from PENDING: " ++ cleanup.display)
  | none => return primary

def completeTransaction : TierM β Unit := do
  let _ ← observe (delete .pending)

/-- Where the bytes of an object to publish come from. -/
inductive UploadBody (β : Type) where
  | bytes (object : Object β)
  | file (path : String)

/-- One object to publish, with the metadata the store must report for it. -/
structure Upload (β : Type) where
  key : Key
  body : UploadBody β
  expected : ObjectMetadata
  context : String

/-- A transaction ready to be published: the objects to upload, root last, the pointer that will
select the root, and the keys the old root relinquishes. -/
structure Publication (β : Type) where
  uploads : List (Upload β)
  nextRoot : CatalogRoot
  pointer : CatalogPointer
  newlyRetired : List RetiredObject
  transaction : CatalogTransaction

def putUpload (upload : Upload β) : TierM β Unit := do
  let stored ← match upload.body with
    | .bytes object => putBytesIfAbsent upload.key object
    | .file path => putFileIfAbsent upload.key path
  Cmd.ofExcept (verifyObjectMetadata stored upload.expected upload.context)

def putUploads : List (Upload β) → TierM β Unit
  | [] => pure ()
  | upload :: rest => do
    putUpload upload
    putUploads rest

/-- Upload every object of the transaction, then select its root. -/
def publishObjects (publication : Publication β) : TierM β ObjectMetadata := do
  putUploads publication.uploads
  let tier ← get
  compareAndSwap .current tier.currentVersion (.pointer publication.pointer)

/-- Hand the tier over to the root that `CURRENT` now selects. -/
def Publication.select (publication : Publication β) (version : Version)
    (tier : TelemetryObjectTier) : TelemetryObjectTier :=
  { tier with
    root := publication.nextRoot
    rootHandle := tier.nextHandle
    nextHandle := tier.nextHandle + 1
    currentRootKey := some publication.pointer.rootKey
    currentVersion := some version
    retiredLeases := fun key =>
      if publication.newlyRetired.any (·.objectKey = key) then some tier.rootHandle
      else tier.retiredLeases key }

def commitTransaction (publication : Publication β) : TierM β Unit := do
  beginTransaction C publication.transaction
  match ← observe (publishObjects publication) with
  | .error error => do
    let error ← abortTransaction publication.transaction error
    throw error
  | .ok metadata => do
    modify (publication.select metadata.versionToken)
    completeTransaction
    reclaimRetiredObjects

/-- The frame of `publish_group` and `retain_since_timestamp`: reclaim, recover, verify, and commit
the publication that `prepare` decides on, if any. -/
def withTransaction {α : Type} (prepare : TierM β (α ⊕ α × Publication β)) : TierM β α := do
  reclaimRetiredObjects
  recoverPendingTransaction C
  verifyCurrentPointer
  match ← prepare with
  | .inl result => return result
  | .inr (result, publication) => do
    commitTransaction C publication
    return result

end Transactions

/-! ## Publishing a group -/

/-- Millisecond deadline a configured duration after now. -/
def deadline (now duration : Nat) : Nat := saturatingAdd now (duration / 10 ^ 6)

/-- Insert by key, as one step of sorting retired objects. -/
def insertRetired (entry : RetiredObject) : List RetiredObject → List RetiredObject
  | [] => [entry]
  | head :: rest =>
    if (compare entry.objectKey head.objectKey).isLE then entry :: head :: rest
    else head :: insertRetired entry rest

/-- The entries that stay behind an entry when consecutive equal keys are dropped. -/
def dedupAfter (previous : RetiredObject) : List RetiredObject → List RetiredObject
  | [] => []
  | entry :: rest =>
    if previous.objectKey = entry.objectKey then dedupAfter previous rest
    else entry :: dedupAfter entry rest

/-- `dedup_by` on the object key: of consecutive equal keys the first entry stays. -/
def dedupRetired : List RetiredObject → List RetiredObject
  | [] => []
  | entry :: rest => entry :: dedupAfter entry rest

/-- Hand newly retired keys to a root: extend, sort by key, drop repeated keys. -/
def retire (retired newlyRetired : List RetiredObject) : List RetiredObject :=
  dedupRetired ((retired ++ newlyRetired).foldr insertRetired [])

section Publish

variable (C : Codec β)

/-- Hash every artifact file of a group and form its manifest entry and its upload. -/
def hashArtifacts (transactionId : TransactionId) (groupSequence : Nat) :
    List TierArtifactSource → TierM β (List TierArtifact × List (Upload β))
  | [] => pure ([], [])
  | source :: rest => do
    let metadata ← hashFile source.path
    let objectKey := Key.object transactionId (.artifact groupSequence
      (source.kind.keyName ++ "-" ++ source.name) metadata.contentDigest)
    let (artifacts, uploads) ← hashArtifacts transactionId groupSequence rest
    let artifact : TierArtifact :=
      { kind := source.kind, name := source.name, objectKey, bytes := metadata.bytes,
        checksumAlgorithm := checksumAlgorithm, checksum := metadata.contentDigest }
    return (artifact :: artifacts,
      ⟨objectKey, .file source.path, metadata, "group artifact"⟩ :: uploads)

/-- The upload of a control object below a transaction; its key holds its digest. -/
def controlUpload (transactionId : TransactionId) (path : Digest → Path) (object : Object β)
    (context : String) : Upload β where
  key := .object transactionId (path (C.digest object))
  body := .bytes object
  expected := C.metadata object 0
  context

/-- What the last published group says about a new one: it is a retry of the published group, it is
out of order, or it may follow. -/
def checkLastGroup (source : TierGroupSource) (manifest : TierGroupManifest) :
    Option CatalogPageRef → TierM β (Option TierGroupManifest)
  | none => pure none
  | some lastPageRef => do
    let lastPage ← loadPage C lastPageRef
    match lastPage.groups.getLast? with
    | none => pure none
    | some lastGroup => do
      if source.groupSequence = lastGroup.groupSequence then do
        let existing ← loadGroup C lastGroup
        Cmd.ofExcept (ensure (sameGroupContents existing manifest)
          (.corruptTier "group sequence was retried with different contents"))
        return some existing
      else do
        Cmd.ofExcept (ensure (lastGroup.groupSequence < source.groupSequence)
          (.objectStore "group sequences must be published in increasing order"))
        Cmd.ofExcept (ensure (source.checkpoint.covers lastGroup.checkpoint)
          (.objectStore "group checkpoints must advance monotonically"))
        return none

/-- The page that takes a new group, and whether it replaces the last page. -/
def nextPage (entry : CatalogGroupEntry) : Option CatalogPageRef → TierM β (CatalogPage × Bool)
  | some lastRef => do
    let tier ← get
    let last ← loadPage C lastRef
    if last.groups.length < tier.config.groupsPerPage then
      return ({ last with groups := last.groups ++ [entry] }, true)
    else do
      let pageSequence ← Cmd.ofExcept (okOr (.objectStore "catalog page sequence exhausted")
        (checkedAdd last.pageSequence 1))
      return (⟨tierFormatVersion, pageSequence, tier.space, [entry]⟩, false)
  | none => do
    let tier ← get
    return (⟨tierFormatVersion, 0, tier.space, [entry]⟩, false)

/-- What every publication has in common: the root is validated and sized, the pointer selects it,
and the transaction owns every uploaded key. -/
def preparePublication (tier : TelemetryObjectTier) (transactionId : TransactionId)
    (uploads : List (Upload β)) (nextRoot : CatalogRoot) (newlyRetired : List RetiredObject)
    (rootContext retiredReason : String) : TierM β (Publication β) := do
  Cmd.ofExcept (ensure (nextRoot.retiredObjects.length ≤ tier.config.maxRetiredObjects)
    (.objectStore retiredReason))
  Cmd.ofExcept (nextRoot.validate tier.space)
  Cmd.ofExcept (ensureControlSize (C.size (.root nextRoot)) tier.config.maxControlObjectBytes
    rootContext)
  let rootUpload := controlUpload C transactionId (.root nextRoot.generation)
    (.root nextRoot) rootContext
  let pointer : CatalogPointer :=
    { formatVersion := tierFormatVersion, generation := nextRoot.generation,
      rootKey := rootUpload.key, rootBytes := C.size (.root nextRoot),
      rootChecksum := C.digest (.root nextRoot) }
  Cmd.ofExcept (ensure (C.size (.pointer pointer) ≤ pointerReadLimit)
    (.corruptTier "catalog CURRENT pointer exceeds its read limit"))
  let now ← unixTimeMillis
  return {
    uploads := uploads ++ [rootUpload]
    nextRoot
    pointer
    newlyRetired
    transaction := {
      formatVersion := tierFormatVersion
      transactionId
      targetGeneration := nextRoot.generation
      targetRootKey := rootUpload.key
      reclaimAfterUnixMillis := deadline now tier.config.transactionLease
      ownedObjects := (uploads ++ [rootUpload]).map (·.key) } }

/-- Everything `publish_group` decides before it begins its transaction: an already published group,
or the manifest and the prepared publication. -/
def prepareGroup (source : TierGroupSource) :
    TierM β (TierGroupManifest ⊕ TierGroupManifest × Publication β) := do
  Cmd.ofExcept (validateSource source)
  let tier ← get
  let nextGeneration ← Cmd.ofExcept (okOr (.objectStore "catalog generation exhausted")
    (checkedAdd tier.root.generation 1))
  let transactionId ← newTransactionId nextGeneration
  let (artifacts, artifactUploads) ← hashArtifacts transactionId source.groupSequence
    source.artifacts
  let manifest : TierGroupManifest :=
    { formatVersion := tierFormatVersion, groupSequence := source.groupSequence,
      checkpoint := source.checkpoint, space := tier.space, blocks := source.blocks, artifacts }
  Cmd.ofExcept (manifest.validate tier.space tier.config)
  Cmd.ofExcept (ensureControlSize (C.size (.manifest manifest)) tier.config.maxControlObjectBytes
    "group manifest")
  let manifestUpload := controlUpload C transactionId (.manifest manifest.groupSequence)
    (.manifest manifest) "group manifest"
  let entry ← Cmd.ofExcept
    (CatalogGroupEntry.fromManifest manifest manifestUpload.key manifestUpload.expected)
  match ← checkLastGroup C source manifest tier.root.pages.getLast? with
  | some existing => return .inl existing
  | none => do
    let (page, replaceLast) ← nextPage C entry tier.root.pages.getLast?
    Cmd.ofExcept (page.validate tier.space tier.config.groupsPerPage)
    Cmd.ofExcept (ensureControlSize (C.size (.page page)) tier.config.maxControlObjectBytes
      "catalog page")
    let pageUpload := controlUpload C transactionId (.page page.pageSequence) (.page page)
      "catalog page"
    let pageRef ← Cmd.ofExcept (CatalogPageRef.fromPage page pageUpload.key pageUpload.expected)
    let firstBlockId := (manifest.blocks.head?.map (·.blockId)).getD 0
    Cmd.ofExcept (ensure (tier.root.nextBlockId ≤ firstBlockId)
      (.objectStore "group block identifiers overlap an older group"))
    let nextBlockId ← Cmd.ofExcept (okOr (.objectStore "block identifier exhausted")
      (checkedAdd ((manifest.blocks.getLast?.map (·.blockId)).getD 0) 1))
    let now ← unixTimeMillis
    let deleteAfterUnixMillis := deadline now tier.config.retirementGrace
    let replacedPage := if replaceLast then tier.root.pages.getLast?.map (·.pageKey) else none
    let newlyRetired := (tier.currentRootKey.toList ++ replacedPage.toList).map fun objectKey =>
      (⟨objectKey, deleteAfterUnixMillis⟩ : RetiredObject)
    let nextRoot := { tier.root with
      generation := nextGeneration
      latestCheckpoint := some source.checkpoint
      nextBlockId
      pages := (if replaceLast then tier.root.pages.dropLast else tier.root.pages) ++ [pageRef]
      retiredObjects := retire tier.root.retiredObjects newlyRetired }
    let publication ← preparePublication C tier transactionId
      (artifactUploads ++ [manifestUpload, pageUpload]) nextRoot newlyRetired "catalog root"
      "catalog generation exhausted its exact retired-object ownership bound"
    return .inr (manifest, publication)

def publishGroup (source : TierGroupSource) : TierM β TierGroupManifest :=
  withTransaction C (prepareGroup C source)

end Publish

/-! ## Retiring old groups -/

/-- Result of one bounded exact-key object-tier retention transaction. -/
structure TierRetentionReport where
  retiredGroups : Nat
  retiredPayloadBytes : Nat
  retiredObjects : Nat
  deriving DecidableEq

/-- What the retention loops accumulate over all pages. -/
structure RetentionState where
  retiredKeys : List Key
  report : TierRetentionReport

/-- The state after one more group is given up: its manifest and artifacts are retired, and its page
with the first group it loses. -/
def RetentionState.retireGroup (state : RetentionState) (pageChanged : Bool) (pageKey : Key)
    (group : CatalogGroupEntry) (manifest : TierGroupManifest) : RetentionState where
  retiredKeys := (if pageChanged then state.retiredKeys else state.retiredKeys ++ [pageKey]) ++
    group.manifestKey :: manifest.artifacts.map (·.objectKey)
  report := { state.report with
    retiredGroups := saturatingAdd state.report.retiredGroups 1
    retiredPayloadBytes := saturatingAdd state.report.retiredPayloadBytes group.payloadBytes }

/-- How many keys are retired once one more group is given up. -/
def RetentionState.required (state : RetentionState) (pageChanged : Bool)
    (manifest : TierGroupManifest) : Nat :=
  state.retiredKeys.length + (1 + manifest.artifacts.length) + if pageChanged then 0 else 1

section Retain

variable (C : Codec β)

/-- The loop over the groups of one page: the retained groups, whether the page lost one, and the
state.  A group stays when it is the newest, not older than the cutoff, or above the bound on
retired keys. -/
def retainGroups (cutoff finalGroupSequence availableRetirements : Nat) (pageKey : Key) :
    List CatalogGroupEntry → Bool → RetentionState →
      TierM β (List CatalogGroupEntry × Bool × RetentionState)
  | [], pageChanged, state => pure ([], pageChanged, state)
  | group :: rest, pageChanged, state => do
    if group.groupSequence = finalGroupSequence ∨ cutoff ≤ group.maxTimestampUnixNanos then do
      let (retained, result) ← retainGroups cutoff finalGroupSequence availableRetirements pageKey
        rest pageChanged state
      return (group :: retained, result)
    else do
      let manifest ← loadGroup C group
      if availableRetirements < state.required pageChanged manifest then do
        let (retained, result) ← retainGroups cutoff finalGroupSequence availableRetirements pageKey
          rest pageChanged state
        return (group :: retained, result)
      else
        retainGroups cutoff finalGroupSequence availableRetirements pageKey rest true
          (state.retireGroup pageChanged pageKey group manifest)

/-- The page reference and the upload that replace a page which lost groups; none when it lost all
of them. -/
def replacePage (tier : TelemetryObjectTier) (transactionId : TransactionId) (page : CatalogPage)
    (retainedGroups : List CatalogGroupEntry) :
    TelemetryResult (Option (CatalogPageRef × Upload β)) :=
  if retainedGroups.isEmpty then .ok none
  else do
    let replacement :
      CatalogPage := ⟨tierFormatVersion, page.pageSequence, page.space, retainedGroups⟩
    replacement.validate tier.space tier.config.groupsPerPage
    ensureControlSize (C.size (.page replacement)) tier.config.maxControlObjectBytes
      "retained catalog page"
    let upload := controlUpload C transactionId (.page replacement.pageSequence) (.page replacement)
      "retained catalog page"
    let reference ← CatalogPageRef.fromPage replacement upload.key upload.expected
    return some (reference, upload)

/-- The loop over the pages: the next root's pages, the replacement pages to upload, and the
state. -/
def retainPages (tier : TelemetryObjectTier) (transactionId : TransactionId)
    (cutoff finalGroupSequence availableRetirements : Nat) :
    List CatalogPageRef → RetentionState →
      TierM β (List CatalogPageRef × List (Upload β) × RetentionState)
  | [], state => pure ([], [], state)
  | pageRef :: rest, state => do
    let page ← loadPage C pageRef
    let (retainedGroups, pageChanged, state) ← retainGroups C cutoff finalGroupSequence
      availableRetirements pageRef.pageKey page.groups false state
    if ¬ pageChanged then do
      let (nextPages, uploads, state) ← retainPages tier transactionId cutoff finalGroupSequence
        availableRetirements rest state
      return (pageRef :: nextPages, uploads, state)
    else do
      let replacement ← Cmd.ofExcept (replacePage C tier transactionId page retainedGroups)
      let (nextPages, uploads, state) ← retainPages tier transactionId cutoff finalGroupSequence
        availableRetirements rest state
      return (replacement.toList.map (·.1) ++ nextPages,
        replacement.toList.map (·.2) ++ uploads, state)

/-- Everything `retain_since_timestamp` decides before it begins its transaction: there is nothing
to retire, or the prepared publication. -/
def prepareRetention (cutoff : Nat) :
    TierM β (TierRetentionReport ⊕ TierRetentionReport × Publication β) := do
  let tier ← get
  match tier.root.pages.getLast? with
  | none => return .inl ⟨0, 0, 0⟩
  | some lastPage => do
    let availableRetirements := tier.config.maxRetiredObjects - tier.root.retiredObjects.length - 1
    if availableRetirements < 3 then return .inl ⟨0, 0, 0⟩
    let nextGeneration ← Cmd.ofExcept (okOr (.objectStore "catalog generation exhausted")
      (checkedAdd tier.root.generation 1))
    let transactionId ← newTransactionId nextGeneration
    let (nextPages, uploads, state) ← retainPages C tier transactionId cutoff
      lastPage.lastGroupSequence availableRetirements tier.root.pages ⟨[], ⟨0, 0, 0⟩⟩
    if state.report.retiredGroups = 0 then return .inl state.report
    let currentRootKey ← Cmd.ofExcept (okOr
      (.corruptTier "nonempty catalog has no selected root key") tier.currentRootKey)
    let now ← unixTimeMillis
    let deleteAfterUnixMillis := deadline now tier.config.retirementGrace
    let newlyRetired := retire [] ((state.retiredKeys ++ [currentRootKey]).map fun objectKey =>
      ⟨objectKey, deleteAfterUnixMillis⟩)
    let nextRoot := { tier.root with
      generation := nextGeneration
      pages := nextPages
      retiredObjects := retire tier.root.retiredObjects newlyRetired }
    let publication ← preparePublication C tier transactionId uploads nextRoot newlyRetired
      "retained catalog root" "retention exhausted the exact retired-object ownership bound"
    return .inr ({ state.report with retiredObjects := newlyRetired.length }, publication)

def retainSinceTimestamp (cutoff : Nat) : TierM β TierRetentionReport :=
  withTransaction C (prepareRetention C cutoff)

end Retain

/-! ## Opening a catalog -/

/-- The tier of a namespace in which nothing was published. -/
def TelemetryObjectTier.blank (space : Namespace) (config : ObjectTierConfig) :
    TelemetryObjectTier where
  space
  config
  root := .empty space
  rootHandle := 0
  nextHandle := 1
  currentRootKey := none
  currentVersion := none
  retiredLeases := fun _ => none

/-- `open`, run on the blank tier; the opened tier is the state it leaves. -/
def openCatalog (C : Codec β) : TierM β Unit := do
  let tier ← get
  Cmd.ofExcept tier.config.validate
  match ← head .current with
  | none => recoverPendingTransaction C
  | some metadata => do
    Cmd.ofExcept (ensure (metadata.bytes ≤ pointerReadLimit)
      (.corruptTier "catalog CURRENT pointer exceeds its read limit"))
    let pointerObject ← getObject .current pointerReadLimit
    Cmd.ofExcept (verifyExpectedObject C pointerObject metadata.bytes metadata.contentDigest
      "catalog CURRENT")
    let pointer ← Cmd.ofExcept (decodeJson Object.pointer? "catalog CURRENT" pointerObject)
    Cmd.ofExcept pointer.validate
    let rootObject ← getObject pointer.rootKey tier.config.maxControlObjectBytes
    Cmd.ofExcept (verifyExpectedObject C rootObject pointer.rootBytes pointer.rootChecksum
      "catalog root")
    let root ← Cmd.ofExcept (decodeJson Object.root? "catalog root" rootObject)
    Cmd.ofExcept (root.validate tier.space)
    Cmd.ofExcept (ensure (root.generation = pointer.generation)
      (.corruptTier "catalog CURRENT and root generations disagree"))
    Cmd.ofExcept (ensure (root.retiredObjects.length ≤ tier.config.maxRetiredObjects)
      (.corruptTier "catalog root exceeds the retired-object ownership bound"))
    set { tier with
      root, currentRootKey := some pointer.rootKey, currentVersion := some metadata.versionToken }
    recoverPendingTransaction C
    reclaimRetiredObjects

end ShardTelemetry.Tier
