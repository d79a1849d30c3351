import ShardTelemetry.Tier.Validate
import ShardTelemetry.Lib.Prog

/-!
# The object store and the effects of the tier

The tier acts on its surroundings through single effects: the operations of the object-store
contract, reading a local file, the wall clock, the process identity and the question whether an
`Arc` is still held by a reader's lease.  Each effect is atomic.  What the environment decides (that
an operation fails, what a file or the clock holds) is a `Choice`; a failed operation changes
nothing.

The store is the one namespace of one catalog.  Every write gets a version that was never used
before, which is all the tier may assume of versions.

`Shared` adds to the store the live leases and a record of the past that no step reads.
-/

namespace ShardTelemetry.Tier

open Function

variable {β : Type}

/-- One stored object. -/
structure Stored (β : Type) where
  object : Object β
  version : Version

/-- The objects of one namespace. -/
structure Store (β : Type) where
  objects : Key → Option (Stored β)
  nextVersion : Version

namespace Store

def empty : Store β := ⟨fun _ => none, 0⟩

/-- Write an object under a fresh version. -/
def insert (store : Store β) (key : Key) (object : Object β) : Store β where
  objects := update store.objects key (some ⟨object, store.nextVersion⟩)
  nextVersion := store.nextVersion + 1

def erase (store : Store β) (key : Key) : Store β where
  objects := update store.objects key none
  nextVersion := store.nextVersion

/-- The contents stored under a key. -/
def contents (store : Store β) (key : Key) : Option (Object β) :=
  (store.objects key).map (·.object)

/-- The version stored under a key. -/
def version (store : Store β) (key : Key) : Option Version :=
  (store.objects key).map (·.version)

variable (store : Store β) (key other : Key) (obj : Object β)

theorem contents_insert : (store.insert key obj).contents other =
    if other = key then some obj else store.contents other := by
  simp only [contents, insert, update_apply]
  split <;> rfl

theorem contents_erase : (store.erase key).contents other =
    if other = key then none else store.contents other := by
  simp only [contents, erase, update_apply]
  split <;> rfl

theorem version_insert : (store.insert key obj).version other =
    if other = key then some store.nextVersion else store.version other := by
  simp only [version, insert, update_apply]
  split <;> rfl

variable {store key other obj}

section

variable (h : other ≠ key)
include h

theorem objects_insert_of_ne : (store.insert key obj).objects other = store.objects other :=
  update_of_ne h _ _

theorem objects_erase_of_ne : (store.erase key).objects other = store.objects other :=
  update_of_ne h _ _

theorem contents_insert_of_ne : (store.insert key obj).contents other = store.contents other := by
  rw [contents_insert, if_neg h]

end

@[simp] theorem contents_insert_self : (store.insert key obj).contents key = some obj := by
  rw [contents_insert, if_pos rfl]

@[simp] theorem contents_erase_self : (store.erase key).contents key = none := by
  rw [contents_erase, if_pos rfl]

theorem version_eq_none : store.version key = none ↔ store.contents key = none := by
  simp [version, contents]

end Store

/-- The effects of the tier. -/
inductive Effect (β : Type) where
  | head (key : Key)
  | get (key : Key) (maxBytes : Nat)
  | delete (key : Key)
  | putBytesIfAbsent (key : Key) (object : Object β)
  | putFileIfAbsent (key : Key) (path : String)
  | compareAndSwap (key : Key) (expectedVersion : Option Version) (object : Object β)
  /-- Length and digest of a local file. -/
  | hashFile (path : String)
  | unixTimeMillis
  /-- Process identifier, wall clock and transaction counter of a new transaction. -/
  | identity
  /-- `Weak::upgrade`: a lease still holds the root with this handle. -/
  | leased (handle : Nat)
  /-- The decision of a recovery that a transaction was abandoned.  It touches nothing. -/
  | abandon (transaction : CatalogTransaction)

/-- What each effect answers. -/
def Response : Effect β → Type
  | .head _ => TelemetryResult (Option ObjectMetadata)
  | .get _ _ => TelemetryResult (Object β)
  | .delete _ => TelemetryResult Unit
  | .putBytesIfAbsent _ _ => TelemetryResult ObjectMetadata
  | .putFileIfAbsent _ _ => TelemetryResult ObjectMetadata
  | .compareAndSwap _ _ _ => TelemetryResult ObjectMetadata
  | .hashFile _ => TelemetryResult ObjectMetadata
  | .unixTimeMillis => Nat
  | .identity => Identity
  | .leased _ => Bool
  | .abandon _ => Unit

/-- What the environment decides about one effect. -/
structure Choice (β : Type) where
  /-- The operation fails with this error and has no effect. -/
  failure : Option TelemetryError
  /-- The contents of the file the operation reads. -/
  file : β
  /-- The wall clock in milliseconds. -/
  clock : Nat
  identity : Identity

/-- Read lease for one catalog generation: a strong reference to the root of `owner`'s tier that has
this handle, with the key of the root. -/
structure Lease where
  owner : Nat
  handle : Nat
  root : CatalogRoot
  rootKey : Option Key
  deriving DecidableEq

/-- What happened so far; no step reads it. -/
structure History (β : Type) where
  /-- Every pointer `CURRENT` has selected, oldest first, with its version. -/
  committed : List (CatalogPointer × Version)
  /-- Every object written below a transaction. -/
  written : List (Key × Object β)
  /-- The transactions some recovery decided were abandoned. -/
  abandoned : List TransactionId
  /-- The identities drawn so far, with the instance that drew them. -/
  issued : List (Nat × Identity)

/-- What the instances of the tier share: the store and the live leases. -/
structure Shared (β : Type) where
  store : Store β
  leases : List Lease
  history : History β

def Shared.initial : Shared β := ⟨.empty, [], ⟨[], [], [], []⟩⟩

/-- Note a pointer that `CURRENT` selects from now on. -/
def History.commit (history : History β) (key : Key) (object : Object β) (version : Version) :
    History β :=
  match key, object with
  | .current, .pointer pointer =>
    { history with committed := history.committed ++ [(pointer, version)] }
  | _, _ => history

def Shared.write (shared : Shared β) (key : Key) (object : Object β) : Shared β where
  store := shared.store.insert key object
  leases := shared.leases
  history := { shared.history with written := (key, object) :: shared.history.written }

section Semantics

variable [DecidableEq β] (C : Codec β)

/-- Create an immutable object, or verify an identical retry. -/
def Shared.putIfAbsent (shared : Shared β) (key : Key) (object : Object β) :
    TelemetryResult ObjectMetadata × Shared β :=
  match shared.store.objects key with
  | some stored =>
    if stored.object = object then (.ok (C.metadata object stored.version), shared)
    else (.error (.objectStore "immutable object key already contains different bytes"), shared)
  | none =>
    (.ok (C.metadata object shared.store.nextVersion), shared.write key object)

/-- Create an immutable object from the contents of a nonempty local file. -/
def Shared.putFileIfAbsent (shared : Shared β) (key : Key) (contents : β) :
    TelemetryResult ObjectMetadata × Shared β :=
  if C.size (.artifact contents) = 0 then
    (.error (.objectStore "immutable object source must be a nonempty regular file"), shared)
  else shared.putIfAbsent C key (.artifact contents)

/-- Conditionally replace a small mutable object. -/
def Shared.compareAndSwap (shared : Shared β) (key : Key) (expectedVersion : Option Version)
    (object : Object β) : TelemetryResult ObjectMetadata × Shared β :=
  if shared.store.version key = expectedVersion then
    (.ok (C.metadata object shared.store.nextVersion),
      { shared with
        store := shared.store.insert key object
        history := shared.history.commit key object shared.store.nextVersion })
  else (.error (.staleCatalog expectedVersion (shared.store.version key)), shared)

/-- One effect performed by an instance. -/
def Shared.perform (shared : Shared β) (owner : Nat) (choice : Choice β) :
    (effect : Effect β) → Response effect × Shared β
  | .head key =>
    match choice.failure with
    | some error => (.error error, shared)
    | none =>
      (.ok ((shared.store.objects key).map fun stored => C.metadata stored.object stored.version),
        shared)
  | .get key maxBytes =>
    match choice.failure, shared.store.contents key with
    | some error, _ => (.error error, shared)
    | none, none => (.error (.objectStore "object is absent"), shared)
    | none, some object =>
      if C.size object ≤ maxBytes then (.ok object, shared)
      else (.error (.objectStore "object exceeds its read limit"), shared)
  | .delete key =>
    match choice.failure with
    | some error => (.error error, shared)
    | none => (.ok (), { shared with store := shared.store.erase key })
  | .putBytesIfAbsent key object =>
    match choice.failure with
    | some error => (.error error, shared)
    | none => shared.putIfAbsent C key object
  | .putFileIfAbsent key _ =>
    match choice.failure with
    | some error => (.error error, shared)
    | none => shared.putFileIfAbsent C key choice.file
  | .compareAndSwap key expectedVersion object =>
    match choice.failure with
    | some error => (.error error, shared)
    | none => shared.compareAndSwap C key expectedVersion object
  | .hashFile _ =>
    match choice.failure with
    | some error => (.error error, shared)
    | none => (.ok (C.metadata (.artifact choice.file) 0), shared)
  | .unixTimeMillis => (choice.clock, shared)
  | .identity =>
    (choice.identity,
      { shared with
        history :=
          { shared.history with issued := (owner, choice.identity) :: shared.history.issued } })
  | .leased handle =>
    (shared.leases.any fun lease => lease.owner = owner && lease.handle = handle, shared)
  | .abandon transaction =>
    ((),
      { shared with
        history := { shared.history with
          abandoned := transaction.transactionId :: shared.history.abandoned } })

/-! ### What each effect can do -/

variable {C} {sh : Shared β}

theorem perform_head (h : sh.perform C owner choice (.head key) = (r, sh')) :
      sh' = sh ∧ ∀ md, r = .ok md →
      md = (sh.store.objects key).map fun stored => C.metadata stored.object stored.version := by
  simp only [Shared.perform] at h
  split at h <;> obtain ⟨rfl, rfl⟩ := Prod.mk.inj h
  · exact ⟨rfl, nofun⟩
  · exact ⟨rfl, fun _ h => (Except.ok.inj h).symm⟩

theorem perform_get (h : sh.perform C owner choice (.get key cap) = (r, sh')) :
    sh' = sh ∧ ∀ obj, r = .ok obj → sh.store.contents key = some obj := by
  simp only [Shared.perform] at h
  split at h
  · obtain ⟨rfl, rfl⟩ := Prod.mk.inj h
    exact ⟨rfl, nofun⟩
  · obtain ⟨rfl, rfl⟩ := Prod.mk.inj h
    exact ⟨rfl, nofun⟩
  · next hcont =>
    split at h <;> obtain ⟨rfl, rfl⟩ := Prod.mk.inj h
    · exact ⟨rfl, fun _ h => Except.ok.inj h ▸ hcont⟩
    · exact ⟨rfl, nofun⟩

theorem perform_delete (h : sh.perform C owner choice (.delete key) = (r, sh')) :
    (∃ error, r = .error error ∧ sh' = sh) ∨
      (r = .ok () ∧ sh' = { sh with store := sh.store.erase key }) := by
  simp only [Shared.perform] at h
  split at h <;> obtain ⟨rfl, rfl⟩ := Prod.mk.inj h
  · exact .inl ⟨_, rfl, rfl⟩
  · exact .inr ⟨rfl, rfl⟩

/-- A put either fails without effect or leaves an object of this kind under the key. -/
def Put (C : Codec β) (K : Object β → Prop) (key : Key) (sh : Shared β)
    (r : TelemetryResult ObjectMetadata) (sh' : Shared β) : Prop :=
  (∃ error, r = .error error ∧ sh' = sh) ∨ ∃ obj version, K obj ∧ r = .ok (C.metadata obj version) ∧
    ((sh.store.contents key = some obj ∧ sh' = sh) ∨
      (sh.store.contents key = none ∧ sh' = sh.write key obj))

theorem putIfAbsent_cases (h : sh.putIfAbsent C key obj = (r, sh')) :
    Put C (· = obj) key sh r sh' := by
  unfold Shared.putIfAbsent at h
  split at h
  · next stored hput =>
    split at h <;> obtain ⟨rfl, rfl⟩ := Prod.mk.inj h
    · next heq =>
      refine .inr ⟨obj, stored.version, rfl, rfl, .inl ⟨?_, rfl⟩⟩
      simp [Store.contents, hput, heq]
    · exact .inl ⟨_, rfl, rfl⟩
  · next hnone =>
    obtain ⟨rfl, rfl⟩ := Prod.mk.inj h
    exact .inr ⟨obj, _, rfl, rfl, .inr ⟨by simp [Store.contents, hnone], rfl⟩⟩

theorem perform_putBytes (h : sh.perform C owner choice (.putBytesIfAbsent key obj) = (r, sh')) :
    Put C (· = obj) key sh r sh' := by
  simp only [Shared.perform] at h
  split at h
  · obtain ⟨rfl, rfl⟩ := Prod.mk.inj h
    exact .inl ⟨_, rfl, rfl⟩
  · exact putIfAbsent_cases h

theorem perform_putFile (h : sh.perform C owner choice (.putFileIfAbsent key path) = (r, sh')) :
    Put C (fun obj => ∃ data, obj = .artifact data) key sh r sh' := by
  simp only [Shared.perform] at h
  split at h
  · obtain ⟨rfl, rfl⟩ := Prod.mk.inj h
    exact .inl ⟨_, rfl, rfl⟩
  · unfold Shared.putFileIfAbsent at h
    split at h
    · obtain ⟨rfl, rfl⟩ := Prod.mk.inj h
      exact .inl ⟨_, rfl, rfl⟩
    · exact (putIfAbsent_cases h).imp_right fun ⟨obj, version, heq, h⟩ =>
        ⟨obj, version, ⟨_, heq⟩, h⟩

theorem perform_compareAndSwap
    (h : sh.perform C owner choice (.compareAndSwap key expectedVersion obj) = (r, sh')) :
    (∃ error, r = .error error ∧ sh' = sh) ∨
      (r = .ok (C.metadata obj sh.store.nextVersion) ∧ sh.store.version key = expectedVersion ∧
        sh' = { sh with
          store := sh.store.insert key obj
          history := sh.history.commit key obj sh.store.nextVersion }) := by
  simp only [Shared.perform] at h
  split at h
  · obtain ⟨rfl, rfl⟩ := Prod.mk.inj h
    exact .inl ⟨_, rfl, rfl⟩
  · unfold Shared.compareAndSwap at h
    split at h <;> obtain ⟨rfl, rfl⟩ := Prod.mk.inj h
    · exact .inr ⟨rfl, ‹_›, rfl⟩
    · exact .inl ⟨_, rfl, rfl⟩

theorem perform_hashFile (h : sh.perform C owner choice (.hashFile path) = (r, sh')) :
    sh' = sh := by
  simp only [Shared.perform] at h
  split at h <;> exact (Prod.mk.inj h).2.symm

theorem perform_unixTimeMillis {r : Nat}
    (h : sh.perform C owner choice .unixTimeMillis = (r, sh')) : sh' = sh ∧ r = choice.clock :=
  ⟨(Prod.mk.inj h).2.symm, (Prod.mk.inj h).1.symm⟩

theorem perform_leased {r : Bool} (h : sh.perform C owner choice (.leased handle) = (r, sh')) :
    sh' = sh ∧ (r = true ↔ ∃ lease ∈ sh.leases, lease.owner = owner ∧ lease.handle = handle) := by
  obtain ⟨rfl, rfl⟩ := Prod.mk.inj h
  simp

/-- The effects that only read; the record of the past apart, nothing changes. -/
def Effect.quiet : Effect β → Bool
  | .delete _ | .putBytesIfAbsent _ _ | .putFileIfAbsent _ _ | .compareAndSwap _ _ _ => false
  | _ => true

theorem perform_quiet (hquiet : effect.quiet = true) {r : Response effect}
    (h : sh.perform C owner choice effect = (r, sh')) :
    sh'.store = sh.store ∧ sh'.leases = sh.leases := by
  cases effect with
  | head key => rw [(perform_head h).1]; exact ⟨rfl, rfl⟩
  | get key cap => rw [(perform_get h).1]; exact ⟨rfl, rfl⟩
  | hashFile path => rw [perform_hashFile h]; exact ⟨rfl, rfl⟩
  | unixTimeMillis | identity | leased | abandon =>
    obtain ⟨-, rfl⟩ := Prod.mk.inj h; exact ⟨rfl, rfl⟩
  | delete | putBytesIfAbsent | putFileIfAbsent | compareAndSwap => cases hquiet

/-- No effect takes or drops a lease. -/
theorem perform_leases {r : Response effect}
    (h : sh.perform C owner choice effect = (r, sh')) : sh'.leases = sh.leases := by
  cases effect with
  | delete key => rcases perform_delete h with ⟨_, _, rfl⟩ | ⟨_, rfl⟩ <;> rfl
  | putBytesIfAbsent key obj =>
    rcases perform_putBytes h with ⟨_, _, rfl⟩ | ⟨_, _, _, _, ⟨_, rfl⟩ | ⟨_, rfl⟩⟩ <;> rfl
  | putFileIfAbsent key path =>
    rcases perform_putFile h with ⟨_, _, rfl⟩ | ⟨_, _, _, _, ⟨_, rfl⟩ | ⟨_, rfl⟩⟩ <;> rfl
  | compareAndSwap key version obj =>
    rcases perform_compareAndSwap h with ⟨_, _, rfl⟩ | ⟨_, _, rfl⟩ <;> rfl
  | head | get | hashFile | unixTimeMillis | identity | leased | abandon =>
    exact (perform_quiet rfl h).2

end Semantics

end ShardTelemetry.Tier
