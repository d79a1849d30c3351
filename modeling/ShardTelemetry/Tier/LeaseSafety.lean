import ShardTelemetry.Tier.CrashSafety

/-!
# Leases and the reclamation of retired objects

A reader's lease is meant to keep everything it reads in the store.  The tier defers the deletion of
a retired key by a weak reference to the allocation of the root that retired it.  This covers a
lease of that very root, as long as the tier still holds the allocation the lease shares.

* `Arc::make_mut` detaches the tier from a leased allocation whenever something is left to reclaim
  when a call starts; the next publication then retires the leased root under an allocation that no
  lease holds.
* A page or a group is often reached by many older roots than the one that retires it, and their
  leases are not consulted.

Without these two situations the leases are safe, in every run.
-/

namespace ShardTelemetry.Tier

open Option World

variable {β : Type}

section

variable [DecidableEq β] (C : Codec β) (space : Namespace)

/-- The steps of a single writer that respect the leases. -/
def leaseStep : World β → Event β → Option (World β) :=
  Run.guarded (step C space) fun world event =>
    event.solo = true ∧ world.RespectsLeases event

end

section Theorems

variable [DecidableEq β] {world : World β}

/-- The invariant with leases holds along every run that respects them. -/
theorem SoloInv.reaches_leases (h : Run.Reaches (leaseStep C space) initial world) :
    SoloInv C True (fun _ => True) (Catalog.Based space) world := by
  refine Run.Reaches.invariant (fun w ev w' hw hstep => ?_) h (soloInv_initial True)
  obtain ⟨⟨hsolo, hrespects⟩, hstep⟩ := Run.guarded_eq_some.mp hstep
  refine hw.step hstep hsolo (by cases ev <;> trivial) (fun _ => hrespects) (fun _ h => h) ?_
  rintro call rfl before after hbefore (rfl | ⟨hroot, -⟩)
  · exact hbefore
  · intro hnone
    exact absurd hnone hroot

/-- In every run that respects the leases, whatever a live lease reads is stored: the leased root,
its pages, and the manifests and artifacts of their groups, with the recorded lengths and
digests. -/
theorem leases_intact (C : Codec β) (space : Namespace) (world : World β)
    (hreaches : Run.Reaches (leaseStep C space) initial world) :
    ∀ lease ∈ world.shared.leases, LeaseIntact C world.shared.store.contents lease := by
  intro lease hlease
  obtain ⟨⟨cat, hheld, -⟩, -⟩ := SoloInv.reaches_leases hreaches
  exact hheld.leases trivial lease hlease

end Theorems

/-- The first root is leased while the second group is published. -/
def sampleRespectful : List (Event Nat) :=
  [.openCatalog 0 sampleConfig] ++ performs 0 2 (sampleChoice 0 0) ++
  [.returns 0, .call 0 (.publishGroup (sampleSource 0))] ++ performs 0 17 (sampleChoice 0 0) ++
  [.returns 0, .lease 0, .call 0 (.publishGroup (sampleSource 1))] ++
  performs 0 22 (sampleChoice 0 1) ++ [.returns 0]

set_option maxRecDepth 100000 in
theorem leases_intact_sample : ∃ world : World Nat,
    Run.run (leaseStep sampleCodec sampleSpace) initial sampleRespectful = some world ∧
    world.shared.leases ≠ [] ∧
    ∀ lease ∈ world.shared.leases, LeaseIntact sampleCodec world.shared.store.contents lease := by
  have hcheck : ((Run.run (leaseStep sampleCodec sampleSpace) initial sampleRespectful).map
      fun world => world.shared.leases.isEmpty) = some false := by
    decide +kernel
  obtain ⟨world, hrun, hls⟩ := map_eq_some_iff.mp hcheck
  refine ⟨world, hrun, ?_, leases_intact sampleCodec sampleSpace world ⟨_, hrun⟩⟩
  intro hempty
  simp [hempty] at hls

/-- Each of the first two roots is leased before the next group is published. -/
def sampleDetached : List (Event Nat) :=
  [.openCatalog 0 sampleConfig] ++ performs 0 2 (sampleChoice 0 0) ++
  [.returns 0, .call 0 (.publishGroup (sampleSource 0))] ++ performs 0 17 (sampleChoice 0 0) ++
  [.returns 0, .lease 0, .call 0 (.publishGroup (sampleSource 1))] ++
  performs 0 22 (sampleChoice 0 1) ++
  [.returns 0, .lease 0, .call 0 (.publishGroup (sampleSource 2))] ++
  performs 0 29 (sampleChoice 0 2) ++ [.returns 0]

set_option maxRecDepth 100000 in
/-- The third publication deletes the second root, which is leased. -/
theorem leases_broken :
    ¬ ∀ world : World Nat, Run.Reaches (soloStep sampleCodec sampleSpace) initial world →
    ∀ lease ∈ world.shared.leases, LeaseIntact sampleCodec world.shared.store.contents lease := by
  intro hall
  have hcheck : ((Run.run (soloStep sampleCodec sampleSpace) initial sampleDetached).map
      fun world => world.shared.leases.any fun lease =>
        lease.rootKey.any fun key => (world.shared.store.contents key).isNone) = some true := by
    decide +kernel
  obtain ⟨world, hrun, hbroken⟩ := map_eq_some_iff.mp hcheck
  simp only [List.any_eq_true, any_eq_true_iff_get, isNone_iff_eq_none] at hbroken
  obtain ⟨lease, hlease, hroot, hgone⟩ := hbroken
  exact (hall world ⟨_, hrun⟩ lease hlease).1 _ (some_get hroot).symm hgone

end ShardTelemetry.Tier
