import ShardTelemetry.Tier.WriterCalls

/-!
# Runs with several writers

Any number of instances open one namespace, publish, retire and crash, and take turns at every
single effect.  What `CURRENT` reaches is meant to be in the store at every moment.

The clock and the root in memory decide what happens to an unfinished transaction.

* An instance with a stale root finds the `PENDING` record of a transaction that was committed after
  it loaded its root, takes the transaction for abandoned, and deletes what `CURRENT` reaches.
* A writer that sleeps past its lease does not notice that its uploads were reclaimed, and moves
  `CURRENT` to them, since reclaiming has not changed its version.

These are the only two ways: as long as no transaction is both judged abandoned and selected, and
identities are not drawn twice, `CURRENT` is intact in every run.
-/

namespace ShardTelemetry.Tier

open Option World

variable {β : Type}

/-- The root `CURRENT` selects is stored as the pointer records it, and so is everything the root
reaches. -/
def CurrentIntact (C : Codec β) (view : View β) : Prop :=
  ∀ pointer, view .current = some (.pointer pointer) → ∃ root,
    Recorded C view pointer.rootKey pointer.rootBytes pointer.rootChecksum (.root root) ∧
      PagesIntact C view root.pages

theorem StoreOk.currentIntact {C : Codec β} (h : StoreOk C s) :
    CurrentIntact C s.store.contents := by
  intro ptr hptr
  rw [Store.contents, h.current] at hptr
  obtain ⟨last, hlast, rfl⟩ : ∃ last, s.history.committed.getLast? = some last ∧
      last.1 = ptr := by
    simpa using hptr
  obtain ⟨root, hroot⟩ := h.roots last (List.mem_of_getLast? hlast)
  have hused : ∀ key, key = last.1.rootKey ∨ key ∈ reachedKeys s.history.view root.pages →
      s.store.contents key = s.history.view key :=
    fun key hkey => h.used key ⟨last, hlast, root, hroot.recorded.1, hkey⟩
  refine ⟨root, ⟨?_, hroot.recorded.2⟩, ?_⟩
  · rw [hused _ (.inl rfl)]
    exact hroot.recorded.1
  · exact (hroot.ok.congr fun key hkey => hused key (.inr hkey)).intact

/-! ## The condition on a step -/

instance [DecidableEq β] (shared : Shared β) (choice : Choice β) (effect : Effect β) :
    Decidable (shared.Settled choice effect) :=
  match effect with
  | .abandon transaction =>
    inferInstanceAs (Decidable (transaction.transactionId ∉ shared.history.committedIds))
  | .identity => inferInstanceAs (Decidable (choice.identity ∉ shared.history.issued.map (·.2)))
  | .compareAndSwap .current expectedVersion (.pointer pointer) =>
    inferInstanceAs (Decidable (shared.store.version .current = expectedVersion →
      ∀ id ∈ pointer.rootKey.transaction?, id ∉ shared.history.abandoned))
  | .compareAndSwap .current _ (.artifact _) | .compareAndSwap .current _ (.manifest _)
  | .compareAndSwap .current _ (.page _) | .compareAndSwap .current _ (.root _)
  | .compareAndSwap .current _ (.transaction _) | .compareAndSwap .pending _ _
  | .compareAndSwap (.object _ _) _ _ | .head _ | .get _ _ | .delete _ | .putBytesIfAbsent _ _
  | .putFileIfAbsent _ _ | .hashFile _ | .unixTimeMillis | .leased _ => .isTrue trivial

/-- The next effect of an instance. -/
def Process.next : Process β → Option (Effect β)
  | .opening (.vis effect _) | .calling (.vis effect _) => some effect
  | _ => none

/-- The effect an event performs is settled. -/
def World.Settled (world : World β) : Event β → Prop
  | .perform writer choice =>
    ∀ effect ∈ (world.processes writer).next, world.shared.Settled choice effect
  | _ => True

instance [DecidableEq β] (world : World β) (event : Event β) : Decidable (world.Settled event) :=
  match event with
  | .perform writer choice => inferInstanceAs (Decidable
      (∀ effect ∈ (world.processes writer).next, world.shared.Settled choice effect))
  | .openCatalog _ _ | .call _ _ | .returns _ | .crash _ | .lease _ | .cloneLease _
  | .dropLease _ => .isTrue trivial

section System

variable [DecidableEq β] (C : Codec β) (space : Namespace)

/-- The steps of any number of writers that are settled. -/
def settledStep : World β → Event β → Option (World β) :=
  Run.guarded (step C space) fun world event => world.Settled event

/-! ## The invariant -/

/-- What holds of one instance. -/
def WriterOk (writer : Nat) (s : Shared β) : Process β → Prop
  | .down => True
  | .idle tier => Knows tier tier.root.retiredObjects s.history
  | .opening program => (writerRules C writer).Safe program (fun result s' => StoreOk C s' ∧
      (result.1 = .ok () → Knows result.2 result.2.root.retiredObjects s'.history)) s
  | .calling program => (writerRules C writer).Safe program (fun result s' =>
      Amid C (Knows result.2 result.2.root.retiredObjects) none s') s

/-- The invariant of any number of writers. -/
def WritersInv (world : World β) : Prop :=
  StoreOk C world.shared ∧ ∀ writer, WriterOk C writer world.shared (world.processes writer)

end System

section Steps

variable [DecidableEq β] {C : Codec β} {world : World β}

theorem WriterOk.others (h : WriterOk C writer s process) (hok : StoreOk C s)
    (hoth : Others C writer s s') : WriterOk C writer s' process := by
  cases process with
  | down => trivial
  | idle tier => exact Knows.stable h hok hoth
  | opening program => exact Rules.Safe.of_rely h hoth
  | calling program => exact Rules.Safe.of_rely h hoth

variable {choice : Choice β}

/-- One instance moves, and the others notice only what they may. -/
theorem WritersInv.move (h : WritersInv C world)
    (hok : StoreOk C sh) (hoth : ∀ other, other ≠ writer → Others C other world.shared sh)
    (hwriter : WriterOk C writer sh process) :
    WritersInv C ⟨sh, Function.update world.processes writer process⟩ := by
  refine ⟨hok, fun other => ?_⟩
  by_cases heq : other = writer
  · subst heq
    simpa using hwriter
  · simp only [Function.update_of_ne heq]
    exact (h.2 other).others h.1 (hoth other heq)

section

omit [DecidableEq β]

theorem StoreOk.leases (h : StoreOk C s) (leases) : StoreOk C { s with leases } :=
  { h with }

/-- The writers do not notice leases. -/
theorem others_leases (h : StoreOk C s) (leases) : Others C writer s { s with leases } where
  ok _ := h.leases leases
  committed := ⟨[], by simp, by simp⟩
  written := ⟨[], by simp, by simp⟩
  abandoned _ hmem := hmem
  issued := ⟨[], by simp, by simp⟩
  kept _ _ _ _ := .inl rfl

end

section

variable (h : WritersInv C world)
include h

theorem WritersInv.leases (leases) :
    WritersInv C { world with shared := { world.shared with leases } } :=
  ⟨h.1.leases leases, fun other => (h.2 other).others h.1 (others_leases h.1 leases)⟩

/-- An instance moves and leaves the store alone. -/
theorem WritersInv.update (hwriter : WriterOk C writer world.shared process) :
    WritersInv C (world.update writer process) :=
  h.move h.1 (fun _ _ => Others.refl _) hwriter

/-- One settled effect of a safe program. -/
theorem WritersInv.advance {resume : Program β → Process β}
    (hsafe : (writerRules C writer).Safe (.vis effect next) Q world.shared)
    (hset : world.shared.Settled choice effect)
    (hperf : world.shared.perform C writer choice effect = (r, sh))
    (hresume : ∀ program s, (writerRules C writer).Safe program Q s →
      WriterOk C writer s (resume program)) :
    WritersInv C ⟨sh, Function.update world.processes writer (resume (next r))⟩ := by
  obtain ⟨hguar, hnext⟩ := hsafe world.shared (Others.refl _) r sh ⟨choice, hset, hperf⟩
  have hok : StoreOk C sh := (hguar (writer + 1) (Nat.succ_ne_self writer)).ok h.1
  exact h.move hok hguar (hresume _ _ hnext)

theorem WritersInv.perform (hstep : world.step C space (.perform writer choice) = some world')
    (hset : world.Settled (.perform writer choice)) : WritersInv C world' := by
  have hwriter := h.2 writer
  simp only [step] at hstep
  cases hp : world.processes writer with
  | down => simp [hp] at hstep
  | idle tier => simp [hp] at hstep
  | opening program =>
    rw [hp] at hstep hwriter
    obtain ⟨effect, next, r, sh, rfl, hperf, rfl⟩ := advance_eq_some hstep
    have heffect := hset effect (by simp [hp, Process.next])
    exact h.advance hwriter heffect hperf fun _ _ hsafe => hsafe
  | calling program =>
    rw [hp] at hstep hwriter
    obtain ⟨effect, next, r, sh, rfl, hperf, rfl⟩ := advance_eq_some hstep
    have heffect := hset effect (by simp [hp, Process.next])
    exact h.advance hwriter heffect hperf fun _ _ hsafe => hsafe

theorem WritersInv.returns
    (hstep : world.step C space (.returns writer) = some world') : WritersInv C world' := by
  have hwriter := h.2 writer
  simp only [step] at hstep
  split at hstep
  · next tier hp =>
    cases hstep
    rw [hp] at hwriter
    exact h.update ((hwriter world.shared (Others.refl _)).2 rfl)
  · cases hstep
    exact h.update trivial
  · next tier hp =>
    cases hstep
    rw [hp] at hwriter
    exact h.update (hwriter world.shared (Others.refl _)).2.1
  · cases hstep

/-- Every settled event keeps the invariant. -/
theorem WritersInv.step (hstep : world.step C space ev = some world') (hset : world.Settled ev) :
    WritersInv C world' := by
  cases ev with
  | openCatalog writer conf =>
    simp only [World.step] at hstep
    split at hstep
    · cases hstep
      exact h.update (Writer.openCatalog_safe conf h.1)
    · cases hstep
  | call writer call =>
    simp only [World.step] at hstep
    split at hstep
    · next tier hidle =>
      cases hstep
      have hwriter := h.2 writer
      rw [hidle] at hwriter
      exact h.update (Writer.command_safe call (h.1.amid hwriter))
    · cases hstep
  | perform writer choice => exact h.perform hstep hset
  | returns writer => exact h.returns hstep
  | crash writer =>
    cases hstep
    have hdown : ∀ s, WriterOk C writer s .down := fun _ => trivial
    exact (h.leases _).update (hdown _)
  | lease writer =>
    simp only [World.step] at hstep
    split at hstep
    · cases hstep
      exact h.leases _
    · cases hstep
  | cloneLease ix =>
    simp only [World.step, map_eq_some_iff] at hstep
    obtain ⟨lease, -, rfl⟩ := hstep
    exact h.leases _
  | dropLease ix =>
    cases hstep
    exact h.leases _

end

theorem writersInv_initial : WritersInv C (initial : World β) := by
  refine ⟨?_, fun _ => trivial⟩
  constructor <;> simp [initial, Shared.initial, History.committedIds, Store.empty,
    History.Uses, History.Retired, Store.contents]

/-- In every run of any number of writers in which no transaction is both judged abandoned and
selected, and no identity is drawn twice, everything `CURRENT` reaches is in the store. -/
theorem current_intact (C : Codec β) (space : Namespace) (world : World β)
    (hreaches : Run.Reaches (settledStep C space) initial world) :
    CurrentIntact C world.shared.store.contents := by
  have hinv : WritersInv C world := by
    refine Run.Reaches.invariant (fun w ev w' hw hstep => ?_) hreaches writersInv_initial
    obtain ⟨hset, hstep⟩ := Run.guarded_eq_some.mp hstep
    exact hw.step hstep hset
  exact hinv.1.currentIntact

/-- In every such run `CURRENT` reaches nothing that any root it has selected has retired. -/
theorem retired_unreached {C : Codec β}
    (hreaches : Run.Reaches (settledStep C space) initial world) :
    ∀ key, world.shared.history.Retired key → ¬ world.shared.history.Uses key := by
  have hinv : WritersInv C world := by
    refine hreaches.invariant (fun w ev w' hw hstep => ?_) writersInv_initial
    obtain ⟨hset, hstep⟩ := Run.guarded_eq_some.mp hstep
    exact hw.step hstep hset
  exact hinv.1.unretired

end Steps

/-- Two instances open, the second publishes, and the first finds that its root is stale; it is
opened again and publishes the next group. -/
def sampleTurns : List (Event Nat) :=
  [.openCatalog 0 sampleConfig, .openCatalog 1 sampleConfig] ++
  performs 0 2 (sampleChoice 0 0) ++ performs 1 2 (sampleChoice 0 0) ++
  [.returns 0, .returns 1, .call 1 (.publishGroup (sampleSource 0))] ++
  performs 1 17 (sampleChoice 0 1) ++
  [.returns 1, .call 0 (.publishGroup (sampleSource 1))] ++ performs 0 2 (sampleChoice 5 2) ++
  [.returns 0, .crash 0, .openCatalog 0 sampleConfig] ++ performs 0 4 (sampleChoice 5 2) ++
  [.returns 0, .call 0 (.publishGroup (sampleSource 1))] ++ performs 0 21 (sampleChoice 5 2)

set_option maxRecDepth 100000 in
theorem current_intact_turns : ∃ world : World Nat,
    Run.run (settledStep sampleCodec sampleSpace) initial sampleTurns = some world ∧
    world.shared.history.committed.length = 2 ∧
      CurrentIntact sampleCodec world.shared.store.contents := by
  have hcheck : ((Run.run (settledStep sampleCodec sampleSpace) initial sampleTurns).map
      fun world => world.shared.history.committed.length) = some 2 := by
    decide +kernel
  obtain ⟨world, hrun, hcom⟩ := map_eq_some_iff.mp hcheck
  exact ⟨world, hrun, hcom, current_intact sampleCodec sampleSpace world ⟨_, hrun⟩⟩

theorem retired_unreached_turns : ∃ world : World Nat,
    Run.run (settledStep sampleCodec sampleSpace) initial sampleTurns = some world ∧
    ∀ key, world.shared.history.Retired key → ¬ world.shared.history.Uses key := by
  have hruns : (Run.run (settledStep sampleCodec sampleSpace) initial sampleTurns).isSome := by
    decide +kernel
  obtain ⟨world, hrun⟩ := isSome_iff_exists.mp hruns
  exact ⟨world, hrun, retired_unreached ⟨_, hrun⟩⟩

/-- Two instances open; the second commits and crashes before it clears `PENDING`; the first, whose
root is stale, takes the committed transaction for abandoned. -/
def sampleStale : List (Event Nat) :=
  [.openCatalog 0 sampleConfig, .openCatalog 1 sampleConfig] ++
  performs 0 2 (sampleChoice 0 0) ++ performs 1 2 (sampleChoice 0 0) ++
  [.returns 0, .returns 1, .call 1 (.publishGroup (sampleSource 0))] ++
  performs 1 16 (sampleChoice 0 1) ++
  [.crash 1, .call 0 (.publishGroup (sampleSource 0))] ++ performs 0 9 (sampleChoice 5 2)

set_option maxRecDepth 100000 in
/-- The stale instance deletes the root that `CURRENT` selects. -/
theorem current_broken :
    ¬ ∀ world : World Nat, Run.Reaches (step sampleCodec sampleSpace) initial world →
    CurrentIntact sampleCodec world.shared.store.contents := by
  intro hall
  have hcheck : ((Run.run (step sampleCodec sampleSpace) initial sampleStale).map
      fun world => (world.shared.store.contents .current).any fun obj =>
        obj.pointer?.any fun ptr =>
          (world.shared.store.contents ptr.rootKey).isNone) = some true := by
    decide +kernel
  obtain ⟨world, hrun, hbroken⟩ := map_eq_some_iff.mp hcheck
  simp only [any_eq_true, isNone_iff_eq_none] at hbroken
  obtain ⟨obj, hcur, ptr, hptr, hgone⟩ := hbroken
  obtain rfl : obj = .pointer ptr := by
    cases obj <;> simp_all [Object.pointer?]
  obtain ⟨root, hroot, -⟩ := hall world ⟨_, hrun⟩ ptr hcur
  simp [hroot.1] at hgone

end ShardTelemetry.Tier
