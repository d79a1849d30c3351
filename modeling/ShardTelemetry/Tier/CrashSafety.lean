import ShardTelemetry.Tier.SoloSystem

/-!
# Publication is crash-safe with exact key ownership

Every run of a single writer, with crashes and failed operations at any point, keeps a catalog that
owns every key of its namespace.  `CURRENT` selects the catalog before or after the transaction that
was interrupted, and a successful `open` after every deadline leaves nothing but that catalog.
-/

namespace ShardTelemetry.Tier

open List World Run

variable {β : Type}

/-- The catalog `CURRENT` selects; an empty one before the first publication. -/
def currentCatalog (space : Namespace) (view : View β) : Catalog :=
  match selectedRoot view with
  | some (pointer, root) => ⟨some pointer.rootKey, root, catalogGroups view root.pages⟩
  | none => ⟨none, .empty space, []⟩

/-- A catalog that stands in the store is the one `CURRENT` selects. -/
theorem Catalog.Stands.eq_currentCatalog (h : cat.Stands C view) (hbased : cat.Based space) :
    cat = currentCatalog space view := by
  obtain ⟨rootKey, root, groups⟩ := cat
  have hgroups := h.groups_eq
  cases rootKey with
  | some key =>
    obtain ⟨ptr, rfl, hsel⟩ := h.selectedRoot_eq rfl
    rw [currentCatalog, hsel]
    exact congrArg _ hgroups.symm
  | none =>
    obtain ⟨hcur, hpages, -⟩ : view .current = none ∧ root.pages = [] ∧ _ := h.selected
    have hnone : selectedRoot view = none := by simp [selectedRoot, hcur]
    obtain rfl : root = .empty space := hbased rfl
    rw [currentCatalog, hnone]
    exact congrArg _ hgroups.symm

/-- A clean store holds exactly what the catalog uses; before the first publication, nothing. -/
theorem Catalog.Stands.stored_iff (h : cat.Stands C view) (hclean : Clean cat view) (key) :
    view key ≠ none ↔ cat.rootKey ≠ none ∧ cat.Uses view key := by
  have hsel := h.selected
  cases hroot : cat.rootKey with
  | none =>
    rw [Catalog.Selected, hroot] at hsel
    refine ⟨fun hkey => ?_, fun hkey => absurd rfl hkey.1⟩
    rcases hclean key hkey with rfl | hkey' | hkey'
    · exact absurd hsel.1 hkey
    · simp [hroot] at hkey'
    · simp [hsel.2.1, reachedKeys, catalogGroups] at hkey'
  | some rootKey =>
    rw [Catalog.Selected, hroot] at hsel
    obtain ⟨ptr, hptr, -⟩ := hsel
    refine ⟨fun hkey => ⟨by simp, hclean key hkey⟩, ?_⟩
    rintro ⟨-, rfl | hkey | hkey⟩
    · simp [hptr]
    · simp [h.rootKey_present hkey]
    · exact h.ok.intact.present hkey

/-- The steps of a single writer. -/
def soloStep [DecidableEq β] (C : Codec β) (space : Namespace) :
    World β → Event β → Option (World β) :=
  guarded (step C space) fun _ event => event.solo = true

section Theorems

variable [DecidableEq β] {C : Codec β} {world : World β}

theorem soloInv_initial (good) : SoloInv C good (fun _ => True) (Catalog.Based space)
    (initial : World β) := by
  have hok : RootOk C (fun _ => none : View β) none (.empty space) :=
    ⟨by simp [PagesIntact, CatalogRoot.empty], by simp, by simp [CatalogRoot.empty],
      by simp [CatalogRoot.empty, catalogGroups], by simp [CatalogRoot.empty, catalogGroups],
      by simp [CatalogRoot.empty], by simp [CatalogRoot.empty], by simp [CatalogRoot.empty]⟩
  refine ⟨⟨⟨none, .empty space, []⟩, ⟨⟨⟨⟨rfl, rfl, rfl, rfl⟩, hok, rfl⟩, ?_, ?_⟩, ?_⟩,
    fun _ => rfl⟩, by simp [initial, Shared.initial], rfl⟩
  · exact fun key hkey => absurd rfl hkey
  · rintro obj ⟨⟩
  · rintro _ _ ⟨⟩

variable {choices : List (Choice β)}

/-- A run of events that start no call keeps the invariant for every `Next`. -/
theorem SoloInv.run_continues (h : SoloInv C False adm Next world)
    (hbased : ∀ cat, Next cat → cat.Based space)
    (hevents : ∀ ev ∈ evs, ev.continues = true ∧ ev.Admissible adm)
    (hrun : run (soloStep C space) world evs = some world') : SoloInv C False adm Next world' := by
  induction evs generalizing world with
  | nil => exact Option.some.inj hrun ▸ h
  | cons ev rest ih =>
    obtain ⟨world₁, hstep, hrun⟩ := Option.bind_eq_some_iff.mp hrun
    obtain ⟨hsolo, hstep⟩ := guarded_eq_some.mp hstep
    obtain ⟨hcont, hadm⟩ := hevents ev mem_cons_self
    refine ih (h.step hstep hsolo hadm False.elim hbased ?_) (forall_mem_cons.mp hevents).2 hrun
    rintro call rfl
    cases hcont

theorem SoloInv.reaches (h : Reaches (soloStep C space) initial world) :
    SoloInv C False (fun _ => True) (Catalog.Based space) world := by
  refine Reaches.invariant (fun w ev w' hw hstep => ?_) h (soloInv_initial False)
  obtain ⟨hsolo, hstep⟩ := guarded_eq_some.mp hstep
  refine hw.step hstep hsolo (by cases ev <;> trivial) False.elim (fun _ h => h) ?_
  rintro call rfl before after hbefore (rfl | ⟨hroot, -⟩)
  · exact hbefore
  · exact fun hnone => absurd hnone hroot

/-- The catalog of the invariant is the one `CURRENT` selects. -/
theorem SoloInv.currentCatalog_eq (h : SoloInv C False adm Next world)
    (hbased : ∀ cat, Next cat → cat.Based space) :
    Held C False (currentCatalog space world.shared.store.contents) world.shared ∧
      Next (currentCatalog space world.shared.store.contents) := by
  obtain ⟨⟨cat, hheld, hnext⟩, -⟩ := h
  have heq := hheld.owned.stands.eq_currentCatalog (hbased cat hnext)
  exact heq ▸ ⟨hheld, hnext⟩

theorem run_performs_opening (hopening : ∃ program, world.processes 0 = .opening program)
    (hrun : run (soloStep C space) world (choices.map (.perform 0)) = some world') :
    ∃ program', world'.processes 0 = .opening program' := by
  induction choices generalizing world with
  | nil => exact Option.some.inj hrun ▸ hopening
  | cons choice rest ih =>
    obtain ⟨world₁, hstep, hrun⟩ := Option.bind_eq_some_iff.mp hrun
    obtain ⟨-, hstep⟩ := guarded_eq_some.mp hstep
    obtain ⟨program, hopening⟩ := hopening
    simp only [step, hopening] at hstep
    obtain ⟨effect, next, r, sh, rfl, -, rfl⟩ := advance_eq_some hstep
    exact ih ⟨next r, by simp⟩ hrun

section

variable (h : SoloInv C False (fun _ => True) (Catalog.Based space) world)
include h

/-- Between two calls the invariant holds for the selected catalog alone. -/
theorem SoloInv.narrow (hrest : world.processes 0 = .down ∨
    ∃ tier, world.processes 0 = .idle tier) :
    SoloInv C False adm (· = currentCatalog space world.shared.store.contents) world := by
  refine ⟨⟨_, (h.currentCatalog_eq fun _ h => h).1, rfl⟩, h.2.1, ?_⟩
  have hproc := h.2.2
  rcases hrest with hdown | ⟨tier, hidle⟩
  · rw [hdown] at hproc ⊢
    exact hproc
  · rw [hidle] at hproc ⊢
    obtain ⟨cat, hbased, hcons⟩ := hproc
    exact ⟨cat, hcons.owned.stands.eq_currentCatalog hbased, hcons⟩

/-- A call that was started, and everything that follows until the next call, leaves the catalog
before it or an outcome of its transaction. -/
theorem SoloInv.call_outcome {call : Call} (hlater : ∀ ev ∈ later, ev.continues = true)
    (hrun : run (soloStep C space) world (.call 0 call :: later) = some world') :
    call.Outcome C (currentCatalog space world.shared.store.contents)
      (currentCatalog space world'.shared.store.contents) := by
  obtain ⟨world₁, hstep, hrun⟩ := Option.bind_eq_some_iff.mp hrun
  obtain ⟨-, hstep⟩ := guarded_eq_some.mp hstep
  set before := currentCatalog space world.shared.store.contents with hbefore
  have hbased : ∀ cat, call.Outcome C before cat → cat.Based space := by
    rintro _ (rfl | ⟨hroot, -⟩)
    · exact (h.currentCatalog_eq fun _ h => h).2
    · exact fun hnone => absurd hnone hroot
  simp only [World.step] at hstep
  split at hstep
  · next tier hidle =>
    cases hstep
    have hcall : SoloInv C False (fun _ => True) (call.Outcome C before) _ :=
      (h.narrow (.inr ⟨tier, hidle⟩)).call hidle call False.elim fun _ _ heq hafter => by
        rwa [heq] at hafter
    have hdone := hcall.run_continues hbased
      (fun ev hmem => ⟨hlater ev hmem, by cases ev <;> trivial⟩) hrun
    exact (hdone.currentCatalog_eq hbased).2
  · cases hstep

/-- A successful `open` that reads every clock after the deadlines leaves a clean store. -/
theorem SoloInv.open_clean (hlate : ∀ choice ∈ choices,
      ∀ entry ∈ (currentCatalog space world.shared.store.contents).root.retiredObjects,
        entry.deleteAfterUnixMillis ≤ choice.clock)
    (hrun : run (soloStep C space) world
      (.openCatalog 0 conf :: choices.map (.perform 0) ++ [.returns 0]) = some world')
    (hidle : world'.processes 0 = .idle tier) :
    Held C False (currentCatalog space world.shared.store.contents) world'.shared ∧
      Clean (currentCatalog space world.shared.store.contents) world'.shared.store.contents := by
  set cat := currentCatalog space world.shared.store.contents with hcat
  have hbased : ∀ other, other = cat → other.Based space := by
    rintro _ rfl
    exact (h.currentCatalog_eq fun _ h => h).2
  rw [cons_append, run] at hrun
  obtain ⟨world₁, hopen, hrun⟩ := Option.bind_eq_some_iff.mp hrun
  rw [run_append] at hrun
  obtain ⟨world₂, hperforms, hlast⟩ := Option.bind_eq_some_iff.mp hrun
  obtain ⟨world₃, hreturns, hdone⟩ := Option.bind_eq_some_iff.mp hlast
  cases hdone
  obtain ⟨-, hopen⟩ := guarded_eq_some.mp hopen
  obtain ⟨-, hreturns⟩ := guarded_eq_some.mp hreturns
  simp only [World.step] at hopen
  split at hopen
  · next hdown =>
    cases hopen
    obtain ⟨program, hopening⟩ := run_performs_opening ⟨_, by simp [World.update]; rfl⟩ hperforms
    have hinv : SoloInv C False (fun choice => ∀ entry ∈ cat.root.retiredObjects,
        entry.deleteAfterUnixMillis ≤ choice.clock) (· = cat) world₂ := by
      refine ((h.narrow (.inl hdown)).openCatalog hdown hbased conf).run_continues hbased
        (fun ev hmem => ?_) hperforms
      obtain ⟨choice, hchoice, rfl⟩ := mem_map.mp hmem
      exact ⟨rfl, hlate choice hchoice⟩
    have hproc := hinv.2.2
    simp only [World.step, hopening] at hreturns hproc
    split at hreturns
    · next tier' heq =>
      obtain rfl := Process.opening.inj heq
      cases hreturns
      obtain ⟨_, rfl, hheld, hopened⟩ := hproc.2 world₂.shared (Quiet.refl _)
      exact ⟨hheld, (hopened rfl).2 fun choice hchoice => hchoice⟩
    · cases hreturns
      simp [World.update] at hidle
    · next heq => cases heq
    · cases hreturns
  · cases hopen

end

/-- Publication is crash-safe with exact key ownership.  In every run of a single writer:

* everything reachable from the root `CURRENT` selects is stored under its recorded length and
  digest, and every other key is retired by that root or owned by `PENDING`;
* from the start of a call until the next one, through any crashes and recoveries, `CURRENT` selects
  the catalog before the call or the one its transaction describes;
* a successful `open` whose clocks have passed every deadline of the root leaves exactly `CURRENT`,
  the root and what it reaches. -/
theorem publication_crash_safe (C : Codec β) (space : Namespace) (world : World β)
    (hreaches : Reaches (soloStep C space) initial world) :
    (currentCatalog space world.shared.store.contents).Owned C world.shared.store.contents ∧
    (∀ (call : Call) (later : List (Event β)) (world' : World β),
      (∀ ev ∈ later, ev.continues = true) →
      run (soloStep C space) world (.call 0 call :: later) = some world' →
      call.Outcome C (currentCatalog space world.shared.store.contents)
        (currentCatalog space world'.shared.store.contents)) ∧
    ∀ (conf : ObjectTierConfig) (choices : List (Choice β)) (world' : World β)
      (tier : TelemetryObjectTier),
      (∀ choice ∈ choices,
          ∀ entry ∈ (currentCatalog space world.shared.store.contents).root.retiredObjects,
          entry.deleteAfterUnixMillis ≤ choice.clock) → run (soloStep C space) world
        (.openCatalog 0 conf :: choices.map (.perform 0) ++ [.returns 0]) = some world' →
      world'.processes 0 = .idle tier → currentCatalog space world'.shared.store.contents =
        currentCatalog space world.shared.store.contents ∧
          ∀ key, world'.shared.store.contents key ≠ none ↔
        (currentCatalog space world.shared.store.contents).rootKey ≠ none ∧
        (currentCatalog space world.shared.store.contents).Uses
          world'.shared.store.contents key := by
  have h := SoloInv.reaches hreaches
  obtain ⟨hheld, hbased⟩ := h.currentCatalog_eq fun _ h => h
  refine ⟨hheld.owned, fun call later world' hlater hrun => h.call_outcome hlater hrun, ?_⟩
  intro conf choices world' tier hlate hrun hidle
  obtain ⟨hheld', hclean⟩ := h.open_clean hlate hrun hidle
  exact ⟨(hheld'.owned.stands.eq_currentCatalog hbased).symm, hheld'.owned.stands.stored_iff hclean⟩

end Theorems

/-- Two groups are published; the writer crashes right after `CURRENT` moved for the second time,
with `PENDING` still stored and two retired objects. -/
def sampleCrash : List (Event Nat) :=
  [.openCatalog 0 sampleConfig] ++ performs 0 2 (sampleChoice 0 0) ++
  [.returns 0, .call 0 (.publishGroup (sampleSource 0))] ++ performs 0 17 (sampleChoice 0 0) ++
  [.returns 0, .call 0 (.publishGroup (sampleSource 1))] ++ performs 0 18 (sampleChoice 0 1) ++
  [.crash 0]

/-- The choices of the `open` that follows; its clock has passed every deadline. -/
def sampleReopen : List (Choice Nat) := replicate 9 (sampleChoice 5 2)

def Process.isIdle : Process β → Bool
  | .idle _ => true
  | _ => false

theorem Process.eq_idle_of_isIdle {process : Process β} (h : process.isIdle = true) :
    ∃ tier, process = .idle tier := by
  cases process <;> simp_all [Process.isIdle]

set_option maxRecDepth 100000 in
theorem publication_crash_safe_reopen : ∃ world world' : World Nat,
    run (soloStep sampleCodec sampleSpace) initial sampleCrash = some world ∧
    world.shared.store.contents .pending ≠ none ∧ run (soloStep sampleCodec sampleSpace) world
      (.openCatalog 0 sampleConfig :: sampleReopen.map (.perform 0) ++ [.returns 0]) = some world' ∧
    (currentCatalog sampleSpace world.shared.store.contents).Owned sampleCodec
      world.shared.store.contents ∧
    ∀ key, world'.shared.store.contents key ≠ none ↔
      (currentCatalog sampleSpace world.shared.store.contents).rootKey ≠ none ∧
      (currentCatalog sampleSpace world.shared.store.contents).Uses
        world'.shared.store.contents key := by
  have hcheck : ((run (soloStep sampleCodec sampleSpace) initial sampleCrash).bind
      fun world => (run (soloStep sampleCodec sampleSpace) world
        (.openCatalog 0 sampleConfig :: sampleReopen.map (.perform 0) ++ [.returns 0])).map
          fun world' => (world.shared.store.contents .pending).isSome &&
            (world'.processes 0).isIdle && sampleReopen.all fun choice =>
              (currentCatalog sampleSpace world.shared.store.contents).root.retiredObjects.all
                fun entry => entry.deleteAfterUnixMillis ≤ choice.clock) = some true := by
    decide +kernel
  obtain ⟨world, hcrash, hcheck⟩ := Option.bind_eq_some_iff.mp hcheck
  obtain ⟨world', hreopen, hcheck⟩ := Option.map_eq_some_iff.mp hcheck
  simp only [Bool.and_eq_true, all_eq_true, decide_eq_true_eq] at hcheck
  obtain ⟨⟨hpend, hidle⟩, hlate⟩ := hcheck
  obtain ⟨tier, hidle⟩ := Process.eq_idle_of_isIdle hidle
  obtain ⟨howned, -, hopen⟩ := publication_crash_safe sampleCodec sampleSpace world ⟨_, hcrash⟩
  exact ⟨world, world', hcrash, Option.isSome_iff_ne_none.mp hpend, hreopen, howned,
    (hopen sampleConfig sampleReopen world' tier hlate hreopen hidle).2⟩

end ShardTelemetry.Tier
