import ShardTelemetry.Tier.SoloCalls

/-!
# Runs with a single writer

One instance opens, calls, crashes and opens again; readers take, clone and drop leases.  The
invariant says of each moment what the methods establish: an idle tier agrees with the store, a
running program is safe for the rest of its way, and a crash finds a catalog with exact ownership.

The invariant has a parameter `Next`, the catalogs the store may hold.  Events other than a new call
keep it for every `Next`, so a run is followed from one call through any crashes and recoveries.
-/

namespace ShardTelemetry.Tier

open List Function World

variable {β : Type}

/-- The event is one of instance 0 or of a reader. -/
def Event.solo : Event β → Bool
  | .openCatalog writer _ | .call writer _ | .perform writer _ | .returns writer | .crash writer
  | .lease writer => writer = 0
  | .cloneLease _ | .dropLease _ => true

/-- The event is not the start of a call. -/
def Event.continues : Event β → Bool
  | .call _ _ => false
  | _ => true

/-- The event's clock, if it reads one, and everything else it decides is admissible. -/
def Event.Admissible (adm : Choice β → Prop) : Event β → Prop
  | .perform _ choice => adm choice
  | _ => True

/-- The tier on which an event starts a call. -/
def World.startsOn (world : World β) : Event β → Option TelemetryObjectTier
  | .call _ _ =>
    match world.processes 0 with
    | .idle tier => some tier
    | _ => none
  | _ => none

/-- The effect an event performs. -/
def World.performs (world : World β) : Event β → Option (Effect β)
  | .perform _ _ =>
    match world.processes 0 with
    | .opening (.vis effect _) | .calling (.vis effect _) => some effect
    | _ => none
  | _ => none

/-- What keeps leases safe: no call starts with retired objects while a lease holds the tier's root,
and `CURRENT` moves only as the leases allow. -/
def World.RespectsLeases (world : World β) (event : Event β) : Prop :=
  (∀ tier ∈ world.startsOn event, tier.root.retiredObjects = [] ∨
    ∀ lease ∈ world.shared.leases, lease.handle ≠ tier.rootHandle) ∧
  ∀ effect ∈ world.performs event, world.shared.RespectsLeases effect

instance (world : World β) (event : Event β) : Decidable (world.RespectsLeases event) :=
  inferInstanceAs (Decidable (_ ∧ _))

section Invariant

variable [DecidableEq β] (C : Codec β) (space : Namespace) (good : Prop) (adm : Choice β → Prop)
  (Next : Catalog → Prop)

/-- What `open` leaves in a world whose catalogs are those of `Next`. -/
def OpenDone (result : TelemetryResult Unit × TelemetryObjectTier) (shared : Shared β) : Prop :=
  ∃ catalog, Next catalog ∧ Opened C good adm catalog result.1 result.2 shared

/-- What a call leaves in a world whose catalogs are those of `Next`. -/
def CallDone (result : TelemetryResult Unit × TelemetryObjectTier) (shared : Shared β) : Prop :=
  ∃ catalog, Next catalog ∧ Consistent C good catalog result.2 result.2.root.retiredObjects shared

/-- The invariant of a single writer. -/
def SoloInv (world : World β) : Prop :=
  Allowed C good Next world.shared ∧ (∀ lease ∈ world.shared.leases, lease.owner = 0) ∧
    match world.processes 0 with
    | .down => world.shared.leases = []
    | .idle tier => ∃ catalog, Next catalog ∧
        Consistent C good catalog tier tier.root.retiredObjects world.shared
    | .opening program => world.shared.leases = [] ∧
        (soloRules C good adm Next).Safe program (OpenDone C good adm Next)
          world.shared
    | .calling program =>
        (soloRules C good adm Next).Safe program (CallDone C good Next) world.shared

end Invariant

section Steps

variable [DecidableEq β] {C : Codec β} {adm : Choice β → Prop} {w : World β}

/-- Readers that drop and clone leases do not disturb the writer. -/
theorem SoloInv.quiet (h : SoloInv C good adm Next w) {shared : Shared β}
    (hquiet : Quiet w.shared shared) : SoloInv C good adm Next { w with shared } := by
  obtain ⟨⟨cat, hheld, hnext⟩, howner, hproc⟩ := h
  have hempty : w.shared.leases = [] → shared.leases = [] := fun hnil =>
    eq_nil_of_subset_nil (hnil ▸ hquiet.2)
  refine ⟨⟨cat, hheld.quiet hquiet, hnext⟩, fun lease hmem => howner lease (hquiet.2 hmem), ?_⟩
  cases hp : w.processes 0 with
  | down =>
    rw [hp] at hproc
    exact hempty hproc
  | idle tier =>
    rw [hp] at hproc
    obtain ⟨cat, hnext, hcons⟩ := hproc
    exact ⟨cat, hnext, hcons.quiet hquiet⟩
  | opening program =>
    rw [hp] at hproc
    exact ⟨hempty hproc.1, hproc.2.of_rely hquiet⟩
  | calling program =>
    rw [hp] at hproc
    exact hproc.of_rely hquiet

/-- One effect of a safe program. -/
theorem safe_perform {next : Response effect → Program β} {shared sh' : Shared β}
    (hsafe : (soloRules C good adm Next).Safe (.vis effect next) Q shared)
    (hgood : good → shared.RespectsLeases effect) (hadm : adm choice)
    (hperf : shared.perform C 0 choice effect = (r, sh')) :
    Allowed C good Next sh' ∧ (soloRules C good adm Next).Safe (next r) Q sh' :=
  hsafe shared (Quiet.refl shared) r sh' ⟨hgood, choice, hadm, hperf⟩

theorem SoloInv.openCatalog (h : SoloInv C good adm Next w) (hdown : w.processes 0 = .down)
    (hbased : ∀ cat, Next cat → cat.Based space) (conf) :
    SoloInv C good adm Next (w.update 0 (.opening ((openCatalog C).exec (.blank space conf)))) := by
  obtain ⟨⟨cat, hheld, hnext⟩, howner, hproc⟩ := h
  rw [hdown] at hproc
  refine ⟨⟨cat, hheld, hnext⟩, howner, ?_⟩
  refine ⟨hproc, ?_⟩
  exact Rules.Safe.mono (openCatalog_safe conf hnext hheld (hbased cat hnext) hproc)
    fun res s hopened => ⟨cat, hnext, hopened⟩

/-- A call moves from the catalogs of `Next` to those of `Next'`, which hold its outcomes. -/
theorem SoloInv.call (h : SoloInv C good adm Next w) (hidle : w.processes 0 = .idle tier) (call)
    (hgood : good → w.RespectsLeases (.call 0 call))
    (hclosed : ∀ before after, Next before → call.Outcome C before after → Next' after) :
    SoloInv C good adm Next' (w.update 0 (.calling ((call.command C).exec tier))) := by
  obtain ⟨hallow, howner, hproc⟩ := h
  rw [hidle] at hproc
  obtain ⟨cat, hnext, hcons⟩ := hproc
  refine ⟨hcons.allowed (hclosed cat cat hnext (.inl rfl)), howner, ?_⟩
  refine Rules.Safe.mono (call.command_safe (fun after => hclosed cat after hnext) hcons
    fun hg => ?_) fun res s h => h
  have hstarts : w.startsOn (.call 0 call) = some tier := by simp [startsOn, hidle]
  refine ((hgood hg).1 tier hstarts).imp_right fun hhandle lease hlease heq =>
    hhandle lease hlease ?_
  exact (hcons.leases hg lease hlease).current heq

omit [DecidableEq β] in
/-- A reader takes a lease of an idle tier. -/
theorem Consistent.lease {shared : Shared β}
    (h : Consistent C good cat tier tier.root.retiredObjects shared) :
    Consistent C good cat tier tier.root.retiredObjects
      { shared with
        leases := shared.leases ++ [⟨0, tier.rootHandle, tier.root, tier.currentRootKey⟩] }
    where
  owned := h.owned
  loaded := h.loaded
  version := h.version
  gone := h.gone
  leases hgood lease hlease := by
    rcases mem_append.mp hlease with hold | hnew
    · exact h.leases hgood lease hold
    obtain rfl := mem_singleton.mp hnew
    have hok := h.loaded.rootOk h.owned.stands.ok
    refine ⟨rfl, ⟨fun key hkey => ?_, hok.intact⟩, fun key hkey => ?_, fun entry hmem hkey => ?_,
      fun _ => rfl⟩
    · rw [h.owned.stands.rootKey_present (h.loaded.rootKey_eq.symm.trans hkey)]
      simp
    · rcases mem_leaseKeys.mp hkey with hroot | hreach
      · obtain ⟨id, digest, rfl, heq⟩ := hok.rootKey_shape key hroot
        exact ⟨id, _, rfl, heq.le⟩
      · exact hok.reached_shape hreach
    · rcases mem_leaseKeys.mp hkey with hroot | hreach
      · exact absurd hroot (hok.retired_unselected entry hmem)
      · exact absurd hreach (hok.retired_unreached entry hmem)

section

variable (h : SoloInv C good adm Next w)
include h

theorem SoloInv.perform (hstep : w.step C space (.perform 0 choice) = some w') (hadm : adm choice)
    (hgood : good → w.RespectsLeases (.perform 0 choice)) : SoloInv C good adm Next w' := by
  obtain ⟨hallow, howner, hproc⟩ := h
  simp only [step] at hstep
  cases hp : w.processes 0 with
  | down => simp [hp] at hstep
  | idle tier => simp [hp] at hstep
  | opening program =>
    rw [hp] at hstep hproc
    obtain ⟨effect, next, r, shared, rfl, hperf, rfl⟩ := advance_eq_some hstep
    have hgood' : good → w.shared.RespectsLeases effect := fun hg =>
      (hgood hg).2 effect (by simp [World.performs, hp])
    obtain ⟨hallowed', hsafe⟩ := safe_perform hproc.2 hgood' hadm hperf
    have hls := perform_leases hperf
    refine ⟨hallowed', fun lease hmem => howner lease (hls ▸ hmem), ?_⟩
    simp only [update_self]
    exact ⟨hls.trans hproc.1, hsafe⟩
  | calling program =>
    rw [hp] at hstep hproc
    obtain ⟨effect, next, r, shared, rfl, hperf, rfl⟩ := advance_eq_some hstep
    have hgood' : good → w.shared.RespectsLeases effect := fun hg =>
      (hgood hg).2 effect (by simp [World.performs, hp])
    obtain ⟨hallowed', hsafe⟩ := safe_perform hproc hgood' hadm hperf
    refine ⟨hallowed', fun lease hmem => howner lease (perform_leases hperf ▸ hmem), ?_⟩
    simp only [update_self]
    exact hsafe

theorem SoloInv.returns (hstep : w.step C space (.returns 0) = some w') :
    SoloInv C good adm Next w' := by
  obtain ⟨hallow, howner, hproc⟩ := h
  simp only [step] at hstep
  split at hstep
  · next tier hp =>
    cases hstep
    rw [hp] at hproc
    obtain ⟨cat, hnext, -, hopened⟩ := hproc.2 w.shared (Quiet.refl _)
    refine ⟨hallow, howner, ?_⟩
    simp only [World.update, update_self]
    exact ⟨cat, hnext, (hopened rfl).1⟩
  · next hp =>
    cases hstep
    rw [hp] at hproc
    refine ⟨hallow, howner, ?_⟩
    simp only [World.update, update_self]
    exact hproc.1
  · next tier hp =>
    cases hstep
    rw [hp] at hproc
    refine ⟨hallow, howner, ?_⟩
    simp only [World.update, update_self]
    exact hproc w.shared (Quiet.refl _)
  · cases hstep

theorem SoloInv.crash (hstep : w.step C space (.crash 0) = some w') :
    SoloInv C good adm Next w' := by
  cases hstep
  obtain ⟨⟨cat, hheld, hnext⟩, howner, -⟩ := h
  refine ⟨⟨cat, hheld.quiet ⟨rfl, filter_subset_self _⟩, hnext⟩, ?_, ?_⟩
  · exact fun lease hmem => howner lease (mem_of_mem_filter hmem)
  · simpa using howner

/-- Every event of a single writer keeps the invariant; a new call only if `Next` holds its
outcomes. -/
theorem SoloInv.step {ev : Event β}
    (hstep : w.step C space ev = some w') (hsolo : ev.solo = true) (hadm : ev.Admissible adm)
    (hgood : good → w.RespectsLeases ev) (hbased : ∀ cat, Next cat → cat.Based space)
    (hclosed : ∀ call, ev = .call 0 call → ∀ before after, Next before →
      call.Outcome C before after → Next after) : SoloInv C good adm Next w' := by
  cases ev with
  | openCatalog writer conf =>
    obtain rfl : writer = 0 := of_decide_eq_true hsolo
    simp only [World.step] at hstep
    split at hstep
    · next hdown =>
      cases hstep
      exact h.openCatalog hdown hbased conf
    · cases hstep
  | call writer call =>
    obtain rfl : writer = 0 := of_decide_eq_true hsolo
    simp only [World.step] at hstep
    split at hstep
    · next tier hidle =>
      cases hstep
      exact h.call hidle call hgood (hclosed call rfl)
    · cases hstep
  | perform writer choice =>
    obtain rfl : writer = 0 := of_decide_eq_true hsolo
    exact h.perform hstep hadm hgood
  | returns writer =>
    obtain rfl : writer = 0 := of_decide_eq_true hsolo
    exact h.returns hstep
  | crash writer =>
    obtain rfl : writer = 0 := of_decide_eq_true hsolo
    exact h.crash hstep
  | lease writer =>
    obtain rfl : writer = 0 := of_decide_eq_true hsolo
    simp only [World.step] at hstep
    split at hstep
    · next tier hidle =>
      cases hstep
      obtain ⟨-, howner, hproc⟩ := h
      rw [hidle] at hproc
      obtain ⟨cat, hnext, hcons⟩ := hproc
      refine ⟨hcons.lease.allowed hnext, ?_, ?_⟩
      · simpa [or_imp, forall_and] using howner
      · simp only [hidle]
        exact ⟨cat, hnext, hcons.lease⟩
    · cases hstep
  | cloneLease ix =>
    simp only [World.step, Option.map_eq_some_iff] at hstep
    obtain ⟨lease, hlease, rfl⟩ := hstep
    refine h.quiet ⟨rfl, fun other hmem => ?_⟩
    rcases mem_append.mp hmem with hold | hnew
    · exact hold
    · obtain rfl := mem_singleton.mp hnew
      exact mem_of_getElem? hlease
  | dropLease ix =>
    cases hstep
    exact h.quiet ⟨rfl, eraseIdx_subset⟩

end

end Steps

end ShardTelemetry.Tier
