import ShardTelemetry.Tier.WriterCommit

/-!
# The methods of one writer among several

What a writer does is described by facts about the past that last: neither the others nor the
writer's own recoveries can end them.  Under such facts every method keeps the store in order,
whatever the others do between two of its effects.
-/

namespace ShardTelemetry.Tier

open List Cmd

variable {β : Type}

/-! ## Facts that last -/

/-- How the past grows while `me` neither writes nor selects anything itself. -/
structure History.Grows (me : Nat) (history history' : History β) : Prop where
  kept : history.Extends history'
  committed : ∃ new, history'.committed = history.committed ++ new ∧
    ∀ entry ∈ new, ∀ id ∈ entry.1.rootKey.transaction?, (me, id.identity) ∉ history.issued
  written : ∃ new, history'.written = new ++ history.written ∧
    ∀ entry ∈ new, ∀ id ∈ entry.1.transaction?, (me, id.identity) ∉ history.issued
  abandoned : history.abandoned ⊆ history'.abandoned
  issued : history.issued ⊆ history'.issued

/-- A fact about the past that lasts while the past grows. -/
def Lasting (me : Nat) (J : History β → Prop) : Prop :=
  ∀ history history', history.Grows me history' → J history → J history'

/-- A transaction of `me` that `CURRENT` has not selected and below which nothing was written. -/
structure Fresh (me : Nat) (id : TransactionId) (history : History β) : Prop where
  mine : (me, id.identity) ∈ history.issued
  uncommitted : id ∉ history.committedIds
  unwritten : ∀ path, history.view (.object id path) = none

section Facts

variable {hist : History β} {id : TransactionId}

theorem Others.grows (h : Others C me s s') (hok : StoreOk C s) :
    s.history.Grows me s'.history where
  kept := h.extends hok
  committed := h.committed
  written := h.written
  abandoned := h.abandoned
  issued _ hmem := h.issued_mem hmem

theorem History.grows_abandon (hist : History β) (id) :
    hist.Grows me { hist with abandoned := id :: hist.abandoned } where
  kept _ _ h := h
  committed := ⟨[], by simp, by simp⟩
  written := ⟨[], by simp, by simp⟩
  abandoned _ h := .tail _ h
  issued _ h := h

theorem History.Grows.mem_committed (h : hist.Grows me hist')
    (hmem : entry ∈ hist.committed) : entry ∈ hist'.committed := by
  obtain ⟨new, heq, -⟩ := h.committed
  rw [heq]
  exact mem_append_left _ hmem

/-- The others write nothing below a transaction of `me`. -/
theorem History.Grows.unwritten (h : hist.Grows me hist') (hmine : (me, id.identity) ∈ hist.issued)
    (hnone : hist.view (.object id path) = none) : hist'.view (.object id path) = none := by
  obtain ⟨new, heq, hnew⟩ := h.written
  have hget : new.lookup (.object id path) = none := by
    rw [lookup_eq_none_iff]
    intro entry hmem
    by_contra hkey
    have hkey : Key.object id path = entry.1 := by simpa using hkey
    exact hnew entry hmem id (by simp [← hkey, Key.transaction?]) hmine
  rw [History.view, heq, lookup_append, hget]
  exact hnone

theorem Lasting.and (hJ : Lasting me J) (hK : Lasting me K) :
    Lasting me fun hist => J hist ∧ K hist :=
  fun _ _ hgrows h => ⟨hJ _ _ hgrows h.1, hK _ _ hgrows h.2⟩

theorem lasting_knows : Lasting me (Knows (β := β) tier rets) := by
  rintro hist hist' hgrows (hblank | ⟨entry, hmem, root, ver, hview, hrest⟩)
  · exact .inl hblank
  · exact .inr ⟨entry, hgrows.mem_committed hmem, root, ver, hgrows.kept _ _ hview, hrest⟩

theorem lasting_extends (hist₀ : History β) : Lasting me hist₀.Extends :=
  fun _ _ hgrows h key obj hkey => hgrows.kept key obj (h key obj hkey)

theorem lasting_fresh : Lasting me (Fresh (β := β) me id) := by
  intro hist hist' hgrows h
  refine ⟨hgrows.issued h.mine, History.uncommitted hgrows.committed h.mine h.uncommitted,
    fun path => ?_⟩
  exact hgrows.unwritten h.mine (h.unwritten path)

end Facts

/-! ## The rules -/

/-- The store is in order and `J` holds of its past; the index may name a transaction that was
judged abandoned. -/
def Amid (C : Codec β) (J : History β → Prop) (judged : Option TransactionId) (s : Shared β) :
    Prop :=
  StoreOk C s ∧ J s.history ∧ ∀ id ∈ judged, id ∈ s.history.abandoned

theorem StoreOk.amid (h : StoreOk C s) (hj : J s.history) : Amid C J none s :=
  ⟨h, hj, by simp⟩

theorem Amid.mono (h : Amid C J judged s) (hJ : ∀ hist, J hist → K hist) : Amid C K none s :=
  h.1.amid (hJ _ h.2.1)

variable [DecidableEq β]

/-- One writer among several: its effects are settled, and the others notice of them only what they
may. -/
def writerRules (C : Codec β) (me : Nat) : Rules (Effect β) Response (Shared β) where
  step effect s r s' := ∃ choice, s.Settled choice effect ∧ s.perform C me choice effect = (r, s')
  rely := Others C me
  guar s s' := ∀ other, other ≠ me → Others C other s s'
  rely_refl := Others.refl
  rely_trans := Others.trans

/-- A command that keeps the facts, whether it fails or not. -/
abbrev Spares (C : Codec β) (me : Nat) (J : History β → Prop) (tier : TelemetryObjectTier)
    (judged : Option TransactionId) {α : Type} (command : TierM β α) : Prop :=
  KeepsAt (writerRules C me) (Amid C J) tier judged command fun _ => True

namespace Writer

variable {J : History β → Prop}

section Methods

variable (hJ : Lasting me J)
include hJ

theorem amid_rely : ∀ judged s s', Amid C J judged s → (writerRules C me).rely s s' →
    Amid C J judged s' := by
  intro judged s s' ⟨hok, hj, hjudged⟩ hoth
  exact ⟨hoth.ok hok, hJ _ _ (hoth.grows hok) hj, fun id hid => hoth.abandoned (hjudged id hid)⟩

/-! ## Reading -/

variable {α : Type} {effect : Effect β} {f : Response effect → TelemetryResult α}

/-- An effect that changes nothing, with a lasting fact that it observes. -/
theorem read_safe {K : α → History β → Prop} (hK : ∀ a, Lasting me (K a))
    (hread : ∀ s choice r s', Amid C J judged s → s.perform C me choice effect = (r, s') →
      s' = s ∧ ∀ a, f r = .ok a → K a s.history) (h : Amid C J judged s) :
    Leaves (writerRules C me) (attempt effect f) tier (Amid C J judged)
      (fun a s' => K a s'.history) s := by
  refine Safe.attempt fun s₁ hs₁ r s₂ ⟨choice, _, hperf⟩ => ?_
  have h₁ := amid_rely hJ judged s s₁ h hs₁
  obtain ⟨rfl, hfact⟩ := hread s₁ choice r s₂ h₁ hperf
  exact ⟨fun other _ => Others.refl s₂, fun s₃ hs₃ => ⟨rfl, amid_rely hJ judged s₂ s₃ h₁ hs₃,
    fun a ha => hK a _ _ (Others.grows hs₃ h₁.1) (hfact a ha)⟩⟩

theorem read_keeps (hread : ∀ (s : Shared β) choice r s', s.perform C me choice effect = (r, s') →
    s' = s) : Spares C me J tier judged (attempt effect f) := by
  refine KeepsAt.attempt (amid_rely hJ) fun s r s' hs ⟨choice, _, hperf⟩ => ?_
  obtain rfl := hread s choice r s' hperf
  exact ⟨fun other _ => Others.refl s', hs, fun _ _ => trivial⟩

theorem head_keeps (key) :
    Spares C me J tier judged (head key) :=
  read_keeps hJ fun _ _ _ _ h => (perform_head h).1

theorem getObject_keeps (key) (cap) :
    Spares C me J tier judged (getObject key cap) :=
  read_keeps hJ fun _ _ _ _ h => (perform_get h).1

theorem unixTimeMillis_keeps :
    Spares C me J tier judged unixTimeMillis :=
  read_keeps (f := Except.ok) hJ fun _ _ _ _ h => (perform_unixTimeMillis h).1

/-! ## Deleting -/

/-- A deletion keeps the facts, whether it fails or not. -/
theorem delete_keeps (hkey : ∀ s, Amid C J judged s → Deletable me s key) :
    Spares C me J tier judged (delete key) := by
  refine KeepsAt.attempt (amid_rely hJ) fun s r s' hs ⟨choice, _, hperf⟩ => ?_
  rcases perform_delete hperf with ⟨error, rfl, rfl⟩ | ⟨rfl, rfl⟩
  · exact ⟨fun other _ => Others.refl _, hs, nofun⟩
  · have hguar : ∀ other, other ≠ me → Others C other s { s with store := s.store.erase key } :=
      fun other hother => others_erase hs.1 (hkey s hs) hother
    exact ⟨hguar, ⟨(hguar (me + 1) (by omega)).ok hs.1, hs.2⟩, fun _ _ => trivial⟩

theorem deleteAll_keeps (keys) (hkeys : ∀ key ∈ keys, ∀ s, Amid C J judged s → Deletable me s key) :
    Spares C me J tier judged (deleteAll keys) := by
  induction keys with
  | nil => exact KeepsAt.pure (amid_rely hJ) trivial
  | cons key rest ih =>
    refine (delete_keeps hJ (hkeys key mem_cons_self)).bind fun _ _ => ?_
    exact ih (forall_mem_cons.mp hkeys).2

/-- `PENDING` may always be deleted. -/
theorem delete_pending_keeps :
    Spares C me J tier judged (delete .pending) :=
  delete_keeps hJ fun _ _ => .inl rfl

/-! ## Recovering and beginning transactions -/

theorem verifyCurrentPointer_keeps :
    Spares C me J tier judged verifyCurrentPointer := by
  refine Keeps.get_bind ((head_keeps hJ .current).bind fun observed _ => ?_)
  exact KeepsAt.ofExcept (amid_rely hJ) fun _ _ => trivial

/-- The judgement that a transaction was abandoned is noted. -/
theorem abandon_keeps (tx) :
      Keeps (writerRules C me) (Amid C J) tier judged (abandon tx : TierM β Unit)
      fun _ judged => judged = some tx.transactionId := by
  refine Keeps.perform (amid_rely hJ) fun s r s' hs ⟨choice, hset, hperf⟩ => ?_
  obtain ⟨-, rfl⟩ := Prod.mk.inj hperf
  have hid : tx.transactionId ∉ s.history.committedIds := hset
  have hguar : ∀ other, Others C other s _ := fun other => others_abandon hs.1 hid
  refine ⟨fun other _ => hguar other, _, ⟨(hguar me).ok hs.1, ?_, ?_⟩, rfl⟩
  · exact hJ _ _ (History.grows_abandon _ _) hs.2.1
  · simp

/-- What a transaction that was judged abandoned owns may be deleted. -/
theorem discardAbandoned_keeps (hvalid : tx.validate maxObjects = .ok ()) :
    Keeps (writerRules C me) (Amid C J) tier judged (discardAbandoned tx : TierM β Unit) fun _ _ =>
      True := by
  refine (unixTimeMillis_keeps hJ).bind fun now _ => ?_
  refine Keeps.ofExcept_bind (amid_rely hJ) fun _ _ => ?_
  refine (abandon_keeps hJ tx).bind ?_
  rintro _ _ rfl
  refine Keeps.mono (deleteAll_keeps hJ tx.ownedObjects fun key hkey s hs => ?_) fun _ _ _ =>
    trivial
  obtain ⟨path, rfl⟩ := CatalogTransaction.validate_owned hvalid hkey
  exact .inr ⟨_, path, rfl, .inl (hs.2.2 _ rfl)⟩

theorem recoverPendingTransaction_keeps :
    Keeps (writerRules C me) (Amid C J) tier judged (recoverPendingTransaction C) fun _ _ =>
      True := by
  refine (head_keeps hJ .pending).bind fun observed _ => ?_
  cases observed with
  | none => exact Keeps.pure (amid_rely hJ) trivial
  | some md =>
    refine Keeps.get_bind (Keeps.ofExcept_bind (amid_rely hJ) fun _ _ => ?_)
    refine (getObject_keeps hJ .pending _).bind fun obj _ => ?_
    refine Keeps.ofExcept_bind (amid_rely hJ) fun _ _ => ?_
    refine Keeps.ofExcept_bind (amid_rely hJ) fun tx _ => ?_
    refine Keeps.ofExcept_bind (amid_rely hJ) fun _ hvalid => ?_
    split
    · exact Keeps.mono (delete_pending_keeps hJ) fun _ _ _ => trivial
    · refine (discardAbandoned_keeps hJ hvalid).bind fun _ judged' _ => ?_
      exact Keeps.mono (delete_pending_keeps hJ) fun _ _ _ => trivial

/-- A transaction that has begun is valid. -/
theorem beginTransaction_keeps (tx) :
      Keeps (writerRules C me) (Amid C J) tier judged (beginTransaction C tx)
      fun _ _ => tx.validate tier.maxTransactionObjects = .ok () := by
  refine (recoverPendingTransaction_keeps hJ).bind fun _ judged' _ => ?_
  refine (verifyCurrentPointer_keeps hJ).bind fun _ _ => ?_
  refine Keeps.get_bind (Keeps.ofExcept_bind (amid_rely hJ) fun _ hvalid => ?_)
  refine Keeps.ofExcept_bind (amid_rely hJ) fun _ _ => ?_
  refine KeepsAt.bind (K := fun _ => True) ?_ fun _ _ => Keeps.pure (amid_rely hJ) hvalid
  refine KeepsAt.attempt (amid_rely hJ) fun s r s' hs ⟨choice, _, hperf⟩ => ?_
  rcases perform_compareAndSwap hperf with ⟨error, -, rfl⟩ | ⟨-, -, rfl⟩
  · exact ⟨fun other _ => Others.refl _, hs, fun _ _ => trivial⟩
  · have hguar : ∀ other, Others C other s
        { s with store := s.store.insert .pending (.transaction tx) } :=
      fun other => others_insert_pending hs.1 _
    exact ⟨fun other _ => hguar other, ⟨(hguar me).ok hs.1, hs.2⟩, fun _ _ => trivial⟩

/-! ## Cleaning up -/

omit hJ in
/-- What a command that only keeps facts leaves, whether it fails or not. -/
theorem leaves_of_keeps (hc : Keeps (writerRules C me) (Amid C J) tier judged c K)
    (h : Amid C J judged s) :
    Leaves (writerRules C me) c tier (Amid C J none) (fun a _ => ∃ judged, K a judged) s :=
  (hc s h).mono fun _ _ _ ⟨ht, judged', hs', hK⟩ =>
    ⟨ht, hs'.mono fun _ h => h, fun a ha => ⟨judged', hK a ha⟩⟩

theorem cleanupOwned_safe (keys) (cleanupError)
    (hkeys : ∀ key ∈ keys, ∀ s, Amid C J none s → Deletable me s key) (h : Amid C J none s) :
    Leaves (writerRules C me) (cleanupOwned keys cleanupError : TierM β _) tier (Amid C J none)
      (fun _ _ => True) s := by
  induction keys generalizing s cleanupError with
  | nil => exact Leaves.pure fun s' hs' => ⟨amid_rely hJ _ _ _ h hs', trivial⟩
  | cons key rest ih =>
    obtain ⟨hkey, hrest⟩ := forall_mem_cons.mp hkeys
    refine (leaves_of_keeps (delete_keeps hJ hkey) h).observe_bind fun r s' h' _ => ?_
    cases r with
    | ok _ => exact ih cleanupError hrest h'
    | error error => exact ih _ hrest h'

theorem abortTransaction_safe (tx) (primary)
    (hkeys : ∀ key ∈ tx.ownedObjects, ∀ s, Amid C J none s → Deletable me s key)
    (h : Amid C J none s) :
    Leaves (writerRules C me) (abortTransaction tx primary : TierM β _) tier (Amid C J none)
      (fun _ _ => True) s := by
  have hpure : ∀ {α : Type} (a : α) {s' : Shared β}, Amid C J none s' →
      Leaves (writerRules C me) (pure a : TierM β α) tier (Amid C J none) (fun _ _ => True) s' :=
    fun a s' h' => Leaves.pure fun s'' hs'' => ⟨amid_rely hJ _ _ _ h' hs'', trivial⟩
  refine (cleanupOwned_safe hJ _ none hkeys h).seq (fun _ h => h) fun cleanupError s₁ h₁ _ => ?_
  cases cleanupError with
  | some error => exact hpure _ h₁
  | none =>
    refine (leaves_of_keeps (delete_pending_keeps hJ) h₁).observe_bind fun r s₂ h₂ _ => ?_
    cases r with
    | ok _ => exact hpure _ h₂
    | error error => exact hpure _ h₂

theorem completeTransaction_safe (h : Amid C J none s) :
    Leaves (writerRules C me) (completeTransaction : TierM β Unit) tier (Amid C J none)
      (fun _ _ => True) s :=
  (leaves_of_keeps (delete_pending_keeps hJ) h).observe_bind fun _ _ h' _ =>
    Leaves.pure fun _ hs'' => ⟨amid_rely hJ _ _ _ h' hs'', trivial⟩

end Methods

/-! ## Reclaiming retired objects -/

section

omit [DecidableEq β]

/-- A tier may drop some of the retired objects it works with. -/
theorem knows_makeMut (h : Knows tier rets hist) (hsub : ∀ obj ∈ retired', obj ∈ rets) :
    Knows (tier.makeMut fun root => { root with retiredObjects := retired' }) rets hist := by
  rcases h with ⟨hkey, hver, hpages, -, rfl⟩ |
    ⟨entry, hmem, root, ver, hview, hkey, hver, hle, hroot, hret⟩
  · refine .inl ⟨hkey, hver, hpages, ?_, rfl⟩
    exact eq_nil_iff_forall_not_mem.mpr fun obj hobj => by simpa using hsub obj hobj
  · refine .inr ⟨entry, hmem, root, ver, hview, hkey, hver, hle, ?_, hret⟩
    show ({ tier.root with retiredObjects := retired' } : CatalogRoot) = _
    rw [hroot]
    rfl

theorem knows_subset (h : Knows tier rets hist)
    (hsub : ∀ obj ∈ retired', obj ∈ rets) : Knows tier retired' hist := by
  rcases h with ⟨hkey, hver, hpages, hroot, rfl⟩ |
    ⟨entry, hmem, root, ver, hview, hkey, hver, hle, hroot, hret⟩
  · refine .inl ⟨hkey, hver, hpages, hroot, ?_⟩
    exact eq_nil_iff_forall_not_mem.mpr fun obj hobj => by simpa using hsub obj hobj
  · exact .inr ⟨entry, hmem, root, ver, hview, hkey, hver, hle, hroot,
      fun obj hobj => hret obj (hsub obj hobj)⟩

end

theorem upgrade_safe (hJ : Lasting me J) (weak) (h : Amid C J none s) :
    Returns (writerRules C me) (upgrade weak : TierM β Bool) tier (fun _ => Amid C J none) s := by
  cases weak with
  | none => exact Safe.pure fun s' hs' => ⟨rfl, _, rfl, amid_rely hJ _ _ _ h hs'⟩
  | some handle =>
    refine Safe.get_bind ?_
    split
    · exact Safe.pure fun s' hs' => ⟨rfl, _, rfl, amid_rely hJ _ _ _ h hs'⟩
    · refine Safe.perform fun s₁ hs₁ r s₂ ⟨choice, _, hperf⟩ => ?_
      obtain ⟨rfl, -⟩ := perform_leased hperf
      have h₁ := amid_rely hJ _ _ _ h hs₁
      exact ⟨fun other _ => Others.refl _, fun s₃ hs₃ => ⟨rfl, r, rfl, amid_rely hJ _ _ _ h₁ hs₃⟩⟩

/-- The loop deletes only retired objects and never fails; what is still pending was retired. -/
theorem reclaimLoop_safe (hJ : Lasting me J) (now) (objects pending) (err)
    (hret : ∀ obj ∈ objects, ∀ hist, J hist → hist.Retired obj.objectKey) (h : Amid C J none s) :
    Safe (writerRules C me) (reclaimLoop now objects pending err : TierM β _) tier
      (fun r t' s' => (∃ leases, t' = { tier with retiredLeases := leases }) ∧ Amid C J none s' ∧
        ∃ res, r = .ok res ∧ ∀ obj ∈ res.1, obj ∈ pending ∨ obj ∈ objects) s := by
  induction objects generalizing s tier pending err with
  | nil =>
    exact Safe.pure fun s' hs' =>
      ⟨⟨_, rfl⟩, amid_rely hJ _ _ _ h hs', _, rfl, fun obj hobj => .inl hobj⟩
  | cons obj rest ih =>
    obtain ⟨hobj, hrest⟩ := forall_mem_cons.mp hret
    have hkeep : ∀ {t : TelemetryObjectTier} {s' : Shared β} err, Amid C J none s' →
        (∃ leases, t = { tier with retiredLeases := leases }) →
        Safe (writerRules C me) (reclaimLoop now rest (pending ++ [obj]) err) t
          (fun r t' s' => (∃ leases, t' = { tier with retiredLeases := leases }) ∧
            Amid C J none s' ∧ ∃ res, r = .ok res ∧
              ∀ other ∈ res.1, other ∈ pending ∨ other ∈ obj :: rest) s' := by
      rintro t s' err h' ⟨leases, rfl⟩
      refine (ih _ err hrest h').mono ?_
      rintro r _ s'' ⟨⟨leases', rfl⟩, h'', res, rfl, hmem⟩
      refine ⟨⟨leases', rfl⟩, h'', res, rfl, fun other hother => ?_⟩
      rcases hmem other hother with hold | hnew
      · rcases mem_append.mp hold with hold | hself
        · exact .inl hold
        · exact .inr (mem_singleton.mp hself ▸ .head _)
      · exact .inr (.tail _ hnew)
    refine Safe.get_bind ((upgrade_safe hJ _ h).bind fun leased s₁ h₁ => ?_)
    split
    · exact hkeep err h₁ ⟨_, rfl⟩
    · have hkey : ∀ s, Amid C J none s → Deletable me s obj.objectKey := by
        intro s hs
        have hgone := hobj _ hs.2.1
        obtain ⟨id, path, heq, -⟩ := hs.1.retired_ids hgone
        exact .inr ⟨id, path, heq, .inr (.inl hgone)⟩
      refine (leaves_of_keeps (delete_keeps hJ hkey) h₁).observe_bind fun r s₂ h₂ _ => ?_
      cases r with
      | ok _ =>
        refine Safe.modify_bind ((ih pending err hrest h₂).mono ?_)
        rintro r _ s₃ ⟨⟨leases, rfl⟩, h₃, res, rfl, hmem⟩
        refine ⟨⟨leases, rfl⟩, h₃, res, rfl, fun other hother => ?_⟩
        exact (hmem other hother).imp_right (.tail _)
      | error error => exact hkeep _ h₂ ⟨_, rfl⟩

theorem reclaimRetiredObjects_safe (h : Amid C (Knows tier tier.root.retiredObjects) none s) :
    Safe (writerRules C me) (reclaimRetiredObjects : TierM β Unit) tier
      (fun _ t' s' => Amid C (Knows t' t'.root.retiredObjects) none s') s := by
  refine Safe.get_bind ?_
  split
  · exact Safe.pure fun s' hs' => amid_rely lasting_knows _ _ _ h hs'
  · -- the tier works on with an empty list; the objects of the loop are still known as retired
    have h₁ : Amid C (Knows (tier.makeMut fun root => { root with retiredObjects := [] })
        tier.root.retiredObjects) none s :=
      h.mono fun hist hknows => knows_makeMut hknows (by simp)
    refine Safe.modify_bind ((leaves_of_keeps (unixTimeMillis_keeps lasting_knows) h₁).bind
      (fun _ _ h₁ => h₁.mono fun hist hknows =>
        knows_subset hknows (by simp [TelemetryObjectTier.makeMut]))
      fun now s₁ h₁ _ => ?_)
    refine Safe.bind (reclaimLoop_safe lasting_knows now _ [] none
      (fun obj hobj hist hknows => hknows.retired_of_mem hobj) h₁) ?_ ?_
    · rintro ⟨pending, err⟩ _ s₂ ⟨⟨leases, rfl⟩, h₂, res, heq, hmem⟩
      cases heq
      have hsub : ∀ obj ∈ pending, obj ∈ tier.root.retiredObjects :=
        fun obj hobj => (hmem obj hobj).resolve_left (by simp)
      have h₃ := h₂.mono fun hist hknows => knows_subset (knows_makeMut hknows hsub) hsub
      refine Safe.modify_bind ?_
      cases err with
      | some error => exact Safe.throw fun s' hs' => amid_rely lasting_knows _ _ _ h₃ hs'
      | none => exact Safe.pure fun s' hs' => amid_rely lasting_knows _ _ _ h₃ hs'
    · rintro e _ s₂ ⟨-, -, _, heq, -⟩
      cases heq

end Writer

end ShardTelemetry.Tier
