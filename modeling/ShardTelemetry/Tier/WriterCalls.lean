import ShardTelemetry.Tier.WriterMethods
import ShardTelemetry.Tier.World

/-!
# The calls of one writer among several

A transaction uploads below its own identity, which no other writer uses.  What it has uploaded
stays unless a recovery judges the transaction abandoned, and then `CURRENT` does not select it.
-/

namespace ShardTelemetry.Tier

open List Cmd CatalogTransaction

variable {β : Type}

/-! ## Uploading -/

/-- An object is what an upload expects to store. -/
def Upload.Accepts (C : Codec β) (upload : Upload β) (object : Object β) : Prop :=
  match upload.body with
  | .bytes expected => object = expected
  | .file _ => (∃ contents, object = .artifact contents) ∧
      C.size object = upload.expected.bytes ∧ C.digest object = upload.expected.contentDigest

theorem Upload.Accepts.stored {up : Upload β}
    (h : up.Accepts C obj) (hview : view up.key = some obj) : up.Stored C view := by
  unfold Upload.Accepts at h
  unfold Upload.Stored
  cases hbody : up.body with
  | bytes want =>
    rw [hbody] at h
    exact h ▸ hview
  | file path =>
    rw [hbody] at h
    obtain ⟨⟨data, rfl⟩, hsize, hdig⟩ := h
    exact ⟨data, hview, hsize, hdig⟩

/-- An object was stored under a key, and is there unless the transaction was judged abandoned. -/
def Landed (id : TransactionId) (key : Key) (object : Object β) (s : Shared β) : Prop :=
  s.history.view key = some object ∧ (s.store.contents key = some object ∨ id ∈ s.history.abandoned)

/-- What a writer knows while it works on a transaction that derives from its root; `history₀` is
the past when it read the root. -/
structure Working (me : Nat) (history₀ : History β) (tier : TelemetryObjectTier)
    (id : TransactionId) (history : History β) : Prop where
  knows : Knows tier tier.root.retiredObjects history
  kept : history₀.Extends history
  mine : (me, id.identity) ∈ history.issued
  uncommitted : id ∉ history.committedIds

/-- The state of the store while a writer uploads: some uploads have landed, and nothing was ever
stored under the keys of the rest. -/
structure Uploading (C : Codec β) (me : Nat) (history₀ : History β) (tier : TelemetryObjectTier)
    (id : TransactionId) (uploaded rest : List (Upload β)) (s : Shared β) : Prop where
  ok : StoreOk C s
  working : Working me history₀ tier id s.history
  landed : ∀ upload ∈ uploaded, ∃ object, upload.Accepts C object ∧ Landed id upload.key object s
  absent : ∀ upload ∈ rest, s.history.view upload.key = none

section Facts

variable {id : TransactionId} {upd rest : List (Upload β)} {up : Upload β} {s s' : Shared β}
  {path : Path} {obj other : Object β}

theorem lasting_working : Lasting me (Working me hist₀ tier id) :=
  fun hist hist' hgrows h =>
    { knows := lasting_knows hist hist' hgrows h.knows
      kept := lasting_extends hist₀ hist hist' hgrows h.kept
      mine := hgrows.issued h.mine
      uncommitted := History.uncommitted hgrows.committed h.mine h.uncommitted }

/-- The others leave what landed, unless they judge the transaction abandoned. -/
theorem Landed.others (h : Landed id (.object id path) obj s) (hok : StoreOk C s)
    (hoth : Others C me s s') (hmine : (me, id.identity) ∈ s.history.issued)
    (hid : id ∉ s.history.committedIds) : Landed id (.object id path) obj s' := by
  refine ⟨hoth.extends hok _ _ h.1, ?_⟩
  rcases hoth.kept id path hmine hid with heq | hgone
  · rw [Store.contents, heq]
    exact h.2.imp_right fun hgone => hoth.abandoned hgone
  · exact .inr hgone

theorem Landed.write (h : Landed id key obj s)
    (hext : s.history.Extends (s.write (.object id path') other).history)
    (hne : key ≠ .object id path') : Landed id key obj (s.write (.object id path') other) := by
  refine ⟨hext _ _ h.1, h.2.imp_left fun hcont => ?_⟩
  rw [Shared.write, Store.contents_insert_of_ne hne]
  exact hcont

theorem Landed.write_self : Landed id (.object id path) obj (s.write (.object id path) obj) :=
  ⟨lookup_cons_self, .inl Store.contents_insert_self⟩

theorem Working.write (h : Working me hist₀ tier id s.history)
    (hext : s.history.Extends (s.write (.object id path) obj).history) :
    Working me hist₀ tier id (s.write (.object id path) obj).history where
  knows := by
    rcases h.knows with hblank | ⟨entry, hmem, root, version, hview, hrest⟩
    · exact .inl hblank
    · exact .inr ⟨entry, hmem, root, version, hext _ _ hview, hrest⟩
  kept key value hkey := hext key value (h.kept key value hkey)
  mine := h.mine
  uncommitted := h.uncommitted

theorem Uploading.others (h : Uploading C me hist₀ tier id upd rest s)
    (hkeys : ∀ up ∈ upd ++ rest, ∃ path, up.key = .object id path)
    (hoth : Others C me s s') : Uploading C me hist₀ tier id upd rest s' where
  ok := hoth.ok h.ok
  working := lasting_working _ _ (hoth.grows h.ok) h.working
  landed up hmem := by
    obtain ⟨obj, hacc, hlanded⟩ := h.landed up hmem
    obtain ⟨path, hkey⟩ := hkeys up (mem_append_left _ hmem)
    rw [hkey] at hlanded ⊢
    exact ⟨obj, hacc, hlanded.others h.ok hoth h.working.mine h.working.uncommitted⟩
  absent up hmem := by
    have habsent := h.absent up hmem
    obtain ⟨path, hkey⟩ := hkeys up (mem_append_right _ hmem)
    rw [hkey] at habsent ⊢
    exact (hoth.grows h.ok).unwritten h.working.mine habsent

/-- The next upload stores its object; the rest is still absent. -/
theorem Uploading.write (h : Uploading C me hist₀ tier id upd (up :: rest) s)
    (hkeys : ∀ other ∈ upd ++ rest, other.key ≠ up.key) (hkey : up.key = .object id path)
    (obj) : Uploading C me hist₀ tier id upd rest (s.write (.object id path) obj) := by
  have hnew := h.absent up mem_cons_self
  rw [hkey] at hnew hkeys
  have hext :=
    (others_write h.ok h.working.mine h.working.uncommitted hnew obj (Nat.succ_ne_self me)).extends
    h.ok
  refine ⟨?_, h.working.write hext, fun other hmem => ?_, fun other hmem => ?_⟩
  · exact h.ok.write (mem_map_of_mem h.working.mine) h.working.uncommitted hnew obj
  · obtain ⟨value, hacc, hlanded⟩ := h.landed other hmem
    exact ⟨value, hacc, hlanded.write hext (hkeys other (mem_append_left _ hmem))⟩
  · have hne := hkeys other (mem_append_right _ hmem)
    rw [History.view, Shared.write, lookup_cons, beq_false_of_ne hne]
    exact h.absent other (.tail _ hmem)

end Facts

namespace Writer

variable [DecidableEq β] {C : Codec β} {me : Nat} {hist₀ : History β} {tier : TelemetryObjectTier}
  {id : TransactionId}

omit [DecidableEq β] in
theorem mem_insert {other : Upload β} (h : other ∈ upd ++ rest) : other ∈ upd ++ up :: rest := by
  rw [mem_append] at h ⊢
  exact h.imp_right (.tail _)

/-- One put under the key of the next upload: it fails without effect, or one of the objects it may
put has landed. -/
theorem put_safe {res : Response effect → TelemetryResult ObjectMetadata} {K : Object β → Prop}
    (hput : ∀ (s : Shared β) choice r s', s.perform C me choice effect = (r, s') →
      Put C K up.key s (res r) s')
    (hkeys : ∀ other ∈ upd ++ up :: rest, ∃ path, other.key = .object id path)
    (hne : ∀ other ∈ upd ++ rest, other.key ≠ up.key)
    (h : Uploading C me hist₀ tier id upd (up :: rest) s) :
    Leaves (writerRules C me) (attempt effect res) tier (Uploading C me hist₀ tier id upd rest)
      (fun md s' => ∃ obj version, K obj ∧ md = C.metadata obj version ∧
        Landed id up.key obj s') s := by
  have hrest : ∀ other ∈ upd ++ rest, ∃ path, other.key = .object id path :=
    fun other hmem => hkeys other (mem_insert hmem)
  obtain ⟨path, hkey⟩ := hkeys up (by simp)
  refine Safe.attempt fun s₁ hs₁ r s₂ ⟨choice, _, hperf⟩ => ?_
  have h₁ := h.others hkeys hs₁
  have habsent := h₁.absent up mem_cons_self
  rw [hkey] at habsent
  -- nothing is stored under a key that was never written
  have hnone : s₁.store.contents (.object id path) = none := by
    by_contra hsome
    obtain ⟨obj, hobj⟩ := Option.ne_none_iff_exists'.mp hsome
    simp [h₁.ok.written id path obj hobj] at habsent
  rcases hput _ _ _ _ hperf with ⟨error, hr, rfl⟩ | ⟨obj, version, hobj, hr, hstored⟩
  · refine ⟨fun other _ => Others.refl _, fun s₃ hs₃ => ?_⟩
    have h₃ := h₁.others hkeys hs₃
    exact ⟨rfl, ⟨h₃.ok, h₃.working, h₃.landed, fun other hmem =>
      h₃.absent other (.tail _ hmem)⟩, fun md heq => by simp [hr] at heq⟩
  · rw [hkey] at hstored
    rcases hstored with ⟨hsome, -⟩ | ⟨-, rfl⟩
    · simp [hnone] at hsome
    · have h₂ := h₁.write hne hkey obj
      refine ⟨fun other hother => others_write h₁.ok h₁.working.mine h₁.working.uncommitted habsent
        obj hother, fun s₃ hs₃ => ⟨rfl, h₂.others hrest hs₃, fun md heq => ?_⟩⟩
      refine ⟨obj, version, hobj, Except.ok.inj (heq.symm.trans hr), ?_⟩
      rw [hkey]
      exact Landed.write_self.others h₂.ok hs₃ h₂.working.mine h₂.working.uncommitted

/-- One upload: it fails, or the object has landed as expected. -/
theorem putUpload_safe (hkeys : ∀ other ∈ upd ++ up :: rest, ∃ path, other.key = .object id path)
    (hne : ∀ other ∈ upd ++ rest, other.key ≠ up.key)
    (h : Uploading C me hist₀ tier id upd (up :: rest) s) :
    Leaves (writerRules C me) (putUpload up) tier (Uploading C me hist₀ tier id upd rest)
      (fun _ s' => Uploading C me hist₀ tier id (upd ++ [up]) rest s') s := by
  have hrest : ∀ other ∈ upd ++ rest, ∃ path, other.key = .object id path :=
    fun other hmem => hkeys other (mem_insert hmem)
  obtain ⟨path, hkey⟩ := hkeys up (by simp)
  -- checking the answer of the store: the object has landed in any case
  have hcheck : ∀ {s₁ : Shared β} {md : ObjectMetadata} {obj : Object β},
      Uploading C me hist₀ tier id upd rest s₁ → Landed id up.key obj s₁ →
      (verifyObjectMetadata md up.expected up.context = .ok () → up.Accepts C obj) →
      Leaves (writerRules C me) (ofExcept (verifyObjectMetadata md up.expected up.context)) tier
        (Uploading C me hist₀ tier id upd rest)
        (fun _ s' => Uploading C me hist₀ tier id (upd ++ [up]) rest s') s₁ := by
    intro s₁ md obj h₁ hlanded hacc
    refine Safe.ofExcept fun s₂ hs₂ => ?_
    have h₂ := h₁.others hrest hs₂
    refine ⟨rfl, h₂, fun _ hr => ⟨h₂.ok, h₂.working, fun other hmem => ?_, h₂.absent⟩⟩
    rcases mem_append.mp hmem with hmem | hmem
    · exact h₂.landed other hmem
    · obtain rfl := mem_singleton.mp hmem
      refine ⟨obj, hacc hr, ?_⟩
      rw [hkey] at hlanded ⊢
      exact hlanded.others h₁.ok hs₂ h₁.working.mine h₁.working.uncommitted
  unfold putUpload
  cases hbody : up.body with
  | bytes obj =>
    refine (put_safe (fun _ _ _ _ => perform_putBytes) hkeys hne h).seq (fun _ h => h) ?_
    rintro md s₁ h₁ ⟨_, _, rfl, -, hlanded⟩
    exact hcheck h₁ hlanded fun _ => by simp [Upload.Accepts, hbody]
  | file path =>
    refine (put_safe (fun _ _ _ _ => perform_putFile) hkeys hne h).seq (fun _ h => h) ?_
    rintro md s₁ h₁ ⟨obj, version, hartifact, rfl, hlanded⟩
    refine hcheck h₁ hlanded fun hr => ?_
    rw [Upload.Accepts, hbody]
    exact ⟨hartifact, verifyObjectMetadata_ok hr⟩

theorem putUploads_safe (h : Uploading C me hist₀ tier id upd rest s)
    (hkeys : ∀ other ∈ upd ++ rest, ∃ path, other.key = .object id path)
    (hnodup : ((upd ++ rest).map (·.key)).Nodup) :
    Leaves (writerRules C me) (putUploads rest) tier (Amid C (Working me hist₀ tier id) none)
      (fun _ s' => Uploading C me hist₀ tier id (upd ++ rest) [] s') s := by
  induction rest generalizing upd s with
  | nil =>
    refine Leaves.pure fun s' hs' => ?_
    have h' := h.others hkeys hs'
    exact ⟨h'.ok.amid h'.working, by rwa [append_nil]⟩
  | cons up rest ih =>
    have happ : upd ++ up :: rest = (upd ++ [up]) ++ rest := by simp
    have hne : ∀ other ∈ upd ++ rest, other.key ≠ up.key := by
      intro other hmem heq
      rw [map_append, map_cons, nodup_middle, nodup_cons, ← map_append] at hnodup
      exact hnodup.1 (heq ▸ mem_map_of_mem hmem)
    refine (putUpload_safe hkeys hne h).seq (fun _ h₁ => h₁.ok.amid h₁.working) fun _ s₁ _ h₁ => ?_
    rw [happ] at hkeys hnodup ⊢
    exact ih h₁ hkeys hnodup

/-! ## Committing -/

section Commit

variable {pub : Publication β}

section

variable (hder : Derives C hist₀.view tier pub nextGroups)
  (hroot : RootOk C hist₀.view tier.currentRootKey tier.root)
include hder hroot

omit [DecidableEq β] in
/-- With every upload landed and the transaction not judged abandoned, `CURRENT` may be moved. -/
theorem ready (hkeys : ∀ up ∈ pub.uploads, ∃ path,
    up.key = .object pub.transaction.transactionId path)
    (h : Uploading C me hist₀ tier pub.transaction.transactionId pub.uploads [] s)
    (hver : s.store.version .current = tier.currentVersion)
    (hjudged : pub.transaction.transactionId ∉ s.history.abandoned) :
    Ready C me s hist₀.view tier pub nextGroups where
  ok := h.ok
  knows := h.working.knows
  version := hver
  derives := hder
  kept := hroot.view_eq h.working.kept
  stored up hmem := by
    obtain ⟨obj, hacc, hview, -⟩ := h.landed up hmem
    exact hacc.stored hview
  present up hmem := by
    obtain ⟨obj, -, hview, hcont⟩ := h.landed up hmem
    rw [hview]
    exact hcont.resolve_right hjudged
  keys := hkeys
  mine := h.working.mine
  uncommitted := h.working.uncommitted
  unabandoned := hjudged

/-- Uploading and selecting: either it fails and the transaction is still not selected, or the
writer knows the root it has selected. -/
theorem publishObjects_safe
    (hkeys : ∀ up ∈ pub.uploads, ∃ path, up.key = .object pub.transaction.transactionId path)
    (hnodup : (pub.uploads.map (·.key)).Nodup)
    (h : Uploading C me hist₀ tier pub.transaction.transactionId [] pub.uploads s) :
    Safe (writerRules C me) (publishObjects pub) tier
      (fun r t' s' => t' = tier ∧
        match r with
        | .error _ =>
          Amid C (Working me hist₀ tier pub.transaction.transactionId) none s'
        | .ok md => Amid C (Knows (pub.select md.versionToken tier)
            pub.nextRoot.retiredObjects) none s') s := by
  refine (putUploads_safe h hkeys hnodup).bind (fun _ _ h₁ => ⟨rfl, h₁⟩) fun _ s₁ _ h₁ => ?_
  refine Safe.get_bind (Safe.attempt fun s₂ hs₂ r s₃ ⟨choice, hset, hperf⟩ => ?_)
  have h₂ := h₁.others (by simpa using hkeys) hs₂
  rcases perform_compareAndSwap hperf with ⟨error, rfl, rfl⟩ | ⟨rfl, hver, rfl⟩
  · have hworking : Amid C (Working me hist₀ tier pub.transaction.transactionId) none s₃ :=
      h₂.ok.amid h₂.working
    exact ⟨fun other _ => Others.refl _, fun s₄ hs₄ =>
      ⟨rfl, amid_rely lasting_working _ _ _ hworking hs₄⟩⟩
  · obtain ⟨digest, hptr⟩ := hder.pointer_key
    have hjudged := hset hver pub.transaction.transactionId
      (by simp [hptr, Key.transaction?])
    have hready := ready hder hroot hkeys h₂ hver hjudged
    have hknows : Amid C (Knows (pub.select s₂.store.nextVersion tier)
        pub.nextRoot.retiredObjects) none (Ready.after s₂ pub) :=
      hready.storeOk_after.amid hready.knows_after
    exact ⟨fun other hother => hready.others_after hother, fun s₄ hs₄ =>
      ⟨rfl, amid_rely lasting_knows _ _ _ hknows hs₄⟩⟩

theorem commitTransaction_safe (h : Amid C (fun hist => (Knows tier tier.root.retiredObjects hist ∧
      hist₀.Extends hist) ∧ Fresh me pub.transaction.transactionId hist) none s) :
    Safe (writerRules C me) (commitTransaction C pub) tier
      (fun _ t' s' => Amid C (Knows t' t'.root.retiredObjects) none s') s := by
  have hJ : Lasting me fun hist => (Knows tier tier.root.retiredObjects hist ∧
      hist₀.Extends hist) ∧ Fresh me pub.transaction.transactionId hist :=
    (lasting_knows.and (lasting_extends hist₀)).and lasting_fresh
  refine (leaves_of_keeps (beginTransaction_keeps hJ pub.transaction) h).bind
    (fun _ _ h₁ => h₁.mono fun _ hj => hj.1.1) ?_
  rintro _ s₁ h₁ ⟨-, hvalid⟩
  have hkeys : ∀ up ∈ pub.uploads, ∃ path,
      up.key = .object pub.transaction.transactionId path := fun up hmem =>
    validate_owned hvalid (hder.owned ▸ mem_map_of_mem hmem)
  have huploading : Uploading C me hist₀ tier pub.transaction.transactionId [] pub.uploads s₁ := by
    obtain ⟨hok, ⟨⟨hknows, hkept⟩, hfresh⟩, -⟩ := h₁
    refine ⟨hok, ⟨hknows, hkept, hfresh.mine, hfresh.uncommitted⟩, by simp, fun up hmem => ?_⟩
    obtain ⟨path, hkey⟩ := hkeys up hmem
    rw [hkey]
    exact hfresh.unwritten path
  refine Safe.observe_bind (publishObjects_safe hder hroot hkeys
    (hder.owned ▸ validate_nodup hvalid) huploading) ?_
  rintro r tier s₂ ⟨rfl, h₂⟩
  cases r with
  | error error =>
    have howned : ∀ key ∈ pub.transaction.ownedObjects, ∀ s,
        Amid C (Working me hist₀ tier pub.transaction.transactionId) none s →
          Deletable me s key := by
      intro key hkey s hs
      obtain ⟨path, rfl⟩ := validate_owned hvalid hkey
      exact .inr ⟨_, path, rfl, .inr (.inr ⟨hs.2.1.mine, hs.2.1.uncommitted⟩)⟩
    have hdone : ∀ {s' : Shared β},
        Amid C (Working me hist₀ tier pub.transaction.transactionId) none s' →
          Amid C (Knows tier tier.root.retiredObjects) none s' :=
      fun hs' => hs'.mono fun _ hworking => hworking.knows
    refine (abortTransaction_safe lasting_working _ _ howned h₂).bind (fun _ _ => hdone) fun _
      s₃ h₃ _ => ?_
    exact Safe.throw fun s₄ hs₄ => amid_rely lasting_knows _ _ _ (hdone h₃) hs₄
  | ok md =>
    exact Safe.modify_bind ((completeTransaction_safe lasting_knows h₂).bind (fun _ _ h₃ => h₃)
      fun _ _ h₃ _ => reclaimRetiredObjects_safe h₃)

end

end Commit

/-! ## Calls -/

/-- What a writer knows while it prepares a transaction: the index is the identity it has drawn. -/
def Preparing (C : Codec β) (me : Nat) (tier : TelemetryObjectTier) (history₀ : History β)
    (phase : Option Identity) (s : Shared β) : Prop :=
  StoreOk C s ∧ (Knows tier tier.root.retiredObjects s.history ∧ history₀.Extends s.history) ∧
    ∀ identity ∈ phase, ∀ generation, Fresh me ⟨identity, generation⟩ s.history

omit [DecidableEq β] in
/-- A new identity is fresh. -/
theorem fresh_identity (hok : StoreOk C s) (hfresh : ident ∉ s.history.issued.map (·.2)) (gen) :
    Fresh me ⟨ident, gen⟩ { s.history with issued := (me, ident) :: s.history.issued } where
  mine := .head _
  uncommitted hmem := hfresh (hok.committed_issued _ hmem)
  unwritten path := by
    refine lookup_eq_none_iff.mpr fun entry hmem => ?_
    by_contra hkey
    have hkey : Key.object ⟨ident, gen⟩ path = entry.1 := by simpa using hkey
    obtain ⟨id, path', heq, hissued⟩ := hok.written_issued entry hmem
    rw [← hkey] at heq
    obtain ⟨rfl, -⟩ := Key.object.inj heq
    exact hfresh hissued

/-- A writer reads what was once written. -/
theorem preparing_reading (hroot : RootOk C hist₀.view tier.currentRootKey tier.root) :
    Reading (writerRules C me) (Preparing C me tier hist₀) hist₀.view
      (· ∈ reachedKeys hist₀.view tier.root.pages) := by
  have hlasting : Lasting me fun hist =>
      Knows tier tier.root.retiredObjects hist ∧ hist₀.Extends hist :=
    lasting_knows.and (lasting_extends hist₀)
  refine ⟨fun phase s s' hs hoth => ?_, fun hs ⟨choice, _, hperf⟩ => ?_,
    fun hs ⟨choice, _, hperf⟩ => ?_, fun hs ⟨choice, _, hperf⟩ => ?_,
    fun hs ⟨choice, hset, hperf⟩ => ?_⟩
  · have hgrows := hoth.grows hs.1
    exact ⟨hoth.ok hs.1, hlasting _ _ hgrows hs.2.1, fun ident hphase gen =>
      lasting_fresh _ _ hgrows (hs.2.2 ident hphase gen)⟩
  · obtain ⟨rfl, hget⟩ := perform_get hperf
    refine ⟨fun other _ => Others.refl _, hs, fun hkey obj hr => ?_⟩
    have hview := hroot.view_eq hs.2.1.2 _ hkey
    obtain ⟨id, path, rfl, -⟩ := hroot.reached_shape hkey
    rw [← hview]
    exact hs.1.written id path obj (hget obj hr)
  · obtain rfl := perform_hashFile hperf
    exact ⟨fun other _ => Others.refl _, hs⟩
  · obtain ⟨rfl, -⟩ := perform_unixTimeMillis hperf
    exact ⟨fun other _ => Others.refl _, hs⟩
  · obtain ⟨rfl, rfl⟩ := Prod.mk.inj hperf
    refine ⟨fun other hother => others_identity hs.1 hset hother, ?_, hs.2.1, ?_⟩
    · exact (others_identity hs.1 hset (Nat.succ_ne_self me)).ok hs.1
    · intro ident hphase gen
      cases hphase
      exact fresh_identity hs.1 hset gen

theorem withTransaction_safe {prepare : TierM β (α ⊕ α × Publication β)}
    (hprepare : ∀ (t : TelemetryObjectTier) (hist₀ : History β),
      RootOk C hist₀.view t.currentRootKey t.root →
      Keeps (writerRules C me) (Preparing C me t hist₀) t none prepare
        fun res phase => ∀ a pub, res = .inr (a, pub) →
            phase = some pub.transaction.transactionId.identity ∧
            ∃ nextGroups, Derives C hist₀.view t pub nextGroups)
    (h : Amid C (Knows tier tier.root.retiredObjects) none s) :
    Safe (writerRules C me) (withTransaction C prepare) tier
      (fun _ t' s' => Amid C (Knows t' t'.root.retiredObjects) none s') s := by
  refine Safe.bind (reclaimRetiredObjects_safe h) ?_ fun _ _ _ h => h
  rintro _ tier s₁ h₁
  refine (leaves_of_keeps (recoverPendingTransaction_keeps lasting_knows) h₁).bind (fun _ _ h => h)
    fun _ s₂ h₂ _ => ?_
  refine (leaves_of_keeps (verifyCurrentPointer_keeps lasting_knows) h₂).bind (fun _ _ h => h)
    fun _ s₃ h₃ _ => ?_
  have hroot := h₃.2.1.rootOk h₃.1
  have hpreparing : Preparing C me tier s₃.history none s₃ :=
    ⟨h₃.1, ⟨h₃.2.1, fun _ _ h => h⟩, by simp⟩
  refine Safe.bind (hprepare tier s₃.history hroot s₃ hpreparing) ?_ ?_
  · rintro res tier s₄ ⟨rfl, phase, h₄, hresult⟩
    cases res with
    | inl a =>
      refine Safe.pure fun s₅ hs₅ => ?_
      exact amid_rely lasting_knows none s₄ s₅ (h₄.1.amid h₄.2.1.1) hs₅
    | inr prep =>
      obtain ⟨a, pub⟩ := prep
      obtain ⟨rfl, nextGroups, hder⟩ := hresult _ rfl a pub rfl
      have hfresh := h₄.2.2 _ rfl pub.transaction.transactionId.generation
      refine Safe.bind (commitTransaction_safe hder hroot (h₄.1.amid ⟨h₄.2.1, hfresh⟩)) ?_
        fun _ _ _ h => h
      rintro _ t' s₅ h₅
      exact Safe.pure fun s₆ hs₆ => amid_rely lasting_knows _ _ _ h₅ hs₆
  · rintro e _ s₄ ⟨rfl, phase, h₄, -⟩
    exact h₄.1.amid h₄.2.1.1

/-- Whatever a call does and however it ends, the store stays in order and the writer knows its
root. -/
theorem command_safe (call : Call) (h : Amid C (Knows tier tier.root.retiredObjects) none s) :
    Safe (writerRules C me) (call.command C) tier
      (fun _ t' s' => Amid C (Knows t' t'.root.retiredObjects) none s') s := by
  have hdone : ∀ {t : TelemetryObjectTier} {s' : Shared β},
      Amid C (Knows t t.root.retiredObjects) none s' →
      Safe (writerRules C me) (pure () : TierM β Unit) t
        (fun _ t' s' => Amid C (Knows t' t'.root.retiredObjects) none s') s' :=
    fun h' => Safe.pure fun s'' hs'' => amid_rely lasting_knows _ _ _ h' hs''
  cases call with
  | publishGroup source =>
    refine Safe.bind (withTransaction_safe (fun t hist₀ hroot => ?_) h)
      (fun _ _ _ h' => hdone h') fun _ _ _ h' => h'
    refine (prepareGroup_keeps (preparing_reading hroot) source).mono ?_
    intro res phase hprep mf pub heq
    obtain ⟨hphase, entry, hentry⟩ := hprep mf pub heq
    exact ⟨hphase, _, hentry.derives⟩
  | retainSinceTimestamp cutoff =>
    refine Safe.bind (withTransaction_safe (fun t hist₀ hroot => ?_) h)
      (fun _ _ _ h' => hdone h') fun _ _ _ h' => h'
    refine (prepareRetention_keeps (preparing_reading hroot) cutoff hroot.ordered).mono ?_
    intro res phase hprep report pub heq
    obtain ⟨hphase, retained, dropped, hkeep⟩ := hprep report pub heq
    exact ⟨hphase, _, hkeep.derives⟩
  | reclaimRetiredObjects => exact reclaimRetiredObjects_safe h

/-! ## Opening -/

section

omit [DecidableEq β]

theorem lasting_committed (K : CatalogPointer × Version → Prop) :
    Lasting (β := β) me fun hist => ∃ entry ∈ hist.committed, K entry :=
  fun _ _ hgrows ⟨entry, hmem, hentry⟩ => ⟨entry, hgrows.mem_committed hmem, hentry⟩

/-- What `CURRENT` holds was selected, and nothing was selected later. -/
theorem current_last (hok : StoreOk C s) (hstored : s.store.objects .current = some stored) :
    ∃ last ∈ s.history.committed, stored = ⟨.pointer last.1, last.2⟩ ∧
      ∀ entry ∈ s.history.committed, entry.2 ≤ last.2 := by
  rw [hok.current] at hstored
  obtain ⟨last, hlast, rfl⟩ := Option.map_eq_some_iff.mp hstored
  refine ⟨last, mem_of_getLast? hlast, rfl, fun entry hmem => ?_⟩
  obtain ⟨init, hinit⟩ := getLast?_eq_some_iff.mp hlast
  have hincreasing := hok.increasing
  rw [hinit] at hmem hincreasing
  rcases mem_append.mp hmem with hmem | hmem
  · exact ((pairwise_append.mp hincreasing).2.2 entry hmem last (by simp)).le
  · rw [mem_singleton.mp hmem]

end

/-- The version of `CURRENT` is one that was selected. -/
theorem head_current_safe (hJ : Lasting me J) (h : Amid C J none s) :
    Leaves (writerRules C me) (head .current : TierM β _) tier (Amid C J none)
      (fun res s' => ∀ md, res = some md →
        ∃ entry ∈ s'.history.committed, entry.2 = md.versionToken) s := by
  refine read_safe (K := fun (res : Option ObjectMetadata) hist => ∀ md, res = some md →
    ∃ entry ∈ hist.committed, entry.2 = md.versionToken) hJ ?_ ?_ h
  · exact fun r _ _ hgrows hk md hr => lasting_committed _ _ _ hgrows (hk md hr)
  · intro s choice r s' hs hperf
    obtain ⟨rfl, hhead⟩ := perform_head hperf
    refine ⟨rfl, fun _ hr md => ?_⟩
    rintro rfl
    obtain ⟨stored, hstored, rfl⟩ := Option.map_eq_some_iff.mp (hhead _ hr).symm
    obtain ⟨last, hmem, rfl, -⟩ := current_last hs.1 hstored
    exact ⟨last, hmem, rfl⟩

/-- The pointer `CURRENT` holds was selected no earlier than the version seen before. -/
theorem get_current_safe
    (h : Amid C (fun hist => ∃ entry ∈ hist.committed, entry.2 = version) none s) :
    Leaves (writerRules C me) (getObject .current cap : TierM β _) tier (StoreOk C)
      (fun obj s' => ∃ entry ∈ s'.history.committed, obj = .pointer entry.1 ∧
        version ≤ entry.2) s := by
  refine (read_safe (K := fun obj hist => ∃ entry ∈ hist.committed, obj = .pointer entry.1 ∧
    version ≤ entry.2) (lasting_committed _)
      (fun _ => lasting_committed _) ?_ h).mono (fun _ => And.left)
    fun _ _ _ hk => hk
  intro s choice r s' hs hperf
  obtain ⟨rfl, hget⟩ := perform_get hperf
  refine ⟨rfl, fun obj hr => ?_⟩
  obtain ⟨stored, hstored, rfl⟩ := Option.map_eq_some_iff.mp (hget obj hr)
  obtain ⟨last, hmem, rfl, hlast⟩ := current_last hs.1 hstored
  obtain ⟨entry, hentry, rfl⟩ := hs.2.1
  exact ⟨last, hmem, rfl, hlast entry hentry⟩

/-- The object read under the key of a selected root is the one that was written. -/
theorem get_root_safe
    (h : Amid C (fun hist => ∃ entry ∈ hist.committed, entry.1 = ptr ∧ version ≤ entry.2) none s) :
    Leaves (writerRules C me) (getObject ptr.rootKey cap : TierM β _) tier
      (Amid C (fun hist => ∃ entry ∈ hist.committed, entry.1 = ptr ∧ version ≤ entry.2) none)
      (fun obj s' => s'.history.view ptr.rootKey = some obj) s := by
  refine read_safe (K := fun obj hist => hist.view ptr.rootKey = some obj)
    (lasting_committed _) ?_ ?_ h
  · exact fun obj _ _ hgrows hk => hgrows.kept _ _ hk
  · intro s choice r s' hs hperf
    obtain ⟨rfl, hget⟩ := perform_get hperf
    refine ⟨rfl, fun obj hr => ?_⟩
    obtain ⟨entry, hentry, rfl, -⟩ := hs.2.1
    obtain ⟨root, hroot⟩ := hs.1.roots entry hentry
    obtain ⟨id, path, hkey, -⟩ := hroot.ids _ (.inl rfl)
    have hobj := hget obj hr
    rw [hkey] at hobj ⊢
    exact hs.1.written id path obj hobj

/-- `open` keeps the store in order; a writer it opens knows its root. -/
theorem openCatalog_safe (conf) (h : StoreOk C s) :
    Safe (writerRules C me) (openCatalog C) (.blank space conf)
      (fun r t' s' => StoreOk C s' ∧ (r = .ok () → Knows t' t'.root.retiredObjects s'.history))
        s := by
  have hfail : ∀ {s₁ : Shared β} {t : TelemetryObjectTier}, StoreOk C s₁ →
      ∀ (e : TelemetryError) s', Others C me s₁ s' →
        StoreOk C s' ∧ ((.error e : TelemetryResult Unit) = .ok () →
          Knows t t.root.retiredObjects s'.history) :=
    fun hok e s' hs' => ⟨hs'.ok hok, nofun⟩
  have hblank : Knows (.blank space conf) [] s.history := .inl ⟨rfl, rfl, rfl, rfl, rfl⟩
  refine Safe.get_bind (Safe.ofExcept_bind (fun _ _ => ?_) (hfail h))
  refine (head_current_safe lasting_knows (h.amid hblank)).bind (fun _ _ h₁ => ⟨h₁.1, nofun⟩)
    fun observed s₁ h₁ hobserved => ?_
  cases observed with
  | none =>
    refine Safe.mono (leaves_of_keeps (recoverPendingTransaction_keeps lasting_knows) h₁) ?_
    rintro r _ s₂ ⟨rfl, h₂, -⟩
    exact ⟨h₂.1, fun _ => h₂.2.1⟩
  | some md =>
    refine Safe.ofExcept_bind (fun _ _ => ?_) (hfail h₁.1)
    refine (get_current_safe (h₁.1.amid (hobserved md rfl))).bind (fun _ _ hok₂ => ⟨hok₂, nofun⟩) ?_
    rintro _ s₂ hok₂ ⟨entry, hentry, rfl, hle⟩
    refine Safe.ofExcept_bind (fun _ _ => ?_) (hfail hok₂)
    refine Safe.ofExcept_bind (fun ptr hptr => ?_) (hfail hok₂)
    refine Safe.ofExcept_bind (fun _ _ => ?_) (hfail hok₂)
    obtain rfl : entry.1 = ptr := by simpa using decodeJson_pointer hptr
    refine (get_root_safe (hok₂.amid ⟨entry, hentry, rfl, hle⟩)).bind (fun _ _ h₃ => ⟨h₃.1, nofun⟩)
      fun rootObject s₃ h₃ hview => ?_
    refine Safe.ofExcept_bind (fun _ _ => ?_) (hfail h₃.1)
    refine Safe.ofExcept_bind (fun root hroot => ?_) (hfail h₃.1)
    refine Safe.ofExcept_bind (fun _ _ => ?_) (hfail h₃.1)
    refine Safe.ofExcept_bind (fun _ _ => ?_) (hfail h₃.1)
    refine Safe.ofExcept_bind (fun _ _ => ?_) (hfail h₃.1)
    obtain rfl := decodeJson_root hroot
    obtain ⟨entry', hentry', heq, hle'⟩ := h₃.2.1
    rw [← heq] at hview
    have hknows : Knows { TelemetryObjectTier.blank space conf with
        root, currentRootKey := some entry.1.rootKey,
        currentVersion := some md.versionToken } root.retiredObjects s₃.history := by
      refine .inr ⟨entry', hentry', root, _, hview, ?_, rfl, hle', rfl, fun _ h => h⟩
      exact congrArg (fun ptr : CatalogPointer => some ptr.rootKey) heq.symm
    refine Safe.set_bind ((leaves_of_keeps (recoverPendingTransaction_keeps lasting_knows)
      (h₃.1.amid hknows)).bind (fun _ _ h₄ => ⟨h₄.1, nofun⟩) fun _ s₄ h₄ _ => ?_)
    exact (reclaimRetiredObjects_safe h₄).mono fun _ _ _ h₅ => ⟨h₅.1, fun _ => h₅.2.1⟩

end Writer

end ShardTelemetry.Tier
