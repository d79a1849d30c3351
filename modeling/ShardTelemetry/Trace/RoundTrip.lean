import Mathlib.Data.List.Chain
import Mathlib.Data.List.ReduceOption
import ShardTelemetry.Metric.RoundTrip
import ShardTelemetry.Trace.Codec

/-!
# The round trip of a trace block

The groups of traces and the lane of spans are read back because both sides go through the same
states: a group differs from the one before, so that it shares fewer than all of its bytes, and a
marker for a parent stands for an identifier that both sides remember.  Decoding a block for a query
gives the spans of the block that the query asks for, in their order.
-/

namespace ShardTelemetry.Trace

open Bytes List Bool DurableSpan

/-! ## Groups of traces -/

theorem toBE_injective (hl : left < 256 ^ width) (hr : right < 256 ^ width)
    (h : toBE width left = toBE width right) : left = right := by
  rw [← ofBE_toBE hl, ← ofBE_toBE hr, h]

variable {prev : BitVec 128}

theorem TraceId.toBE_ne {id : TraceId} (h : id.value ≠ prev) : id.asBytes ≠ toBE 16 prev.toNat :=
  fun eq => h (BitVec.eq_of_toNat_eq (toBE_injective id.value.isLt prev.isLt eq))

theorem TraceId.value_injective {left right : TraceId} (h : left.value = right.value) :
    left = right := by
  cases right
  cases h
  rfl

theorem TraceId.fromBytes_asBytes (id : TraceId) : TraceId.fromBytes id.asBytes = .ok id := by
  have value : BitVec.ofNat 128 (ofBE id.asBytes) = id.value := by
    rw [asBytes, ofBE_toBE id.value.isLt, BitVec.ofNat_toNat, BitVec.setWidth_eq]
  unfold fromBytes
  rw [dif_pos (value ▸ id.nonzero)]
  simp only [value]

theorem SpanId.fromValue_value (id) : SpanId.fromValue id.value = .ok id := by
  rw [fromValue, dif_pos id.nonzero]

theorem take_sharedBytes (left right : List UInt8) :
    right.take (sharedBytes left right) = left.take (sharedBytes left right) := by
  induction left generalizing right with
  | nil => cases right <;> rfl
  | cons first rest ih =>
    cases right with
    | nil => rfl
    | cons second others =>
      unfold sharedBytes
      split
      · next eq => rw [take_succ_cons, take_succ_cons, ih others, eq]
      · rfl

/-- Different bytes are not all shared. -/
theorem sharedBytes_lt (length : left.length = right.length) (ne : left ≠ right) :
    sharedBytes left right < left.length := by
  induction left generalizing right with
  | nil => exact absurd (length_eq_zero_iff.mp length.symm).symm ne
  | cons first rest ih =>
    cases right with
    | nil => cases length
    | cons second others =>
      unfold sharedBytes
      split
      · next eq =>
        refine Nat.succ_lt_succ (ih (Nat.succ.inj length) fun same => ne ?_)
        rw [eq, same]
      · exact Nat.succ_pos _

theorem reads_decodeGroup (differs : group.1.value ≠ prev)
    (positive : 0 < group.2) (most : group.2 ≤ remaining) (fits : group.2 < 2 ^ 64) :
    Reads (decodeGroup remaining prev) (encodeGroup prev group) group := by
  have lengths : group.1.asBytes.length = (toBE 16 prev.toNat).length := by
    rw [TraceId.asBytes, length_toBE, length_toBE]
  have short : sharedBytes group.1.asBytes (toBE 16 prev.toNat) < 16 := by
    have lt := sharedBytes_lt lengths (TraceId.toBE_ne differs)
    rwa [TraceId.asBytes, length_toBE] at lt
  have sh := take_sharedBytes group.1.asBytes (toBE 16 prev.toNat)
  unfold encodeGroup
  generalize sharedBytes group.1.asBytes (toBE 16 prev.toNat) = count at short sh ⊢
  have byte : (UInt8.ofNat count).toNat = count := by
    rw [UInt8.toNat_ofNat']
    exact Nat.mod_eq_of_lt (short.trans (by decide))
  refine (Reads.byte (UInt8.ofNat count)).bind
    (Reads.require (by rw [byte]; exact decide_eq_true short) ?_)
  have rest : (group.1.asBytes.drop count).length = 16 - (UInt8.ofNat count).toNat := by
    rw [length_drop, byte, TraceId.asBytes, length_toBE]
  rw [← append_nil (writeTraceRun group.2)]
  refine (Reads.take rest).bind ((Varint.reads_read fits).bind ?_)
  refine Reads.require (by simp; omega) (Reads.lift ?_ (Reads.pure _))
  rw [byte, sh, take_append_drop]
  exact group.1.fromBytes_asBytes

/-- The spans of the groups. -/
def expand (groups : List (TraceId × Nat)) : List TraceId :=
  groups.flatMap fun group => replicate group.2 group.1

theorem reads_decodeGroups (apart : (prev :: groups.map (·.1.value)).IsChain (· ≠ ·))
    (positive : ∀ group ∈ groups, 0 < group.2) (enough : (expand groups).length ≤ rounds)
    (fits : (expand groups).length < 2 ^ 64) :
    Reads (decodeGroups rounds (expand groups).length prev) (encodeGroups prev groups)
      (expand groups) := by
  induction groups generalizing prev rounds with
  | nil =>
    unfold decodeGroups
    exact Reads.pure _
  | cons group groups ih =>
    obtain ⟨differs, apart⟩ := isChain_cons_cons.mp apart
    have some := positive group mem_cons_self
    have length : (expand (group :: groups)).length = group.2 + (expand groups).length := by
      simp [expand]
    rw [length] at enough fits ⊢
    obtain ⟨rounds, rfl⟩ : ∃ more, rounds = more + 1 := ⟨rounds - 1, by omega⟩
    obtain ⟨remaining, total⟩ : ∃ rest, group.2 + (expand groups).length = rest + 1 :=
      ⟨group.2 + (expand groups).length - 1, by omega⟩
    have first : Reads (decodeGroup (remaining + 1) prev) (encodeGroup prev group) group :=
      reads_decodeGroup differs.symm some (by omega) (by omega)
    have rest : Reads (decodeGroups rounds (remaining + 1 - group.2) group.1.value)
        (encodeGroups group.1.value groups) (expand groups) := by
      rw [← total, Nat.add_sub_cancel_left]
      exact ih apart (forall_mem_cons.mp positive).2 (by omega) (by omega)
    rw [total, decodeGroups]
    exact first.bind (rest.map fun rest => replicate group.2 group.1 ++ rest)

/-- Groups have all the spans, and those that follow each other are of different traces. -/
theorem traceGroups_spec (ids) :
    expand (traceGroups ids) = ids ∧ (∀ group ∈ traceGroups ids, 0 < group.2) ∧
    ((traceGroups ids).map (·.1.value)).IsChain (· ≠ ·) := by
  induction ids with
  | nil => exact ⟨rfl, nofun, .nil⟩
  | cons id rest ih =>
    unfold traceGroups
    cases groups : traceGroups rest with
    | nil =>
      rw [groups] at ih
      exact ⟨congrArg (id :: ·) ih.1, by simp, .singleton _⟩
    | cons group groups' =>
      rw [groups] at ih
      obtain ⟨next, run⟩ := group
      obtain ⟨spans, positive, apart⟩ := ih
      dsimp only
      split
      · next same =>
        subst same
        obtain ⟨-, later⟩ := forall_mem_cons.mp positive
        exact ⟨congrArg (next :: ·) spans, forall_mem_cons.mpr ⟨Nat.succ_pos _, later⟩, apart⟩
      · next differs =>
        exact ⟨congrArg (id :: ·) spans, forall_mem_cons.mpr ⟨Nat.one_pos, positive⟩,
          isChain_cons_cons.mpr ⟨fun eq => differs (TraceId.value_injective eq.symm), apart⟩⟩

theorem decodeTraceGroups_encode (ids) (fits : ids.length < 2 ^ 64) :
    decodeTraceGroups (encodeGroups 0 (traceGroups ids)) ids.length = .ok ids := by
  obtain ⟨spans, positive, chain⟩ := traceGroups_spec ids
  have apart : ((0 : BitVec 128) :: (traceGroups ids).map (·.1.value)).IsChain (· ≠ ·) := by
    cases groups : traceGroups ids with
    | nil => exact .singleton _
    | cons group rest =>
      rw [groups] at chain
      exact isChain_cons_cons.mpr ⟨group.1.nonzero.symm, chain⟩
  have reads := reads_decodeGroups apart positive le_rfl (by rwa [spans])
  rw [spans] at reads
  exact bind_ok reads.run rfl

/-! ## Spans and their parents -/

theorem replicate_takeWhile (bytes : List UInt8) :
    replicate (bytes.takeWhile (· = 0)).length 0 = bytes.takeWhile (· = 0) := by
  refine (eq_replicate_iff.mpr ⟨rfl, fun byte mem => ?_⟩).symm
  exact of_decide_eq_true (all_eq_true.mp all_takeWhile byte mem)

theorem reads_decodeXorId (current prev : BitVec 64) :
    Reads (decodeXorId prev) (encodeXorId current prev) current := by
  have bytes : ofBE (toBE 8 (current ^^^ prev).toNat) = (current ^^^ prev).toNat :=
    ofBE_toBE (current ^^^ prev).isLt
  have length : (toBE 8 (current ^^^ prev).toNat).length = 8 := length_toBE _ _
  unfold encodeXorId
  dsimp only
  generalize toBE 8 (current ^^^ prev).toNat = xor at bytes length ⊢
  have most : (xor.takeWhile (· = 0)).length ≤ 8 := length ▸ (List.takeWhile_prefix _).length_le
  have zeros := replicate_takeWhile xor
  have parts : xor.takeWhile (· = 0) ++ xor.drop (xor.takeWhile (· = 0)).length = xor := by
    conv_rhs => rw [← take_append_drop (xor.takeWhile (· = 0)).length xor]
    rw [← prefix_iff_eq_take.mp (List.takeWhile_prefix _)]
  generalize (xor.takeWhile (· = 0)).length = leading at most zeros parts ⊢
  have byte : (UInt8.ofNat leading).toNat = leading := by
    rw [UInt8.toNat_ofNat']
    exact Nat.mod_eq_of_lt (lt_of_le_of_lt most (by decide))
  refine (Reads.byte (UInt8.ofNat leading)).bind
    (Reads.require (by rw [byte]; exact decide_eq_true most) ?_)
  have rest : (xor.drop leading).length = 8 - (UInt8.ofNat leading).toNat := by
    rw [length_drop, byte, length]
  have back : prev ^^^ BitVec.ofNat 64
      (ofBE (replicate (UInt8.ofNat leading).toNat 0 ++ xor.drop leading)) = current := by
    rw [byte, zeros, parts, bytes, BitVec.ofNat_toNat, BitVec.setWidth_eq, BitVec.xor_comm,
      BitVec.xor_assoc, BitVec.xor_self, BitVec.xor_zero]
  have taken : Reads (take _ (invalid "invalid XOR ID lane")) (xor.drop leading) _ :=
    Reads.take rest
  have reads := taken.map fun bytes =>
    prev ^^^ BitVec.ofNat 64 (ofBE (replicate (UInt8.ofNat leading).toNat 0 ++ bytes))
  rw [back] at reads
  exact reads

/-- What follows the marker of a parent that is remembered. -/
theorem reads_remembered (h : parent.value = value) :
    Reads (do
      let parent ← lift (SpanId.fromValue value)
      return some parent) [] (some parent) := by
  subst h
  exact Reads.lift parent.fromValue_value (Reads.pure _)

theorem reads_decodeParent (state) (sameTrace) (parent) :
    Reads (decodeParent state sameTrace) (encodeParent state sameTrace parent) parent := by
  cases parent with
  | none => exact (Reads.byte 0).bind (Reads.pure _)
  | some parent =>
    rw [encodeParent]
    split
    · next known =>
      obtain ⟨rfl, value⟩ := and_eq_true_iff.mp known
      exact (Reads.byte 2).bind (reads_remembered (of_decide_eq_true value))
    split
    · next known =>
      obtain ⟨rfl, value⟩ := and_eq_true_iff.mp known
      exact (Reads.byte 3).bind (reads_remembered (of_decide_eq_true value))
    · rw [← append_nil (encodeXorId _ _)]
      exact (Reads.byte 1).bind ((reads_decodeXorId _ _).bind (reads_remembered rfl))

theorem reads_decodeSpanLane (state) (recs) :
    Reads (decodeSpanLane state (recs.map (·.1))) (encodeSpanLane state recs) recs := by
  induction recs generalizing state with
  | nil => exact Reads.pure _
  | cons ids rest ih =>
    rw [map_cons, decodeSpanLane, encodeSpanLane, append_assoc]
    refine (reads_decodeXorId _ _).bind ((reads_decodeParent _ _ ids.2.2).bind ?_)
    exact Reads.lift ids.2.1.fromValue_value ((ih (state.next ids)).map (ids :: ·))

/-- A section with its length. -/
def framed (contents : List UInt8) : List UInt8 := toLE 4 contents.length ++ contents

theorem appendSection_eq_ok : appendSection data = .ok enc ↔
    data.length < 2 ^ 32 ∧ enc = framed data :=
  Metric.appendSection_eq_ok

theorem reads_readSection (fits : data.length < 2 ^ 32) : Reads readSection (framed data) data :=
  (Reads.uint fits).bind (Reads.take rfl)

/-- The identifiers are read back. -/
theorem decodeSpanIds_encode (fits : recs.length < 2 ^ 64)
    (h : encodeSpanIds recs = .ok lane) : decodeSpanIds lane recs.length = .ok recs := by
  obtain ⟨groups, appended, h⟩ := bind_eq_ok.mp h
  cases h
  obtain ⟨groupsFit, rfl⟩ := appendSection_eq_ok.mp appended
  have traces := decodeTraceGroups_encode (recs.map (·.1)) (by rwa [length_map])
  rw [length_map] at traces
  refine bind_ok (reads_readSection groupsFit _) ?_
  refine bind_ok traces ?_
  exact bind_ok ((reads_decodeSpanLane .start recs).run) rfl

/-! ## Sidecars -/

section Sidecars

variable {Value : Type}

/-- The tables have grown at their ends. -/
structure SidecarTables.Grows (tables more : SidecarTables Value) : Prop where
  tenants : tables.tenants <+: more.tenants
  resources : tables.resources <+: more.resources
  scopes : tables.scopes <+: more.scopes
  traceStates : tables.traceStates <+: more.traceStates
  names : tables.names <+: more.names
  attributeSets : tables.attributeSets <+: more.attributeSets
  eventSets : tables.eventSets <+: more.eventSets
  linkSets : tables.linkSets <+: more.linkSets
  statuses : tables.statuses <+: more.statuses

theorem SidecarTables.Grows.refl (tables : SidecarTables Value) : tables.Grows tables := by
  constructor <;> exact prefix_rfl

theorem SidecarTables.Grows.trans {tables more most : SidecarTables Value} (h : tables.Grows more)
    (h' : more.Grows most) : tables.Grows most where
  tenants := h.tenants.trans h'.tenants
  resources := h.resources.trans h'.resources
  scopes := h.scopes.trans h'.scopes
  traceStates := h.traceStates.trans h'.traceStates
  names := h.names.trans h'.names
  attributeSets := h.attributeSets.trans h'.attributeSets
  eventSets := h.eventSets.trans h'.eventSets
  linkSets := h.linkSets.trans h'.linkSets
  statuses := h.statuses.trans h'.statuses

/-- The sidecar of a span, in tables that may have grown since. -/
structure Resolves (tables : SidecarTables Value) (span : DurableSpan Value)
    (sidecar : PackedSpanSidecar) : Prop where
  tenant : tables.tenants[sidecar.tenantId.toNat]? = some span.tenant
  resource : tables.resources[sidecar.resourceId.toNat]? = some span.resource
  scope : tables.scopes[sidecar.scopeId.toNat]? = some span.scope
  traceState : tables.traceStates[sidecar.traceStateId.toNat]? = some span.traceState
  flags : sidecar.flags = span.flags
  name : tables.names[sidecar.nameId.toNat]? = some span.name
  kind : sidecar.kind = span.kind
  attributes : tables.attributeSets[sidecar.attributesId.toNat]? = some span.attributes
  droppedAttributesCount : sidecar.droppedAttributesCount = span.droppedAttributesCount
  events : tables.eventSets[sidecar.eventsId.toNat]? = some span.events
  droppedEventsCount : sidecar.droppedEventsCount = span.droppedEventsCount
  links : tables.linkSets[sidecar.linksId.toNat]? = some span.links
  droppedLinksCount : sidecar.droppedLinksCount = span.droppedLinksCount
  status : tables.statuses[sidecar.statusId.toNat]? = some span.status

variable {span : DurableSpan Value} {spans : List (DurableSpan Value)}

theorem Resolves.grown
    (h : Resolves tables span sidecar) (grows : tables.Grows more) : Resolves more span sidecar :=
  { h with
    tenant := Metric.getElem?_grown grows.tenants h.tenant
    resource := Metric.getElem?_grown grows.resources h.resource
    scope := Metric.getElem?_grown grows.scopes h.scope
    traceState := Metric.getElem?_grown grows.traceStates h.traceState
    name := Metric.getElem?_grown grows.names h.name
    attributes := Metric.getElem?_grown grows.attributeSets h.attributes
    events := Metric.getElem?_grown grows.eventSets h.events
    links := Metric.getElem?_grown grows.linkSets h.links
    status := Metric.getElem?_grown grows.statuses h.status }

variable [DecidableEq Value]

structure Interners.Ok (interners : Interners Value) : Prop where
  tenants : interners.tenants.Ok
  resources : interners.resources.Ok
  scopes : interners.scopes.Ok
  traceStates : interners.traceStates.Ok
  names : interners.names.Ok
  attributeSets : interners.attributeSets.Ok
  eventSets : interners.eventSets.Ok
  linkSets : interners.linkSets.Ok
  statuses : interners.statuses.Ok

theorem Interners.new_ok : (Interners.new : Interners Value).Ok := by
  constructor <;> exact Metric.MetricSidecarInterner.new_ok

open Metric.MetricSidecarInterner (intern_interned) in
/-- What belongs to a span is interned. -/
theorem packSpan_eq_ok {next : Interners Value}
    (ok : interners.Ok) (h : packSpan interners span = .ok (next, packed)) :
    next.Ok ∧ interners.tables.Grows next.tables ∧ Resolves next.tables span packed := by
  obtain ⟨⟨tenantId, _⟩, tenant, h⟩ := bind_eq_ok.mp h
  obtain ⟨⟨resourceId, _⟩, resource, h⟩ := bind_eq_ok.mp h
  obtain ⟨⟨scopeId, _⟩, scope, h⟩ := bind_eq_ok.mp h
  obtain ⟨⟨traceStateId, _⟩, traceState, h⟩ := bind_eq_ok.mp h
  obtain ⟨⟨nameId, _⟩, name, h⟩ := bind_eq_ok.mp h
  obtain ⟨⟨attributesId, _⟩, attributes, h⟩ := bind_eq_ok.mp h
  obtain ⟨⟨eventsId, _⟩, events, h⟩ := bind_eq_ok.mp h
  obtain ⟨⟨linksId, _⟩, links, h⟩ := bind_eq_ok.mp h
  obtain ⟨⟨statusId, _⟩, status, h⟩ := bind_eq_ok.mp h
  cases h
  have tenant := intern_interned ok.tenants tenant
  have resource := intern_interned ok.resources resource
  have scope := intern_interned ok.scopes scope
  have traceState := intern_interned ok.traceStates traceState
  have name := intern_interned ok.names name
  have attributes := intern_interned ok.attributeSets attributes
  have events := intern_interned ok.eventSets events
  have links := intern_interned ok.linkSets links
  have status := intern_interned ok.statuses status
  refine ⟨⟨tenant.ok, resource.ok, scope.ok, traceState.ok, name.ok, attributes.ok, events.ok,
      links.ok, status.ok⟩,
    ⟨tenant.grows, resource.grows, scope.grows, traceState.grows, name.grows, attributes.grows,
      events.grows, links.grows, status.grows⟩, ?_⟩
  exact ⟨tenant.found, resource.found, scope.found, traceState.found, rfl, name.found, rfl,
    attributes.found, rfl, events.found, rfl, links.found, rfl, status.found⟩

theorem packSpans_eq_ok {next : Interners Value}
    (ok : interners.Ok) (h : packSpans interners spans = .ok (next, packed)) :
    interners.tables.Grows next.tables ∧ Forall₂ (Resolves next.tables) spans packed := by
  induction spans generalizing interners packed with
  | nil =>
    cases h
    exact ⟨.refl _, .nil⟩
  | cons span spans ih =>
    obtain ⟨⟨_, first⟩, here, h⟩ := bind_eq_ok.mp h
    obtain ⟨⟨_, rest⟩, later, h⟩ := bind_eq_ok.mp h
    cases h
    obtain ⟨ok, grows, resolves⟩ := packSpan_eq_ok ok here
    obtain ⟨grows', others⟩ := ih ok later
    exact ⟨grows.trans grows', .cons (resolves.grown grows') others⟩

theorem encodeTraceSidecars_resolves (h : encodeTraceSidecars spans = .ok sides) :
    Forall₂ (Resolves sides.toSidecarTables) spans sides.spans := by
  obtain ⟨⟨interners, packed⟩, loop, h⟩ := bind_eq_ok.mp h
  cases h
  exact (packSpans_eq_ok Interners.new_ok loop).2

end Sidecars

/-! ## Spans -/

section Spans

variable {Value : Type}

/-- What the lanes have for a span. -/
def spanRow (span : DurableSpan Value) (sidecar : PackedSpanSidecar) : SpanRow :=
  ⟨span.recordRef.offset, span.startTimeUnixNanos, span.durationNanos, span.ids, sidecar⟩

/-- The header has what the spans share. -/
structure Shares (header : BlockHeader) (span : DurableSpan Value) : Prop where
  signal : span.recordRef.signal = .traces
  topicId : span.recordRef.topicId = header.topicId
  partitionId : span.recordRef.partitionId = header.partitionId
  streamShardId : span.streamShardId = header.streamShardId

/-- A sum that saturates is the sum, if it can be written. -/
theorem endTime_eq (span : DurableSpan Value) : span.endTimeUnixNanos.getD (2 ^ 64 - 1) =
    min (span.startTimeUnixNanos.toNat + span.durationNanos.toNat) (2 ^ 64 - 1) := by
  unfold endTimeUnixNanos
  split
  · next fits =>
    rw [Option.getD_some]
    omega
  · next large =>
    rw [Option.getD_none]
    omega

theorem any_eq_not_all {leaves keeps : α → Bool} (h : ∀ item, leaves item = !keeps item)
    (item : Option α) : item.any leaves = !item.all keeps := by
  cases item with
  | none => rfl
  | some item => exact h item

variable {spans : List (DurableSpan Value)}

/-- A query leaves out the spans that it does not match. -/
theorem leavesOut_eq {span : DurableSpan Value} (shares : Shares hdr span) (q : TraceQuery)
    (sidecar : PackedSpanSidecar) :
    leavesOut be q hdr.topicPartition (spanRow span sidecar) span.tenant span.name span.attributes
      span.resource span.scope = !traceQueryMatches be.valueMatches q span := by
  have part : topicPartition span.recordRef = hdr.topicPartition := by
    rw [topicPartition, shares.topicId, shares.partitionId, BlockHeader.topicPartition]
  have differ : ∀ {α : Type} [DecidableEq α] (left right : α),
      decide (left ≠ right) = !decide (left = right) :=
    fun _ _ => decide_not
  have below : ∀ left right : Nat, decide (left < right) = !decide (right ≤ left) := by
    intro left right
    rw [← decide_not, decide_eq_decide, Nat.not_le]
  have upTo : ∀ left right : Nat, decide (left ≤ right) = !decide (right < left) := by
    intro left right
    rw [← decide_not, decide_eq_decide, Nat.not_lt]
  unfold leavesOut traceQueryMatches spanRow ids
  dsimp only
  rw [part, endTime_eq, differ, any_eq_not_all (fun item => differ item hdr.topicPartition),
    any_eq_not_all (fun item => differ item span.traceId),
      any_eq_not_all (fun item => differ item span.spanId),
    any_eq_not_all (fun item => differ item span.name), any_eq_not_all (fun item => below _ item),
    any_eq_not_all (fun item => upTo item _), any_eq_not_all (fun item => below _ item)]
  simp only [Bool.not_and]

/-- A row gives its span, if the query asks for it. -/
theorem decodeSpan_eq {span : DurableSpan Value} {sidecar : PackedSpanSidecar}
    (shares : Shares hdr span) (resolves : Resolves tables span sidecar) (q : Option TraceQuery) :
    decodeSpan be q hdr tables (spanRow span sidecar) =
      .ok (if q.all (traceQueryMatches be.valueMatches · span) then some span else none) := by
  refine bind_ok (okOr_eq_ok.mpr resolves.tenant) ?_
  refine bind_ok (okOr_eq_ok.mpr resolves.resource) ?_
  refine bind_ok (okOr_eq_ok.mpr resolves.scope) ?_
  refine bind_ok (okOr_eq_ok.mpr resolves.traceState) ?_
  refine bind_ok (okOr_eq_ok.mpr resolves.name) ?_
  refine bind_ok (okOr_eq_ok.mpr resolves.attributes) ?_
  refine bind_ok (okOr_eq_ok.mpr resolves.events) ?_
  refine bind_ok (okOr_eq_ok.mpr resolves.links) ?_
  refine bind_ok (okOr_eq_ok.mpr resolves.status) ?_
  rw [any_eq_not_all fun q => leavesOut_eq shares q sidecar]
  cases q.all (traceQueryMatches be.valueMatches · span) with
  | false => rfl
  | true =>
    obtain ⟨signal, topicId, partitionId, streamShardId⟩ := shares
    have ref :
        (⟨.traces, hdr.topicId, hdr.partitionId, span.recordRef.offset⟩ : TelemetryRecordRef) =
        span.recordRef := by
      rw [← signal, ← topicId, ← partitionId]
    simp only [spanRow, Bool.not_true, false_eq_true, if_false, if_true, ref, ← streamShardId,
      resolves.flags, resolves.kind, resolves.droppedAttributesCount, resolves.droppedEventsCount,
      resolves.droppedLinksCount]
    rfl

/-- The rows give the spans that the query asks for. -/
theorem decodeSpans_eq (shares : ∀ span ∈ spans, Shares hdr span)
    (resolves : Forall₂ (Resolves tables) spans sides) (q : Option TraceQuery) :
    ∃ dec, ((spans.zip sides).map fun pair => spanRow pair.1 pair.2).mapM
        (decodeSpan be q hdr tables) = .ok dec ∧
      dec.reduceOption = spans.filter fun span =>
        q.all (traceQueryMatches be.valueMatches · span) := by
  induction resolves with
  | nil => exact ⟨[], rfl, rfl⟩
  | @cons span sidecar spans sides first rest ih =>
    obtain ⟨dec, done, kept⟩ := ih (forall_mem_cons.mp shares).2
    have here : decodeSpan be q hdr tables (spanRow span sidecar) = _ :=
      decodeSpan_eq (shares span mem_cons_self) first q
    refine ⟨(if q.all (traceQueryMatches be.valueMatches · span) then some span else none) :: dec,
      ?_, ?_⟩
    · rw [zip_cons_cons, map_cons, mapM_cons]
      exact bind_ok here (bind_eq_ok.mpr ⟨_, done, rfl⟩)
    · rw [filter_cons]
      split
      · rw [reduceOption_cons_of_some, kept]
      · rw [reduceOption_cons_of_none, kept]

end Spans

/-! ## Blocks -/

section Block

variable {Value : Type}

/-- The bytes of the header. -/
def headerBytes (header : BlockHeader) : List UInt8 :=
  (blockMagic ++ blockVersion :: [0, 0, 0]) ++ (toLE 4 header.streamShardId.toNat ++
    (toLE 16 header.topicId.toNat ++ (toLE 4 header.partitionId.toNat ++ toLE 4 header.count)))

theorem length_headerBytes (hdr) : (headerBytes hdr).length = fixedHeader := by
  simp [headerBytes, blockMagic, fixedHeader]

theorem reads_readHeader (fits : hdr.count < 2 ^ 32) : Reads readHeader (headerBytes hdr) hdr := by
  have magic : (blockMagic ++ blockVersion :: [0, 0, 0]).length = 8 := rfl
  refine (Reads.take magic).bind ?_
  refine (Reads.uint hdr.streamShardId.toNat_lt).bind ?_
  refine (Reads.uint hdr.topicId.isLt).bind ?_
  refine (Reads.uint hdr.partitionId.toNat_lt).bind ?_
  have wide : hdr.count < 256 ^ 4 := fits
  have back : (⟨UInt32.ofNat hdr.streamShardId.toNat, BitVec.ofNat 128 hdr.topicId.toNat,
      UInt32.ofNat hdr.partitionId.toNat, hdr.count⟩ : BlockHeader) = hdr := by
    simp only [UInt32.ofNat_toNat, BitVec.ofNat_toNat, BitVec.setWidth_eq]
  convert (Reads.uint wide).map _ using 1
  exact back.symm

/-- What is computed for a block before its sections are joined. -/
structure BlockSections (Value : Type) where
  ids : List UInt8
  sidecars : TraceBlockSidecars Value
  sidecarBytes : List UInt8
  compressedSidecars : List UInt8
  offsets : List UInt8
  starts : List UInt8
  durations : List UInt8

/-- The sections of sorted spans, each of a length that can be written. -/
structure BlockSections.Of [DecidableEq Value] (backend : Backend Value)
    (sorted : List (DurableSpan Value)) (sections : BlockSections Value) : Prop where
  ids : encodeSpanIds (sorted.map (·.ids)) = .ok sections.ids
  sidecars : encodeTraceSidecars sorted = .ok sections.sidecars
  serialized : backend.sidecars.toVec sections.sidecars = .ok sections.sidecarBytes
  compressed : backend.zstd.compress sections.sidecarBytes = .ok sections.compressedSidecars
  count : sorted.length < 2 ^ 32
  offsets : compressU64 backend.pco (sorted.map (·.recordRef.offset)) = .ok sections.offsets
  starts : compressU64 backend.pco (sorted.map (·.startTimeUnixNanos)) = .ok sections.starts
  durations : compressU64 backend.pco (sorted.map (·.durationNanos)) = .ok sections.durations
  offsetsFit : sections.offsets.length < 2 ^ 32
  startsFit : sections.starts.length < 2 ^ 32
  durationsFit : sections.durations.length < 2 ^ 32
  idsFit : sections.ids.length < 2 ^ 32
  sidecarsFit : sections.compressedSidecars.length < 2 ^ 32

variable {secs : BlockSections Value}

/-- The bytes of the sections. -/
def BlockSections.bytes (sections : BlockSections Value) : List UInt8 :=
  framed sections.offsets ++ (framed sections.starts ++ (framed sections.durations ++
    (framed sections.ids ++ framed sections.compressedSidecars)))

/-- The header of a block whose spans agree with one of them. -/
def blockHeader (first : DurableSpan Value) (count : Nat) : BlockHeader :=
  ⟨first.streamShardId, first.recordRef.topicId, first.recordRef.partitionId, count⟩

/-- A block that was encoded has agreeing spans and sections. -/
theorem encodeTraceBlock_eq_ok [DecidableEq Value] {rest : List (DurableSpan Value)}
    (h : encodeTraceBlock be (first :: rest) = .ok enc) :
    (first :: rest).all first.agrees = true ∧ ∃ secs : BlockSections Value,
      secs.Of be (be.sortUnstable (first :: rest)) ∧
      enc =
        (headerBytes (blockHeader first (be.sortUnstable (first :: rest)).length) ++ secs.bytes) ++
        be.digest (headerBytes (blockHeader first (be.sortUnstable (first :: rest)).length) ++
          secs.bytes) := by
  have bytes : ∀ (secs : BlockSections Value) (count : Nat),
      blockMagic ++ blockVersion :: [0, 0, 0] ++ toLE 4 first.streamShardId.toNat ++
        toLE 16 first.recordRef.topicId.toNat ++ toLE 4 first.recordRef.partitionId.toNat ++
        toLE 4 count ++ framed secs.offsets ++ framed secs.starts ++ framed secs.durations ++
        framed secs.ids ++ framed secs.compressedSidecars =
      headerBytes (blockHeader first count) ++ secs.bytes := by
    intro secs count
    simp only [BlockSections.bytes, headerBytes, blockHeader, append_assoc]
  obtain ⟨_, checked, h⟩ := bind_eq_ok.mp h
  dsimp only at h
  generalize be.sortUnstable (first :: rest) = sorted at h ⊢
  obtain ⟨ids, idsEncoded, h⟩ := bind_eq_ok.mp h
  obtain ⟨sides, packed, h⟩ := bind_eq_ok.mp h
  obtain ⟨raw, serialized, h⟩ := bind_eq_ok.mp h
  obtain ⟨zip, done, h⟩ := bind_eq_ok.mp h
  obtain ⟨count, counted, h⟩ := bind_eq_ok.mp h
  obtain ⟨offs, offsetsEncoded, h⟩ := bind_eq_ok.mp h
  obtain ⟨starts, startsEncoded, h⟩ := bind_eq_ok.mp h
  obtain ⟨durations, durationsEncoded, h⟩ := bind_eq_ok.mp h
  obtain ⟨offsetSection, offsetAppended, h⟩ := bind_eq_ok.mp h
  obtain ⟨startSection, startAppended, h⟩ := bind_eq_ok.mp h
  obtain ⟨durationSection, durationAppended, h⟩ := bind_eq_ok.mp h
  obtain ⟨idSection, idAppended, h⟩ := bind_eq_ok.mp h
  obtain ⟨sidecarSection, sidecarAppended, h⟩ := bind_eq_ok.mp h
  cases h
  obtain ⟨fits, rfl⟩ := lengthBytes_eq_ok.mp counted
  obtain ⟨offsetsFit, rfl⟩ := appendSection_eq_ok.mp offsetAppended
  obtain ⟨startsFit, rfl⟩ := appendSection_eq_ok.mp startAppended
  obtain ⟨durationsFit, rfl⟩ := appendSection_eq_ok.mp durationAppended
  obtain ⟨idsFit, rfl⟩ := appendSection_eq_ok.mp idAppended
  obtain ⟨sidecarsFit, rfl⟩ := appendSection_eq_ok.mp sidecarAppended
  refine ⟨ensure_eq_ok.mp checked, ⟨ids, sides, raw, zip, offs, starts, durations⟩,
    ⟨idsEncoded, packed, compressing_eq_ok.mp serialized, compressing_eq_ok.mp done, fits,
      offsetsEncoded,
      startsEncoded, durationsEncoded, offsetsFit, startsFit, durationsFit, idsFit,
        sidecarsFit⟩, ?_⟩
  rw [← bytes]

theorem decompressU64_lossless
    (h : compressU64 pco values = .ok enc) : decompressU64 pco enc values.length = .ok values :=
  Metric.decompressInto_lossless h _ _

/-- The sections are read back. -/
theorem BlockSections.Of.reads [DecidableEq Value] (h : secs.Of be sorted) :
    Reads (readLanes be sorted.length) secs.bytes
      ⟨sorted.map (·.recordRef.offset), sorted.map (·.startTimeUnixNanos),
        sorted.map (·.durationNanos), sorted.map (·.ids), secs.compressedSidecars⟩ := by
  have offs := decompressU64_lossless h.offsets
  have starts := decompressU64_lossless h.starts
  have durations := decompressU64_lossless h.durations
  have ids := decodeSpanIds_encode (by rw [length_map]; exact h.count.trans (by decide)) h.ids
  rw [length_map] at offs starts durations ids
  refine (reads_readSection h.offsetsFit).bind (Reads.lift offs ?_)
  refine (reads_readSection h.startsFit).bind (Reads.lift starts ?_)
  refine (reads_readSection h.durationsFit).bind (Reads.lift durations ?_)
  refine (reads_readSection h.idsFit).bind (Reads.lift ids ?_)
  exact (reads_readSection h.sidecarsFit).map _

/-- A block of sections decodes to its spans, as far as a query asks for them. -/
theorem BlockSections.Of.decode [DecidableEq Value] (h : secs.Of be sorted)
    (agree : ∀ span ∈ sorted, first.agrees span = true) (pos : sorted.length ≠ 0)
    (limit : secs.sidecarBytes.length ≤ sidecarLimit) (q : Option TraceQuery) {load : List UInt8}
    (joined : load = headerBytes (blockHeader first sorted.length) ++ secs.bytes) :
    decodeTraceBlockFiltered be (load ++ be.digest load) q =
      .ok (sorted.filter fun span => q.all (traceQueryMatches be.valueMatches · span)) := by
  have shares : ∀ span ∈ sorted, Shares (blockHeader first sorted.length) span := by
    intro span mem
    have same := agree span mem
    simp only [agrees, topicPartition, and_eq_true, decide_eq_true_eq, Prod.mk.injEq] at same
    exact ⟨same.1.1, same.1.2.1, same.1.2.2, same.2⟩
  have digest := be.length_digest load
  have length : (load ++ be.digest load).length - 32 = load.length := by
    rw [length_append, digest, Nat.add_sub_cancel]
  have long : fixedHeader ≤ load.length := by
    rw [joined, length_append, length_headerBytes]
    exact Nat.le_add_right _ _
  have front : (load ++ be.digest load).take 8 = blockMagic ++ blockVersion :: [0, 0, 0] := by
    rw [joined, headerBytes, append_assoc, append_assoc]
    exact take_left' rfl
  have magic : (load ++ be.digest load).take 4 = blockMagic := by
    rw [show 4 = min 4 8 from rfl, ← take_take, front]
    rfl
  have ver : ((load ++ be.digest load).drop 4).take 4 = blockVersion :: [0, 0, 0] := by
    rw [take_drop, front]
    rfl
  refine ensure_bind_ok ?_ ?_
  · rw [magic, length_append, digest]
    simpa using long
  refine ensure_bind_ok (by rw [ver]; simp) ?_
  rw [length, take_left, drop_left]
  have hdr : readHeader load = .ok (blockHeader first sorted.length, secs.bytes) := by
    rw [joined]
    exact reads_readHeader h.count _
  refine bind_ok hdr ?_
  dsimp only
  split
  · -- no span of another partition is asked for
    next elsewhere =>
    obtain ⟨asking, rfl, other⟩ := (Option.any_eq_true _ _).mp elsewhere
    obtain ⟨part, asked, differs⟩ := (Option.any_eq_true _ _).mp other
    refine congrArg Except.ok (filter_eq_nil_iff.mpr fun span mem asks => ?_).symm
    have same :
        topicPartition span.recordRef = (blockHeader first sorted.length).topicPartition := by
      rw [topicPartition, (shares span mem).topicId, (shares span mem).partitionId,
        BlockHeader.topicPartition]
    simp only [Option.all_some, traceQueryMatches, and_eq_true, asked, same, decide_eq_true_eq]
      at asks
    exact absurd asks.1.1.1.1.1.1.1.1.1.2 (of_decide_eq_true differs)
  · refine ensure_bind_ok (by simp) ?_
    refine ensure_bind_ok (decide_eq_true pos) ?_
    refine bind_ok h.reads.run ?_
    refine bind_ok rfl ?_
    refine bind_ok (decoding_eq_ok.mpr (be.zstd.lossless _ _ _ h.compressed limit)) ?_
    refine bind_ok (okOr_eq_ok.mpr (be.sidecars.lossless _ _ h.serialized)) ?_
    have resolves := encodeTraceSidecars_resolves h.sidecars
    refine ensure_bind_ok (by simp [resolves.length_eq, blockHeader]) ?_
    obtain ⟨dec, done, kept⟩ := decodeSpans_eq shares resolves q
    rw [spanRows, zip_map', zip_map', zip_map', zip_map_left, map_map]
    refine bind_ok done ?_
    exact congrArg Except.ok kept

/-- The sidecars are within the limit of the decoder. -/
def WithinLimit [DecidableEq Value] (backend : Backend Value) (records : List (DurableSpan Value)) :
    Prop :=
  ∀ sidecars raw, encodeTraceSidecars (backend.sortUnstable records) = .ok sidecars →
    backend.sidecars.toVec sidecars = .ok raw → raw.length ≤ sidecarLimit

/-- A block that was encoded decodes to its spans, sorted by traces, starts and offsets, and for a
query to those of them that the query matches. -/
theorem decode_encode_trace_block [DecidableEq Value] {recs : List (DurableSpan Value)}
    {enc : List UInt8} (h : encodeTraceBlock be recs = .ok enc) (limit : WithinLimit be recs) :
    ∃ sorted, sorted.Perm recs ∧ (sorted.Pairwise fun left right => left.sortKey ≤ right.sortKey) ∧
      decodeTraceBlock be enc = .ok sorted ∧
      ∀ q, decodeTraceBlockMatching be enc q =
        .ok (sorted.filter (traceQueryMatches be.valueMatches q)) := by
  cases recs with
  | nil => cases h
  | cons first rest =>
    obtain ⟨agree, secs, of, rfl⟩ := encodeTraceBlock_eq_ok h
    have perm := be.sortUnstable_perm (first :: rest)
    have decode := of.decode (fun span mem => all_eq_true.mp agree span (perm.subset mem))
      (by rw [perm.length_eq]; exact Nat.succ_ne_zero _) (limit _ _ of.sidecars of.serialized)
    refine ⟨be.sortUnstable (first :: rest), perm, be.sortUnstable_pairwise _, ?_, fun q => ?_⟩
    · refine (decode none rfl).trans (congrArg Except.ok ?_)
      exact filter_eq_self.mpr fun _ _ => rfl
    · exact decode (some q) rfl

end Block

/-! ## A sample block -/

/-- A span of one trace. -/
def sampleSpan (offset start : UInt64) (spanId : SpanId) (parent : Option SpanId) (name : String) :
    DurableSpan String :=
  ⟨1, ⟨.traces, 7, 2, offset⟩, "tenant", ⟨[], 0, "", []⟩, ⟨"", "", [], 0, ""⟩, ⟨9, by decide⟩,
    spanId, parent, "", 0, name, 1, start, 5, [⟨"route", 0, some "/"⟩], 0, [], 0, [], 0, none⟩

/-- A child that starts after its parent and comes before it. -/
def sampleSpans : List (DurableSpan String) :=
  [sampleSpan 0 20 ⟨2, by decide⟩ (some ⟨1, by decide⟩) "child",
    sampleSpan 1 10 ⟨1, by decide⟩ none "root"]

def sampleSidecars : TraceBlockSidecars String where
  tenants := ["tenant"]
  resources := [⟨[], 0, "", []⟩]
  scopes := [⟨"", "", [], 0, ""⟩]
  traceStates := [""]
  names := ["root", "child"]
  attributeSets := [[⟨"route", 0, some "/"⟩]]
  eventSets := [[]]
  linkSets := [[]]
  statuses := [none]
  spans := [⟨0, 0, 0, 0, 0, 0, 1, 0, 0, 0, 0, 0, 0, 0⟩, ⟨0, 0, 0, 0, 0, 1, 1, 0, 0, 0, 0, 0, 0, 0⟩]

def sampleBackend : Backend String where
  digest := Metric.sampleBackend.digest
  length_digest := Metric.sampleBackend.length_digest
  pco := Metric.samplePco
  zstd := Metric.sampleBackend.zstd
  sidecars := ⟨fun sidecars => if sidecars = sampleSidecars then .ok [1] else .error "unsupported",
    fun _ => some sampleSidecars, by
      intro sidecars bytes h
      split at h
      · next eq => rw [eq]
      · cases h⟩
  sortUnstable spans := spans.insertionSort fun left right => left.sortKey ≤ right.sortKey
  sortUnstable_perm spans := perm_insertionSort _ spans
  sortUnstable_pairwise := (SortBy.insertion sortKey).sorted
  valueMatches value text := value = text

theorem withinLimit_sample : WithinLimit sampleBackend sampleSpans := by
  intro sides raw _ packed
  change (if sides = sampleSidecars then Except.ok [1] else .error "unsupported") = _ at packed
  split at packed
  · cases packed
    decide
  · cases packed

theorem decode_encode_trace_block_sample :
    ∃ enc sorted, encodeTraceBlock sampleBackend sampleSpans = .ok enc ∧
      sorted.Perm sampleSpans ∧ (sorted.Pairwise fun left right => left.sortKey ≤ right.sortKey) ∧
      decodeTraceBlock sampleBackend enc = .ok sorted ∧
          ∀ q, decodeTraceBlockMatching sampleBackend enc q =
          .ok (sorted.filter (traceQueryMatches sampleBackend.valueMatches q)) := by
  have ok : (encodeTraceBlock sampleBackend sampleSpans).isOk = true := by decide +kernel
  obtain ⟨enc, h⟩ := exists_of_isOk ok
  obtain ⟨sorted, dec⟩ := decode_encode_trace_block h withinLimit_sample
  exact ⟨enc, sorted, h, dec⟩

end ShardTelemetry.Trace
