import ShardTelemetry.Correlation.Index

/-!
# Postings in common

The postings of a key are in the order of their addresses, whatever the bounds of the index drop.
So the cursors of `query_into` find exactly the addresses that the lists of all keys they are set on
have (`queryPostings_spec`): those of every key that is asked for but the third.
-/

namespace ShardTelemetry.Correlation

open List hiding after lookup

/-- The addresses of the postings are increasing. -/
def Increasing (refs : List CorrelationPosting) : Prop :=
  refs.Pairwise fun left right => left.recordRef < right.recordRef

/-- Whether a record has a posting. -/
def has (refs : List CorrelationPosting) (record : TelemetryRecordRef) : Bool :=
  refs.any (·.recordRef = record)

variable {q : CorrelationQuery} {refs first incoming shortest : List CorrelationPosting}
  {cursors others : List (List CorrelationPosting)} {post : CorrelationPosting}
  {record ref : TelemetryRecordRef}

theorem has_iff : has refs ref = true ↔ ∃ post ∈ refs, post.recordRef = ref := by
  simp [has]

/-- On a list in which what meets the condition comes first, `dropWhile` is a filter. -/
theorem dropWhile_eq_filter {α : Type} {p : α → Bool} {l : List α}
    (h : l.Pairwise fun a b => p b = true → p a = true) : l.dropWhile p = l.filter (!p ·) := by
  induction l with
  | nil => rfl
  | cons a l ih =>
    obtain ⟨first, rest⟩ := pairwise_cons.mp h
    rw [dropWhile_cons]
    split
    · next met => rw [ih rest, filter_cons_of_neg (by simp [met])]
    · next unmet =>
      symm
      refine filter_eq_self.mpr (forall_mem_cons.mpr ⟨by simp [unmet], fun b mem => ?_⟩)
      simpa using mt (first b mem) unmet

/-! ## Placing a posting -/

/-- A posting added to a list without bounds. -/
def placed (posting : CorrelationPosting) (refs : List CorrelationPosting) :
    List CorrelationPosting :=
  if refs.getLast?.any (·.recordRef = posting.recordRef) then refs
    else (place posting refs).getD refs

theorem mem_placed {other : CorrelationPosting} (h : other ∈ placed post refs) :
    other = post ∨ other ∈ refs := by
  unfold placed at h
  split at h
  · exact .inr h
  · unfold place at h
    split at h
    · exact (mem_append.mp h).symm.imp mem_singleton.mp id
    · split at h
      · exact .inr h
      · obtain old | new := mem_append.mp h
        · exact .inr ((takeWhile_sublist _).subset old)
        · exact (mem_cons.mp new).imp id fun old => (dropWhile_sublist _).subset old

theorem Increasing.placed (h : Increasing refs) : Increasing (placed post refs) := by
  unfold Correlation.placed
  split
  · exact h
  · unfold place
    split
    · next last =>
      refine pairwise_append.mpr ⟨h, pairwise_singleton _ _, fun other mem _ new => ?_⟩
      rw [mem_singleton.mp new]
      obtain rfl | ⟨init, final, rfl⟩ := eq_nil_or_concat' refs
      · cases mem
      · have less : final.recordRef < post.recordRef := by simpa using last
        obtain old | old := mem_append.mp mem
        · exact ((pairwise_append.mp h).2.2 other old final (mem_singleton.mpr rfl)).trans less
        · exact mem_singleton.mp old ▸ less
    · split
      · exact h
      · next fresh =>
        have smaller : ∀ other ∈ refs.takeWhile (·.recordRef < post.recordRef),
            other.recordRef < post.recordRef := fun other mem =>
          of_decide_eq_true (all_eq_true.mp all_takeWhile other mem)
        have greater : ∀ other ∈ refs.dropWhile (·.recordRef < post.recordRef),
            post.recordRef < other.recordRef := by
          intro other mem
          rw [dropWhile_eq_filter (h.imp fun less => by simpa using less.trans)] at mem
          obtain ⟨held, le⟩ := mem_filter.mp mem
          refine lt_of_le_of_ne (by simpa using le) fun same => fresh ?_
          exact any_eq_true.mpr ⟨other, held, decide_eq_true same.symm⟩
        refine pairwise_append.mpr ⟨h.sublist (takeWhile_sublist _), pairwise_cons.mpr ⟨greater,
          h.sublist (dropWhile_sublist _)⟩, fun other mem => forall_mem_cons.mpr ⟨smaller other mem,
            fun later behind => (smaller other mem).trans (greater later behind)⟩⟩

/-! ## Cursors -/

/-- From a record on, a cursor that is advanced to it finds what it found before. -/
theorem has_dropWhile (h : record ≤ ref) :
    has (refs.dropWhile (·.recordRef < record)) ref = has refs ref := by
  induction refs with
  | nil => rfl
  | cons post refs ih =>
    rw [dropWhile_cons]
    split
    · next less =>
      have ne : post.recordRef ≠ ref := ((of_decide_eq_true less).trans_le h).ne
      simpa [has, ne] using ih
    · rfl

/-- The cursors find from a record on what the other ones find. -/
def Advanced (record : TelemetryRecordRef) (cursors next : List (List CorrelationPosting)) : Prop :=
  (∀ refs ∈ next, Increasing refs) ∧
    ∀ ref, record ≤ ref → next.all (has · ref) = cursors.all (has · ref)

theorem Advanced.cons (increasing : Increasing refs) (h : Advanced record cursors ahead) :
    Advanced record (refs :: cursors) (refs.dropWhile (·.recordRef < record) :: ahead) := by
  refine ⟨forall_mem_cons.mpr ⟨increasing.sublist (dropWhile_sublist _), h.1⟩, fun ref le => ?_⟩
  rw [all_cons, all_cons, has_dropWhile le, h.2 ref le]

/-- What a probe says of the record, and of those behind it. -/
def Probe.Right (record : TelemetryRecordRef) (cursors : List (List CorrelationPosting)) :
    Probe → Prop
  | .exhausted => ∀ ref, record ≤ ref → cursors.all (has · ref) = false
  | .absent next => cursors.all (has · record) = false ∧ Advanced record cursors next
  | .present next => cursors.all (has · record) = true ∧ Advanced record cursors next

theorem probe_right (record) (sorted : ∀ refs ∈ cursors, Increasing refs) :
    (probe record cursors).Right record cursors := by
  induction cursors with
  | nil => exact ⟨rfl, sorted, fun _ _ => rfl⟩
  | cons refs rest ih =>
    obtain ⟨increasing, sorted⟩ := forall_mem_cons.mp sorted
    have ih := ih sorted
    have kept :
        ∀ ref, record ≤ ref → has (refs.dropWhile (·.recordRef < record)) ref = has refs ref :=
      fun ref => has_dropWhile
    have increasing' : Increasing (refs.dropWhile (·.recordRef < record)) :=
      increasing.sublist (dropWhile_sublist _)
    have reached : ∀ current ∈ (refs.dropWhile (·.recordRef < record)).head?,
        record ≤ current.recordRef := by
      intro current head
      have :=
        head?_dropWhile_not (fun post : CorrelationPosting => decide (post.recordRef < record)) refs
      rw [Option.mem_def.mp head] at this
      simpa using this
    have advanced : ∀ next, Advanced record rest next →
        Advanced record (refs :: rest) (refs.dropWhile (·.recordRef < record) :: next) :=
      fun _ => .cons increasing
    unfold probe
    dsimp only
    generalize refs.dropWhile (·.recordRef < record) = ahead at kept increasing' reached advanced ⊢
    cases ahead with
    | nil =>
      intro ref le
      rw [all_cons, ← kept ref le]
      rfl
    | cons current ahead =>
      have reached := reached current rfl
      have here : has refs record = decide (current.recordRef = record) := by
        rw [← kept record le_rfl, has, any_cons, any_eq_false.mpr, Bool.or_false]
        intro other mem
        simpa using (reached.trans_lt ((pairwise_cons.mp increasing').1 other mem)).ne'
      by_cases same : current.recordRef = record
      · rw [decide_eq_true same] at here
        simp only [head?_cons, ne_eq, same, not_true_eq_false, if_false]
        cases found : probe record rest with
        | exhausted =>
          rw [found] at ih
          intro ref le
          rw [all_cons, ih ref le, Bool.and_false]
        | absent next =>
          rw [found] at ih
          exact ⟨by rw [all_cons, ih.1, Bool.and_false], advanced next ih.2⟩
        | present next =>
          rw [found] at ih
          exact ⟨by rw [all_cons, ih.1, here]; rfl, advanced next ih.2⟩
      · rw [decide_eq_false same] at here
        simp only [head?_cons, ne_eq, same, not_false_eq_true, if_true]
        exact ⟨by rw [all_cons, here]; rfl, advanced rest ⟨sorted, fun _ _ => rfl⟩⟩

/-- The merge finds the postings whose records all cursors have. -/
theorem mergeMany_eq (increasing : Increasing first) (sorted : ∀ refs ∈ cursors, Increasing refs) :
    mergeMany q first cursors = (first.filter fun post =>
      correlationPostingMatches q post &&
          cursors.all (has · post.recordRef)).map (·.recordRef) := by
  induction first generalizing cursors with
  | nil => rfl
  | cons post first ih =>
    obtain ⟨later, increasing⟩ := pairwise_cons.mp increasing
    -- the postings that follow are behind this one
    have same : ∀ next, Advanced post.recordRef cursors next →
        mergeMany q first next = (first.filter fun post =>
          correlationPostingMatches q post &&
              cursors.all (has · post.recordRef)).map (·.recordRef) := by
      intro next advanced
      rw [ih increasing advanced.1]
      refine congrArg _ (filter_congr fun other mem => ?_)
      rw [advanced.2 _ (later other mem).le]
    unfold mergeMany
    split
    · next met =>
      have right := probe_right post.recordRef sorted
      cases found : probe post.recordRef cursors with
      | exhausted =>
        rw [found] at right
        symm
        rw [map_eq_nil_iff, filter_eq_nil_iff]
        intro other mem
        have le : post.recordRef ≤ other.recordRef := by
          rcases mem_cons.mp mem with rfl | mem
          · exact le_rfl
          · exact (later other mem).le
        simp [right _ le]
      | absent next =>
        rw [found] at right
        rw [filter_cons_of_neg (by simp [right.1])]
        exact same next right.2
      | present next =>
        rw [found] at right
        rw [filter_cons_of_pos (by simp [met, right.1]), map_cons]
        exact congrArg _ (same next right.2)
    · next unmet =>
      rw [filter_cons_of_neg (by simp [unmet])]
      exact same cursors ⟨sorted, fun _ _ => rfl⟩

/-- With one cursor the merge of two lists does the same. -/
theorem mergeTwo_eq : mergeTwo q first incoming = mergeMany q first [incoming] := by
  have exhausted : ∀ first, mergeTwo q first [] = [] := by
    intro first
    induction first with
    | nil => rfl
    | cons post first ih => unfold mergeTwo; split <;> exact ih
  induction first generalizing incoming with
  | nil => rfl
  | cons post first ih =>
    unfold mergeTwo mergeMany probe
    dsimp only
    split
    · cases incoming.dropWhile (·.recordRef < post.recordRef) with
      | nil => exact exhausted first
      | cons current ahead =>
        by_cases same : current.recordRef = post.recordRef
        · simp [same, probe, ih]
        · simp [same, ih]
    · exact ih

/-- A search starts behind the given address. -/
theorem laterThan_eq (h : Increasing refs) (after : Option TelemetryRecordRef) :
    laterThan after refs = refs.filter fun post => after.all (· < post.recordRef) := by
  cases after with
  | none => simp [laterThan]
  | some after =>
    rw [laterThan, dropWhile_eq_filter (h.imp fun less => by simpa using less.le.trans)]
    simp [← decide_not]

theorem Increasing.laterThan (h : Increasing refs) (after) : Increasing (laterThan after refs) := by
  rw [laterThan_eq h]
  exact h.filter _

theorem has_laterThan (h : Increasing refs) (after) : has (laterThan after refs) ref = true ↔
    (∃ post ∈ refs, post.recordRef = ref) ∧ after.all (· < ref) = true := by
  rw [laterThan_eq h, has_iff]
  constructor
  · rintro ⟨post, member, rfl⟩
    exact ⟨⟨post, (mem_filter.mp member).1, rfl⟩, (mem_filter.mp member).2⟩
  · rintro ⟨⟨post, member, rfl⟩, behind⟩
    exact ⟨post, mem_filter.mpr ⟨member, behind⟩, rfl⟩

theorem querySinglePosting_eq (h : Increasing refs) : querySinglePosting q refs =
    (mergeMany q (laterThan q.after refs) []).take q.limit := by
  rw [mergeMany_eq (h.laterThan _) fun _ none => absurd none not_mem_nil, ← map_take]
  unfold querySinglePosting
  dsimp only
  split
  · next unconstrained =>
    simp only [Bool.and_eq_true, Option.isNone_iff_eq_none] at unconstrained
    simp [correlationPostingMatches, unconstrained]
  · simp

/-! ## Queries -/

/-- The keys whose postings a query asks for: all but the third. -/
def usedKeys (query : CorrelationQuery) : List CorrelationKey :=
  match queryKeys query with
  | first :: second :: _ :: rest => first :: second :: rest
  | keys => keys

/-- The postings of a tenant, by key. -/
abbrev Lists := CorrelationKey → List CorrelationPosting

/-- The lists are in order, and a record has the same posting in all of them. -/
structure Lists.Ok (lists : Lists) : Prop where
  increasing : ∀ key, Increasing (lists key)
  unique : ∀ key key', ∀ post ∈ lists key, ∀ post' ∈ lists key', post.recordRef = post'.recordRef →
    post = post'

/-- The record has a posting under every key that the query asks for, of the signal and the time. -/
def Linked (query : CorrelationQuery) (lists : Lists) (ref : TelemetryRecordRef) : Prop :=
  usedKeys query ≠ [] ∧ ∀ key ∈ usedKeys query, ∃ posting ∈ lists key,
    posting.recordRef = ref ∧ correlationPostingMatches query posting = true

instance (lists : Lists) : Decidable (Linked q lists ref) := inferInstanceAs (Decidable (_ ∧ _))

section

variable {lists : Lists} (ok : lists.Ok)
include ok

/-- The search over the lists of some keys, whichever of them it starts with. -/
theorem mergeMany_spec {keys : List CorrelationKey}
    (perm : (shortest :: others).Perm (keys.map lists)) :
    (mergeMany q (laterThan q.after shortest) (others.map (laterThan q.after))).Pairwise (· < ·) ∧
      ∀ ref, ref ∈ mergeMany q (laterThan q.after shortest) (others.map (laterThan q.after)) ↔
        (∀ key ∈ keys, ∃ posting ∈ lists key,
          posting.recordRef = ref ∧ correlationPostingMatches q posting = true) ∧
        q.after.all (· < ref) = true := by
  have held : ∀ refs ∈ shortest :: others, ∃ key ∈ keys, lists key = refs := fun refs mem =>
    mem_map.mp (perm.subset mem)
  have increasing : ∀ refs ∈ shortest :: others, Increasing refs := by
    intro refs mem
    obtain ⟨key, -, rfl⟩ := held refs mem
    exact ok.increasing key
  obtain ⟨head, tail⟩ := forall_mem_cons.mp increasing
  rw [mergeMany_eq (head.laterThan _)
    (forall_mem_map.mpr fun refs mem => (tail refs mem).laterThan _)]
  refine ⟨pairwise_map.mpr ((head.laterThan _).filter _), fun ref => ?_⟩
  obtain ⟨start, -, eq⟩ := held shortest mem_cons_self
  constructor
  · intro found
    obtain ⟨post, member, rfl⟩ := mem_map.mp found
    obtain ⟨member, met⟩ := mem_filter.mp member
    obtain ⟨met, all⟩ := Bool.and_eq_true_iff.mp met
    rw [laterThan_eq head] at member
    obtain ⟨member, behind⟩ := mem_filter.mp member
    refine ⟨fun key asked => ?_, behind⟩
    -- a record has one posting, so whichever list it was found in says the same of it
    have some : ∃ other ∈ lists key, other.recordRef = post.recordRef := by
      rcases mem_cons.mp (perm.symm.subset (mem_map_of_mem asked)) with same | mem
      · exact ⟨post, same ▸ member, rfl⟩
      · have here := all_eq_true.mp all _ (mem_map_of_mem mem)
        exact ((has_laterThan (tail _ mem) _).mp here).1
    obtain ⟨other, mem, same⟩ := some
    refine ⟨other, mem, same, ?_⟩
    rw [ok.unique key start other mem post (eq ▸ member) same]
    exact met
  · rintro ⟨all, behind⟩
    obtain ⟨key, asked, rfl⟩ := held shortest mem_cons_self
    obtain ⟨post, member, rfl, met⟩ := all key asked
    refine mem_map.mpr ⟨post, mem_filter.mpr ⟨?_, Bool.and_eq_true_iff.mpr ⟨met, ?_⟩⟩, rfl⟩
    · rw [laterThan_eq head]
      exact mem_filter.mpr ⟨member, behind⟩
    · rw [all_map, all_eq_true]
      intro refs mem
      obtain ⟨key, asked, rfl⟩ := held refs (mem_cons_of_mem _ mem)
      obtain ⟨other, member, same, -⟩ := all key asked
      exact (has_laterThan (ok.increasing key) _).mpr ⟨⟨other, member, same⟩, behind⟩

/-- What a query answers is the beginning of the linked records behind the given address, in
order. -/
theorem queryPostings_spec (q : CorrelationQuery) :
    ∃ found : List TelemetryRecordRef, queryPostings q lists = found.take q.limit ∧
      found.Pairwise (· < ·) ∧ ∀ ref, ref ∈ found ↔
        Linked q lists ref ∧ q.after.all (· < ref) = true := by
  have merged : ∀ {keys shortest others}, usedKeys q = keys →
      (shortest :: others).Perm (keys.map lists) → queryPostings q lists =
        (mergeMany q (laterThan q.after shortest) (others.map (laterThan q.after))).take q.limit →
      ∃ found : List TelemetryRecordRef, queryPostings q lists = found.take q.limit ∧
        found.Pairwise (· < ·) ∧
        ∀ ref, ref ∈ found ↔ Linked q lists ref ∧ q.after.all (· < ref) = true := by
    intro keys shortest others used perm eq
    obtain ⟨sorted, mem⟩ := mergeMany_spec ok perm
    have some : keys ≠ [] := by
      rintro rfl
      cases perm.length_eq
    refine ⟨_, eq, sorted, fun ref => ?_⟩
    rw [mem, Linked, used, and_iff_right some]
  rcases keys : queryKeys q with _ | ⟨first, _ | ⟨second, _ | ⟨third, rest⟩⟩⟩
  · have eq : queryPostings q lists = [] := by rw [queryPostings, keys]
    exact ⟨[], by rw [eq, take_nil], .nil, by simp [Linked, usedKeys, keys]⟩
  · refine merged (by rw [usedKeys, keys]) (.refl _) ?_
    rw [queryPostings, keys]
    exact querySinglePosting_eq (ok.increasing first)
  · have eq : queryPostings q lists = queryTwoPostings q (lists first) (lists second) := by
      rw [queryPostings, keys]
    unfold queryTwoPostings at eq
    by_cases shorter : (lists first).length ≤ (lists second).length
    · rw [if_pos shorter] at eq
      dsimp only at eq
      rw [mergeTwo_eq] at eq
      exact merged (by rw [usedKeys, keys]) (.refl _) eq
    · rw [if_neg shorter] at eq
      dsimp only at eq
      rw [mergeTwo_eq] at eq
      exact merged (by rw [usedKeys, keys]) (.swap ..) eq
  · have eq :
        queryPostings q lists = queryManyPostings q ((first :: second :: rest).map lists) := by
      rw [queryPostings, keys]
    have perm := perm_insertionSort (fun left right => left.length ≤ right.length)
      ((first :: second :: rest).map lists)
    unfold queryManyPostings at eq
    generalize ((first :: second :: rest).map lists).insertionSort
      (fun left right => left.length ≤ right.length) = sorted at eq perm
    cases sorted with
    | nil => cases perm.length_eq
    | cons shortest others => exact merged (by rw [usedKeys, keys]) perm eq

end

end ShardTelemetry.Correlation
