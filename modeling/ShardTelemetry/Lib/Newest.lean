import Mathlib.Data.List.Sort

/-!
# The newest item of each key

A map from keys to items keeps, for each key, the item of the highest rank that it was given
(`Newest.retain`).  Where key and rank determine an item, the map depends on which items it was
given and not on their order (`Newest.mem_winners`), and items with late keys leave its beginning
alone (`Newest.take_foldl_retain`).
-/

/-! ## Sorting by a key -/

/-- A sort by a key that leaves the order of equal keys open. -/
structure SortBy {α κ : Type} [LE κ] (key : α → κ) where
  sort : List α → List α
  perm : ∀ items, (sort items).Perm items
  sorted : ∀ items, (sort items).Pairwise fun left right => key left ≤ key right

/-- Insertion sort. -/
def SortBy.insertion {α κ : Type} [LinearOrder κ] (key : α → κ) : SortBy key where
  sort items := items.insertionSort fun left right => key left ≤ key right
  perm items := List.perm_insertionSort _ items
  sorted items := by
    have total : Std.Total fun left right : α => key left ≤ key right := ⟨fun _ _ => le_total _ _⟩
    have trans : IsTrans α fun left right => key left ≤ key right := ⟨fun _ _ _ => le_trans⟩
    exact List.pairwise_insertionSort _ items

namespace Newest

open List

variable {α κ : Type} [LinearOrder κ] (key : α → κ) (rank : α → Nat)

/-- A map in the order of its keys takes an item unless it has one of that key and at least that
rank. -/
def retain : List α → α → List α
  | [], item => [item]
  | winner :: rest, item =>
    if key item < key winner then item :: winner :: rest
    else if key winner < key item then winner :: retain rest item
    else if rank winner < rank item then item :: rest
    else winner :: rest

def winners (items : List α) : List α := items.foldl (retain key rank) []

/-- An item is the newest one of its key. -/
structure IsNewest (items : List α) (item : α) : Prop where
  mem : item ∈ items
  newest : ∀ other ∈ items, key other = key item → rank other ≤ rank item

/-- Key and rank determine an item. -/
def Determined (items : List α) : Prop :=
  ∀ left ∈ items, ∀ right ∈ items, key left = key right → rank left = rank right → left = right

variable {key rank} {items more kept : List α} {item other : α}

section

omit [LinearOrder κ]

theorem Determined.subset (h : Determined key rank items) (subset : more ⊆ items) :
    Determined key rank more :=
  fun left hl right hr => h left (subset hl) right (subset hr)

/-- Every key that occurs has a newest item. -/
theorem exists_newest (key : α → κ) (rank : α → Nat) (mem : item ∈ items) :
    ∃ newest, IsNewest key rank items newest ∧ key newest = key item ∧ rank item ≤ rank newest := by
  induction items generalizing item with
  | nil => cases mem
  | cons first rest ih =>
    by_cases later : ∃ other ∈ rest, key other = key item
    · obtain ⟨other, inside, same⟩ := later
      obtain ⟨newest, found, key', _⟩ := ih inside
      by_cases older : key first = key item ∧ rank newest < rank first
      · -- the first item is above the newest of the others
        have below : ∀ x ∈ first :: rest, key x = key first → rank x ≤ rank first :=
          forall_mem_cons.mpr ⟨fun _ => le_rfl, fun x hx eq =>
            (found.newest x hx (eq.trans (older.1.trans (key'.trans same).symm))).trans older.2.le⟩
        exact ⟨first, ⟨.head _, below⟩, older.1, below item mem older.1.symm⟩
      · have below : ∀ x ∈ first :: rest, key x = key newest → rank x ≤ rank newest :=
          forall_mem_cons.mpr
            ⟨fun eq => not_lt.mp fun lt => older ⟨eq.trans (key'.trans same), lt⟩, found.newest⟩
        exact ⟨newest, ⟨.tail _ found.mem, below⟩, key'.trans same,
          below item mem (key'.trans same).symm⟩
    · -- there is no other item of this key
      have alone : ∀ x ∈ first :: rest, key x = key item → x = first :=
        forall_mem_cons.mpr ⟨fun _ => rfl, fun x hx eq => absurd ⟨x, hx, eq⟩ later⟩
      obtain rfl := alone item mem rfl
      exact ⟨item, ⟨mem, fun x hx eq => (congrArg rank (alone x hx eq)).le⟩, rfl, le_rfl⟩

/-- Items that have the newest one of each key they have. -/
theorem isNewest_iff_of_between (more : List α) (subset : items ⊆ more)
    (closed : ∀ x ∈ items, ∀ newest, IsNewest key rank more newest → key newest = key x →
      newest ∈ items) :
    IsNewest key rank items item ↔ IsNewest key rank more item ∧ item ∈ items := by
  constructor
  · intro ⟨mem, newest⟩
    refine ⟨⟨subset mem, fun other inside same => ?_⟩, mem⟩
    obtain ⟨top, found, key', above⟩ := exists_newest key rank inside
    exact above.trans (newest top (closed item mem top found (key'.trans same)) (key'.trans same))
  · intro ⟨newest, mem⟩
    exact ⟨mem, fun other inside => newest.newest other (subset inside)⟩

/-- Another key that tells the same items apart. -/
theorem isNewest_congr_key {ι : Type} {key' : α → ι}
    (h : ∀ left ∈ items, ∀ right ∈ items, key left = key right ↔ key' left = key' right) :
    IsNewest key rank items item ↔ IsNewest key' rank items item := by
  constructor
  · intro ⟨mem, newest⟩
    exact ⟨mem, fun other inside same => newest other inside ((h other inside item mem).mpr same)⟩
  · intro ⟨mem, newest⟩
    exact ⟨mem, fun other inside same => newest other inside ((h other inside item mem).mp same)⟩

end

/-- Where keys increase, they determine the items. -/
theorem eq_of_increasing (h : items.Pairwise (key · < key ·)) (hl : item ∈ items)
    (hr : other ∈ items) (same : key item = key other) : item = other :=
  inj_on_of_nodup_map (pairwise_map.mpr (h.imp ne_of_lt)) hl hr same

/-- Where no two items have one key, each is the newest of its key. -/
theorem isNewest_of_increasing (rank : α → Nat) (h : items.Pairwise (key · < key ·)) :
    IsNewest key rank items item ↔ item ∈ items := by
  refine ⟨IsNewest.mem, fun mem => ⟨mem, fun other inside same => ?_⟩⟩
  rw [eq_of_increasing h inside mem same]

/-! ## One more item -/

theorem mem_of_mem_retain (h : other ∈ retain key rank kept item) :
    other ∈ kept ∨ other = item := by
  induction kept with
  | nil => exact .inr (mem_singleton.mp h)
  | cons winner rest ih =>
    unfold retain at h
    split_ifs at h with before after above
    · rcases mem_cons.mp h with rfl | h
      · exact .inr rfl
      · exact .inl h
    · rcases mem_cons.mp h with rfl | h
      · exact .inl mem_cons_self
      · exact (ih h).imp (.tail _) id
    · rcases mem_cons.mp h with rfl | h
      · exact .inr rfl
      · exact .inl (.tail _ h)
    · exact .inl h

section

variable (h : kept.Pairwise (key · < key ·))
include h

theorem retain_increasing : (retain key rank kept item).Pairwise (key · < key ·) := by
  induction kept with
  | nil => exact pairwise_singleton _ _
  | cons winner rest ih =>
    obtain ⟨first, later⟩ := pairwise_cons.mp h
    unfold retain
    split_ifs with before after above
    · exact pairwise_cons.mpr
        ⟨forall_mem_cons.mpr ⟨before, fun x hx => before.trans (first x hx)⟩, h⟩
    · refine pairwise_cons.mpr ⟨fun x hx => ?_, ih later⟩
      rcases mem_of_mem_retain hx with hx | rfl
      · exact first x hx
      · exact after
    · have same : key item = key winner := le_antisymm (not_lt.mp after) (not_lt.mp before)
      exact pairwise_cons.mpr ⟨fun x hx => same ▸ first x hx, later⟩
    · exact h

theorem foldl_retain_increasing :
    (items.foldl (retain key rank) kept).Pairwise (key · < key ·) := by
  induction items generalizing kept with
  | nil => exact h
  | cons item rest ih => exact ih (retain_increasing h)

/-- What is in the map after one more item. -/
theorem mem_retain : other ∈ retain key rank kept item ↔
    other = item ∧ (∀ winner ∈ kept, key winner = key item → rank winner < rank item) ∨
      other ∈ kept ∧ (key other = key item → rank item ≤ rank other) := by
  induction kept with
  | nil => simp [retain]
  | cons winner rest ih =>
    obtain ⟨first, later⟩ := pairwise_cons.mp h
    unfold retain
    split_ifs with before after above
    · have fresh : ∀ x ∈ winner :: rest, key x ≠ key item :=
        forall_mem_cons.mpr ⟨before.ne', fun x hx => (before.trans (first x hx)).ne'⟩
      rw [mem_cons]
      constructor
      · rintro (rfl | mem)
        · exact .inl ⟨rfl, fun x hx eq => absurd eq (fresh x hx)⟩
        · exact .inr ⟨mem, fun eq => absurd eq (fresh other mem)⟩
      · rintro (⟨rfl, -⟩ | ⟨mem, -⟩)
        · exact .inl rfl
        · exact .inr mem
    · rw [mem_cons, ih later]
      constructor
      · rintro (rfl | ⟨rfl, below⟩ | ⟨mem, keeps⟩)
        · exact .inr ⟨.head _, fun eq => absurd eq after.ne⟩
        · exact .inl ⟨rfl, forall_mem_cons.mpr ⟨fun eq => absurd eq after.ne, below⟩⟩
        · exact .inr ⟨.tail _ mem, keeps⟩
      · rintro (⟨rfl, below⟩ | ⟨mem, keeps⟩)
        · exact .inr (.inl ⟨rfl, (forall_mem_cons.mp below).2⟩)
        · rcases mem_cons.mp mem with rfl | mem
          · exact .inl rfl
          · exact .inr (.inr ⟨mem, keeps⟩)
    · have same : key item = key winner := le_antisymm (not_lt.mp after) (not_lt.mp before)
      have apart : ∀ x ∈ rest, key x ≠ key item := fun x hx => same ▸ (first x hx).ne'
      rw [mem_cons]
      constructor
      · rintro (rfl | mem)
        · exact .inl
            ⟨rfl, forall_mem_cons.mpr ⟨fun _ => above, fun x hx eq => absurd eq (apart x hx)⟩⟩
        · exact .inr ⟨.tail _ mem, fun eq => absurd eq (apart other mem)⟩
      · rintro (⟨rfl, -⟩ | ⟨mem, keeps⟩)
        · exact .inl rfl
        · rcases mem_cons.mp mem with rfl | mem
          · exact absurd (keeps same.symm) (not_le.mpr above)
          · exact .inr mem
    · have same : key item = key winner := le_antisymm (not_lt.mp after) (not_lt.mp before)
      have apart : ∀ x ∈ rest, key x ≠ key item := fun x hx => same ▸ (first x hx).ne'
      constructor
      · intro mem
        refine .inr ⟨mem, fun eq => ?_⟩
        rcases mem_cons.mp mem with rfl | mem
        · exact not_lt.mp above
        · exact absurd eq (apart other mem)
      · rintro (⟨rfl, below⟩ | ⟨mem, -⟩)
        · exact absurd (below winner mem_cons_self same.symm) above
        · exact mem

end

/-! ## All items -/

/-- The map has the newest item of each key, in the order of the keys. -/
structure Resolved (key : α → κ) (rank : α → Nat) (items kept : List α) : Prop where
  increasing : kept.Pairwise (key · < key ·)
  mem_iff : ∀ item, item ∈ kept ↔ IsNewest key rank items item

theorem Resolved.nil : Resolved key rank ([] : List α) [] :=
  ⟨.nil, fun _ => ⟨nofun, fun h => absurd h.mem not_mem_nil⟩⟩

theorem Resolved.retain (h : Resolved key rank items kept)
    (determined : Determined key rank (items ++ [item])) :
    Resolved key rank (items ++ [item]) (retain key rank kept item) := by
  refine ⟨retain_increasing h.increasing, fun other => ?_⟩
  rw [mem_retain h.increasing]
  constructor
  · rintro (⟨rfl, below⟩ | ⟨mem, keeps⟩)
    · refine ⟨by simp, fun x hx eq => ?_⟩
      rcases mem_append.mp hx with hx | hx
      · obtain ⟨newest, found, same, above⟩ := exists_newest key rank hx
        exact above.trans (below newest ((h.mem_iff _).mpr found) (same.trans eq)).le
      · rw [mem_singleton.mp hx]
    · obtain ⟨mem, newest⟩ := (h.mem_iff _).mp mem
      refine ⟨mem_append_left _ mem, fun x hx eq => ?_⟩
      rcases mem_append.mp hx with hx | hx
      · exact newest x hx eq
      · obtain rfl := mem_singleton.mp hx
        exact keeps eq.symm
  · rintro ⟨mem, newest⟩
    by_cases known : other ∈ items
    · refine .inr ⟨(h.mem_iff _).mpr ⟨known, fun x hx => newest x (mem_append_left _ hx)⟩,
        fun eq => ?_⟩
      exact newest item (by simp) eq.symm
    · -- an item that is not known is the new one
      obtain rfl : other = item := by
        rcases mem_append.mp mem with mem | mem
        · exact absurd mem known
        · exact mem_singleton.mp mem
      refine .inl ⟨rfl, fun winner hw eq => lt_of_le_of_ne ?_ fun tie => known ?_⟩
      · exact newest winner (mem_append_left _ ((h.mem_iff _).mp hw).mem) eq
      · have inside := ((h.mem_iff _).mp hw).mem
        exact determined winner (mem_append_left _ inside) other (by simp) eq tie ▸ inside

theorem Resolved.foldl (h : Resolved key rank items kept)
    (determined : Determined key rank (items ++ more)) :
    Resolved key rank (items ++ more) (more.foldl (Newest.retain key rank) kept) := by
  induction more generalizing items kept with
  | nil => rwa [append_nil]
  | cons item rest ih =>
    rw [append_cons] at determined ⊢
    exact ih (h.retain (determined.subset (subset_append_left _ _))) determined

theorem resolved_winners (determined : Determined key rank items) :
    Resolved key rank items (winners key rank items) :=
  Resolved.nil.foldl determined

theorem retain_map {β : Type} (f : β → α) (kept : List β) (item : β) :
    retain key rank (kept.map f) (f item) = (retain (key ∘ f) (rank ∘ f) kept item).map f := by
  induction kept with
  | nil => rfl
  | cons winner rest ih =>
    simp only [map_cons, retain, Function.comp_apply]
    split_ifs
    · rfl
    · rw [ih]
      rfl
    · rfl
    · rfl

theorem winners_map {β : Type} (f : β → α) (items : List β) :
    winners key rank (items.map f) = (winners (key ∘ f) (rank ∘ f) items).map f := by
  have fold : ∀ kept : List β, (items.map f).foldl (retain key rank) (kept.map f) =
      (items.foldl (retain (key ∘ f) (rank ∘ f)) kept).map f := by
    induction items with
    | nil => exact fun kept => rfl
    | cons item rest ih =>
      intro kept
      rw [map_cons, foldl_cons, foldl_cons, retain_map, ih]
  exact fold []

/-- Items whose keys are after the first so many of the map leave those alone. -/
theorem take_retain (rank : α → Nat) {count : Nat} (h : kept.Pairwise (key · < key ·))
    (long : count ≤ kept.length) (late : ∀ winner ∈ kept.take count, key winner < key item) :
    (retain key rank kept item).take count = kept.take count ∧
      count ≤ (retain key rank kept item).length := by
  induction kept generalizing count with
  | nil =>
    obtain rfl : count = 0 := Nat.le_zero.mp long
    exact ⟨rfl, Nat.zero_le _⟩
  | cons winner rest ih =>
    cases count with
    | zero => exact ⟨rfl, Nat.zero_le _⟩
    | succ count =>
      have after := late winner (by simp)
      obtain ⟨same, length⟩ := ih (pairwise_cons.mp h).2 (Nat.le_of_succ_le_succ long)
        fun x hx => late x (by simp [hx])
      rw [retain, if_neg after.not_gt, if_pos after]
      exact ⟨congrArg (winner :: ·) same, Nat.succ_le_succ length⟩

theorem take_foldl_retain {count : Nat} (h : kept.Pairwise (key · < key ·))
    (long : count ≤ kept.length)
    (late : ∀ winner ∈ kept.take count, ∀ item ∈ more, key winner < key item) :
    (more.foldl (retain key rank) kept).take count = kept.take count := by
  induction more generalizing kept with
  | nil => rfl
  | cons item rest ih =>
    obtain ⟨same, length⟩ := take_retain rank h long fun winner hw =>
      late winner hw item mem_cons_self
    rw [foldl_cons, ih (retain_increasing h) length, same]
    rw [same]
    exact fun winner hw other hx => late winner hw other (.tail _ hx)

end Newest
