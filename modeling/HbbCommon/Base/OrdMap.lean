import Mathlib

/-!
# Finite maps in key order

`OrdMap κ β` is a finite map kept as its entry list in strictly increasing
key order, so that iteration (`entries`), the first entry (`first?`) and
lookup all read off one list. The order is a field: an unsorted map cannot be
built.

Every operation is characterised twice:

* by lookup (`get?_insert`, `get?_erase`, `get?_filter`, `get?_mapVals`), which
  is what invariants over all keys need;
* by permutation (`insert_perm`, `erase_perm`, `filter_perm`), which is what
  totals over all entries need (`total_insert`, `total_erase`, ...).
-/

namespace HbbCommon.Base

/-- A finite map, as its entries in strictly increasing key order. -/
structure OrdMap (κ : Type*) (β : Type*) [LinearOrder κ] where
  entries : List (κ × β)
  sorted : entries.Pairwise (fun a b => a.1 < b.1)

namespace OrdMap

variable {κ β γ : Type*} [LinearOrder κ]

instance [DecidableEq β] : DecidableEq (OrdMap κ β) := fun a b =>
  decidable_of_iff (a.entries = b.entries)
    ⟨fun h => by cases a; cases b; cases h; rfl, fun h => by rw [h]⟩

/-- The map with no entry. -/
def empty : OrdMap κ β := ⟨[], .nil⟩

instance : EmptyCollection (OrdMap κ β) := ⟨empty⟩

instance : Inhabited (OrdMap κ β) := ⟨empty⟩

def get? (m : OrdMap κ β) (k : κ) : Option β :=
  (m.entries.find? (fun e => decide (e.1 = k))).map Prod.snd

def contains (m : OrdMap κ β) (k : κ) : Bool := (m.get? k).isSome

def size (m : OrdMap κ β) : Nat := m.entries.length

/-- The entry with the smallest key. -/
def first? (m : OrdMap κ β) : Option (κ × β) := m.entries.head?

theorem filter_sorted (m : OrdMap κ β) (p : κ × β → Bool) :
    (m.entries.filter p).Pairwise (fun a b => a.1 < b.1) :=
  m.sorted.sublist List.filter_sublist

/-- Keep the entries that satisfy `p`. -/
def filter (m : OrdMap κ β) (p : κ → β → Bool) : OrdMap κ β :=
  ⟨m.entries.filter (fun e => p e.1 e.2), m.filter_sorted _⟩

def erase (m : OrdMap κ β) (k : κ) : OrdMap κ β :=
  m.filter (fun j _ => decide (j ≠ k))

theorem insert_sorted (m : OrdMap κ β) (k : κ) (v : β) :
    (m.entries.filter (fun e => decide (e.1 < k)) ++
      (k, v) :: m.entries.filter (fun e => decide (k < e.1))).Pairwise
      (fun a b => a.1 < b.1) := by
  rw [List.pairwise_append, List.pairwise_cons]
  refine ⟨m.filter_sorted _, ⟨?_, m.filter_sorted _⟩, ?_⟩
  · intro e he
    exact of_decide_eq_true (List.mem_filter.mp he).2
  · intro a ha b hb
    have hak : a.1 < k := of_decide_eq_true (List.mem_filter.mp ha).2
    rcases List.mem_cons.mp hb with rfl | hb
    · exact hak
    · exact hak.trans (of_decide_eq_true (List.mem_filter.mp hb).2)

/-- Bind `k` to `v`, replacing an older binding of `k`. -/
def insert (m : OrdMap κ β) (k : κ) (v : β) : OrdMap κ β :=
  ⟨m.entries.filter (fun e => decide (e.1 < k)) ++
    (k, v) :: m.entries.filter (fun e => decide (k < e.1)), m.insert_sorted k v⟩

/-- Rewrite every value, keys unchanged. -/
def mapVals (m : OrdMap κ β) (f : κ → β → γ) : OrdMap κ γ :=
  ⟨m.entries.map (fun e => (e.1, f e.1 e.2)), by
    rw [List.pairwise_map]; exact m.sorted⟩

/-- Rewrite the value bound to `k`, if there is one. -/
def modify (m : OrdMap κ β) (k : κ) (f : β → β) : OrdMap κ β :=
  m.mapVals (fun j v => if j = k then f v else v)

/-- The sum of `f` over the values. -/
def total (m : OrdMap κ β) (f : β → Nat) : Nat := (m.entries.map (fun e => f e.2)).sum

/-! ## Lookup -/

theorem keys_nodup (m : OrdMap κ β) : (m.entries.map Prod.fst).Nodup := by
  rw [List.Nodup, List.pairwise_map]
  exact m.sorted.imp (fun h => ne_of_lt h)

theorem entries_nodup (m : OrdMap κ β) : m.entries.Nodup :=
  List.Nodup.of_map _ m.keys_nodup

/-- Two entries of one key are one entry. -/
theorem mem_unique {m : OrdMap κ β} {k : κ} {v w : β}
    (hv : (k, v) ∈ m.entries) (hw : (k, w) ∈ m.entries) : v = w := by
  by_contra hne
  have hpair := List.inj_on_of_nodup_map m.keys_nodup hv hw rfl
  exact hne (congrArg Prod.snd hpair)

theorem mem_entries_iff {m : OrdMap κ β} {k : κ} {v : β} :
    (k, v) ∈ m.entries ↔ m.get? k = some v := by
  unfold get?
  rw [Option.map_eq_some_iff]
  constructor
  · intro hmem
    cases hf : m.entries.find? (fun e => decide (e.1 = k)) with
    | none =>
        have := List.find?_eq_none.mp hf (k, v) hmem
        simp at this
    | some e =>
        obtain ⟨j, w⟩ := e
        have hjk : j = k := by simpa using List.find?_some hf
        subst hjk
        exact ⟨(j, w), rfl, mem_unique (List.mem_of_find?_eq_some hf) hmem⟩
  · rintro ⟨⟨j, w⟩, hf, rfl⟩
    have hjk : j = k := by simpa using List.find?_some hf
    exact hjk ▸ List.mem_of_find?_eq_some hf

/-- Maps with the same lookups are equal. -/
theorem ext_get? {m n : OrdMap κ β} (h : ∀ k, m.get? k = n.get? k) : m = n := by
  have hperm : m.entries.Perm n.entries := by
    rw [List.perm_ext_iff_of_nodup m.entries_nodup n.entries_nodup]
    rintro ⟨k, v⟩
    rw [mem_entries_iff, mem_entries_iff, h k]
  have heq : m.entries = n.entries :=
    hperm.eq_of_pairwise
      (fun a b _ _ hab hba => absurd (hab.trans hba) (lt_irrefl _)) m.sorted n.sorted
  cases m; cases n; cases heq; rfl

/-- Lookup is determined by the entries. -/
theorem get?_eq_of_mem_iff {m : OrdMap κ β} {k : κ} {o : Option β}
    (h : ∀ v, (k, v) ∈ m.entries ↔ o = some v) : m.get? k = o := by
  apply Option.ext
  intro v
  rw [← mem_entries_iff, h v]

@[simp] theorem get?_empty (k : κ) : (∅ : OrdMap κ β).get? k = none := rfl

@[simp] theorem get?_filter (m : OrdMap κ β) (p : κ → β → Bool) (k : κ) :
    (m.filter p).get? k = (m.get? k).filter (p k) := by
  refine get?_eq_of_mem_iff (fun v => ?_)
  simp only [filter, List.mem_filter, mem_entries_iff, Option.filter_eq_some_iff]

theorem get?_filter_eq_some {m : OrdMap κ β} {p : κ → β → Bool} {k : κ} {v : β} :
    (m.filter p).get? k = some v ↔ m.get? k = some v ∧ p k v = true := by
  rw [get?_filter, Option.filter_eq_some_iff]

@[simp] theorem get?_insert (m : OrdMap κ β) (k : κ) (v : β) (j : κ) :
    (m.insert k v).get? j = if j = k then some v else m.get? j := by
  refine get?_eq_of_mem_iff (fun w => ?_)
  simp only [insert, List.mem_append, List.mem_cons, List.mem_filter, mem_entries_iff,
    decide_eq_true_eq, Prod.mk.injEq]
  rcases lt_trichotomy j k with h | rfl | h
  · simp [h, h.ne, h.not_gt]
  · simp [eq_comm]
  · simp [h, h.ne', h.not_gt]

@[simp] theorem get?_erase (m : OrdMap κ β) (k j : κ) :
    (m.erase k).get? j = if j = k then none else m.get? j := by
  by_cases h : j = k
  · simp [erase, h]
  · cases hj : m.get? j <;> simp [erase, h, hj]

theorem get?_insert_eq_some {m : OrdMap κ β} {k j : κ} {v w : β}
    (h : (m.insert k v).get? j = some w) : (j = k ∧ w = v) ∨ (j ≠ k ∧ m.get? j = some w) := by
  rw [get?_insert] at h
  split at h
  · cases h
    exact .inl ⟨‹_›, rfl⟩
  · exact .inr ⟨‹_›, h⟩

theorem get?_erase_eq_some {m : OrdMap κ β} {k j : κ} {v : β} :
    (m.erase k).get? j = some v ↔ j ≠ k ∧ m.get? j = some v := by
  rw [get?_erase]
  split
  · simp_all
  · simp_all

theorem erase_insert (m : OrdMap κ β) (k : κ) (v : β) : (m.insert k v).erase k = m.erase k := by
  apply ext_get?
  intro j
  by_cases h : j = k <;> simp [h]

theorem insert_insert (m : OrdMap κ β) (k : κ) (v w : β) :
    (m.insert k v).insert k w = m.insert k w := by
  apply ext_get?
  intro j
  by_cases h : j = k <;> simp [h]

@[simp] theorem get?_mapVals (m : OrdMap κ β) (f : κ → β → γ) (k : κ) :
    (m.mapVals f).get? k = (m.get? k).map (f k) := by
  refine get?_eq_of_mem_iff (fun v => ?_)
  simp only [mapVals, List.mem_map, Prod.mk.injEq, Prod.exists, Option.map_eq_some_iff]
  constructor
  · rintro ⟨j, w, hmem, rfl, rfl⟩
    exact ⟨w, mem_entries_iff.mp hmem, rfl⟩
  · rintro ⟨w, hget, rfl⟩
    exact ⟨k, w, mem_entries_iff.mpr hget, rfl, rfl⟩

@[simp] theorem get?_modify (m : OrdMap κ β) (k : κ) (f : β → β) (j : κ) :
    (m.modify k f).get? j = if j = k then (m.get? j).map f else m.get? j := by
  unfold modify
  rw [get?_mapVals]
  by_cases h : j = k
  · simp [h]
  · cases hj : m.get? j <;> simp [h]

theorem contains_iff {m : OrdMap κ β} {k : κ} : m.contains k = true ↔ ∃ v, m.get? k = some v := by
  unfold contains
  exact Option.isSome_iff_exists

theorem contains_eq_false_iff {m : OrdMap κ β} {k : κ} :
    m.contains k = false ↔ m.get? k = none := by
  unfold contains
  cases m.get? k <;> simp

/-! ## Size and totals -/

theorem erase_perm {m : OrdMap κ β} {k : κ} {v : β} (h : m.get? k = some v) :
    m.entries.Perm ((k, v) :: (m.erase k).entries) := by
  have hnot : (k, v) ∉ (m.erase k).entries := by simp [mem_entries_iff]
  rw [List.perm_ext_iff_of_nodup m.entries_nodup
    (List.nodup_cons.mpr ⟨hnot, (m.erase k).entries_nodup⟩)]
  rintro ⟨j, w⟩
  rw [List.mem_cons, mem_entries_iff, mem_entries_iff, get?_erase]
  by_cases hj : j = k
  · subst hj
    simp [h, eq_comm]
  · simp [hj]

theorem erase_eq_of_get?_none {m : OrdMap κ β} {k : κ} (h : m.get? k = none) :
    m.erase k = m := by
  apply ext_get?
  intro j
  rw [get?_erase]
  by_cases hj : j = k
  · simp [hj, h]
  · simp [hj]

theorem insert_perm (m : OrdMap κ β) (k : κ) (v : β) :
    (m.insert k v).entries.Perm ((k, v) :: (m.erase k).entries) := by
  have hget : (m.insert k v).get? k = some v := by simp
  have hperm := erase_perm hget
  rwa [erase_insert] at hperm

theorem total_erase {m : OrdMap κ β} {k : κ} {v : β} (f : β → Nat)
    (h : m.get? k = some v) : (m.erase k).total f + f v = m.total f := by
  have := ((erase_perm h).map (fun e => f e.2)).sum_eq
  simp only [List.map_cons, List.sum_cons] at this
  unfold total
  omega

theorem total_insert (m : OrdMap κ β) (k : κ) (v : β) (f : β → Nat) :
    (m.insert k v).total f = f v + (m.erase k).total f := by
  have := ((m.insert_perm k v).map (fun e => f e.2)).sum_eq
  simpa [total] using this

theorem size_erase {m : OrdMap κ β} {k : κ} {v : β} (h : m.get? k = some v) :
    (m.erase k).size + 1 = m.size := by
  have := (erase_perm h).length_eq
  simp only [List.length_cons] at this
  unfold size
  omega

theorem size_insert (m : OrdMap κ β) (k : κ) (v : β) :
    (m.insert k v).size = (m.erase k).size + 1 := by
  have := (m.insert_perm k v).length_eq
  simpa [size] using this

/-- Rebinding a bound key keeps the size. -/
theorem size_insert_of_some {m : OrdMap κ β} {k : κ} {v : β} (w : β) (h : m.get? k = some v) :
    (m.insert k w).size = m.size := by
  rw [size_insert, size_erase h]

theorem size_insert_of_none {m : OrdMap κ β} {k : κ} (w : β) (h : m.get? k = none) :
    (m.insert k w).size = m.size + 1 := by
  rw [size_insert, erase_eq_of_get?_none h]

theorem size_filter_le (m : OrdMap κ β) (p : κ → β → Bool) : (m.filter p).size ≤ m.size :=
  List.length_filter_le _ _

theorem total_filter_le (m : OrdMap κ β) (p : κ → β → Bool) (f : β → Nat) :
    (m.filter p).total f ≤ m.total f :=
  (List.filter_sublist.map _).sum_le_sum (by simp)

/-- A total splits into the kept and the dropped entries. -/
theorem total_filter_add (m : OrdMap κ β) (p : κ → β → Bool) (f : β → Nat) :
    (m.filter p).total f + (m.filter (fun k v => !p k v)).total f = m.total f := by
  have hsplit : ∀ l : List (κ × β),
      ((l.filter (fun e => p e.1 e.2)).map (fun e => f e.2)).sum +
        ((l.filter (fun e => !p e.1 e.2)).map (fun e => f e.2)).sum =
      (l.map (fun e => f e.2)).sum := by
    intro l
    induction l with
    | nil => rfl
    | cons e rest ih =>
        simp only [List.filter_cons, List.map_cons, List.sum_cons]
        cases p e.1 e.2 <;> simp <;> omega
  exact hsplit m.entries

theorem filter_eq_self {m : OrdMap κ β} {p : κ → β → Bool}
    (h : ∀ k v, m.get? k = some v → p k v = true) : m.filter p = m := by
  apply ext_get?
  intro k
  cases hget : m.get? k with
  | none => simp [hget]
  | some v => exact get?_filter_eq_some.mpr ⟨hget, h k v hget⟩

theorem filter_eq_empty {m : OrdMap κ β} {p : κ → β → Bool}
    (h : ∀ k v, m.get? k = some v → p k v = false) : m.filter p = ∅ := by
  apply ext_get?
  intro k
  cases hget : (m.filter p).get? k with
  | none => rfl
  | some v =>
      obtain ⟨hv, hp⟩ := get?_filter_eq_some.mp hget
      rw [h k v hv] at hp
      cases hp

/-- One entry is at most the total. -/
theorem le_total {m : OrdMap κ β} {k : κ} {v : β} (f : β → Nat) (h : m.get? k = some v) :
    f v ≤ m.total f := by
  have := total_erase f h
  omega

/-- A total to which only the entry of `k` contributes. -/
theorem total_eq_of_only {m : OrdMap κ β} {k : κ} {v : β} {f : β → Nat}
    (hget : m.get? k = some v) (h : ∀ j w, j ≠ k → m.get? j = some w → f w = 0) :
    m.total f = f v := by
  have hrest : (m.erase k).total f = 0 := by
    refine List.sum_eq_zero ?_
    intro x hx
    obtain ⟨⟨j, w⟩, hmem, rfl⟩ := List.mem_map.mp hx
    have hjw := mem_entries_iff.mp hmem
    rw [get?_erase] at hjw
    split at hjw
    · cases hjw
    · rename_i hne
      exact h j w hne hjw
  have := total_erase f hget
  omega

theorem first?_mem {m : OrdMap κ β} {e : κ × β} (h : m.first? = some e) :
    m.get? e.1 = some e.2 := by
  obtain ⟨k, v⟩ := e
  exact mem_entries_iff.mp (List.mem_of_mem_head? h)

theorem total_mapVals_le (m : OrdMap κ β) (g : κ → β → β) (f : β → Nat)
    (h : ∀ k v, m.get? k = some v → f (g k v) ≤ f v) : (m.mapVals g).total f ≤ m.total f := by
  have hall : ∀ e ∈ m.entries, f (g e.1 e.2) ≤ f e.2 :=
    fun e he => h e.1 e.2 (mem_entries_iff.mp he)
  show ((m.entries.map _).map _).sum ≤ (m.entries.map _).sum
  rw [List.map_map]
  exact List.sum_le_sum hall

/-- A map keyed by the keys of `n` and one key more is at most one entry larger
than `n`. -/
theorem size_le_succ_of_keys {m : OrdMap (WithBot κ) β} {n : OrdMap κ γ}
    (h : ∀ (k : κ) (v : β), m.get? (k : WithBot κ) = some v → n.contains k = true) :
    m.size ≤ n.size + 1 := by
  have hsub : m.entries.map Prod.fst ⊆ ⊥ :: n.entries.map (fun e => WithBot.some e.1) := by
    intro j hj
    obtain ⟨⟨j, v⟩, hmem, rfl⟩ := List.mem_map.mp hj
    induction j using WithBot.recBotCoe with
    | bot => exact List.mem_cons_self
    | coe k =>
        obtain ⟨w, hw⟩ := contains_iff.mp (h k v (mem_entries_iff.mp hmem))
        apply List.mem_cons_of_mem
        exact List.mem_map.mpr ⟨(k, w), mem_entries_iff.mpr hw, rfl⟩
  have hlen := (m.keys_nodup.subperm hsub).length_le
  simpa [size] using hlen

@[simp] theorem size_mapVals (m : OrdMap κ β) (f : κ → β → γ) : (m.mapVals f).size = m.size :=
  List.length_map _

@[simp] theorem contains_mapVals (m : OrdMap κ β) (f : κ → β → γ) (k : κ) :
    (m.mapVals f).contains k = m.contains k := by
  unfold contains
  rw [get?_mapVals]
  exact Option.isSome_map

/-- An inserted key is bound, and the others as before. -/
@[simp] theorem contains_insert (m : OrdMap κ β) (k : κ) (v : β) (j : κ) :
    (m.insert k v).contains j = (decide (j = k) || m.contains j) := by
  unfold contains
  rw [get?_insert]
  by_cases hjk : j = k <;> simp [hjk]

/-- Binding a key grows the map by at most that key. -/
theorem size_insert_le (m : OrdMap κ β) (k : κ) (v : β) :
    (m.insert k v).size ≤ m.size + 1 := by
  rw [size_insert]
  exact Nat.succ_le_succ (size_filter_le m _)

/-- A total of bounded values. -/
theorem total_le_size_mul {m : OrdMap κ β} {f : β → Nat} {c : Nat}
    (h : ∀ k v, m.get? k = some v → f v ≤ c) : m.total f ≤ m.size * c := by
  have hall : ∀ x ∈ m.entries.map (fun e => f e.2), x ≤ c := by
    intro x hx
    obtain ⟨e, he, rfl⟩ := List.mem_map.mp hx
    exact h e.1 e.2 (mem_entries_iff.mp he)
  have hsum := List.sum_le_card_nsmul _ _ hall
  simpa [total, size] using hsum

/-- A map whose keys lie in a window is no larger than the window. -/
theorem size_le_of_window {m : OrdMap Nat β} {lo w : Nat}
    (h : ∀ k v, m.get? k = some v → lo ≤ k ∧ k ≤ lo + w) : m.size ≤ w + 1 := by
  have hsub : m.entries.map Prod.fst ⊆ List.range' lo (w + 1) := by
    intro k hk
    obtain ⟨e, he, rfl⟩ := List.mem_map.mp hk
    have := h e.1 e.2 (mem_entries_iff.mp he)
    exact List.mem_range'_1.mpr (by omega)
  have hlen := (m.keys_nodup.subperm hsub).length_le
  simpa [size] using hlen

/-- The last entry has the largest key. -/
theorem le_last {m : OrdMap κ β} {k : κ} {v : β} {e : κ × β} (hget : m.get? k = some v)
    (hlast : m.entries.getLast? = some e) : k ≤ e.1 := by
  obtain ⟨front, hsplit⟩ := List.getLast?_eq_some_iff.mp hlast
  have hmem : (k, v) ∈ m.entries := mem_entries_iff.mpr hget
  have hsorted := m.sorted
  rw [hsplit] at hmem hsorted
  rcases List.mem_append.mp hmem with hin | hin
  · exact le_of_lt ((List.pairwise_append.mp hsorted).2.2 _ hin e (List.mem_singleton_self e))
  · rw [List.mem_singleton] at hin
    exact le_of_eq (congrArg Prod.fst hin)

/-- Of the items collected from all entries, select those that stem from the
entry of `k`. -/
theorem filter_flatMap (m : OrdMap κ β) (f : κ → β → List γ) (k : κ) (p : γ → Bool)
    (hp : ∀ j v, m.get? j = some v → ∀ x ∈ f j v, (p x = true ↔ j = k)) :
    (m.entries.flatMap (fun e => f e.1 e.2)).filter p = (m.get? k).elim [] (f k) := by
  have hall : ∀ e ∈ m.entries, ∀ x ∈ f e.1 e.2, (p x = true ↔ e.1 = k) :=
    fun e he => hp e.1 e.2 (mem_entries_iff.mp he)
  have hnodup := m.keys_nodup
  unfold get?
  revert hall hnodup
  induction m.entries with
  | nil => intro _ _; rfl
  | cons e rest ih =>
      intro hall hnodup
      have hrest := ih (fun e' he' => hall e' (List.mem_cons_of_mem _ he'))
        (List.nodup_cons.mp hnodup).2
      rw [List.flatMap_cons, List.filter_append, hrest]
      have hhead := hall e List.mem_cons_self
      by_cases hek : e.1 = k
      · -- no later entry has this key
        have hnone : rest.find? (fun e => decide (e.1 = k)) = none := by
          rw [List.find?_eq_none]
          intro e' he' heq
          apply (List.nodup_cons.mp hnodup).1
          rw [hek, ← of_decide_eq_true heq]
          exact List.mem_map_of_mem he'
        rw [hnone, List.find?_cons_of_pos (by simpa using hek)]
        have hkeep : (f e.1 e.2).filter p = f e.1 e.2 := by
          rw [List.filter_eq_self]
          exact fun x hx => (hhead x hx).mpr hek
        rw [hkeep, hek]
        exact List.append_nil _
      · have hdrop : (f e.1 e.2).filter p = [] := by
          rw [List.filter_eq_nil_iff]
          exact fun x hx hpx => hek ((hhead x hx).mp hpx)
        rw [hdrop, List.find?_cons_of_neg (by simpa using hek), List.nil_append]

end OrdMap

end HbbCommon.Base
