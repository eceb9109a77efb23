import Mathlib

/-- A finite map listed in strictly ascending key order, so that iteration
visits the keys in order and equal maps have equal entries. -/
structure SortedMap (κ ν : Type) [LinearOrder κ] where
  entries : List (κ × ν)
  sorted : (entries.map Prod.fst).Pairwise (· < ·)

namespace SortedMap
variable {κ ν : Type} [LinearOrder κ]

instance [DecidableEq ν] : DecidableEq (SortedMap κ ν) := fun a b =>
  decidable_of_iff (a.entries = b.entries) (by cases a; cases b; simp)

def empty : SortedMap κ ν := ⟨[], by simp⟩

def find? (m : SortedMap κ ν) (k : κ) : Option ν := m.entries.lookup k

def contains (m : SortedMap κ ν) (k : κ) : Bool := (m.find? k).isSome

def size (m : SortedMap κ ν) : Nat := m.entries.length

def keys (m : SortedMap κ ν) : List κ := m.entries.map Prod.fst

/-- Change the value under `k`, or put one there, without losing the order. -/
def upsertEntries (k : κ) (f : Option ν → ν) : List (κ × ν) → List (κ × ν)
  | [] => [(k, f none)]
  | (j, v) :: rest =>
    if k < j then (k, f none) :: (j, v) :: rest
    else if k = j then (k, f (some v)) :: rest
    else (j, v) :: upsertEntries k f rest

theorem mem_keys_upsertEntries {k j : κ} {f : Option ν → ν} {l : List (κ × ν)} :
    j ∈ (upsertEntries k f l).map Prod.fst ↔ j = k ∨ j ∈ l.map Prod.fst := by
  induction l with
  | nil => simp [upsertEntries]
  | cons head rest ih =>
    obtain ⟨i, v⟩ := head
    simp only [upsertEntries]
    split_ifs with below same
    · simp
    · subst same; simp
    · simp only [List.map_cons, List.mem_cons, ih]
      tauto

theorem upsertEntries_sorted {k : κ} {f : Option ν → ν} {l : List (κ × ν)}
    (sorted : (l.map Prod.fst).Pairwise (· < ·)) :
    ((upsertEntries k f l).map Prod.fst).Pairwise (· < ·) := by
  induction l with
  | nil => simp [upsertEntries]
  | cons head rest ih =>
    obtain ⟨i, v⟩ := head
    simp only [List.map_cons, List.pairwise_cons] at sorted
    simp only [upsertEntries]
    split_ifs with below same
    · simp only [List.map_cons, List.pairwise_cons]
      refine ⟨?_, sorted⟩
      intro j member
      rcases List.mem_cons.mp member with rfl | later
      · exact below
      · exact below.trans (sorted.1 j later)
    · subst same
      simpa only [List.map_cons, List.pairwise_cons] using sorted
    · simp only [List.map_cons, List.pairwise_cons]
      refine ⟨?_, ih sorted.2⟩
      intro j member
      rcases mem_keys_upsertEntries.mp member with rfl | later
      · exact lt_of_le_of_ne (not_lt.mp below) (Ne.symm same)
      · exact sorted.1 j later

def upsert (m : SortedMap κ ν) (k : κ) (f : Option ν → ν) : SortedMap κ ν :=
  ⟨upsertEntries k f m.entries, upsertEntries_sorted m.sorted⟩

/-- `insert_or_assign`: the new value replaces the one under an existing key. -/
def insertOrAssign (m : SortedMap κ ν) (k : κ) (v : ν) : SortedMap κ ν := m.upsert k fun _ => v

/-- `insert`: nothing happens when the key exists. -/
def insert (m : SortedMap κ ν) (k : κ) (v : ν) : SortedMap κ ν := m.upsert k fun old => old.getD v

def filter (p : κ → ν → Bool) (m : SortedMap κ ν) : SortedMap κ ν where
  entries := m.entries.filter fun e => p e.1 e.2
  sorted := m.sorted.sublist (List.filter_sublist.map Prod.fst)

def erase (m : SortedMap κ ν) (k : κ) : SortedMap κ ν := m.filter fun j _ => j ≠ k

def map {μ : Type} (f : κ → ν → μ) (m : SortedMap κ ν) : SortedMap κ μ where
  entries := m.entries.map fun e => (e.1, f e.1 e.2)
  sorted := by simpa [Function.comp_def] using m.sorted

/-- Change the value under `k`, if there is one. -/
def modify (m : SortedMap κ ν) (k : κ) (f : ν → ν) : SortedMap κ ν :=
  m.map fun j v => if j = k then f v else v

def all (m : SortedMap κ ν) (p : ν → Bool) : Bool := m.entries.all fun e => p e.2

/-- Visit the entries in key order, rewriting each value and threading a state. -/
def mapAccumEntries {σ : Type} (f : κ → ν → σ → ν × σ) : List (κ × ν) → σ → List (κ × ν) × σ
  | [], s => ([], s)
  | (k, v) :: rest, s =>
    let (v', s') := f k v s
    let (rest', s'') := mapAccumEntries f rest s'
    ((k, v') :: rest', s'')

omit [LinearOrder κ] in
theorem mapAccumEntries_keys {σ : Type} (f : κ → ν → σ → ν × σ) (l : List (κ × ν)) (s : σ) :
    (mapAccumEntries f l s).1.map Prod.fst = l.map Prod.fst := by
  induction l generalizing s with
  | nil => rfl
  | cons head rest ih => simp [mapAccumEntries, ih]

def mapAccum {σ : Type} (f : κ → ν → σ → ν × σ) (m : SortedMap κ ν) (s : σ) : SortedMap κ ν × σ :=
  (⟨(mapAccumEntries f m.entries s).1, by rw [mapAccumEntries_keys]; exact m.sorted⟩,
    (mapAccumEntries f m.entries s).2)

@[ext] theorem ext {a b : SortedMap κ ν} (same : a.entries = b.entries) : a = b := by
  cases a; cases b; simpa using same

theorem nodup_keys (m : SortedMap κ ν) : m.keys.Nodup := m.sorted.imp fun h => ne_of_lt h

theorem lookup_cons_eq_ite (i j : κ) (v : ν) (l : List (κ × ν)) :
    ((i, v) :: l).lookup j = if j = i then some v else l.lookup j := by
  by_cases same : j = i
  · subst same; simp
  · have differ : (j == i) = false := by simpa using same
    simp [List.lookup_cons, differ, same]

theorem lookup_eq_some_iff_mem {l : List (κ × ν)} (sorted : (l.map Prod.fst).Pairwise (· < ·))
    {k : κ} {v : ν} : l.lookup k = some v ↔ (k, v) ∈ l := by
  induction l with
  | nil => simp
  | cons head rest ih =>
    obtain ⟨i, w⟩ := head
    simp only [List.map_cons, List.pairwise_cons] at sorted
    rw [lookup_cons_eq_ite]
    by_cases same : k = i
    · subst same
      have fresh : (k, v) ∉ rest := fun member =>
        lt_irrefl k (sorted.1 k (List.mem_map_of_mem member))
      simp [fresh, eq_comm]
    · simp [ih sorted.2, same]

theorem mem_entries {m : SortedMap κ ν} {k : κ} {v : ν} : (k, v) ∈ m.entries ↔ m.find? k = some v :=
  (lookup_eq_some_iff_mem m.sorted).symm

theorem mem_keys {m : SortedMap κ ν} {k : κ} : k ∈ m.keys ↔ ∃ v, m.find? k = some v := by
  simp only [keys, List.mem_map, Prod.exists, exists_and_right, exists_eq_right, mem_entries]

@[simp] theorem find?_empty (k : κ) : (empty : SortedMap κ ν).find? k = none := rfl

theorem contains_eq_true {m : SortedMap κ ν} {k : κ} : m.contains k = true ↔ ∃ v, m.find? k = some v :=
  Option.isSome_iff_exists

theorem contains_eq_false {m : SortedMap κ ν} {k : κ} : m.contains k = false ↔ m.find? k = none := by
  simp [contains]

theorem lookup_eq_none_of_below {k : κ} {l : List (κ × ν)} (below : ∀ j ∈ l.map Prod.fst, k < j) :
    l.lookup k = none := by
  rw [List.lookup_eq_none_iff]
  rintro ⟨j, v⟩ member
  simpa using ne_of_lt (below j (List.mem_map_of_mem member))

theorem lookup_upsertEntries {k j : κ} {f : Option ν → ν} {l : List (κ × ν)}
    (sorted : (l.map Prod.fst).Pairwise (· < ·)) :
    (upsertEntries k f l).lookup j = if j = k then some (f (l.lookup k)) else l.lookup j := by
  induction l with
  | nil => simp [upsertEntries, lookup_cons_eq_ite]
  | cons head rest ih =>
    obtain ⟨i, v⟩ := head
    simp only [List.map_cons, List.pairwise_cons] at sorted
    simp only [upsertEntries]
    by_cases below : k < i
    · have absent : ((i, v) :: rest).lookup k = none := by
        refine lookup_eq_none_of_below fun x member => ?_
        rcases List.mem_cons.mp member with rfl | later
        · exact below
        · exact below.trans (sorted.1 x later)
      rw [if_pos below, lookup_cons_eq_ite, absent]
    · rw [if_neg below]
      by_cases same : k = i
      · subst same
        by_cases here : j = k <;> simp [lookup_cons_eq_ite, here]
      · rw [if_neg same, lookup_cons_eq_ite, lookup_cons_eq_ite, lookup_cons_eq_ite, ih sorted.2, if_neg same]
        by_cases here : j = k
        · subst here; simp [same]
        · simp [here]

theorem find?_upsert (m : SortedMap κ ν) (k j : κ) (f : Option ν → ν) :
    (m.upsert k f).find? j = if j = k then some (f (m.find? k)) else m.find? j :=
  lookup_upsertEntries m.sorted

@[simp] theorem find?_insertOrAssign (m : SortedMap κ ν) (k j : κ) (v : ν) :
    (m.insertOrAssign k v).find? j = if j = k then some v else m.find? j :=
  m.find?_upsert k j _

@[simp] theorem find?_insert (m : SortedMap κ ν) (k j : κ) (v : ν) :
    (m.insert k v).find? j = if j = k then some ((m.find? k).getD v) else m.find? j :=
  m.find?_upsert k j _

theorem find?_filter (m : SortedMap κ ν) (p : κ → ν → Bool) (j : κ) :
    (m.filter p).find? j = (m.find? j).filter (p j) := by
  ext v
  rw [← mem_entries, filter, List.mem_filter, mem_entries]
  simp

@[simp] theorem find?_erase (m : SortedMap κ ν) (k j : κ) :
    (m.erase k).find? j = if j = k then none else m.find? j := by
  rw [erase, find?_filter]
  by_cases same : j = k <;> cases m.find? j <;> simp [same]

theorem find?_map {μ : Type} (m : SortedMap κ ν) (f : κ → ν → μ) (j : κ) :
    (m.map f).find? j = (m.find? j).map (f j) := by
  ext w
  rw [← mem_entries, map, List.mem_map, Option.map_eq_some_iff]
  constructor
  · rintro ⟨⟨i, v⟩, member, same⟩
    obtain ⟨rfl, rfl⟩ := Prod.mk.inj same
    exact ⟨v, mem_entries.mp member, rfl⟩
  · rintro ⟨v, found, rfl⟩
    exact ⟨(j, v), mem_entries.mpr found, rfl⟩

@[simp] theorem find?_modify (m : SortedMap κ ν) (k j : κ) (f : ν → ν) :
    (m.modify k f).find? j = if j = k then (m.find? k).map f else m.find? j := by
  rw [modify, find?_map]
  by_cases same : j = k
  · subst same; simp
  · simp [same]

theorem all_eq_true {m : SortedMap κ ν} {p : ν → Bool} :
    m.all p = true ↔ ∀ k v, m.find? k = some v → p v = true := by
  simp only [all, List.all_eq_true, Prod.forall, mem_entries]

/-- Putting a value into a map adds its measure, at most. -/
theorem sum_insertOrAssign_le (m : SortedMap κ ν) (k : κ) (v : ν) (g : ν → Nat) :
    ((m.insertOrAssign k v).entries.map fun e => g e.2).sum ≤ (m.entries.map fun e => g e.2).sum + g v := by
  change ((upsertEntries k (fun _ => v) m.entries).map fun e => g e.2).sum ≤ _
  induction m.entries with
  | nil => simp [upsertEntries]
  | cons head rest ih =>
    simp only [upsertEntries]
    split_ifs <;> simp only [List.map_cons, List.sum_cons] <;> omega

theorem size_insertOrAssign_le (m : SortedMap κ ν) (k : κ) (v : ν) : (m.insertOrAssign k v).size ≤ m.size + 1 := by
  have sum := m.sum_insertOrAssign_le k v fun _ => 1
  simpa [size] using sum

/-- Maps with equal lookups are equal. -/
theorem ext_find? {a b : SortedMap κ ν} (same : ∀ k, a.find? k = b.find? k) : a = b := by
  have perm : a.entries.Perm b.entries := by
    rw [List.perm_ext_iff_of_nodup (List.Nodup.of_map _ a.nodup_keys) (List.Nodup.of_map _ b.nodup_keys)]
    rintro ⟨k, v⟩
    rw [mem_entries, mem_entries, same]
  have order : ∀ m : SortedMap κ ν, m.entries.Pairwise fun x y => x.1 < y.1 :=
    fun m => List.pairwise_map.mp m.sorted
  exact ext (perm.eq_of_pairwise (fun x y _ _ xy yx => absurd xy (not_lt.mpr yx.le)) (order a) (order b))

@[simp] theorem size_map {μ : Type} (m : SortedMap κ ν) (f : κ → ν → μ) : (m.map f).size = m.size := by
  simp [size, map]

theorem map_map {μ ξ : Type} (m : SortedMap κ ν) (f : κ → ν → μ) (g : κ → μ → ξ) :
    (m.map f).map g = m.map fun k v => g k (f k v) := by
  ext1
  simp [map]

/-- The map with the keys `0, …, n - 1`. -/
def ofRange (n : Nat) (f : Nat → ν) : SortedMap Nat ν where
  entries := (List.range n).map fun i => (i, f i)
  sorted := by simpa [Function.comp_def] using List.pairwise_lt_range

@[simp] theorem size_ofRange (n : Nat) (f : Nat → ν) : (ofRange n f).size = n := by
  simp [size, ofRange]

@[simp] theorem find?_ofRange (n i : Nat) (f : Nat → ν) :
    (ofRange n f).find? i = if i < n then some (f i) else none := by
  ext v
  rw [← mem_entries]
  by_cases within : i < n <;> simp [ofRange, within, eq_comm]

@[simp] theorem keys_ofRange (n : Nat) (f : Nat → ν) : (ofRange n f).keys = List.range n := by
  simp [keys, ofRange, Function.comp_def]

theorem ofRange_zero (f : Nat → ν) : ofRange 0 f = empty := rfl

theorem insertOrAssign_ofRange_end (n : Nat) (f : Nat → ν) :
    (ofRange n f).insertOrAssign n (f n) = ofRange (n + 1) f := by
  refine ext_find? fun j => ?_
  simp only [find?_insertOrAssign, find?_ofRange]
  by_cases same : j = n
  · subst same; simp
  · by_cases below : j < n
    · simp [same, below, show j < n + 1 by omega]
    · simp [same, below, show ¬ j < n + 1 by omega]

end SortedMap
