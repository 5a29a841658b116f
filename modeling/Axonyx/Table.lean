import Mathlib.Data.List.Nodup

/-! Finite maps as entry lists that carry the proof that no key occurs twice. The order
of the entries is not part of any result about lookups. -/

structure Table (K V : Type) where
  entries : List (K × V)
  distinct : (entries.map Prod.fst).Nodup

namespace Table

variable {K V : Type}

def empty : Table K V := ⟨[], List.nodup_nil⟩

def size (t : Table K V) : Nat := t.entries.length

/-- Keep the entries that satisfy `p`. -/
def retain (t : Table K V) (p : K → V → Bool) : Table K V :=
  ⟨t.entries.filter fun e => p e.1 e.2, (List.filter_sublist.map Prod.fst).nodup t.distinct⟩

variable [DecidableEq K]

def get? (t : Table K V) (key : K) : Option V :=
  (t.entries.find? fun e => e.1 = key).map Prod.snd

def erase (t : Table K V) (key : K) : Table K V := t.retain fun k _ => k ≠ key

def insert (t : Table K V) (key : K) (value : V) : Table K V :=
  ⟨(key, value) :: (t.erase key).entries, by
    refine List.nodup_cons.mpr ⟨?_, (t.erase key).distinct⟩
    simp [erase, retain]⟩

/-- Change the value under a key that is present. -/
def modify (t : Table K V) (key : K) (f : V → V) : Table K V :=
  ⟨t.entries.map fun e => if e.1 = key then (e.1, f e.2) else e, by
    have keys : (t.entries.map fun e => if e.1 = key then (e.1, f e.2) else e).map Prod.fst =
        t.entries.map Prod.fst := by
      rw [List.map_map]
      apply List.map_congr_left
      intro e _
      by_cases h : e.1 = key <;> simp [h]
    rw [keys]
    exact t.distinct⟩

/-- Change the entries that satisfy `p`, and count them. -/
def update (t : Table K V) (p : K → V → Bool) (f : V → V) : Table K V × Nat :=
  (⟨t.entries.map fun e => if p e.1 e.2 then (e.1, f e.2) else e, by
    have keys : (t.entries.map fun e => if p e.1 e.2 then (e.1, f e.2) else e).map Prod.fst =
        t.entries.map Prod.fst := by
      rw [List.map_map]
      apply List.map_congr_left
      intro e _
      by_cases h : p e.1 e.2 <;> simp [h]
    rw [keys]
    exact t.distinct⟩, t.entries.countP fun e => p e.1 e.2)

theorem get?_eq_some_iff {t : Table K V} {key : K} {value : V} :
    t.get? key = some value ↔ (key, value) ∈ t.entries := by
  obtain ⟨entries, distinct⟩ := t
  unfold get?
  induction entries with
  | nil => simp
  | cons e rest ih =>
    rw [List.map_cons, List.nodup_cons] at distinct
    obtain ⟨k, v⟩ := e
    by_cases here : k = key
    · subst here
      have absent : (k, value) ∉ rest := fun member =>
        distinct.1 (List.mem_map.mpr ⟨_, member, rfl⟩)
      simp [absent, eq_comm]
    · have ne : key ≠ k := fun h => here h.symm
      simpa [here, ne] using ih distinct.2

theorem get?_eq_none_iff {t : Table K V} {key : K} :
    t.get? key = none ↔ key ∉ t.entries.map Prod.fst := by
  simp only [get?, Option.map_eq_none_iff, List.find?_eq_none, decide_eq_true_eq, List.mem_map,
    not_exists, not_and]

@[simp] theorem get?_empty (key : K) : (empty : Table K V).get? key = none := rfl

omit [DecidableEq K] in
@[simp] theorem size_empty : (empty : Table K V).size = 0 := rfl

@[simp] theorem get?_retain (t : Table K V) (p : K → V → Bool) (key : K) :
    (t.retain p).get? key = (t.get? key).filter (p key) := by
  apply Option.ext
  intro value
  rw [get?_eq_some_iff, Option.filter_eq_some_iff, get?_eq_some_iff]
  simp [retain]

@[simp] theorem get?_erase (t : Table K V) (key other : K) :
    (t.erase key).get? other = if other = key then none else t.get? other := by
  rw [erase, get?_retain]
  by_cases h : other = key
  · simp [h]
  · cases found : t.get? other <;> simp [h]

@[simp] theorem get?_insert (t : Table K V) (key other : K) (value : V) :
    (t.insert key value).get? other = if other = key then some value else t.get? other := by
  by_cases h : other = key
  · subst h
    simp [insert, get?]
  · rw [if_neg h, ← if_neg h (α := Option V) (t := none) (e := t.get? other), ← get?_erase]
    have ne : ¬ key = other := fun e => h e.symm
    simp [insert, get?, ne]

@[simp] theorem get?_modify (t : Table K V) (key other : K) (f : V → V) :
    (t.modify key f).get? other = if other = key then (t.get? other).map f else t.get? other := by
  obtain ⟨entries, distinct⟩ := t
  simp only [get?, modify]
  clear distinct
  induction entries with
  | nil => simp
  | cons e rest ih =>
    by_cases here : e.1 = other
    · subst here
      by_cases h : e.1 = key <;> simp [h]
    · have kept : ¬ (if e.1 = key then (e.1, f e.2) else e).1 = other := by
        split <;> exact here
      simpa [here, kept] using ih

@[simp] theorem get?_update (t : Table K V) (p : K → V → Bool) (f : V → V) (key : K) :
    (t.update p f).1.get? key = (t.get? key).map fun v => if p key v then f v else v := by
  obtain ⟨entries, distinct⟩ := t
  simp only [get?, update]
  clear distinct
  induction entries with
  | nil => simp
  | cons e rest ih =>
    by_cases here : e.1 = key
    · subst here
      by_cases h : p e.1 e.2 <;> simp [h]
    · have kept : ¬ (if p e.1 e.2 then (e.1, f e.2) else e).1 = key := by
        split <;> exact here
      simpa [here, kept] using ih

/-- A condition that fixes the key selects one entry or none. -/
theorem update_count {t : Table K V} {p : K → V → Bool} {f : V → V} {key : K}
    (selects : ∀ k v, p k v = true → k = key) :
    (t.update p f).2 = ((t.get? key).any (p key)).toNat := by
  obtain ⟨entries, distinct⟩ := t
  simp only [get?, update]
  induction entries with
  | nil => simp
  | cons e rest ih =>
    rw [List.map_cons, List.nodup_cons] at distinct
    rw [List.countP_cons, ih distinct.2]
    by_cases here : e.1 = key
    · subst here
      have absent : rest.find? (fun e' => e'.1 = e.1) = none := by
        rw [List.find?_eq_none]
        intro e' member same
        exact distinct.1 (List.mem_map.mpr ⟨e', member, by simpa using same⟩)
      cases chosen : p e.1 e.2 <;> simp [absent, chosen]
    · have unselected : p e.1 e.2 = false := by
        cases chosen : p e.1 e.2 with
        | false => rfl
        | true => exact absurd (selects _ _ chosen) here
      simp [here, unselected]

omit [DecidableEq K] in
theorem size_retain_le (t : Table K V) (p : K → V → Bool) : (t.retain p).size ≤ t.size :=
  List.length_filter_le _ _

/-- Dropping an entry makes the table strictly smaller. -/
theorem size_retain_lt {t : Table K V} {p : K → V → Bool} {key : K} {value : V}
    (present : t.get? key = some value) (dropped : p key value = false) :
    (t.retain p).size < t.size := by
  have member := get?_eq_some_iff.mp present
  apply List.length_filter_lt_length_iff_exists.mpr
  exact ⟨_, member, by simp [dropped]⟩

@[simp] theorem size_modify (t : Table K V) (key : K) (f : V → V) :
    (t.modify key f).size = t.size := List.length_map _

theorem size_insert_absent {t : Table K V} {key : K} (value : V) (absent : t.get? key = none) :
    (t.insert key value).size = t.size + 1 := by
  have kept : (t.erase key).entries = t.entries := by
    apply List.filter_eq_self.mpr
    intro e member
    have ne : e.1 ≠ key := fun h => get?_eq_none_iff.mp absent (h ▸ List.mem_map_of_mem member)
    simpa using ne
  simp [size, insert, kept]

end Table
