import Mathlib.Data.List.Sort

/-! Stable sorting by several keys. Sorting by the last key first and by the first key last
orders a list by the first key, ties by the second, and so on. -/
namespace Sorting

variable {α β : Type}

/-- Ordered by the first relation, ties by the next. -/
def Lex : List (α → α → Bool) → α → α → Prop
  | [], _, _ => True
  | le :: rest, a, b => le a b = true ∧ (le b a = true → Lex rest a b)

/-- One stable sort for each key, the first key last. -/
def sortBy (keys : List (α → α → Bool)) (values : List α) : List α :=
  keys.foldr (fun le values => values.insertionSort fun a b => le a b = true) values

theorem sortBy_cons (le : α → α → Bool) (rest : List (α → α → Bool)) (values : List α) :
    sortBy (le :: rest) values =
      (sortBy rest values).insertionSort fun a b => le a b = true := rfl

structure Ranks (le : α → α → Bool) : Prop where
  total : ∀ a b, le a b = true ∨ le b a = true
  trans : ∀ a b c, le a b = true → le b c = true → le a c = true

theorem sortBy_perm (keys : List (α → α → Bool)) (values : List α) :
    (sortBy keys values).Perm values := by
  induction keys with
  | nil => exact .refl _
  | cons le rest ih => exact (List.perm_insertionSort _ _).trans ih

theorem mem_sortBy {keys : List (α → α → Bool)} {values : List α} {a : α} :
    a ∈ sortBy keys values ↔ a ∈ values := (sortBy_perm keys values).mem_iff

/-- An element in front of those that the later keys put behind it stays in front of its ties. -/
theorem orderedInsert_lex {le : α → α → Bool} {rest : List (α → α → Bool)} (ranks : Ranks le)
    {a : α} {values : List α} (ahead : ∀ b ∈ values, Lex rest a b)
    (sorted : values.Pairwise (Lex (le :: rest))) :
    (values.orderedInsert (fun a b => le a b = true) a).Pairwise (Lex (le :: rest)) := by
  induction values with
  | nil => exact List.pairwise_singleton _ _
  | cons b values ih =>
    obtain ⟨first, others⟩ := List.pairwise_cons.mp sorted
    obtain ⟨here, later⟩ := List.forall_mem_cons.mp ahead
    rw [List.orderedInsert_cons]
    split
    · next before =>
      refine List.pairwise_cons.mpr ⟨fun c member => ?_, sorted⟩
      rcases List.mem_cons.mp member with rfl | among
      · exact ⟨before, fun _ => here⟩
      · exact ⟨ranks.trans _ _ _ before (first c among).1, fun _ => later c among⟩
    · next behind =>
      refine List.pairwise_cons.mpr ⟨fun c member => ?_, ih later others⟩
      rcases (List.mem_orderedInsert _).mp member with rfl | among
      · have after := (ranks.total b c).resolve_right behind
        exact ⟨after, fun tie => absurd tie behind⟩
      · exact first c among

theorem sortBy_lex {keys : List (α → α → Bool)} (ranks : ∀ le ∈ keys, Ranks le)
    (values : List α) : (sortBy keys values).Pairwise (Lex keys) := by
  induction keys with
  | nil => exact List.pairwise_of_forall fun _ _ => trivial
  | cons le rest ih =>
    obtain ⟨first, others⟩ := List.forall_mem_cons.mp ranks
    have sorted := ih others
    rw [sortBy_cons]
    generalize sortBy rest values = values at sorted
    induction sorted with
    | nil => exact .nil
    | cons ahead _ ih =>
      refine orderedInsert_lex first (fun b member => ?_) ih
      exact ahead b ((List.mem_insertionSort _).mp member)

/-- Sorting by what the elements are mapped to. -/
theorem sortBy_map (f : α → β) (keys : List (β → β → Bool)) (values : List α) :
    sortBy keys (values.map f) =
      (sortBy (keys.map fun le a b => le (f a) (f b)) values).map f := by
  induction keys with
  | nil => rfl
  | cons le rest ih =>
    rw [List.map_cons, sortBy_cons, sortBy_cons, ih]
    exact (List.map_insertionSort _ _ f _ fun _ _ _ _ => Iff.rfl).symm

theorem Lex.congr {keys others : List (α → α → Bool)} {a b : α}
    (same : List.Forall₂ (fun le other => le a b = other a b ∧ le b a = other b a) keys others) :
    Lex keys a b ↔ Lex others a b := by
  induction same with
  | nil => exact Iff.rfl
  | cons here _ ih => rw [Lex, Lex, here.1, here.2, ih]

end Sorting
