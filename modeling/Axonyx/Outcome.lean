import Mathlib.Data.List.Forall2
import Mathlib.Data.Option.Basic

/-! Results of steps that can fail: when a sequence of steps succeeds, and what is left of it
when the failures are told apart no longer. -/
namespace Axonyx.Outcome

variable {ε α β : Type}

theorem bind_ok {first : Except ε α} {next : α → Except ε β} {result : β} :
    (first >>= next) = .ok result ↔ ∃ value, first = .ok value ∧ next value = .ok result := by
  cases first with
  | error e => exact ⟨fun h => (nomatch h), fun ⟨_, h, _⟩ => nomatch h⟩
  | ok value => exact ⟨fun h => ⟨value, rfl, h⟩, fun ⟨_, h, rest⟩ => by cases h; exact rest⟩

theorem bind_unit_ok {first : Except ε Unit} {next : Except ε β} {result : β} :
    (do first; next) = .ok result ↔ first = .ok () ∧ next = .ok result := by
  rw [bind_ok]
  exact ⟨fun ⟨_, h, rest⟩ => ⟨h, rest⟩, fun ⟨h, rest⟩ => ⟨(), h, rest⟩⟩

theorem map_ok {f : α → β} {result : Except ε α} {value : β} :
    result.map f = .ok value ↔ ∃ source, result = .ok source ∧ f source = value := by
  cases result <;> simp [Except.map]

theorem toOption_bind (first : Except ε α) (next : α → Except ε β) :
    (first >>= next).toOption = first.toOption.bind fun value => (next value).toOption := by
  cases first <;> rfl

theorem toOption_map (result : Except ε α) (f : α → β) :
    (result.map f).toOption = result.toOption.map f := by
  cases result <;> rfl

theorem toOption_eq_some {result : Except ε α} {value : α} :
    result.toOption = some value ↔ result = .ok value := by
  cases result <;> simp [Except.toOption]

/-- Two sequences have the same outcome if their first steps have, and behind a common value
the rest has. -/
theorem bind_congr {first second : Except ε α} {next next' : α → Except ε β}
    (start : first.toOption = second.toOption)
    (rest : ∀ value, second = .ok value → (next value).toOption = (next' value).toOption) :
    (first >>= next).toOption = (second >>= next').toOption := by
  rw [toOption_bind, toOption_bind, start]
  exact Option.bind_congr fun value found => rest value (toOption_eq_some.mp found)

section Lists

variable {ι ε' : Type}

/-- What a successful pass over a list makes of the items, one by one. -/
theorem map_of_mapM {f : ι → Except ε α} {items : List ι} {values : List α} {g : α → β} {h : ι → β}
    (passed : items.mapM f = .ok values) (each : ∀ item value, f item = .ok value → g value = h item) :
    values.map g = items.map h := by
  induction items generalizing values with
  | nil =>
    obtain rfl := Except.ok.inj passed
    rfl
  | cons item rest ih =>
    rw [List.mapM_cons] at passed
    obtain ⟨value, first, next⟩ := bind_ok.mp passed
    obtain ⟨others, later, last⟩ := bind_ok.mp next
    obtain rfl := Except.ok.inj last
    rw [List.map_cons, List.map_cons, each item value first, ih later]

/-- A successful pass gives every item its value. -/
theorem related_of_mapM {f : ι → Except ε α} {items : List ι} {values : List α}
    (passed : items.mapM f = .ok values) : List.Forall₂ (fun item value => f item = .ok value) items values := by
  induction items generalizing values with
  | nil =>
    obtain rfl := Except.ok.inj passed
    exact .nil
  | cons item rest ih =>
    rw [List.mapM_cons] at passed
    obtain ⟨value, first, next⟩ := bind_ok.mp passed
    obtain ⟨others, later, last⟩ := bind_ok.mp next
    obtain rfl := Except.ok.inj last
    exact .cons first (ih later)

theorem flatMap_of_mapM {f : ι → Except ε α} {items : List ι} {values : List α} {g : α → List β}
    {h : ι → List β} (passed : items.mapM f = .ok values)
    (each : ∀ item value, f item = .ok value → g value = h item) : values.flatMap g = items.flatMap h := by
  rw [List.flatMap_def, List.flatMap_def, map_of_mapM passed each]

theorem mapM_cons_toOption (f : ι → Except ε α) (item : ι) (rest : List ι) :
    ((item :: rest).mapM f).toOption =
      (f item).toOption.bind fun value => (rest.mapM f).toOption.map (value :: ·) := by
  rw [List.mapM_cons, toOption_bind]
  apply Option.bind_congr
  intro value _
  rw [toOption_bind]
  cases (rest.mapM f).toOption <;> rfl

theorem mapM_fails_iff {f : ι → Except ε α} {l : List ι} :
    (l.mapM f).toOption = none ↔ ∃ item ∈ l, (f item).toOption = none := by
  induction l with
  | nil => simp [pure, Except.pure, Except.toOption]
  | cons item rest ih =>
    rw [mapM_cons_toOption]
    cases here : (f item).toOption with
    | none => simp [here]
    | some value => simp [here, ih]

/-- Two passes over a list agree exactly if they agree at every item, or each of them fails
somewhere. -/
theorem rel_mapM_iff {r : α → β → Prop} {f : ι → Except ε α} {g : ι → Except ε' β}
    {l : List ι} :
    Option.Rel (List.Forall₂ r) (l.mapM f).toOption (l.mapM g).toOption ↔
      (∀ item ∈ l, Option.Rel r (f item).toOption (g item).toOption) ∨
        (∃ item ∈ l, (f item).toOption = none) ∧ ∃ item ∈ l, (g item).toOption = none := by
  by_cases first : (l.mapM f).toOption = none
  · have failed := mapM_fails_iff.mp first
    rw [first]
    constructor
    · intro related
      cases second : (l.mapM g).toOption with
      | none => exact .inr ⟨failed, mapM_fails_iff.mp second⟩
      | some values => rw [second] at related; cases related
    · intro cases
      have second : (l.mapM g).toOption = none := by
        apply mapM_fails_iff.mpr
        rcases cases with every | ⟨_, second⟩
        · obtain ⟨item, member, here⟩ := failed
          have same := every item member
          rw [here] at same
          refine ⟨item, member, ?_⟩
          cases other : (g item).toOption with
          | none => rfl
          | some value => rw [other] at same; cases same
        · exact second
      rw [second]
      exact .none
  · have passes : ¬∃ item ∈ l, (f item).toOption = none := fun h => first (mapM_fails_iff.mpr h)
    rw [or_iff_left fun h => passes h.1]
    clear first
    induction l with
    | nil => simp [pure, Except.pure, Except.toOption]
    | cons item rest ih =>
      obtain ⟨value, here⟩ := Option.ne_none_iff_exists'.mp fun failed => passes ⟨item, by simp, failed⟩
      have later : ¬∃ item ∈ rest, (f item).toOption = none :=
        fun ⟨other, member, failed⟩ => passes ⟨other, List.mem_cons_of_mem _ member, failed⟩
      obtain ⟨values, tail⟩ := Option.ne_none_iff_exists'.mp fun failed => later (mapM_fails_iff.mp failed)
      have step := ih later
      rw [tail] at step
      rw [mapM_cons_toOption, mapM_cons_toOption, here, tail, List.forall_mem_cons, here]
      refine Iff.trans ?_ (and_congr_right' step)
      cases (g item).toOption with
      | none => simp
      | some other =>
        cases (rest.mapM g).toOption with
        | none => simp
        | some others => simp

/-- If every item has a partner, the items have partners in their order. -/
theorem exists_related {r : ι → β → Prop} {items : List ι} (each : ∀ item ∈ items, ∃ value, r item value) :
    ∃ values, List.Forall₂ r items values := by
  induction items with
  | nil => exact ⟨[], .nil⟩
  | cons item rest ih =>
    obtain ⟨value, here⟩ := each item List.mem_cons_self
    obtain ⟨values, later⟩ := ih fun other member => each other (List.mem_cons_of_mem _ member)
    exact ⟨value :: values, .cons here later⟩

variable {r : ι → β → Prop} {items : List ι} {values : List β}

theorem related_left (all : List.Forall₂ r items values) {item : ι} (member : item ∈ items) :
    ∃ value ∈ values, r item value := by
  induction all with
  | nil => cases member
  | cons here _ ih =>
    rcases List.mem_cons.mp member with rfl | later
    · exact ⟨_, List.mem_cons_self, here⟩
    · obtain ⟨value, inside, related⟩ := ih later
      exact ⟨value, List.mem_cons_of_mem _ inside, related⟩

theorem related_congr {s : ι → β → Prop} (same : ∀ item ∈ items, ∀ value, r item value ↔ s item value) :
    List.Forall₂ r items values ↔ List.Forall₂ s items values := by
  have swap {r s : ι → β → Prop} (implies : ∀ item ∈ items, ∀ value, r item value → s item value)
      (all : List.Forall₂ r items values) : List.Forall₂ s items values :=
    ((List.forall₂_and_left _ _).mpr ⟨fun _ member => member, all⟩).imp fun item value here =>
      implies item here.1 value here.2
  exact ⟨swap fun item member value => (same item member value).mp, swap fun item member value => (same item member value).mpr⟩

theorem related_right (all : List.Forall₂ r items values) {value : β} (member : value ∈ values) :
    ∃ item ∈ items, r item value :=
  related_left all.flip member

/-- What agrees on partners agrees on the lists. -/
theorem related_map {γ : Type} {f : ι → γ} {g : β → γ} (all : List.Forall₂ r items values)
    (same : ∀ item value, r item value → f item = g value) : values.map g = items.map f := by
  induction all with
  | nil => rfl
  | cons here _ ih => rw [List.map_cons, List.map_cons, same _ _ here, ih]

theorem related_get (all : List.Forall₂ r items values) {i : Nat} {item : ι} {value : β}
    (first : items[i]? = some item) (second : values[i]? = some value) : r item value := by
  induction all generalizing i with
  | nil => cases first
  | cons here _ ih =>
    cases i with
    | zero =>
      cases first
      cases second
      exact here
    | succ i => exact ih first second

end Lists

end Axonyx.Outcome
