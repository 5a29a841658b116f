import Mathlib.Data.List.Basic

/-! Event times grouped into windows of one length: each group lies in its window,
windows do not overlap, and no group exceeds a quota. An interval as long as one window
then meets at most two groups. -/
namespace Windows

/-- Groups of event times, newest first, each with the start of its window. -/
structure Spaced (window quota : Nat) (groups : List (Nat × List Nat)) : Prop where
  bounded : ∀ g ∈ groups, g.2.length ≤ quota
  inside : ∀ g ∈ groups, ∀ t ∈ g.2, g.1 ≤ t ∧ t < g.1 + window
  apart : groups.Pairwise fun newer older => older.1 + window ≤ newer.1

def times (groups : List (Nat × List Nat)) : List Nat := groups.flatMap Prod.snd

/-- Events from `first` to `last`, both included. -/
def countIn (first last : Nat) (events : List Nat) : Nat :=
  events.countP fun t => first ≤ t && t ≤ last

variable {window quota : Nat} {groups : List (Nat × List Nat)}

theorem Spaced.nil : Spaced window quota [] := ⟨by simp, by simp, .nil⟩

theorem Spaced.tail {g : Nat × List Nat} (h : Spaced window quota (g :: groups)) :
    Spaced window quota groups where
  bounded g member := h.bounded g (List.mem_cons_of_mem _ member)
  inside g member := h.inside g (List.mem_cons_of_mem _ member)
  apart := (List.pairwise_cons.mp h.apart).2

/-- One more event in the newest window. -/
theorem Spaced.join {start t : Nat} {events : List Nat}
    (h : Spaced window quota ((start, events) :: groups)) (after : start ≤ t)
    (before : t < start + window) (room : events.length < quota) :
    Spaced window quota ((start, t :: events) :: groups) := by
  refine ⟨?_, ?_, ?_⟩
  · intro g member
    rcases List.mem_cons.mp member with rfl | member
    · exact room
    · exact h.bounded g (List.mem_cons_of_mem _ member)
  · intro g member u here
    rcases List.mem_cons.mp member with rfl | member
    · rcases List.mem_cons.mp here with rfl | here
      · exact ⟨after, before⟩
      · exact h.inside (start, events) List.mem_cons_self u here
    · exact h.inside g (List.mem_cons_of_mem _ member) u here
  · exact List.pairwise_cons.mpr (List.pairwise_cons.mp h.apart)

/-- A first event after every window has ended. -/
theorem Spaced.start {t : Nat} (h : Spaced window quota groups) (positive : 0 < window)
    (some : 0 < quota) (ended : ∀ g ∈ groups, g.1 + window ≤ t) :
    Spaced window quota ((t, [t]) :: groups) := by
  refine ⟨?_, ?_, List.pairwise_cons.mpr ⟨ended, h.apart⟩⟩
  · intro g member
    rcases List.mem_cons.mp member with rfl | member
    · exact some
    · exact h.bounded g member
  · intro g member u here
    rcases List.mem_cons.mp member with rfl | member
    · obtain rfl := List.mem_singleton.mp here
      exact ⟨Nat.le_refl _, by omega⟩
    · exact h.inside g member u here

theorem countIn_eq_zero {first last : Nat} {events : List Nat}
    (outside : ∀ t ∈ events, t < first) : countIn first last events = 0 := by
  refine List.countP_eq_zero.mpr fun t member => ?_
  have early := outside t member
  simp only [Bool.and_eq_true, decide_eq_true_eq, not_and]
  omega

theorem times_before {bound : Nat} (h : Spaced window quota groups)
    (ended : ∀ g ∈ groups, g.1 + window ≤ bound) : ∀ t ∈ times groups, t < bound := by
  intro t member
  obtain ⟨g, inGroups, inGroup⟩ := List.mem_flatMap.mp member
  have late := (h.inside g inGroups t inGroup).2
  have limit := ended g inGroups
  omega

theorem countIn_times_cons (first last : Nat) (g : Nat × List Nat) :
    countIn first last (times (g :: groups)) =
      countIn first last g.2 + countIn first last (times groups) := by
  simp [countIn, times, List.countP_append]

/-- The newest window holds no more than its own group. -/
theorem countIn_newest {start : Nat} {events : List Nat} (last : Nat)
    (h : Spaced window quota ((start, events) :: groups)) :
    countIn start last (times ((start, events) :: groups)) ≤ events.length := by
  have older : countIn start last (times groups) = 0 :=
    countIn_eq_zero (times_before h.tail (List.pairwise_cons.mp h.apart).1)
  rw [countIn_times_cons, older]
  exact List.countP_le_length

/-- Below a window start that is still inside the interval only one group is reached. -/
theorem countIn_older {first last start : Nat} (h : Spaced window quota groups)
    (ended : ∀ g ∈ groups, g.1 + window ≤ start) (reached : start ≤ last)
    (short : last ≤ first + window) : countIn first last (times groups) ≤ quota := by
  cases groups with
  | nil => simp [times, countIn]
  | cons g older =>
    have limit := ended g List.mem_cons_self
    have early : countIn first last (times older) = 0 := by
      apply countIn_eq_zero
      intro t member
      have before := times_before h.tail (List.pairwise_cons.mp h.apart).1 t member
      omega
    have own : countIn first last g.2 ≤ g.2.length := List.countP_le_length
    have bound := h.bounded g List.mem_cons_self
    rw [countIn_times_cons, early]
    omega

/-- Any interval no longer than a window holds at most two quotas. -/
theorem countIn_interval {first last : Nat} (h : Spaced window quota groups)
    (short : last ≤ first + window) : countIn first last (times groups) ≤ 2 * quota := by
  induction groups with
  | nil => simp [times, countIn]
  | cons g older ih =>
    rw [countIn_times_cons]
    by_cases reached : g.1 ≤ last
    · have own : countIn first last g.2 ≤ g.2.length := List.countP_le_length
      have bound := h.bounded g List.mem_cons_self
      have rest := countIn_older h.tail (List.pairwise_cons.mp h.apart).1 reached short
      omega
    · have none : countIn first last g.2 = 0 := by
        refine List.countP_eq_zero.mpr fun t member => ?_
        have late := (h.inside g List.mem_cons_self t member).1
        simp only [Bool.and_eq_true, decide_eq_true_eq, not_and]
        omega
      have rest := ih h.tail
      omega

end Windows
