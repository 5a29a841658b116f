import Mathlib.Data.List.Induction
import Mathlib.Data.List.Nodup

/-! A log of keys that come and go, each with a tag. Replaying it keeps what is held: a key
comes only while it is not held, and goes only under the tag that it came with. -/
namespace Ledger

variable {K V : Type} [DecidableEq K] [DecidableEq V]

inductive Event (K V : Type) where
  | enter (key : K) (tag : V)
  | leave (key : K) (tag : V)
  deriving DecidableEq, Repr

def keys (held : List (K × V)) : List K := held.map Prod.fst

def record (held : List (K × V)) : Event K V → Option (List (K × V))
  | .enter key tag => if key ∈ keys held then none else some (held ++ [(key, tag)])
  | .leave key tag =>
    if (key, tag) ∈ held then some (held.filter fun entry => entry.1 ≠ key) else none

/-- What is held after the log, unless some event of it was impossible. -/
def replay (log : List (Event K V)) : Option (List (K × V)) := log.foldlM record []

def entered (key : K) : Event K V → Bool
  | .enter other _ => other = key
  | .leave _ _ => false

def left (key : K) : Event K V → Bool
  | .leave other _ => other = key
  | .enter _ _ => false

theorem replay_append (log later : List (Event K V)) :
    replay (log ++ later) = (replay log).bind fun held => later.foldlM record held := by
  rw [replay, List.foldlM_append]
  rfl

theorem replay_snoc (log : List (Event K V)) (event : Event K V) :
    replay (log ++ [event]) = (replay log).bind fun held => record held event := by
  rw [replay_append]
  cases replay log with
  | none => rfl
  | some held =>
    change (record held event).bind some = record held event
    cases record held event <;> rfl

omit [DecidableEq V] in
theorem keys_filter (held : List (K × V)) (key : K) :
    keys (held.filter fun entry => entry.1 ≠ key) = (keys held).filter (· ≠ key) := by
  induction held with
  | nil => rfl
  | cons entry rest ih =>
    by_cases same : entry.1 = key <;> simp_all [keys]

/-- A key is held at most once, and exactly if it came once more than it went. -/
structure Balanced (log : List (Event K V)) (held : List (K × V)) : Prop where
  once : (keys held).Nodup
  counts : ∀ key, log.countP (entered key) =
    log.countP (left key) + if key ∈ keys held then 1 else 0

theorem Balanced.record {log : List (Event K V)} {held later : List (K × V)} {event : Event K V}
    (balanced : Balanced log held) (step : record held event = some later) :
    Balanced (log ++ [event]) later := by
  cases event with
  | enter key tag =>
    rw [Ledger.record] at step
    split at step
    · cases step
    next fresh =>
    cases step
    refine ⟨?_, fun other => ?_⟩
    · rw [keys, List.map_append, List.nodup_append]
      refine ⟨balanced.once, List.nodup_singleton _, ?_⟩
      rintro other member _ (_ | ⟨_, ⟨⟩⟩) rfl
      exact fresh member
    · have before := balanced.counts other
      by_cases same : key = other
      · subst same
        simp_all [keys, entered, left]
      · have member : other ∈ keys (held ++ [(key, tag)]) ↔ other ∈ keys held := by
          simp [keys, Ne.symm same]
        simpa [entered, left, same, member] using before
  | leave key tag =>
    rw [Ledger.record] at step
    split at step
    next present =>
      cases step
      refine ⟨?_, fun other => ?_⟩
      · rw [keys_filter]
        exact balanced.once.filter _
      · have before := balanced.counts other
        rw [keys_filter]
        by_cases same : key = other
        · subst same
          have held : key ∈ keys held := List.mem_map_of_mem (f := Prod.fst) present
          rw [if_pos held] at before
          simp [entered, left, before]
        · simp [entered, left, same, Ne.symm same] at before ⊢
          exact before
    · cases step

theorem replay_balanced {log : List (Event K V)} {held : List (K × V)}
    (replayed : replay log = some held) : Balanced log held := by
  induction log using List.reverseRec generalizing held with
  | nil =>
    cases replayed
    exact ⟨List.nodup_nil, fun key => rfl⟩
  | append_singleton log event ih =>
    rw [replay_snoc] at replayed
    obtain ⟨before, earlier, step⟩ := Option.bind_eq_some_iff.mp replayed
    exact (ih earlier).record step

/-- Each event of a log found the held keys in a state in which it is possible. -/
theorem replay_event {before after : List (Event K V)} {event : Event K V}
    {held : List (K × V)} (replayed : replay (before ++ event :: after) = some held) :
    ∃ earlier later, replay before = some earlier ∧ record earlier event = some later := by
  rw [replay_append] at replayed
  obtain ⟨earlier, ran, step⟩ := Option.bind_eq_some_iff.mp replayed
  rw [List.foldlM_cons] at step
  obtain ⟨later, here, -⟩ := Option.bind_eq_some_iff.mp step
  exact ⟨earlier, later, ran, here⟩

end Ledger
