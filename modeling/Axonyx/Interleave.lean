import Mathlib.Logic.Function.Basic

/-! Calls written as programs over atomic operations, run side by side on one shared state.
A step starts a call, lets one call perform its next operation, or lets a finished call
return. A per-call condition that holds along every path of each program, together with an
invariant of the shared state, then holds in every interleaving. -/
namespace Interleave

/-- A program asks for one operation at a time and continues with its result. -/
inductive Prog (Op : Type) (Res : Op → Type) (α : Type) where
  | ret (value : α)
  | act (op : Op) (next : Res op → Prog Op Res α)

variable {Op : Type} {Res : Op → Type} {σ Job α β ε : Type}

def Prog.bind : Prog Op Res α → (α → Prog Op Res β) → Prog Op Res β
  | .ret value, k => k value
  | .act op next, k => .act op fun result => (next result).bind k

instance : Monad (Prog Op Res) where
  pure := .ret
  bind := Prog.bind

/-- The program alone on a state that answers every operation. -/
def Prog.perform (step : (op : Op) → σ → Res op × σ) : Prog Op Res α → σ → α × σ
  | .ret value, state => (value, state)
  | .act op next, state => (next (step op state).1).perform step (step op state).2

/-- One operation performed on the shared state. -/
structure Access (Op : Type) (Res : Op → Type) (σ : Type) where
  op : Op
  before : σ
  result : Res op
  after : σ

inductive Event (Op : Type) (Res : Op → Type) (σ Job α : Type) where
  | started (call : Nat) (job : Job)
  | accessed (call : Nat) (access : Access Op Res σ)
  | returned (call : Nat) (value : α)

abbrev Trace (Op : Type) (Res : Op → Type) (σ Job α : Type) := List (Event Op Res σ Job α)

/-- The operations of one call, newest first. -/
def history (call : Nat) : Trace Op Res σ Job α → List (Access Op Res σ)
  | [] => []
  | .accessed other access :: trace =>
    if other = call then access :: history call trace else history call trace
  | .started _ _ :: trace => history call trace
  | .returned _ _ :: trace => history call trace

theorem accessed_of_mem_history {call : Nat} {access : Access Op Res σ}
    {trace : Trace Op Res σ Job α} (member : access ∈ history call trace) :
    .accessed call access ∈ trace := by
  induction trace with
  | nil => cases member
  | cons event trace ih =>
    cases event with
    | started | returned => exact List.mem_cons_of_mem _ (ih member)
    | accessed other found =>
      simp only [history] at member
      split at member
      next same =>
        rcases List.mem_cons.mp member with rfl | member
        · exact same ▸ List.mem_cons_self
        · exact List.mem_cons_of_mem _ (ih member)
      next => exact List.mem_cons_of_mem _ (ih member)

theorem mem_history_of_accessed {call : Nat} {access : Access Op Res σ}
    {trace : Trace Op Res σ Job α} (member : .accessed call access ∈ trace) :
    access ∈ history call trace := by
  induction trace with
  | nil => cases member
  | cons event trace ih =>
    cases event with
    | started | returned => exact ih (List.mem_of_ne_of_mem (by simp) member)
    | accessed other found =>
      simp only [history]
      rcases List.mem_cons.mp member with here | member
      · cases here
        simp
      · split
        · exact List.mem_cons_of_mem _ (ih member)
        · exact ih member

/-- The newest operation of a call splits the trace at the point where it was performed. -/
theorem history_eq_cons {call : Nat} {access : Access Op Res σ} {past : List (Access Op Res σ)}
    {trace : Trace Op Res σ Job α} (recent : history call trace = access :: past) :
    ∃ newer older, trace = newer ++ .accessed call access :: older ∧
      history call newer = [] ∧ history call older = past := by
  induction trace with
  | nil => cases recent
  | cons event trace ih =>
    cases event with
    | started | returned =>
      obtain ⟨newer, older, rfl, clear, rest⟩ := ih recent
      exact ⟨_ :: newer, older, rfl, clear, rest⟩
    | accessed other found =>
      simp only [history] at recent
      split at recent
      next same =>
        obtain ⟨rfl, rfl⟩ := List.cons.inj recent
        exact ⟨[], trace, by rw [same]; rfl, rfl, rfl⟩
      next apart =>
        obtain ⟨newer, older, rfl, clear, rest⟩ := ih recent
        exact ⟨.accessed other found :: newer, older, rfl, by simp [history, apart, clear], rest⟩

/-- Every path of the program from here keeps `guard` at its operations and ends in `post`. -/
def Prog.Ensures (exec : (op : Op) → σ → Res op → σ → Prop) (inv : σ → Prop)
    (guard : List (Access Op Res σ) → Op → Prop) (post : List (Access Op Res σ) → α → Prop) :
    List (Access Op Res σ) → Prog Op Res α → Prop
  | past, .ret value => post past value
  | past, .act op next => guard past op ∧ ∀ before result after, inv before →
      exec op before result after →
      (next result).Ensures exec inv guard post (⟨op, before, result, after⟩ :: past)

section Rules

variable {exec : (op : Op) → σ → Res op → σ → Prop} {inv : σ → Prop}
  {guard : List (Access Op Res σ) → Op → Prop}

theorem Prog.ensures_ret {post : List (Access Op Res σ) → α → Prop} {value : α}
    {past : List (Access Op Res σ)} :
    (Prog.ret value : Prog Op Res α).Ensures exec inv guard post past ↔ post past value := Iff.rfl

theorem Prog.ensures_act {post : List (Access Op Res σ) → α → Prop} {op : Op}
    {next : Res op → Prog Op Res α} {past : List (Access Op Res σ)} :
    (Prog.act op next).Ensures exec inv guard post past ↔ guard past op ∧
      ∀ before result after, inv before → exec op before result after →
        (next result).Ensures exec inv guard post (⟨op, before, result, after⟩ :: past) := Iff.rfl

theorem Prog.Ensures.bind {middle : List (Access Op Res σ) → α → Prop}
    {post : List (Access Op Res σ) → β → Prop} {program : Prog Op Res α}
    {k : α → Prog Op Res β} {past : List (Access Op Res σ)}
    (first : program.Ensures exec inv guard middle past)
    (second : ∀ past value, middle past value → (k value).Ensures exec inv guard post past) :
    (program.bind k).Ensures exec inv guard post past := by
  induction program generalizing past with
  | ret value => exact second past value first
  | act op next ih =>
    obtain ⟨allowed, onward⟩ := first
    exact ⟨allowed, fun before result after valid executed =>
      ih result (onward before result after valid executed)⟩

/-- A failure of the first part skips the second. -/
theorem Ensures.bind (middle : List (Access Op Res σ) → Except ε α → Prop)
    {post : List (Access Op Res σ) → Except ε β → Prop} {program : ExceptT ε (Prog Op Res) α}
    {k : α → ExceptT ε (Prog Op Res) β} {past : List (Access Op Res σ)}
    (first : program.run.Ensures exec inv guard middle past)
    (second : ∀ past value, middle past (.ok value) →
      (k value).run.Ensures exec inv guard post past)
    (failed : ∀ past error, middle past (.error error) → post past (.error error)) :
    (program >>= k).run.Ensures exec inv guard post past := by
  refine Prog.Ensures.bind first fun past value reached => ?_
  cases value with
  | ok value => exact second past value reached
  | error error => exact failed past error reached

theorem Ensures.pure {post : List (Access Op Res σ) → Except ε α → Prop} {value : α}
    {past : List (Access Op Res σ)} (ends : post past (.ok value)) :
    (Pure.pure value : ExceptT ε (Prog Op Res) α).run.Ensures exec inv guard post past := ends

/-- A computation that touches no shared state. -/
theorem Ensures.lift {post : List (Access Op Res σ) → Except ε α → Prop} {value : Except ε α}
    {past : List (Access Op Res σ)} (ends : post past value) :
    (liftM value : ExceptT ε (Prog Op Res) α).run.Ensures exec inv guard post past := ends

theorem Ensures.throw {post : List (Access Op Res σ) → Except ε α → Prop} {error : ε}
    {past : List (Access Op Res σ)} (ends : post past (.error error)) :
    (throw error : ExceptT ε (Prog Op Res) α).run.Ensures exec inv guard post past := ends

theorem Prog.Ensures.act {op : Op} {post : List (Access Op Res σ) → Res op → Prop}
    {past : List (Access Op Res σ)} (allowed : guard past op)
    (ends : ∀ before result after, inv before → exec op before result after →
      post (⟨op, before, result, after⟩ :: past) result) :
    (Prog.act op .ret : Prog Op Res (Res op)).Ensures exec inv guard post past := ⟨allowed, ends⟩

end Rules

-- Programs are only taken apart by the rules above.
attribute [irreducible] Prog.Ensures

/-- What the calls do, what an operation may do to the shared state, and which calls may
start after a trace. -/
structure System (Op : Type) (Res : Op → Type) (σ Job α : Type) where
  program : Job → Prog Op Res α
  exec : (op : Op) → σ → Res op → σ → Prop
  admits : Trace Op Res σ Job α → Job → Prop
  initial : σ

/-- Interleaved runs, newest event first. -/
inductive Run (sys : System Op Res σ Job α) :
    Trace Op Res σ Job α → σ → (Nat → Option (Prog Op Res α)) → Prop
  | initial : Run sys [] sys.initial fun _ => none
  | start {trace : Trace Op Res σ Job α} {shared : σ} {pending : Nat → Option (Prog Op Res α)}
      (run : Run sys trace shared pending) (call : Nat) (job : Job)
      (unused : ∀ other, .started call other ∉ trace) (admitted : sys.admits trace job) :
      Run sys (.started call job :: trace) shared
        (Function.update pending call (some (sys.program job)))
  | access {trace : Trace Op Res σ Job α} {shared next : σ}
      {pending : Nat → Option (Prog Op Res α)} (run : Run sys trace shared pending)
      (call : Nat) {op : Op} {k : Res op → Prog Op Res α} {result : Res op}
      (waiting : pending call = some (.act op k)) (executed : sys.exec op shared result next) :
      Run sys (.accessed call ⟨op, shared, result, next⟩ :: trace) next
        (Function.update pending call (some (k result)))
  | finish {trace : Trace Op Res σ Job α} {shared : σ} {pending : Nat → Option (Prog Op Res α)}
      (run : Run sys trace shared pending) (call : Nat) {value : α}
      (done : pending call = some (.ret value)) :
      Run sys (.returned call value :: trace) shared (Function.update pending call none)

/-- Proof obligations of an interleaving: one for each kind of step. -/
structure Sound (sys : System Op Res σ Job α) (inv : σ → Prop)
    (guard : Job → List (Access Op Res σ) → Op → Prop)
    (post : Job → List (Access Op Res σ) → α → Prop)
    (invariant : Trace Op Res σ Job α → σ → Prop) : Prop where
  initial : invariant [] sys.initial
  shared : ∀ trace state, invariant trace state → inv state
  program : ∀ job, (sys.program job).Ensures sys.exec inv (guard job) (post job) []
  start : ∀ trace state call job, invariant trace state → (∀ other, .started call other ∉ trace) →
    sys.admits trace job → invariant (.started call job :: trace) state
  access : ∀ trace state call job op result next, invariant trace state →
    .started call job ∈ trace → guard job (history call trace) op →
    sys.exec op state result next →
    invariant (.accessed call ⟨op, state, result, next⟩ :: trace) next
  finish : ∀ trace state call job value, invariant trace state → .started call job ∈ trace →
    post job (history call trace) value → invariant (.returned call value :: trace) state

variable {sys : System Op Res σ Job α} {inv : σ → Prop}
  {guard : Job → List (Access Op Res σ) → Op → Prop}
  {post : Job → List (Access Op Res σ) → α → Prop}
  {invariant : Trace Op Res σ Job α → σ → Prop}

/-- The invariant and every stopped call's remaining obligations. -/
structure Reached (sys : System Op Res σ Job α) (inv : σ → Prop)
    (guard : Job → List (Access Op Res σ) → Op → Prop)
    (post : Job → List (Access Op Res σ) → α → Prop)
    (invariant : Trace Op Res σ Job α → σ → Prop) (trace : Trace Op Res σ Job α) (state : σ)
    (pending : Nat → Option (Prog Op Res α)) : Prop where
  holds : invariant trace state
  waiting : ∀ call program, pending call = some program → ∃ job, .started call job ∈ trace ∧
    program.Ensures sys.exec inv (guard job) (post job) (history call trace)
  known : ∀ call access, .accessed call access ∈ trace → ∃ job, .started call job ∈ trace

theorem Run.reached (sound : Sound sys inv guard post invariant)
    {trace : Trace Op Res σ Job α} {state : σ} {pending : Nat → Option (Prog Op Res α)}
    (run : Run sys trace state pending) :
    Reached sys inv guard post invariant trace state pending := by
  induction run with
  | initial => exact ⟨sound.initial, by simp, by simp⟩
  | @start trace shared pending run call job unused admitted ih =>
    refine ⟨sound.start _ _ call job ih.holds unused admitted, fun other program found => ?_,
      fun other access member => ?_⟩
    · by_cases same : other = call
      · subst same
        rw [Function.update_self, Option.some.injEq] at found
        subst found
        have fresh : history other trace = [] := by
          refine List.eq_nil_iff_forall_not_mem.mpr fun access member => ?_
          obtain ⟨earlier, present⟩ := ih.known other access (accessed_of_mem_history member)
          exact unused earlier present
        refine ⟨job, List.mem_cons_self, ?_⟩
        rw [history, fresh]
        exact sound.program job
      · rw [Function.update_of_ne same] at found
        obtain ⟨earlier, present, ensures⟩ := ih.waiting other program found
        exact ⟨earlier, List.mem_cons_of_mem _ present, ensures⟩
    · rcases List.mem_cons.mp member with impossible | member
      · cases impossible
      · obtain ⟨earlier, present⟩ := ih.known other access member
        exact ⟨earlier, List.mem_cons_of_mem _ present⟩
  | @access trace shared next pending run call op k result waiting executed ih =>
    obtain ⟨job, present, ensures⟩ := ih.waiting call _ waiting
    obtain ⟨allowed, onward⟩ := Prog.ensures_act.mp ensures
    refine ⟨sound.access _ _ _ job _ _ _ ih.holds present allowed executed,
      fun other program found => ?_, fun other access member => ?_⟩
    · by_cases same : other = call
      · subst same
        rw [Function.update_self, Option.some.injEq] at found
        subst found
        refine ⟨job, List.mem_cons_of_mem _ present, ?_⟩
        rw [history, if_pos rfl]
        exact onward shared result next (sound.shared _ _ ih.holds) executed
      · rw [Function.update_of_ne same] at found
        obtain ⟨earlier, started, ensures⟩ := ih.waiting other program found
        refine ⟨earlier, List.mem_cons_of_mem _ started, ?_⟩
        rw [history, if_neg (Ne.symm same)]
        exact ensures
    · rcases List.mem_cons.mp member with here | member
      · cases here
        exact ⟨job, List.mem_cons_of_mem _ present⟩
      · obtain ⟨earlier, started⟩ := ih.known other access member
        exact ⟨earlier, List.mem_cons_of_mem _ started⟩
  | @finish trace shared pending run call value done ih =>
    obtain ⟨job, present, ensures⟩ := ih.waiting call _ done
    have ended := Prog.ensures_ret.mp ensures
    refine ⟨sound.finish _ _ _ job _ ih.holds present ended, fun other program found => ?_,
      fun other access member => ?_⟩
    · by_cases same : other = call
      · subst same
        rw [Function.update_self] at found
        cases found
      · rw [Function.update_of_ne same] at found
        obtain ⟨earlier, started, ensures⟩ := ih.waiting other program found
        exact ⟨earlier, List.mem_cons_of_mem _ started, ensures⟩
    · rcases List.mem_cons.mp member with impossible | member
      · cases impossible
      · obtain ⟨earlier, started⟩ := ih.known other access member
        exact ⟨earlier, List.mem_cons_of_mem _ started⟩

/-- A call that returned met its postcondition on its own operations. -/
theorem Run.returned (sound : Sound sys inv guard post invariant)
    {trace : Trace Op Res σ Job α} {state : σ} {pending : Nat → Option (Prog Op Res α)}
    (run : Run sys trace state pending) {newer older : Trace Op Res σ Job α} {call : Nat}
    {value : α} (split : trace = newer ++ .returned call value :: older) :
    ∃ job, .started call job ∈ older ∧ post job (history call older) value := by
  induction run generalizing newer with
  | initial => simp at split
  | start run _ _ _ _ ih =>
    cases newer with
    | nil => cases split
    | cons event newer => exact ih (List.cons.inj split).2
  | access run _ _ _ ih =>
    cases newer with
    | nil => cases split
    | cons event newer => exact ih (List.cons.inj split).2
  | finish run _ done ih =>
    cases newer with
    | nil =>
      cases split
      obtain ⟨job, present, ensures⟩ := (run.reached sound).waiting call _ done
      exact ⟨job, present, Prog.ensures_ret.mp ensures⟩
    | cons event newer => exact ih (List.cons.inj split).2

/-- Every operation was performed in a state that met the invariant, by a call that kept
its guard. -/
theorem Run.accessed (sound : Sound sys inv guard post invariant)
    {trace : Trace Op Res σ Job α} {state : σ} {pending : Nat → Option (Prog Op Res α)}
    (run : Run sys trace state pending) {newer older : Trace Op Res σ Job α} {call : Nat}
    {access : Access Op Res σ} (split : trace = newer ++ .accessed call access :: older) :
    invariant older access.before ∧
    sys.exec access.op access.before access.result access.after ∧
    ∃ job, .started call job ∈ older ∧ guard job (history call older) access.op := by
  induction run generalizing newer with
  | initial => simp at split
  | start run _ _ _ _ ih =>
    cases newer with
    | nil => cases split
    | cons event newer => exact ih (List.cons.inj split).2
  | access run _ waiting executed ih =>
    cases newer with
    | nil =>
      cases split
      have before := run.reached sound
      obtain ⟨job, present, ensures⟩ := before.waiting call _ waiting
      exact ⟨before.holds, executed, job, present, (Prog.ensures_act.mp ensures).1⟩
    | cons event newer => exact ih (List.cons.inj split).2
  | finish run _ done ih =>
    cases newer with
    | nil => cases split
    | cons event newer => exact ih (List.cons.inj split).2

end Interleave
