import Axonyx.Core.JsonContract
import Axonyx.Outcome

/-! The limits on what goes through a native function. A payload is walked with a stack of its
own; the counters are machine words. -/
namespace Axonyx.Runtime.Native

open Axonyx.Core (Json)

structure AxNativeLimits where
  inputBytes : UInt64
  outputBytes : UInt64
  depth : UInt64
  nodes : UInt64

/-- How the walk ends before its end: it refuses the payload, or a counter overflows. -/
inductive Stop where
  | payloadLimit
  | overflow
  deriving DecidableEq, Repr

section Payload

def children : Json → List Json
  | .array values => values
  | .object values => values.map Prod.snd
  | _ => []

mutual

def nodes : Json → Nat
  | .array values => nodesAll values + 1
  | .object values => nodesFields values + 1
  | _ => 1

def nodesAll : List Json → Nat
  | [] => 0
  | value :: rest => nodes value + nodesAll rest

def nodesFields : List (String × Json) → Nat
  | [] => 0
  | (_, value) :: rest => nodes value + nodesFields rest

end

mutual

/-- How many values stand inside one another, from a value on. -/
def depth : Json → Nat
  | .array values => depthAll values + 1
  | .object values => depthFields values + 1
  | _ => 1

def depthAll : List Json → Nat
  | [] => 0
  | value :: rest => max (depth value) (depthAll rest)

def depthFields : List (String × Json) → Nat
  | [] => 0
  | (_, value) :: rest => max (depth value) (depthFields rest)

end

theorem nodesFields_eq (fields : List (String × Json)) : nodesFields fields = nodesAll (fields.map Prod.snd) := by
  induction fields with
  | nil => rfl
  | cons field rest ih => rw [nodesFields, ih, List.map_cons, nodesAll]

theorem depthFields_eq (fields : List (String × Json)) : depthFields fields = depthAll (fields.map Prod.snd) := by
  induction fields with
  | nil => rfl
  | cons field rest ih => rw [depthFields, ih, List.map_cons, depthAll]

theorem nodes_eq (value : Json) : nodes value = nodesAll (children value) + 1 := by
  cases value with
  | object fields => rw [nodes, nodesFields_eq, children]
  | _ => rfl

theorem depth_eq (value : Json) : depth value = depthAll (children value) + 1 := by
  cases value with
  | object fields => rw [depth, depthFields_eq, children]
  | _ => rfl

theorem nodesAll_append (first second : List Json) :
    nodesAll (first ++ second) = nodesAll first + nodesAll second := by
  induction first with
  | nil => simp [nodesAll]
  | cons value rest ih =>
    rw [List.cons_append, nodesAll, nodesAll, ih]
    omega

theorem nodesAll_reverse (values : List Json) : nodesAll values.reverse = nodesAll values := by
  induction values with
  | nil => rfl
  | cons value rest ih =>
    rw [List.reverse_cons, nodesAll_append, ih, nodesAll, nodesAll, nodesAll]
    omega

/-- Every value is a node of its own. -/
theorem length_le_nodesAll (values : List Json) : values.length ≤ nodesAll values := by
  induction values with
  | nil => exact Nat.le_refl 0
  | cons value rest ih =>
    rw [List.length_cons, nodesAll, nodes_eq]
    omega

theorem depthAll_le {values : List Json} {limit : Nat} : depthAll values ≤ limit ↔ ∀ value ∈ values, depth value ≤ limit := by
  induction values with
  | nil => simp [depthAll]
  | cons value rest ih => rw [depthAll, List.forall_mem_cons, ← ih, Nat.max_le]

end Payload

section Walk

/-- The values that wait, the next one first, each with its depth, and how many were visited. -/
structure State where
  stack : List (Json × Nat)
  visited : Nat

def start (value : Json) : State := ⟨[(value, 1)], 0⟩

/-- `+` on machine words. -/
def checkedAdd (a b : Nat) : Except Stop Nat := if a + b < UInt64.size then .ok (a + b) else .error .overflow

/-- What is pushed for the children; the last one is the next one to be visited. -/
def pushed (level : Nat) (values : List Json) : Except Stop (List (Json × Nat)) :=
  if values.isEmpty then .ok []
  else do
    let below ← checkedAdd level 1
    return (values.map fun value => (value, below)).reverse

theorem checkedAdd_ok {a b sum : Nat} (added : checkedAdd a b = .ok sum) : sum = a + b := by
  unfold checkedAdd at added
  split at added
  · exact (Except.ok.inj added).symm
  · cases added

theorem checkedAdd_eq {a b : Nat} (fits : a + b < UInt64.size) : checkedAdd a b = .ok (a + b) := if_pos fits

/-- One turn of the loop; none where the stack is empty. -/
def step (limits : AxNativeLimits) (s : State) : Except Stop (Option State) :=
  match s.stack with
  | [] => .ok none
  | (value, level) :: rest =>
    if limits.depth.toNat < level ∨ limits.nodes.toNat ≤ s.visited then .error .payloadLimit
    else do
      let visited ← checkedAdd s.visited 1
      let reserved ← checkedAdd visited rest.length
      if limits.nodes.toNat - reserved < (children value).length then .error .payloadLimit
      else
        let more ← pushed level (children value)
        return some ⟨more ++ rest, visited⟩

/-- The nodes of the values that wait. -/
def pending (s : State) : Nat := nodesAll (s.stack.map Prod.fst)

/-- The children of a value as they wait on the stack. -/
def entries (level : Nat) (value : Json) : List (Json × Nat) := ((children value).map fun child => (child, level + 1)).reverse

theorem pushed_ok {level : Nat} {value : Json} {more : List (Json × Nat)}
    (waiting : pushed level (children value) = .ok more) : more = entries level value := by
  unfold pushed at waiting
  split at waiting
  · next empty =>
    obtain rfl := Except.ok.inj waiting
    rw [entries, List.isEmpty_iff.mp empty]
    rfl
  · obtain ⟨below, added, last⟩ := Outcome.bind_ok.mp waiting
    obtain rfl := checkedAdd_ok added
    exact (Except.ok.inj last).symm

theorem pushed_eq {level : Nat} {value : Json} (fits : (children value).length ≠ 0 → level + 1 < UInt64.size) :
    pushed level (children value) = .ok (entries level value) := by
  unfold pushed
  split
  · next empty =>
    rw [entries, List.isEmpty_iff.mp empty]
    rfl
  · next present =>
    have some : (children value).length ≠ 0 := fun none => present (List.isEmpty_iff.mpr (List.length_eq_zero_iff.mp none))
    rw [checkedAdd_eq (fits some)]
    rfl

theorem pending_entries (level : Nat) (value : Json) (rest : List (Json × Nat)) (visited : Nat) :
    pending ⟨entries level value ++ rest, visited⟩ + 1 = pending ⟨(value, level) :: rest, visited⟩ := by
  have waiting : (entries level value).map Prod.fst = (children value).reverse := by
    simp [entries, Function.comp_def]
  rw [pending, pending, List.map_append, waiting, nodesAll_append, nodesAll_reverse, List.map_cons, nodesAll, nodes_eq]
  dsimp only
  omega

/-- A turn of the loop visits one node. -/
theorem step_pending {limits : AxNativeLimits} {s s' : State} (turn : step limits s = .ok (some s')) :
    pending s' + 1 = pending s ∧ s'.visited = s.visited + 1 := by
  obtain ⟨stack, visited⟩ := s
  cases stack with
  | nil => cases turn
  | cons entry rest =>
    obtain ⟨value, level⟩ := entry
    unfold step at turn
    dsimp only at turn
    split at turn
    · cases turn
    · obtain ⟨counted, first, next⟩ := Outcome.bind_ok.mp turn
      obtain ⟨reserved, _, next⟩ := Outcome.bind_ok.mp next
      split at next
      · cases next
      · obtain ⟨more, waiting, last⟩ := Outcome.bind_ok.mp next
        obtain rfl := Option.some.inj (Except.ok.inj last)
        obtain rfl := checkedAdd_ok first
        rw [pushed_ok waiting]
        exact ⟨pending_entries level value rest visited, rfl⟩

/-- `check_shape` from a state of the loop on. -/
def walk (limits : AxNativeLimits) (s : State) : Except Stop Unit :=
  match turn : step limits s with
  | .error stop => .error stop
  | .ok none => .ok ()
  | .ok (some s') => walk limits s'
termination_by pending s
decreasing_by
  have visit := (step_pending turn).1
  omega

def checkShape (value : Json) (limits : AxNativeLimits) : Except Stop Unit := walk limits (start value)

end Walk

section Exactness

variable {limits : AxNativeLimits}

/-- What holds whenever the loop turns: nothing waits that could not be visited, and a value that
waits has all that it stands in behind it. -/
structure Bounded (limits : AxNativeLimits) (s : State) : Prop where
  room : s.visited + s.stack.length ≤ max limits.nodes.toNat 1
  within : s.visited ≤ limits.nodes.toNat
  shallow : ∀ entry ∈ s.stack, entry.2 ≤ s.visited + 1

theorem bounded_start (value : Json) : Bounded limits (start value) :=
  ⟨Nat.le_max_right _ _, Nat.zero_le _, by simp [start]⟩

/-- With nothing else on the stack than could be visited no counter overflows, and the prediction is
the exact one. -/
theorem step_eq {value : Json} {level visited : Nat} {rest : List (Json × Nat)}
    (bounded : Bounded limits ⟨(value, level) :: rest, visited⟩) :
    step limits ⟨(value, level) :: rest, visited⟩ =
      if limits.depth.toNat < level ∨ limits.nodes.toNat ≤ visited ∨
          limits.nodes.toNat < visited + 1 + rest.length + (children value).length then .error .payloadLimit
      else .ok (some ⟨entries level value ++ rest, visited + 1⟩) := by
  have size := limits.nodes.toNat_lt_size
  have room := bounded.room
  have here := bounded.shallow _ List.mem_cons_self
  simp only [List.length_cons] at room here
  unfold step
  dsimp only
  by_cases refused : limits.depth.toNat < level ∨ limits.nodes.toNat ≤ visited
  · rw [if_pos refused, if_pos (by omega)]
  · rw [if_neg refused, checkedAdd_eq (by omega)]
    change (checkedAdd (visited + 1) rest.length >>= _) = _
    rw [checkedAdd_eq (by omega)]
    change (if _ then _ else _) = _
    by_cases predicted : limits.nodes.toNat - (visited + 1 + rest.length) < (children value).length
    · rw [if_pos predicted, if_pos (by omega)]
    · rw [if_neg predicted, if_neg (by omega), pushed_eq (by omega)]
      rfl

theorem bounded_step {s s' : State} (bounded : Bounded limits s) (turn : step limits s = .ok (some s')) :
    Bounded limits s' := by
  obtain ⟨stack, visited⟩ := s
  cases stack with
  | nil => cases turn
  | cons entry rest =>
    obtain ⟨value, level⟩ := entry
    rw [step_eq bounded] at turn
    split at turn
    · cases turn
    · next fits =>
      obtain rfl := Option.some.inj (Except.ok.inj turn)
      have here := bounded.shallow _ List.mem_cons_self
      refine ⟨?_, ?_, ?_⟩
      · rw [List.length_append, entries, List.length_reverse, List.length_map]
        dsimp only
        omega
      · dsimp only
        omega
      · intro entry member
        rcases List.mem_append.mp member with child | older
        · obtain ⟨_, _, rfl⟩ := List.mem_map.mp (List.mem_reverse.mp child)
          exact Nat.add_le_add_right here 1
        · exact (bounded.shallow entry (List.mem_cons_of_mem _ older)).trans (Nat.le_succ _)

/-- What is visited and what waits stays within the limits, every waiting value with all below it. -/
def Fits (limits : AxNativeLimits) (s : State) : Prop :=
  s.visited + pending s ≤ limits.nodes.toNat ∧ ∀ entry ∈ s.stack, entry.2 + depth entry.1 ≤ limits.depth.toNat + 1

theorem fits_step {value : Json} {level visited : Nat} {rest : List (Json × Nat)} (shallow : level ≤ limits.depth.toNat) :
    Fits limits ⟨entries level value ++ rest, visited + 1⟩ ↔ Fits limits ⟨(value, level) :: rest, visited⟩ := by
  have nodes := pending_entries level value rest visited
  have children_depth : (∀ entry ∈ entries level value, entry.2 + depth entry.1 ≤ limits.depth.toNat + 1) ↔
      level + depth value ≤ limits.depth.toNat + 1 := by
    have below : depthAll (children value) ≤ limits.depth.toNat - level ↔
        level + depth value ≤ limits.depth.toNat + 1 := by
      rw [depth_eq]
      omega
    rw [← below, depthAll_le]
    simp only [entries, List.mem_reverse, List.forall_mem_map]
    refine forall_congr' fun child => imp_congr_right fun _ => ?_
    omega
  unfold Fits
  rw [List.forall_mem_cons, List.forall_mem_append, children_depth]
  have same : visited + 1 + pending ⟨entries level value ++ rest, visited + 1⟩ =
      visited + pending ⟨(value, level) :: rest, visited⟩ := by
    rw [← nodes]
    change visited + 1 + pending ⟨entries level value ++ rest, visited⟩ = _
    omega
  rw [same]

/-- The walk from a state on refuses exactly what does not fit. -/
theorem walk_ok_iff {s : State} (bounded : Bounded limits s) :
    (walk limits s = .ok () ↔ Fits limits s) ∧ walk limits s ≠ .error .overflow := by
  fun_induction walk limits s with
  | case1 s stop turn =>
    obtain ⟨stack, visited⟩ := s
    cases stack with
    | nil => cases turn
    | cons entry rest =>
      obtain ⟨value, level⟩ := entry
      rw [step_eq bounded] at turn
      split at turn
      · next refused =>
        obtain rfl := Except.error.inj turn
        refine ⟨⟨fun done => (nomatch done), fun fits => ?_⟩, by simp⟩
        obtain ⟨count, level_fits⟩ := fits
        have deep := level_fits _ List.mem_cons_self
        have rest_nodes := length_le_nodesAll (rest.map Prod.fst)
        have child_nodes := length_le_nodesAll (children value)
        rw [pending, List.map_cons, nodesAll, nodes_eq] at count
        rw [depth_eq] at deep
        rw [List.length_map] at rest_nodes
        dsimp only at count deep
        omega
      · cases turn
  | case2 s turn =>
    obtain ⟨stack, visited⟩ := s
    cases stack with
    | nil => exact ⟨⟨fun _ => ⟨bounded.within, fun _ member => nomatch member⟩, fun _ => rfl⟩, by simp⟩
    | cons entry rest =>
      rw [step_eq bounded] at turn
      split at turn <;> cases turn
  | case3 s s' turn ih =>
    have later := ih (bounded_step bounded turn)
    obtain ⟨stack, visited⟩ := s
    cases stack with
    | nil => cases turn
    | cons entry rest =>
      obtain ⟨value, level⟩ := entry
      rw [step_eq bounded] at turn
      split at turn
      · cases turn
      · next fits =>
        obtain rfl := Option.some.inj (Except.ok.inj turn)
        exact ⟨later.1.trans (fits_step (by omega)), later.2⟩

/-- The states the loop comes to. -/
inductive Reached (limits : AxNativeLimits) (value : Json) : State → Prop where
  | start : Reached limits value (start value)
  | step {s s' : State} (before : Reached limits value s) (turn : step limits s = .ok (some s')) : Reached limits value s'

theorem Reached.bounded {value : Json} {s : State} (reached : Reached limits value s) : Bounded limits s := by
  induction reached with
  | start => exact bounded_start value
  | step _ turn ih => exact bounded_step ih turn

theorem step_no_overflow {s : State} (bounded : Bounded limits s) : step limits s ≠ .error .overflow := by
  obtain ⟨stack, visited⟩ := s
  cases stack with
  | nil => exact fun turn => nomatch turn
  | cons entry rest =>
    rw [step_eq bounded]
    split <;> exact fun turn => nomatch turn

/-- A payload passes exactly if it has no more nodes and no more levels than the limits allow; on
the way nothing waits beyond the limit, and no counter overflows. -/
theorem check_shape_exact (value : Json) (limits : AxNativeLimits) :
    (checkShape value limits = .ok () ↔
      nodes value ≤ limits.nodes.toNat ∧ depth value ≤ limits.depth.toNat) ∧
      (∀ s, Reached limits value s → s.visited + s.stack.length ≤ max limits.nodes.toNat 1 ∧
        step limits s ≠ .error .overflow) ∧
      checkShape value limits ≠ .error .overflow := by
  have run := walk_ok_iff (@bounded_start limits value)
  refine ⟨?_, fun s reached => ⟨reached.bounded.room, step_no_overflow reached.bounded⟩, run.2⟩
  rw [checkShape, run.1]
  simp only [Fits, start, pending, List.map_cons, List.map_nil, nodesAll, Nat.zero_add, Nat.add_zero,
    List.mem_singleton, forall_eq]
  omega

end Exactness

end Axonyx.Runtime.Native
