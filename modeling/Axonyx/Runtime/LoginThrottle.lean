import Axonyx.Table
import Axonyx.Windows

/-! Process-local admission control before login work. One call is one step under the
bucket lock; a run is any sequence of calls whose clock never goes back. `hash` stands
for the SHA-256 digest of the key. -/
namespace Axonyx.Runtime.LoginThrottle

def maxKeyBytes : Nat := 1024

inductive AxLoginThrottleError where
  | invalidConfiguration
  | invalidKey
  | limited (retryAfter : Nat)
  | unavailable
  deriving DecidableEq, Repr

structure Bucket where
  start : Nat
  attempts : Nat
  deriving DecidableEq, Repr

/-- `bucket.attempts += 1`. -/
def Bucket.count (bucket : Bucket) : Bucket := { bucket with attempts := bucket.attempts + 1 }

/-- A throttle that `new` accepted: no bound is zero. -/
structure AxLoginThrottle where
  attempts : Nat
  window : Nat
  maxKeys : Nat
  attempts_pos : 0 < attempts
  window_pos : 0 < window
  maxKeys_pos : 0 < maxKeys

def AxLoginThrottle.new (attempts window maxKeys : Nat) :
    Except AxLoginThrottleError AxLoginThrottle :=
  if h : attempts = 0 ∨ window = 0 ∨ maxKeys = 0 then .error .invalidConfiguration
  else .ok ⟨attempts, window, maxKeys, by omega, by omega, by omega⟩

/-- The bucket map behind its lock; a poisoned lock refuses every call. -/
structure State (H : Type) where
  buckets : Table H Bucket
  poisoned : Bool

def State.initial (H : Type) : State H := ⟨Table.empty, false⟩

section Step

variable {H : Type} [DecidableEq H]

/-- `saturating_duration_since` is truncated subtraction on instants. -/
def AxLoginThrottle.live (throttle : AxLoginThrottle) (now : Nat) (bucket : Bucket) : Bool :=
  now - bucket.start < throttle.window

def AxLoginThrottle.remaining (throttle : AxLoginThrottle) (now : Nat) (bucket : Bucket) : Nat :=
  throttle.window - (now - bucket.start)

def acquireAt (throttle : AxLoginThrottle) (hash : String → H) (state : State H) (key : String)
    (now : Nat) : Except AxLoginThrottleError Unit × State H :=
  if key.isEmpty || key.utf8ByteSize > maxKeyBytes then (.error .invalidKey, state)
  else if state.poisoned then (.error .unavailable, state)
  else
    let digest := hash key
    let buckets := state.buckets.retain fun _ bucket => throttle.live now bucket
    match buckets.get? digest with
    | some bucket =>
      if bucket.attempts ≥ throttle.attempts then
        (.error (.limited (throttle.remaining now bucket)), { state with buckets })
      else
        (.ok (), { state with buckets := buckets.modify digest Bucket.count })
    | none =>
      if buckets.size ≥ throttle.maxKeys then
        let retryAfter := (buckets.entries.map fun e => throttle.remaining now e.2).min?
        (.error (.limited (retryAfter.getD throttle.window)), { state with buckets })
      else
        (.ok (), { state with buckets := buckets.insert digest ⟨now, 1⟩ })

variable (throttle : AxLoginThrottle) (hash : String → H) (state : State H) (key : String)
  (now : Nat)

/-- Buckets whose window still runs at `now`. -/
def retained : Table H Bucket :=
  state.buckets.retain fun _ bucket => throttle.live now bucket

/-- The call reaches the bucket map. -/
structure Reaches : Prop where
  nonempty : key.isEmpty = false
  short : key.utf8ByteSize ≤ maxKeyBytes
  healthy : state.poisoned = false

/-- Everything one call can do. -/
inductive Outcome : Except AxLoginThrottleError Unit → State H → Prop
  | invalid : Outcome (.error .invalidKey) state
  | unavailable : Outcome (.error .unavailable) state
  | limited (reaches : Reaches state key) (bucket : Bucket)
      (found : (retained throttle state now).get? (hash key) = some bucket)
      (spent : throttle.attempts ≤ bucket.attempts) :
      Outcome (.error (.limited (throttle.remaining now bucket)))
        { state with buckets := retained throttle state now }
  | counted (reaches : Reaches state key) (bucket : Bucket)
      (found : (retained throttle state now).get? (hash key) = some bucket)
      (room : bucket.attempts < throttle.attempts) :
      Outcome (.ok ())
        { state with buckets := (retained throttle state now).modify (hash key) Bucket.count }
  | full (reaches : Reaches state key) (retryAfter : Nat)
      (absent : (retained throttle state now).get? (hash key) = none)
      (crowded : throttle.maxKeys ≤ (retained throttle state now).size)
      (least : (((retained throttle state now).entries.map fun e =>
        throttle.remaining now e.2).min?).getD throttle.window = retryAfter) :
      Outcome (.error (.limited retryAfter)) { state with buckets := retained throttle state now }
  | opened (reaches : Reaches state key)
      (absent : (retained throttle state now).get? (hash key) = none)
      (room : (retained throttle state now).size < throttle.maxKeys) :
      Outcome (.ok ())
        { state with buckets := (retained throttle state now).insert (hash key) ⟨now, 1⟩ }

theorem acquireAt_outcome : Outcome throttle hash state key now
    (acquireAt throttle hash state key now).1 (acquireAt throttle hash state key now).2 := by
  unfold acquireAt
  split
  · exact .invalid
  next valid =>
  split
  · exact .unavailable
  next healthy =>
  have reaches : Reaches state key := by
    simp only [Bool.or_eq_true, decide_eq_true_eq, not_or, Bool.not_eq_true, Nat.not_lt] at valid
    exact ⟨valid.1, valid.2, by simpa using healthy⟩
  dsimp only
  split
  next bucket found =>
    split
    next spent => exact .limited reaches bucket found spent
    next room => exact .counted reaches bucket found (by omega)
  next absent =>
    split
    next crowded => exact .full reaches _ absent crowded rfl
    next room => exact .opened reaches absent (Nat.not_le.mp room)

theorem get?_retained {digest : H} {bucket : Bucket} :
    (retained throttle state now).get? digest = some bucket ↔
      state.buckets.get? digest = some bucket ∧ now < bucket.start + throttle.window := by
  have positive := throttle.window_pos
  simp only [retained, Table.get?_retain, Option.filter_eq_some_iff, AxLoginThrottle.live,
    decide_eq_true_eq]
  exact and_congr_right fun _ => by omega

end Step

section Runs

variable {H : Type} [DecidableEq H]

structure Call where
  key : String
  now : Nat
  result : Except AxLoginThrottleError Unit

/-- Runs of one throttle, newest call first, with the last clock reading. -/
inductive Run (throttle : AxLoginThrottle) (hash : String → H) : List Call → State H → Nat → Prop
  | initial : Run throttle hash [] (State.initial H) 0
  | call {trace : List Call} {state : State H} {last : Nat} (run : Run throttle hash trace state last)
      (key : String) (now : Nat) (later : last ≤ now) :
      Run throttle hash (⟨key, now, (acquireAt throttle hash state key now).1⟩ :: trace)
        (acquireAt throttle hash state key now).2 now

/-- Times of the admitted calls of one key, newest first. -/
def admitted (key : String) : List Call → List Nat
  | [] => []
  | call :: trace =>
    if call.key = key ∧ call.result = .ok () then call.now :: admitted key trace
    else admitted key trace

variable {throttle : AxLoginThrottle} {hash : String → H}

/-- The bucket of a key is its newest window; without a bucket every window is over. -/
def Tracks (throttle : AxLoginThrottle) (groups : List (Nat × List Nat)) (last : Nat) :
    Option Bucket → Prop
  | some bucket => ∃ events rest,
      groups = (bucket.start, events) :: rest ∧ events.length = bucket.attempts
  | none => ∀ g ∈ groups, g.1 + throttle.window ≤ last

structure Invariant (throttle : AxLoginThrottle) (hash : String → H) (trace : List Call)
    (state : State H) (last : Nat) : Prop where
  size : state.buckets.size ≤ throttle.maxKeys
  started : ∀ digest bucket, state.buckets.get? digest = some bucket → bucket.start ≤ last
  windows : ∀ key, ∃ groups, Windows.Spaced throttle.window throttle.attempts groups ∧
    Windows.times groups = admitted key trace ∧
    Tracks throttle groups last (state.buckets.get? (hash key))

theorem Tracks.ended {groups : List (Nat × List Nat)} {last now : Nat}
    (spaced : Windows.Spaced throttle.window throttle.attempts groups) (later : last ≤ now)
    {bucket : Option Bucket} (tracks : Tracks throttle groups last bucket)
    (past : ∀ b, bucket = some b → b.start + throttle.window ≤ now) :
    ∀ g ∈ groups, g.1 + throttle.window ≤ now := by
  intro g member
  cases bucket with
  | none =>
    have bound := tracks g member
    omega
  | some b =>
    obtain ⟨events, rest, rfl, _⟩ := tracks
    have bound := past b rfl
    rcases List.mem_cons.mp member with rfl | member
    · exact bound
    · have apart := (List.pairwise_cons.mp spaced.apart).1 g member
      simp only at apart
      omega

/-- Dropping the ended buckets keeps every key on its windows. -/
theorem tracks_retained {state : State H} {last now : Nat} {digest : H}
    {groups : List (Nat × List Nat)}
    (spaced : Windows.Spaced throttle.window throttle.attempts groups) (later : last ≤ now)
    (tracks : Tracks throttle groups last (state.buckets.get? digest)) :
    Tracks throttle groups now ((retained throttle state now).get? digest) := by
  cases found : (retained throttle state now).get? digest with
  | some bucket =>
    obtain ⟨before, _⟩ := (get?_retained throttle state now).mp found
    rw [before] at tracks
    exact tracks
  | none =>
    refine tracks.ended spaced later fun b present => ?_
    by_contra running
    rw [(get?_retained throttle state now).mpr ⟨present, by omega⟩] at found
    contradiction

theorem acquireAt_invariant (injective : Function.Injective hash) {trace : List Call}
    {state : State H} {last now : Nat} (valid : Invariant throttle hash trace state last)
    (later : last ≤ now) {key : String} {result : Except AxLoginThrottleError Unit}
    {next : State H} (outcome : Outcome throttle hash state key now result next) :
    Invariant throttle hash (⟨key, now, result⟩ :: trace) next now := by
  have small : (retained throttle state now).size ≤ throttle.maxKeys :=
    Nat.le_trans (Table.size_retain_le _ _) valid.size
  have kept (other : String) : ∃ groups, Windows.Spaced throttle.window throttle.attempts groups ∧
      Windows.times groups = admitted other trace ∧
      Tracks throttle groups now ((retained throttle state now).get? (hash other)) := by
    obtain ⟨groups, spaced, times, tracks⟩ := valid.windows other
    exact ⟨groups, spaced, times, tracks_retained spaced later tracks⟩
  have untouched (other : String) : ∃ groups, Windows.Spaced throttle.window throttle.attempts groups ∧
      Windows.times groups = admitted other trace ∧
      Tracks throttle groups now (state.buckets.get? (hash other)) := by
    obtain ⟨groups, spaced, times, tracks⟩ := valid.windows other
    refine ⟨groups, spaced, times, ?_⟩
    cases found : state.buckets.get? (hash other) with
    | some bucket =>
      rw [found] at tracks
      exact tracks
    | none =>
      rw [found] at tracks
      intro g member
      have bound := tracks g member
      omega
  have started (digest : H) (bucket : Bucket)
      (found : (retained throttle state now).get? digest = some bucket) : bucket.start ≤ now :=
    Nat.le_trans
      (valid.started digest bucket ((get?_retained throttle state now).mp found).1) later
  have unmoved (digest : H) (bucket : Bucket)
      (found : state.buckets.get? digest = some bucket) : bucket.start ≤ now :=
    Nat.le_trans (valid.started digest bucket found) later
  cases outcome with
  | invalid => exact ⟨valid.size, unmoved, by simpa [admitted] using untouched⟩
  | unavailable => exact ⟨valid.size, unmoved, by simpa [admitted] using untouched⟩
  | limited _ bucket found spent => exact ⟨small, started, by simpa [admitted] using kept⟩
  | full _ retryAfter absent crowded least => exact ⟨small, started, by simpa [admitted] using kept⟩
  | counted _ bucket found room =>
    refine ⟨by simpa using small, fun digest b present => ?_, fun other => ?_⟩
    · simp only [Table.get?_modify] at present
      split at present
      next =>
        obtain ⟨b', present', rfl⟩ := Option.map_eq_some_iff.mp present
        exact started digest b' present'
      next => exact started digest b present
    obtain ⟨groups, spaced, times, tracks⟩ := kept other
    by_cases same : key = other
    · subst same
      rw [found] at tracks
      obtain ⟨events, rest, rfl, count⟩ := tracks
      have running := ((get?_retained throttle state now).mp found).2
      refine ⟨_, spaced.join (started _ _ found) running (by omega), ?_, ?_⟩
      · simpa [admitted, Windows.times] using times
      · simp only [Table.get?_modify, ↓reduceIte, found, Option.map_some]
        exact ⟨_, _, rfl, by simp [Bucket.count, count]⟩
    · have apart : hash other ≠ hash key := fun h => same (injective h).symm
      exact ⟨groups, spaced, by simpa [admitted, same] using times, by simpa [apart] using tracks⟩
  | opened _ absent room =>
    refine ⟨?_, fun digest b present => ?_, fun other => ?_⟩
    · rw [Table.size_insert_absent _ absent]
      exact room
    · simp only [Table.get?_insert] at present
      split at present
      next =>
        obtain rfl := Option.some.inj present
        exact Nat.le_refl _
      next => exact started digest b present
    · obtain ⟨groups, spaced, times, tracks⟩ := kept other
      by_cases same : key = other
      · subst same
        rw [absent] at tracks
        refine ⟨_, spaced.start throttle.window_pos throttle.attempts_pos tracks, ?_, ?_⟩
        · simpa [admitted, Windows.times] using times
        · simp only [Table.get?_insert, ↓reduceIte]
          exact ⟨_, _, rfl, rfl⟩
      · have apart : hash other ≠ hash key := fun h => same (injective h).symm
        exact ⟨groups, spaced, by simpa [admitted, same] using times, by simpa [apart] using tracks⟩

theorem Run.invariant (injective : Function.Injective hash) {trace : List Call} {state : State H}
    {last : Nat} (run : Run throttle hash trace state last) :
    Invariant throttle hash trace state last := by
  induction run with
  | initial =>
    exact ⟨Nat.zero_le _, by simp [State.initial],
      fun _ => ⟨[], .nil, rfl, by simp [Tracks, State.initial]⟩⟩
  | call run key now later ih =>
    exact acquireAt_invariant injective ih later (acquireAt_outcome throttle hash _ key now)

/-- A rejected call leaves every bucket whose window still runs as it was. -/
theorem rejected_keeps_live {state next : State H} {key : String} {now : Nat}
    {error : AxLoginThrottleError} (outcome : Outcome throttle hash state key now (.error error) next)
    {digest : H} {bucket : Bucket} (running : now < bucket.start + throttle.window) :
    next.buckets.get? digest = some bucket ↔ state.buckets.get? digest = some bucket := by
  cases outcome with
  | invalid => exact Iff.rfl
  | unavailable => exact Iff.rfl
  | limited _ _ _ _ => simp [get?_retained, running]
  | full _ _ _ _ _ => simp [get?_retained, running]

/-- Once a bucket has ended, a key without a live bucket is admitted. -/
theorem acquireAt_after_reclaim {state : State H} {key : String} {now : Nat} {digest : H}
    {bucket : Bucket} (reaches : Reaches state key) (small : state.buckets.size ≤ throttle.maxKeys)
    (absent : (retained throttle state now).get? (hash key) = none)
    (present : state.buckets.get? digest = some bucket)
    (ended : bucket.start + throttle.window ≤ now) :
    (acquireAt throttle hash state key now).1 = .ok () := by
  have dropped : throttle.live now bucket = false := by
    simp only [AxLoginThrottle.live, decide_eq_false_iff_not]
    omega
  have shrinks : (retained throttle state now).size < state.buckets.size :=
    Table.size_retain_lt present dropped
  have room : ¬ throttle.maxKeys ≤ (retained throttle state now).size := by omega
  unfold retained at absent room
  simp [acquireAt, reaches.nonempty, Nat.not_lt.mpr reaches.short, reaches.healthy, absent, room]

/-- The call that was told to wait succeeds when it waited. -/
theorem retry_admitted {state next : State H} {key : String} {now retryAfter : Nat}
    (small : state.buckets.size ≤ throttle.maxKeys)
    (started : ∀ digest bucket, state.buckets.get? digest = some bucket → bucket.start ≤ now)
    (outcome : Outcome throttle hash state key now (.error (.limited retryAfter)) next) :
    (acquireAt throttle hash next key (now + retryAfter)).1 = .ok () := by
  have bounded : (retained throttle state now).size ≤ throttle.maxKeys :=
    Nat.le_trans (Table.size_retain_le _ _) small
  cases outcome with
  | limited reaches bucket found spent =>
    have running := (get?_retained throttle state now).mp found
    have before := started _ _ running.1
    have ended : bucket.start + throttle.window ≤ now + throttle.remaining now bucket := by
      simp only [AxLoginThrottle.remaining]
      omega
    refine acquireAt_after_reclaim ⟨reaches.nonempty, reaches.short, reaches.healthy⟩ bounded ?_
      found ended
    cases later : (retained throttle { state with buckets := retained throttle state now }
        (now + throttle.remaining now bucket)).get? (hash key) with
    | none => rfl
    | some other =>
      obtain ⟨same, alive⟩ := (get?_retained throttle _ _).mp later
      obtain rfl := Option.some.inj (found.symm.trans same)
      omega
  | full reaches retryAfter absent crowded least =>
    have positive := throttle.maxKeys_pos
    obtain ⟨shortest, minimal⟩ : ∃ shortest, ((retained throttle state now).entries.map fun e =>
        throttle.remaining now e.2).min? = some shortest := by
      apply Option.ne_none_iff_exists'.mp
      rw [ne_eq, List.min?_eq_none_iff, List.map_eq_nil_iff]
      intro empty
      rw [Table.size, empty, List.length_nil] at crowded
      omega
    rw [minimal, Option.getD_some] at least
    subst least
    obtain ⟨⟨digest, bucket⟩, member, rfl⟩ := List.mem_map.mp (List.min?_mem minimal)
    have found := Table.get?_eq_some_iff.mpr member
    have running := (get?_retained throttle state now).mp found
    have before := started _ _ running.1
    have ended : bucket.start + throttle.window ≤ now + throttle.remaining now bucket := by
      simp only [AxLoginThrottle.remaining]
      omega
    refine acquireAt_after_reclaim ⟨reaches.nonempty, reaches.short, reaches.healthy⟩ bounded ?_
      found ended
    simp only [retained, Table.get?_retain] at absent ⊢
    simp [absent]

/-- In every run: a live window and every interval as long as one keep their quotas, the
table keeps its bound, and a rejection moves nothing and names an honest wait. -/
theorem run_bounds_attempts (injective : Function.Injective hash) {trace : List Call}
    {state : State H} {last : Nat} (run : Run throttle hash trace state last) :
    state.buckets.size ≤ throttle.maxKeys ∧
    (∀ key,
      (∀ bucket, state.buckets.get? (hash key) = some bucket →
        Windows.countIn bucket.start last (admitted key trace) ≤ throttle.attempts) ∧
      ∀ first final, final ≤ first + throttle.window →
        Windows.countIn first final (admitted key trace) ≤ 2 * throttle.attempts) ∧
    ∀ key now, last ≤ now → ∀ error, (acquireAt throttle hash state key now).1 = .error error →
      (∀ digest bucket, now < bucket.start + throttle.window →
        ((acquireAt throttle hash state key now).2.buckets.get? digest = some bucket ↔
          state.buckets.get? digest = some bucket)) ∧
      ∀ retryAfter, error = .limited retryAfter →
        (acquireAt throttle hash (acquireAt throttle hash state key now).2 key
          (now + retryAfter)).1 = .ok () := by
  have valid := run.invariant injective
  refine ⟨valid.size, fun key => ?_, fun key now later error rejected => ?_⟩
  · obtain ⟨groups, spaced, times, tracks⟩ := valid.windows key
    rw [← times]
    refine ⟨fun bucket found => ?_, fun first final short => Windows.countIn_interval spaced short⟩
    rw [found] at tracks
    obtain ⟨events, rest, rfl, count⟩ := tracks
    exact Nat.le_trans (Windows.countIn_newest last spaced) (spaced.bounded _ List.mem_cons_self)
  · have outcome := acquireAt_outcome throttle hash state key now
    rw [rejected] at outcome
    refine ⟨fun digest bucket running => rejected_keeps_live outcome running, ?_⟩
    rintro retryAfter rfl
    exact retry_admitted valid.size
      (fun digest bucket found => Nat.le_trans (valid.started digest bucket found) later) outcome

end Runs

/-- One attempt for one key at a time, in windows of ten. -/
def single : AxLoginThrottle := ⟨1, 10, 1, by decide, by decide, by decide⟩

def afterOne : State String := (acquireAt single id (State.initial String) "one" 0).2

theorem run_bounds_attempts_crowded :
    (acquireAt single id afterOne "two" 3).1 = .error (.limited 7) ∧
    (acquireAt single id (acquireAt single id afterOne "two" 3).2 "two" (3 + 7)).1 = .ok () := by
  have fresh : Run single id [] (State.initial String) 0 := .initial
  have run := fresh.call "one" 0 (Nat.le_refl 0)
  have limited : (acquireAt single id afterOne "two" 3).1 = .error (.limited 7) := by decide
  have bounds := run_bounds_attempts Function.injective_id run
  exact ⟨limited, (bounds.2.2 "two" 3 (by decide) _ limited).2 7 rfl⟩

end Axonyx.Runtime.LoginThrottle
