import Axonyx.Runtime.Session.Manager

/-! The lifetime of sessions in every interleaving of the manager's calls. Ids are fresh,
so a row is saved once; after that it only grows or is deleted, and nothing brings it back. -/
namespace Axonyx.Runtime.Session

open Interleave

variable {D J S : Type}

/-- A lease of the next state was there before, or is the saved one, or was extended. -/
theorem LeaseStep.keeps {op : StoreOp D} {leases next : Leases} {result : op.Result}
    (step : LeaseStep op leases result next) {id : String} {lease' : Lease}
    (present : next id = some lease') :
    leases id = some lease' ∨
    (∃ session, op = .save session ∧ session.id = id ∧ lease' = session.lease) ∨
    ∃ session nowUnix lease, op = .refreshLive session nowUnix ∧ leases id = some lease ∧
      lease.created = session.createdAtUnix ∧
      lease' = ⟨lease.created, max lease.expires session.expiresAtUnix⟩ := by
  cases step with
  | unchanged | found | absent | refused => exact .inl present
  | saved session =>
    rw [Leases.set, Function.update_apply] at present
    split at present
    next same => exact .inr (.inl ⟨session, rfl, same.symm, (Option.some.inj present).symm⟩)
    next => exact .inl present
  | deleted =>
    rw [Leases.set, Function.update_apply] at present
    split at present
    next => cases present
    next => exact .inl present
  | extended session nowUnix _ lease _ held live same =>
    rw [Leases.set, Function.update_apply] at present
    split at present
    next here =>
      exact .inr (.inr ⟨session, nowUnix, lease, rfl, here ▸ held, same,
        (Option.some.inj present).symm⟩)
    next => exact .inl present

theorem le_max_left (a b : Int64) : a ≤ max a b := by
  have choice : max a b = if a ≤ b then b else a := rfl
  rw [choice]
  split
  next below => exact below
  next => exact Int64.le_refl a

/-- Unless it is deleted or saved again, a lease keeps its creation time and never gets
shorter. -/
theorem LeaseStep.grows {op : StoreOp D} {leases next : Leases} {result : op.Result}
    (step : LeaseStep op leases result next) {id : String} {lease : Lease}
    (present : leases id = some lease) :
    op = .delete id ∨ (∃ session, op = .save session ∧ session.id = id) ∨
    ∃ lease', next id = some lease' ∧ lease'.created = lease.created ∧
      lease.expires ≤ lease'.expires := by
  cases step with
  | unchanged | found | absent | refused =>
    exact .inr (.inr ⟨lease, present, rfl, Int64.le_refl lease.expires⟩)
  | saved session =>
    by_cases here : id = session.id
    · exact .inr (.inl ⟨session, rfl, here.symm⟩)
    · exact .inr (.inr ⟨lease, (Function.update_of_ne here _ _).trans present, rfl,
        Int64.le_refl lease.expires⟩)
  | deleted gone =>
    by_cases here : id = gone
    · exact .inl (here ▸ rfl)
    · exact .inr (.inr ⟨lease, (Function.update_of_ne here _ _).trans present, rfl,
        Int64.le_refl lease.expires⟩)
  | extended session nowUnix _ held _ found live same =>
    by_cases here : id = session.id
    · subst here
      obtain rfl := Option.some.inj (found.symm.trans present)
      exact .inr (.inr ⟨_, Function.update_self .., rfl, le_max_left _ _⟩)
    · exact .inr (.inr ⟨lease, (Function.update_of_ne here _ _).trans present, rfl,
        Int64.le_refl lease.expires⟩)

section Trace

variable (manager : AxSessionManager) (mac : Mac) (view : S → Leases)

/-- Some call has tried to save the session. -/
def Saved (trace : SessionTrace S D) (id : String) : Prop :=
  ∃ call access session, .accessed call access ∈ trace ∧ access.op = .save session ∧
    session.id = id

theorem Saved.later {trace : SessionTrace S D} {id : String} (saved : Saved trace id)
    (event : Event (StoreOp D) StoreOp.Result S (Call D) (AxRuntimeResult (Reply D))) :
    Saved (event :: trace) id := by
  obtain ⟨call, access, session, member, rest⟩ := saved
  exact ⟨call, access, session, List.mem_cons_of_mem _ member, rest⟩

structure Invariant (trace : SessionTrace S D) (state : S) : Prop where
  bounded : ∀ id lease, view state id = some lease → lease.Bounded manager
  saved : ∀ id lease, view state id = some lease → Saved trace id
  owned : ∀ call access session, .accessed call access ∈ trace → access.op = .save session →
    ∃ job, .started call job ∈ trace ∧ job.createdId = some session.id
  unique : ∀ call other job earlier id, .started call job ∈ trace → .started other earlier ∈ trace →
    job.createdId = some id → earlier.createdId = some id → call = other
  issued : ∀ call session cookie, .returned call (.ok (.created session cookie)) ∈ trace →
    Saved trace session.id
  presented : ∀ call job id, .started call job ∈ trace → job.presented manager mac = some id →
    Saved trace id
  removed : ∀ call access id, .accessed call access ∈ trace → access.op = .delete id →
    Saved trace id
  gone : ∀ call access id, .accessed call access ∈ trace → access.op = .delete id →
    view access.after id = none → view state id = none

variable {manager mac view}

/-- The one save of a creation happens before anything else knows the id. -/
theorem Invariant.unsaved {trace : SessionTrace S D} {state : S}
    (valid : Invariant manager mac view trace state) {call : Nat} {job : Call D}
    {session : AxSession D} (present : .started call job ∈ trace)
    (guard : Guard manager mac job (history call trace) (.save session)) :
    ¬ Saved trace session.id := by
  rintro ⟨other, access, earlier, member, writing, same⟩
  obtain ⟨creator, started, created⟩ := valid.owned other access earlier member writing
  obtain rfl := valid.unique call other job creator session.id present started guard.1 (same ▸ created)
  have known := mem_history_of_accessed member
  rw [guard.2.1] at known
  cases known

theorem Invariant.start {trace : SessionTrace S D} {state : S} {call : Nat} {job : Call D}
    (valid : Invariant manager mac view trace state) (admitted : Admits manager mac trace job) :
    Invariant manager mac view (.started call job :: trace) state where
  bounded := valid.bounded
  saved id lease present := (valid.saved id lease present).later _
  owned other access session member writing := by
    obtain ⟨creator, started, created⟩ :=
      valid.owned other access session (List.mem_of_ne_of_mem (by simp) member) writing
    exact ⟨creator, List.mem_cons_of_mem _ started, created⟩
  unique := by
    intro first second job₁ job₂ id started₁ started₂ created₁ created₂
    rcases List.mem_cons.mp started₁ with new₁ | old₁ <;>
      rcases List.mem_cons.mp started₂ with new₂ | old₂
    · cases new₁
      cases new₂
      rfl
    · cases new₁
      exact absurd created₂ (admitted.fresh id created₁ second job₂ old₂)
    · cases new₂
      exact absurd created₁ (admitted.fresh id created₂ first job₁ old₁)
    · exact valid.unique first second job₁ job₂ id old₁ old₂ created₁ created₂
  issued other session cookie member :=
    (valid.issued other session cookie (List.mem_of_ne_of_mem (by simp) member)).later _
  presented := by
    intro other earlier id started presented
    rcases List.mem_cons.mp started with new | old
    · cases new
      obtain ⟨creator, session, cookie, returned, rfl⟩ := admitted.issued id presented
      exact (valid.issued creator session cookie returned).later _
    · exact (valid.presented other earlier id old presented).later _
  removed other access id member deleting :=
    (valid.removed other access id (List.mem_of_ne_of_mem (by simp) member) deleting).later _
  gone other access id member := valid.gone other access id (List.mem_of_ne_of_mem (by simp) member)

theorem Invariant.finish {trace : SessionTrace S D} {state : S} {call : Nat} {job : Call D}
    {result : AxRuntimeResult (Reply D)} (valid : Invariant manager mac view trace state)
    (post : Post manager mac view job (history call trace) result) :
    Invariant manager mac view (.returned call result :: trace) state where
  bounded := valid.bounded
  saved id lease present := (valid.saved id lease present).later _
  owned other access session member writing := by
    obtain ⟨creator, started, created⟩ :=
      valid.owned other access session (List.mem_of_ne_of_mem (by simp) member) writing
    exact ⟨creator, List.mem_cons_of_mem _ started, created⟩
  unique first second job₁ job₂ id started₁ started₂ :=
    valid.unique first second job₁ job₂ id (List.mem_of_ne_of_mem (by simp) started₁)
      (List.mem_of_ne_of_mem (by simp) started₂)
  issued := by
    intro other session cookie member
    rcases List.mem_cons.mp member with new | old
    · cases new
      obtain ⟨access, known, writing⟩ := post.created session cookie rfl
      exact ⟨_, access, session, List.mem_cons_of_mem _ (accessed_of_mem_history known), writing, rfl⟩
    · exact (valid.issued other session cookie old).later _
  presented other earlier id started presented :=
    (valid.presented other earlier id (List.mem_of_ne_of_mem (by simp) started) presented).later _
  removed other access id member deleting :=
    (valid.removed other access id (List.mem_of_ne_of_mem (by simp) member) deleting).later _
  gone other access id member := valid.gone other access id (List.mem_of_ne_of_mem (by simp) member)

theorem max_le_of {a b : Int64} {limit : Int} (left : a.toInt ≤ limit) (right : b.toInt ≤ limit) :
    (max a b).toInt ≤ limit := by
  have choice : max a b = if a ≤ b then b else a := rfl
  rw [choice]
  split
  next => exact right
  next => exact left

theorem Invariant.access {trace : SessionTrace S D} {state next : S} {call : Nat} {job : Call D}
    {op : StoreOp D} {result : op.Result} (valid : Invariant manager mac view trace state)
    (present : .started call job ∈ trace) (guard : Guard manager mac job (history call trace) op)
    (step : LeaseStep op (view state) result (view next)) :
    Invariant manager mac view (.accessed call ⟨op, state, result, next⟩ :: trace) next where
  bounded := by
    intro id lease held
    rcases step.keeps held with old | ⟨session, rfl, _, rfl⟩ | ⟨session, nowUnix, old, rfl, was, same, rfl⟩
    · exact valid.bounded id lease old
    · exact guard.2.2
    · have limit : session.lease.Bounded manager := guard
      have before := valid.bounded id old was
      unfold Lease.Bounded AxSession.lease at *
      exact max_le_of before (same ▸ limit)
  saved := by
    intro id lease held
    rcases step.keeps held with old | ⟨session, rfl, rfl, _⟩ | ⟨_, _, old, _, was, _⟩
    · exact (valid.saved id lease old).later _
    · exact ⟨call, _, session, List.mem_cons_self, rfl, rfl⟩
    · exact (valid.saved id old was).later _
  owned := by
    intro other access session member writing
    rcases List.mem_cons.mp member with new | old
    · cases new
      obtain rfl : op = .save session := writing
      exact ⟨job, List.mem_cons_of_mem _ present, guard.1⟩
    · obtain ⟨creator, started, created⟩ := valid.owned other access session old writing
      exact ⟨creator, List.mem_cons_of_mem _ started, created⟩
  unique first second job₁ job₂ id started₁ started₂ :=
    valid.unique first second job₁ job₂ id (List.mem_of_ne_of_mem (by simp) started₁)
      (List.mem_of_ne_of_mem (by simp) started₂)
  issued other session cookie member :=
    (valid.issued other session cookie (List.mem_of_ne_of_mem (by simp) member)).later _
  presented other earlier id started presented :=
    (valid.presented other earlier id (List.mem_of_ne_of_mem (by simp) started) presented).later _
  removed := by
    intro other access id member deleting
    rcases List.mem_cons.mp member with new | old
    · cases new
      obtain rfl : op = .delete id := deleting
      exact (valid.presented call job id present guard).later _
    · exact (valid.removed other access id old deleting).later _
  gone := by
    intro other access id member deleting absent
    rcases List.mem_cons.mp member with new | old
    · cases new
      exact absent
    · have missing := valid.gone other access id old deleting absent
      cases held : view next id with
      | none => rfl
      | some lease =>
        rcases step.keeps held with was | ⟨session, rfl, rfl, _⟩ | ⟨_, _, lease', _, was, _⟩
        · exact absurd (was.symm.trans missing) (by simp)
        · exact absurd (valid.removed other access _ old deleting) (valid.unsaved present guard)
        · exact absurd (was.symm.trans missing) (by simp)

theorem session_sound {store : AxSessionStore S D} (refines : Refines store view) :
    Sound (system manager mac store) (fun _ => True) (Guard manager mac) (Post manager mac view)
      (Invariant manager mac view) where
  initial := by
    have empty (id : String) : view store.initial id = none := congrFun refines.initial id
    constructor <;> simp [system, empty]
  shared _ _ _ := trivial
  program call := program_ensures manager mac _ refines call
  start _ _ _ _ valid _ admitted := valid.start admitted
  access _ _ _ _ _ _ _ valid present guard executed :=
    valid.access present guard (refines.step _ _ _ _ executed)
  finish _ _ _ _ _ valid _ post := valid.finish post

/-- What a run of one manager's calls guarantees about every session. -/
structure LifetimeSafe (manager : AxSessionManager) (mac : Mac) (view : S → Leases)
    (trace : SessionTrace S D) (state : S) : Prop where
  expiry : ∀ id lease, view state id = some lease →
    lease.expires.toInt ≤ lease.created.toInt + manager.policy.absoluteTtlSeconds.toInt
  -- The deciding access saw the session live, and no earlier access had removed it.
  success : ∀ newer call reply older, trace = newer ++ .returned call (.ok reply) :: older →
    reply.success = true → ∃ job id nowUnix access between before lease,
      .started call job ∈ older ∧ job.presented manager mac = some id ∧
      job.nowUnix = some nowUnix ∧ (∀ session, reply.session = some session → session.id = id) ∧
      older = between ++ .accessed call access :: before ∧ history call between = [] ∧
      job.decides id access.op ∧ view access.before id = some lease ∧
      nowUnix.toInt < lease.expires.toInt ∧
      nowUnix.toInt < lease.created.toInt + manager.policy.absoluteTtlSeconds.toInt ∧
      ∀ other removal, .accessed other removal ∈ before → removal.op = .delete id →
        view removal.after id ≠ none
  growth : ∀ call access, .accessed call access ∈ trace → ∀ id lease,
    view access.before id = some lease → access.op = .delete id ∨
    ∃ lease', view access.after id = some lease' ∧ lease'.created = lease.created ∧
      lease.expires.toInt ≤ lease'.expires.toInt

theorem run_lifetime_safe {manager : AxSessionManager} {mac : Mac} {view : S → Leases}
    {store : AxSessionStore S D} (refines : Refines store view) {trace : SessionTrace S D}
    {state : S} {pending : Nat → Option (Prog (StoreOp D) StoreOp.Result (AxRuntimeResult (Reply D)))}
    (run : Run (system manager mac store) trace state pending) :
    LifetimeSafe manager mac view trace state where
  expiry := (run.reached (session_sound refines)).holds.bounded
  success := by
    intro newer call reply older split success
    obtain ⟨job, started, post⟩ := run.returned (session_sound refines) split
    obtain ⟨access, past, id, nowUnix, recent, presented, clock, decides, live, named⟩ :=
      post.success reply rfl success
    obtain ⟨lease, present, unexpired, limit⟩ := live
    obtain ⟨between, before, rfl, clear, _⟩ := history_eq_cons recent
    refine ⟨job, id, nowUnix, access, between, before, lease, started, presented, clock, named, rfl,
      clear, decides, present, Int64.lt_iff_toInt_lt.mp unexpired, ?_, ?_⟩
    · exact Int.lt_of_lt_of_le (Int64.lt_iff_toInt_lt.mp limit) (absoluteLimit_le manager _)
    · intro other removal member deleting removed
      have earlier : trace = (newer ++ .returned call (.ok reply) :: between) ++
          .accessed call access :: before := by rw [split, List.append_assoc]; rfl
      obtain ⟨valid, _⟩ := run.accessed (session_sound refines) earlier
      have gone := valid.gone other removal id member deleting removed
      rw [present] at gone
      cases gone
  growth := by
    intro call access member id lease present
    obtain ⟨newer, older, split⟩ := List.append_of_mem member
    obtain ⟨valid, executed, job, started, guard⟩ := run.accessed (session_sound refines) split
    rcases (refines.step _ _ _ _ executed).grows present with
      deleting | ⟨session, writing, rfl⟩ | ⟨lease', after, created, longer⟩
    · exact .inl deleting
    · rw [writing] at guard
      exact absurd (valid.saved _ _ present) (valid.unsaved started guard)
    · exact .inr ⟨lease', after, created, Int64.le_iff_toInt_le.mp longer⟩

/-- Lifetimes are safe over each of the three stores, however the calls interleave. -/
theorem session_lifetime_safe (manager : AxSessionManager) (mac : Mac)
    (text : DataCodec D String) (value : DataCodec D J) :
    (∀ trace state pending, Run (system manager mac (AxMemorySessionStore D)) trace state pending →
      LifetimeSafe manager mac memoryView trace state) ∧
    (∀ trace state pending, Run (system manager mac (AxSqliteSessionStore text)) trace state pending →
      LifetimeSafe manager mac sqlView trace state) ∧
    ∀ trace state pending, Run (system manager mac (AxPostgresSessionStore value)) trace state pending →
      LifetimeSafe manager mac sqlView trace state :=
  ⟨fun _ _ _ run => run_lifetime_safe memory_refines run,
    fun _ _ _ run => run_lifetime_safe (sql_refines text) run,
    fun _ _ _ run => run_lifetime_safe (sql_refines value) run⟩

end Trace

def shortPolicy : AxSessionCookiePolicy := ⟨"session", "/", none, 60, 100, true, .lax⟩

def shortManager : AxSessionManager := ⟨shortPolicy, rfl⟩

def echoMac : Mac := fun _ payload => payload

def emptyData (value : J) : DataCodec Unit J := ⟨fun _ => .ok value, fun _ => .ok ()⟩

/-- The cookie that the creation of `s1` hands out under `echoMac`. -/
def returning : AxHttpRequest := ⟨"GET", [("Cookie", "session=s1.7331")], [], none⟩

theorem session_lifetime_safe_load :
    ∃ (trace : SessionTrace (MemorySessions Unit) Unit) (state : MemorySessions Unit)
      (pending : _) (session : AxSession Unit),
      Run (system shortManager echoMac (AxMemorySessionStore Unit))
        (.returned 1 (.ok (.loaded (some session))) :: trace) state pending ∧
      LifetimeSafe shortManager echoMac memoryView
        (.returned 1 (.ok (.loaded (some session))) :: trace) state := by
  have fresh : Run (system shortManager echoMac (AxMemorySessionStore Unit)) [] _ _ := .initial
  have creating := fresh.start 0 (.create "s1" "user" () "k" 10) (by simp)
    ⟨by simp, fun id h => by cases h⟩
  have saved := creating.access 0 rfl
    (.done (.save (shortManager.newSession "s1" "user" () 10)) _)
  have created := saved.finish 0 rfl
  have loading := created.start 1 (.load returning "k" 20) (by simp)
    ⟨fun id h => (by cases h), fun id presented =>
      ⟨0, _, _, List.mem_cons_self, Option.some.inj presented⟩⟩
  have read := loading.access 1 rfl (.done (.load "s1") _)
  have loaded := read.finish 1 rfl
  have safe := session_lifetime_safe shortManager echoMac (emptyData "{}") (emptyData ())
  exact ⟨_, _, _, _, loaded, safe.1 _ _ _ loaded⟩

end Axonyx.Runtime.Session
