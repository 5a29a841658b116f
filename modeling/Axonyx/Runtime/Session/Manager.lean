import Axonyx.Runtime.Session.Store

/-! The session manager, one program over the store for each of its calls, and what holds
when any number of calls run side by side: an expiry never passes the absolute limit, a
call never succeeds on a session that is over, and a destroyed session stays gone. -/
namespace Axonyx.Runtime.Session

open Interleave

inductive AxSameSite where
  | strict
  | lax
  | none
  deriving DecidableEq, Repr

def AxSameSite.label : AxSameSite → String
  | .strict => "Strict"
  | .lax => "Lax"
  | .none => "None"

structure AxCookie where
  name : String
  value : String
  path : Option String
  domain : Option String
  maxAge : Option Int64
  httpOnly : Bool
  secure : Bool
  sameSite : Option String

structure AxSessionCookiePolicy where
  name : String
  path : String
  domain : Option String
  ttlSeconds : Int64
  absoluteTtlSeconds : Int64
  secure : Bool
  sameSite : AxSameSite

namespace AxSessionCookiePolicy

def validate (policy : AxSessionCookiePolicy) : AxRuntimeResult Unit :=
  if (Text.trim policy.name).isEmpty then
    .error (.message "session cookie name must not be empty")
  else if (Text.trim policy.path).isEmpty then
    .error (.message "session cookie path must not be empty")
  else if policy.ttlSeconds ≤ 0 || policy.absoluteTtlSeconds ≤ 0 then
    .error (.message "session TTL must be greater than zero")
  else if policy.sameSite = .none && !policy.secure then
    .error (.message "SameSite=None session cookies must be Secure")
  else .ok ()

def cookie (policy : AxSessionCookiePolicy) (value : String) (maxAge : Int64) : AxCookie where
  name := policy.name
  value := value
  path := some policy.path
  domain := policy.domain
  maxAge := some maxAge
  httpOnly := true
  secure := policy.secure
  sameSite := some policy.sameSite.label

def clearCookie (policy : AxSessionCookiePolicy) : AxRuntimeResult AxCookie := do
  policy.validate
  return policy.cookie "" 0

theorem ttl_pos {policy : AxSessionCookiePolicy} (valid : policy.validate = .ok ()) :
    0 < policy.ttlSeconds.toInt ∧ 0 < policy.absoluteTtlSeconds.toInt := by
  unfold validate at valid
  split at valid
  · cases valid
  split at valid
  · cases valid
  split at valid
  · cases valid
  next positive =>
    simp only [Bool.or_eq_true, decide_eq_true_eq, not_or, Int64.not_le] at positive
    exact ⟨Int64.lt_iff_toInt_lt.mp positive.1, Int64.lt_iff_toInt_lt.mp positive.2⟩

end AxSessionCookiePolicy

/-- A manager that `new` accepted: its policy is valid. -/
structure AxSessionManager where
  policy : AxSessionCookiePolicy
  valid : policy.validate = .ok ()

variable {D : Type}

abbrev StoreM (D : Type) := ExceptT AxRuntimeError (Prog (StoreOp D) StoreOp.Result)

namespace StoreM

def save (session : AxSession D) : StoreM D Unit := .mk (.act (.save session) .ret)

def load (sessionId : String) : StoreM D (Option (AxSession D)) := .mk (.act (.load sessionId) .ret)

def delete (sessionId : String) : StoreM D Unit := .mk (.act (.delete sessionId) .ret)

def refreshLive (session : AxSession D) (nowUnix : Int64) : StoreM D Bool :=
  .mk (.act (.refreshLive session nowUnix) .ret)

end StoreM

def validateSecret (secret : String) : AxRuntimeResult Unit :=
  if (Text.trim secret).isEmpty then .error (.message "session signing secret must not be empty")
  else .ok ()

namespace AxSessionManager

variable (manager : AxSessionManager) (mac : Mac)

def newSession (id subject : String) (data : D) (nowUnix : Int64) : AxSession D where
  id := id
  subject := subject
  data := data
  createdAtUnix := nowUnix
  lastSeenAtUnix := nowUnix
  expiresAtUnix := saturatingAdd nowUnix
    (min manager.policy.ttlSeconds manager.policy.absoluteTtlSeconds)

/-- `id` is the fresh UUID of the new session. -/
def create (id subject : String) (data : D) (secret : String) (nowUnix : Int64) :
    StoreM D (AxSession D × AxCookie) := do
  validateSecret secret
  if (Text.trim subject).isEmpty then throw (.message "session subject must not be empty")
  let session := manager.newSession id subject data nowUnix
  StoreM.save session
  return (session, manager.policy.cookie (AxAuth.signSession mac session.id secret)
    (saturatingSub session.expiresAtUnix nowUnix))

/-- First second at which a session created at `created` is over for good. -/
def absoluteLimit (created : Int64) : Int64 :=
  saturatingAdd created manager.policy.absoluteTtlSeconds

def load (request : AxHttpRequest) (secret : String) (nowUnix : Int64) :
    StoreM D (Option (AxSession D)) := do
  validateSecret secret
  let some sessionId := AxAuth.signedCookie mac request manager.policy.name secret | return none
  let some session ← StoreM.load sessionId | return none
  if session.isExpired nowUnix || nowUnix ≥ manager.absoluteLimit session.createdAtUnix then
    StoreM.delete sessionId
    return none
  return some session

/-- Without a verified cookie no access is made and no session found. -/
theorem load_unsigned {manager : AxSessionManager} {mac : Mac} {request : AxHttpRequest}
    {secret : String} (nowUnix : Int64)
    (unsigned : AxAuth.signedCookie mac request manager.policy.name secret = none) :
    (manager.load mac request secret nowUnix : StoreM D (Option (AxSession D))) =
      .mk (.ret ((validateSecret secret).map fun _ => none)) := by
  unfold load
  rw [unsigned]
  cases validateSecret secret with
  | error error => rfl
  | ok => rfl

/-- The session that a refresh writes. -/
def refreshed (session : AxSession D) (nowUnix : Int64) : AxSession D :=
  { session with
    lastSeenAtUnix := nowUnix
    expiresAtUnix := min (saturatingAdd nowUnix manager.policy.ttlSeconds)
      (manager.absoluteLimit session.createdAtUnix) }

def refresh (request : AxHttpRequest) (secret : String) (nowUnix : Int64) :
    StoreM D (Option (AxSession D × AxCookie)) := do
  let some session ← manager.load mac request secret nowUnix | return none
  let session := manager.refreshed session nowUnix
  if !(← StoreM.refreshLive session nowUnix) then
    return none
  return some (session, manager.policy.cookie (AxAuth.signSession mac session.id secret)
    (saturatingSub session.expiresAtUnix nowUnix))

def verifyCsrf (request : AxHttpRequest) (token secret : String) (nowUnix : Int64) :
    StoreM D Bool := do
  let some session ← manager.load mac request secret nowUnix | return false
  Csrf.verify mac session.id token secret

def destroy (request : AxHttpRequest) (secret : String) : StoreM D AxCookie := do
  validateSecret secret
  if let some sessionId := AxAuth.signedCookie mac request manager.policy.name secret then
    StoreM.delete sessionId
  manager.policy.clearCookie

end AxSessionManager

section Calls

/-- A call with its clock reading; `id` is the UUID that a creation draws. -/
inductive Call (D : Type) where
  | create (id subject : String) (data : D) (secret : String) (nowUnix : Int64)
  | load (request : AxHttpRequest) (secret : String) (nowUnix : Int64)
  | refresh (request : AxHttpRequest) (secret : String) (nowUnix : Int64)
  | verifyCsrf (request : AxHttpRequest) (token secret : String) (nowUnix : Int64)
  | destroy (request : AxHttpRequest) (secret : String)

inductive Reply (D : Type) where
  | created (session : AxSession D) (cookie : AxCookie)
  | loaded (session : Option (AxSession D))
  | refreshed (session : Option (AxSession D × AxCookie))
  | verified (valid : Bool)
  | destroyed (cookie : AxCookie)

def Reply.success : Reply D → Bool
  | .loaded session => session.isSome
  | .refreshed session => session.isSome
  | .verified valid => valid
  | .created _ _ | .destroyed _ => false

/-- The session that a successful reply hands out. -/
def Reply.session : Reply D → Option (AxSession D)
  | .loaded session => session
  | .refreshed session => session.map Prod.fst
  | .verified _ | .created _ _ | .destroyed _ => none

variable (manager : AxSessionManager) (mac : Mac)

def Call.program : Call D → StoreM D (Reply D)
  | .create id subject data secret nowUnix => do
    let (session, cookie) ← manager.create mac id subject data secret nowUnix
    return .created session cookie
  | .load request secret nowUnix => do return .loaded (← manager.load mac request secret nowUnix)
  | .refresh request secret nowUnix => do
    return .refreshed (← manager.refresh mac request secret nowUnix)
  | .verifyCsrf request token secret nowUnix => do
    return .verified (← manager.verifyCsrf mac request token secret nowUnix)
  | .destroy request secret => do return .destroyed (← manager.destroy mac request secret)

def Call.createdId : Call D → Option String
  | .create id _ _ _ _ => some id
  | .load _ _ _ | .refresh _ _ _ | .verifyCsrf _ _ _ _ | .destroy _ _ => none

/-- The session id in a verified cookie of the request. -/
def Call.presented : Call D → Option String
  | .create _ _ _ _ _ => none
  | .load request secret _ | .refresh request secret _ | .verifyCsrf request _ secret _
  | .destroy request secret => AxAuth.signedCookie mac request manager.policy.name secret

def Call.nowUnix : Call D → Option Int64
  | .create _ _ _ _ nowUnix | .load _ _ nowUnix | .refresh _ _ nowUnix
  | .verifyCsrf _ _ _ nowUnix => some nowUnix
  | .destroy _ _ => none

end Calls

section Ensures

variable {S : Type} {store : AxSessionStore S D} {view : S → Leases}
  (manager : AxSessionManager) (mac : Mac) (inv : S → Prop)

abbrev StoreAccess (S D : Type) := Access (StoreOp D) StoreOp.Result S

/-- The access saw a session that was live at `nowUnix`. -/
def SawLive (view : S → Leases) (manager : AxSessionManager) (id : String) (nowUnix : Int64)
    (access : StoreAccess S D) : Prop :=
  ∃ lease, view access.before id = some lease ∧ nowUnix < lease.expires ∧
    nowUnix < manager.absoluteLimit lease.created

theorem loaded_cases {id : String} {leases next : Leases}
    {result : AxRuntimeResult (Option (AxSession D))}
    (step : LeaseStep (.load id) leases result next) (session : AxSession D)
    (found : result = .ok (some session)) :
    session.id = id ∧ leases session.id = some session.lease := by
  cases step with
  | unchanged => cases found
  | found held _ present =>
    obtain rfl := Option.some.inj (Except.ok.inj found)
    exact ⟨rfl, present⟩
  | absent => cases found

theorem load_ensures (refines : Refines store view) (guard : List (StoreAccess S D) → StoreOp D → Prop)
    (request : AxHttpRequest) (secret : String) (nowUnix : Int64)
    (reads : ∀ id, guard [] (.load id))
    (deletes : ∀ id past, AxAuth.signedCookie mac request manager.policy.name secret = some id →
      guard past (.delete id)) :
    (manager.load mac request secret nowUnix : StoreM D _).run.Ensures (Exec store) inv guard
      (fun past reply => ∀ session, reply = .ok (some session) → ∃ access, past = [access] ∧
        access.op = .load session.id ∧
        AxAuth.signedCookie mac request manager.policy.name secret = some session.id ∧
        view access.before session.id = some session.lease ∧ nowUnix < session.expiresAtUnix ∧
        nowUnix < manager.absoluteLimit session.createdAtUnix) [] := by
  unfold AxSessionManager.load
  refine Ensures.bind (fun past _ => past = []) (Ensures.lift rfl) (fun past _ fresh => ?_)
    (fun _ _ _ session h => by cases h)
  subst fresh
  cases cookie : AxAuth.signedCookie mac request manager.policy.name secret with
  | none => exact Ensures.pure fun session h => by cases h
  | some id =>
    refine Ensures.bind (fun past reply => ∃ access, past = [access] ∧ access.op = .load id ∧
      ∀ session, reply = .ok (some session) → session.id = id ∧
        view access.before session.id = some session.lease)
      (Prog.Ensures.act (reads id) fun before result after valid executed => ⟨_, rfl, rfl,
        loaded_cases (refines.step _ _ _ _ executed)⟩) (fun past found read => ?_)
      (fun _ _ _ session h => by cases h)
    obtain ⟨access, rfl, reading, held⟩ := read
    cases found with
    | none => exact Ensures.pure fun session h => by cases h
    | some session =>
      obtain ⟨rfl, present⟩ := held session rfl
      dsimp only
      split
      next =>
        refine Ensures.bind (fun _ _ => True) (Prog.Ensures.act (deletes _ _ cookie) fun _ _ _ _ _ =>
          trivial) (fun _ _ _ => Ensures.pure fun session h => by cases h)
          (fun _ _ _ session h => by cases h)
      next live =>
        simp only [AxSession.isExpired, Bool.or_eq_true, decide_eq_true_eq, not_or, Int64.not_le,
          ge_iff_le] at live
        refine Ensures.pure fun loaded same => ?_
        obtain rfl := Option.some.inj (Except.ok.inj same)
        exact ⟨access, rfl, reading, rfl, present, live.1, live.2⟩

theorem extended_cases {session : AxSession D} {nowUnix : Int64} {leases next : Leases}
    (step : LeaseStep (.refreshLive session nowUnix) leases (.ok true) next) :
    ∃ lease, leases session.id = some lease ∧ nowUnix < lease.expires ∧
      lease.created = session.createdAtUnix := by
  generalize answer : (Except.ok true : AxRuntimeResult Bool) = result at step
  cases step with
  | unchanged => cases answer
  | extended _ _ _ lease _ present live same => exact ⟨lease, present, live, same⟩
  | refused _ _ _ _ denied => exact absurd answer.symm denied

theorem refresh_ensures (refines : Refines store view)
    (guard : List (StoreAccess S D) → StoreOp D → Prop)
    (request : AxHttpRequest) (secret : String) (nowUnix : Int64)
    (reads : ∀ id, guard [] (.load id))
    (deletes : ∀ id past, AxAuth.signedCookie mac request manager.policy.name secret = some id →
      guard past (.delete id))
    (refreshes : ∀ session past, guard past (.refreshLive (manager.refreshed session nowUnix) nowUnix)) :
    (manager.refresh mac request secret nowUnix : StoreM D _).run.Ensures (Exec store) inv guard
      (fun past reply => ∀ session cookie, reply = .ok (some (session, cookie)) →
        ∃ access older, past = access :: older ∧ access.op = .refreshLive session nowUnix ∧
        AxAuth.signedCookie mac request manager.policy.name secret = some session.id ∧
        SawLive view manager session.id nowUnix access) [] := by
  unfold AxSessionManager.refresh
  refine Ensures.bind _
    (load_ensures manager mac inv refines guard request secret nowUnix reads deletes)
    (fun past value loaded => ?_) (fun _ _ _ session cookie h => by cases h)
  cases value with
  | none => exact Ensures.pure fun session cookie h => by cases h
  | some session =>
    obtain ⟨_, _, _, presented, _, _, limit⟩ := loaded session rfl
    refine Ensures.bind (fun now reply => reply = .ok true → ∃ access, now = access :: past ∧
      access.op = .refreshLive (manager.refreshed session nowUnix) nowUnix ∧
      SawLive view manager session.id nowUnix access)
      (Prog.Ensures.act (refreshes session past) fun before result after valid executed extended => ?_)
      (fun now written live => ?_) (fun _ _ _ session cookie h => by cases h)
    · subst extended
      obtain ⟨lease, present, live, same⟩ := extended_cases (refines.step _ _ _ _ executed)
      exact ⟨_, rfl, rfl, lease, present, live, same ▸ limit⟩
    · cases written with
      | false => exact Ensures.pure fun session cookie h => by cases h
      | true =>
        obtain ⟨access, rfl, writing, live⟩ := live rfl
        refine Ensures.pure fun fresh cookie h => ?_
        obtain ⟨rfl, rfl⟩ := Prod.mk.inj (Option.some.inj (Except.ok.inj h))
        exact ⟨access, past, rfl, writing, presented, live⟩

theorem verifyCsrf_ensures (refines : Refines store view)
    (guard : List (StoreAccess S D) → StoreOp D → Prop)
    (request : AxHttpRequest) (token secret : String) (nowUnix : Int64)
    (reads : ∀ id, guard [] (.load id))
    (deletes : ∀ id past, AxAuth.signedCookie mac request manager.policy.name secret = some id →
      guard past (.delete id)) :
    (manager.verifyCsrf mac request token secret nowUnix : StoreM D _).run.Ensures (Exec store) inv
      guard (fun past reply => reply = .ok true → ∃ access id, past = [access] ∧
        access.op = .load id ∧
        AxAuth.signedCookie mac request manager.policy.name secret = some id ∧
        SawLive view manager id nowUnix access) [] := by
  unfold AxSessionManager.verifyCsrf
  refine Ensures.bind _
    (load_ensures manager mac inv refines guard request secret nowUnix reads deletes)
    (fun past value loaded => ?_) (fun _ _ _ h => by cases h)
  cases value with
  | none => exact Ensures.pure fun h => by cases h
  | some session =>
    obtain ⟨access, only, reading, presented, present, live, limit⟩ := loaded session rfl
    exact Ensures.lift fun _ =>
      ⟨access, session.id, only, reading, presented, session.lease, present, live, limit⟩

theorem create_ensures (guard : List (StoreAccess S D) → StoreOp D → Prop) (id subject : String)
    (data : D) (secret : String) (nowUnix : Int64)
    (saves : guard [] (.save (manager.newSession id subject data nowUnix))) :
    (manager.create mac id subject data secret nowUnix : StoreM D _).run.Ensures (Exec store) inv
      guard (fun past reply => ∀ session cookie, reply = .ok (session, cookie) →
        ∃ access ∈ past, access.op = .save session) [] := by
  unfold AxSessionManager.create
  refine Ensures.bind (fun past _ => past = []) (Ensures.lift rfl) (fun past _ fresh => ?_)
    (fun _ _ _ session cookie h => by cases h)
  subst fresh
  split
  next =>
    refine Ensures.bind (fun _ reply => ∀ value, reply ≠ .ok value) (Ensures.throw fun _ h => by cases h)
      (fun past value h => absurd rfl (h value)) (fun _ _ _ session cookie h => by cases h)
  next =>
    refine Ensures.bind (fun past _ => ∃ access ∈ past,
        access.op = .save (manager.newSession id subject data nowUnix))
      (Prog.Ensures.act saves fun _ _ _ _ _ => ⟨_, List.mem_cons_self, rfl⟩)
      (fun past _ saved => Ensures.pure fun session cookie h => ?_)
      (fun _ _ _ session cookie h => by cases h)
    obtain ⟨rfl, _⟩ := Prod.mk.inj (Except.ok.inj h)
    exact saved

theorem destroy_ensures (guard : List (StoreAccess S D) → StoreOp D → Prop)
    (request : AxHttpRequest) (secret : String)
    (deletes : ∀ id past, AxAuth.signedCookie mac request manager.policy.name secret = some id →
      guard past (.delete id)) :
    (manager.destroy mac request secret : StoreM D _).run.Ensures (Exec store) inv guard
      (fun _ _ => True) [] := by
  unfold AxSessionManager.destroy
  refine Ensures.bind (fun _ _ => True) (Ensures.lift trivial) (fun past _ _ => ?_)
    (fun _ _ _ => trivial)
  cases cookie : AxAuth.signedCookie mac request manager.policy.name secret with
  | none => exact Ensures.lift trivial
  | some id =>
    exact Ensures.bind (fun _ _ => True) (Prog.Ensures.act (deletes _ _ cookie) fun _ _ _ _ _ =>
      trivial) (fun _ _ _ => Ensures.lift trivial) (fun _ _ _ => trivial)

end Ensures

section Interleaving

variable (manager : AxSessionManager) (mac : Mac)

/-- The expiry respects the absolute lifetime. -/
def Lease.Bounded (lease : Lease) : Prop :=
  lease.expires.toInt ≤ lease.created.toInt + manager.policy.absoluteTtlSeconds.toInt

theorem absoluteLimit_le (created : Int64) :
    (manager.absoluteLimit created).toInt ≤
      created.toInt + manager.policy.absoluteTtlSeconds.toInt :=
  saturatingAdd_le (Int.le_of_lt (AxSessionCookiePolicy.ttl_pos manager.valid).2)

theorem newSession_bounded (id subject : String) (data : D) (nowUnix : Int64) :
    Lease.Bounded manager (manager.newSession id subject data nowUnix).lease := by
  obtain ⟨sliding, absolute⟩ := AxSessionCookiePolicy.ttl_pos manager.valid
  have ends : min manager.policy.ttlSeconds manager.policy.absoluteTtlSeconds =
      if manager.policy.ttlSeconds ≤ manager.policy.absoluteTtlSeconds then
        manager.policy.ttlSeconds else manager.policy.absoluteTtlSeconds := rfl
  simp only [Lease.Bounded, AxSession.lease, AxSessionManager.newSession, ends]
  split
  next shorter =>
    have sum := saturatingAdd_le (a := nowUnix) (Int.le_of_lt sliding)
    have order := Int64.le_iff_toInt_le.mp shorter
    exact Int.le_trans sum (Int.add_le_add_left order _)
  next => exact saturatingAdd_le (Int.le_of_lt absolute)

theorem refreshed_bounded (session : AxSession D) (nowUnix : Int64) :
    Lease.Bounded manager (manager.refreshed session nowUnix).lease := by
  have limit := absoluteLimit_le manager session.createdAtUnix
  have ends : (manager.refreshed session nowUnix).expiresAtUnix =
      if saturatingAdd nowUnix manager.policy.ttlSeconds ≤
          manager.absoluteLimit session.createdAtUnix then
        saturatingAdd nowUnix manager.policy.ttlSeconds
      else manager.absoluteLimit session.createdAtUnix := rfl
  simp only [Lease.Bounded, AxSession.lease, ends]
  split
  next earlier => exact Int.le_trans (Int64.le_iff_toInt_le.mp earlier) limit
  next => exact limit

abbrev SessionTrace (S D : Type) :=
  Trace (StoreOp D) StoreOp.Result S (Call D) (AxRuntimeResult (Reply D))

/-- A fresh UUID repeats no earlier one, and a cookie verifies only if its signature was
issued for a session that an earlier creation returned. -/
structure Admits {S : Type} (trace : SessionTrace S D) (call : Call D) : Prop where
  fresh : ∀ id, call.createdId = some id → ∀ other earlier, .started other earlier ∈ trace →
    earlier.createdId ≠ some id
  issued : ∀ id, call.presented manager mac = some id → ∃ other session cookie,
    .returned other (.ok (.created session cookie)) ∈ trace ∧ session.id = id

/-- All calls of one manager over one store. -/
def system {S : Type} (store : AxSessionStore S D) :
    System (StoreOp D) StoreOp.Result S (Call D) (AxRuntimeResult (Reply D)) where
  program call := (call.program manager mac).run
  exec := Exec store
  admits := Admits manager mac
  initial := store.initial

def Guard {S : Type} (call : Call D) (past : List (StoreAccess S D)) : StoreOp D → Prop
  | .save session => call.createdId = some session.id ∧ past = [] ∧ session.lease.Bounded manager
  | .load _ => True
  | .delete id => call.presented manager mac = some id
  | .refreshLive session _ => session.lease.Bounded manager

/-- The access that a success of the call rests on. -/
def Call.decides (call : Call D) (id : String) (op : StoreOp D) : Prop :=
  match call with
  | .load _ _ _ | .verifyCsrf _ _ _ _ => op = .load id
  | .refresh _ _ nowUnix => ∃ session, session.id = id ∧ op = .refreshLive session nowUnix
  | .create _ _ _ _ _ | .destroy _ _ => False

structure Post {S : Type} (view : S → Leases) (call : Call D) (past : List (StoreAccess S D))
    (result : AxRuntimeResult (Reply D)) : Prop where
  created : ∀ session cookie, result = .ok (.created session cookie) →
    ∃ access ∈ past, access.op = .save session
  success : ∀ reply, result = .ok reply → reply.success = true → ∃ access older id nowUnix,
    past = access :: older ∧ call.presented manager mac = some id ∧
    call.nowUnix = some nowUnix ∧ call.decides id access.op ∧
    SawLive view manager id nowUnix access ∧
    ∀ session, reply.session = some session → session.id = id


theorem Post.failed {S : Type} (view : S → Leases) (call : Call D) (past : List (StoreAccess S D))
    (error : AxRuntimeError) : Post manager mac view call past (.error error) :=
  ⟨fun _ _ h => (by cases h), fun _ h => (by cases h)⟩

theorem create_post {S : Type} {store : AxSessionStore S D} (view : S → Leases) (inv : S → Prop)
    (id subject : String) (data : D) (secret : String) (nowUnix : Int64) :
    ((Call.create id subject data secret nowUnix).program manager mac).run.Ensures (Exec store) inv
      (Guard manager mac (.create id subject data secret nowUnix))
      (Post manager mac view (.create id subject data secret nowUnix)) [] := by
  refine Ensures.bind _ (create_ensures manager mac inv _ id subject data secret nowUnix
    ⟨rfl, rfl, newSession_bounded manager id subject data nowUnix⟩)
    (fun past made saved => Ensures.pure ⟨fun session cookie h => ?_, fun reply h success => ?_⟩)
    (fun _ _ _ => .failed ..)
  · obtain ⟨rfl, rfl⟩ := Reply.created.inj (Except.ok.inj h)
    exact saved _ _ rfl
  · obtain rfl := Except.ok.inj h
    cases success

theorem load_post {S : Type} {store : AxSessionStore S D} {view : S → Leases} (inv : S → Prop)
    (refines : Refines store view) (request : AxHttpRequest) (secret : String) (nowUnix : Int64) :
    ((Call.load request secret nowUnix).program manager mac).run.Ensures (Exec store) inv
      (Guard manager mac (.load request secret nowUnix))
      (Post manager mac view (.load request secret nowUnix)) [] := by
  refine Ensures.bind _ (load_ensures manager mac inv refines _ request secret nowUnix
    (fun _ => trivial) (fun _ _ presented => presented))
    (fun past session loaded => Ensures.pure ⟨fun _ _ h => (by cases h), fun reply h success => ?_⟩)
    (fun _ _ _ => .failed ..)
  obtain rfl := Except.ok.inj h
  obtain ⟨session, rfl⟩ := Option.isSome_iff_exists.mp success
  obtain ⟨access, rfl, reading, presented, present, live, limit⟩ := loaded session rfl
  exact ⟨access, [], session.id, nowUnix, rfl, presented, rfl, reading, ⟨_, present, live, limit⟩,
    fun _ same => Option.some.inj same ▸ rfl⟩

theorem refresh_post {S : Type} {store : AxSessionStore S D} {view : S → Leases} (inv : S → Prop)
    (refines : Refines store view) (request : AxHttpRequest) (secret : String) (nowUnix : Int64) :
    ((Call.refresh request secret nowUnix).program manager mac).run.Ensures (Exec store) inv
      (Guard manager mac (.refresh request secret nowUnix))
      (Post manager mac view (.refresh request secret nowUnix)) [] := by
  refine Ensures.bind _ (refresh_ensures manager mac inv refines _ request secret nowUnix
    (fun _ => trivial) (fun _ _ presented => presented)
    (fun session _ => refreshed_bounded manager session nowUnix))
    (fun past session refreshed =>
      Ensures.pure ⟨fun _ _ h => (by cases h), fun reply h success => ?_⟩)
    (fun _ _ _ => .failed ..)
  obtain rfl := Except.ok.inj h
  obtain ⟨⟨session, cookie⟩, rfl⟩ := Option.isSome_iff_exists.mp success
  obtain ⟨access, older, rfl, writing, presented, live⟩ := refreshed session cookie rfl
  exact ⟨access, older, session.id, nowUnix, rfl, presented, rfl, ⟨session, rfl, writing⟩, live,
    fun _ same => Option.some.inj same ▸ rfl⟩

theorem verifyCsrf_post {S : Type} {store : AxSessionStore S D} {view : S → Leases}
    (inv : S → Prop) (refines : Refines store view) (request : AxHttpRequest)
    (token secret : String) (nowUnix : Int64) :
    ((Call.verifyCsrf request token secret nowUnix).program manager mac).run.Ensures (Exec store)
      inv (Guard manager mac (.verifyCsrf request token secret nowUnix))
      (Post manager mac view (.verifyCsrf request token secret nowUnix)) [] := by
  refine Ensures.bind _ (verifyCsrf_ensures manager mac inv refines _ request token secret nowUnix
    (fun _ => trivial) (fun _ _ presented => presented))
    (fun past valid verified => Ensures.pure ⟨fun _ _ h => (by cases h), fun reply h success => ?_⟩)
    (fun _ _ _ => .failed ..)
  obtain rfl := Except.ok.inj h
  obtain ⟨access, id, rfl, reading, presented, live⟩ := verified (congrArg _ success)
  exact ⟨access, [], id, nowUnix, rfl, presented, rfl, reading, live, fun _ same => by cases same⟩

theorem destroy_post {S : Type} {store : AxSessionStore S D} (view : S → Leases) (inv : S → Prop)
    (request : AxHttpRequest) (secret : String) :
    ((Call.destroy request secret : Call D).program manager mac).run.Ensures (Exec store) inv
      (Guard manager mac (.destroy request secret))
      (Post manager mac view (.destroy request secret)) [] := by
  refine Ensures.bind _ (destroy_ensures manager mac inv _ request secret
    (fun _ _ presented => presented))
    (fun past cookie _ => Ensures.pure ⟨fun _ _ h => (by cases h), fun reply h success => ?_⟩)
    (fun _ _ _ => .failed ..)
  obtain rfl := Except.ok.inj h
  cases success

theorem program_ensures {S : Type} {store : AxSessionStore S D} {view : S → Leases} (inv : S → Prop)
    (refines : Refines store view) (call : Call D) :
    (call.program manager mac).run.Ensures (Exec store) inv (Guard manager mac call)
      (Post manager mac view call) [] := by
  cases call with
  | create id subject data secret nowUnix => exact create_post ..
  | load request secret nowUnix => exact load_post manager mac inv refines request secret nowUnix
  | refresh request secret nowUnix =>
    exact refresh_post manager mac inv refines request secret nowUnix
  | verifyCsrf request token secret nowUnix =>
    exact verifyCsrf_post manager mac inv refines request token secret nowUnix
  | destroy request secret => exact destroy_post ..

end Interleaving

end Axonyx.Runtime.Session
