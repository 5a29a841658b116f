import Axonyx.Interleave
import Axonyx.Runtime.Http
import Axonyx.Table

/-! Sessions and the three stores that hold them. Every store operation is one atomic
access; all three stores refine one table of leases, which is all that the lifetime of a
session depends on. -/
namespace Axonyx.Runtime.Session

variable {D J : Type}

structure AxSession (D : Type) where
  id : String
  subject : String
  data : D
  createdAtUnix : Int64
  lastSeenAtUnix : Int64
  expiresAtUnix : Int64

def AxSession.isExpired (session : AxSession D) (nowUnix : Int64) : Bool :=
  session.expiresAtUnix ≤ nowUnix

/-- `i64::saturating_add`. -/
def saturatingAdd (a b : Int64) : Int64 := .ofIntClamp (a.toInt + b.toInt)

def saturatingSub (a b : Int64) : Int64 := .ofIntClamp (a.toInt - b.toInt)

/-- Saturating at the top only makes a sum smaller. -/
theorem saturatingAdd_le {a b : Int64} (nonneg : 0 ≤ b.toInt) :
    (saturatingAdd a b).toInt ≤ a.toInt + b.toInt := by
  have low := a.minValue_le_toInt
  unfold saturatingAdd Int64.ofIntClamp
  split
  next =>
    split
    next => simp
    next above => omega
  next below => omega

/-- The store interface: one constructor for each method. -/
inductive StoreOp (D : Type) where
  | save (session : AxSession D)
  | load (sessionId : String)
  | delete (sessionId : String)
  | refreshLive (session : AxSession D) (nowUnix : Int64)

abbrev StoreOp.Result : StoreOp D → Type
  | .save _ => AxRuntimeResult Unit
  | .load _ => AxRuntimeResult (Option (AxSession D))
  | .delete _ => AxRuntimeResult Unit
  | .refreshLive _ _ => AxRuntimeResult Bool

def StoreOp.failure : (op : StoreOp D) → AxRuntimeError → op.Result
  | .save _, error => .error error
  | .load _, error => .error error
  | .delete _, error => .error error
  | .refreshLive _ _, error => .error error

/-- A store: what each operation returns and leaves behind when it is carried out. -/
structure AxSessionStore (S D : Type) where
  initial : S
  step : (op : StoreOp D) → S → op.Result × S

/-- An access is carried out, or fails before it (lock, pool, connection), or is carried
out and its answer is lost. -/
inductive Exec {S : Type} (store : AxSessionStore S D) : (op : StoreOp D) → S → op.Result → S → Prop
  | done (op : StoreOp D) (state : S) : Exec store op state (store.step op state).1 (store.step op state).2
  | failed (op : StoreOp D) (state : S) (error : AxRuntimeError) :
      Exec store op state (op.failure error) state
  | lost (op : StoreOp D) (state : S) (error : AxRuntimeError) :
      Exec store op state (op.failure error) (store.step op state).2

section Memory

/-- The map behind the lock; every session is stored under its own id. -/
structure MemorySessions (D : Type) where
  table : Table String (AxSession D)
  keyed : ∀ id session, table.get? id = some session → session.id = id

namespace MemorySessions

def get? (sessions : MemorySessions D) (id : String) : Option (AxSession D) := sessions.table.get? id

def insert (sessions : MemorySessions D) (session : AxSession D) : MemorySessions D where
  table := sessions.table.insert session.id session
  keyed id found present := by
    rw [Table.get?_insert] at present
    split at present
    next same => exact Option.some.inj present ▸ same.symm
    next => exact sessions.keyed id found present

def remove (sessions : MemorySessions D) (sessionId : String) : MemorySessions D where
  table := sessions.table.erase sessionId
  keyed id found present := by
    rw [Table.get?_erase] at present
    split at present
    next => cases present
    next => exact sessions.keyed id found present

/-- `current` with the later of both readings and expiries. -/
def later (session current : AxSession D) : AxSession D :=
  { current with
    lastSeenAtUnix := max current.lastSeenAtUnix session.lastSeenAtUnix
    expiresAtUnix := max current.expiresAtUnix session.expiresAtUnix }

def extend (sessions : MemorySessions D) (session : AxSession D) : MemorySessions D where
  table := sessions.table.modify session.id (later session)
  keyed id found present := by
    rw [Table.get?_modify] at present
    split at present
    next =>
      obtain ⟨current, held, rfl⟩ := Option.map_eq_some_iff.mp present
      exact sessions.keyed id current held
    next => exact sessions.keyed id found present

end MemorySessions

def AxMemorySessionStore.refreshLive (sessions : MemorySessions D) (session : AxSession D)
    (nowUnix : Int64) : AxRuntimeResult Bool × MemorySessions D :=
  match sessions.get? session.id with
  | none => (.ok false, sessions)
  | some current =>
    if current.isExpired nowUnix || current.createdAtUnix ≠ session.createdAtUnix then
      (.ok false, sessions)
    else (.ok true, sessions.extend session)

def AxMemorySessionStore (D : Type) : AxSessionStore (MemorySessions D) D where
  initial := ⟨Table.empty, by simp⟩
  step
    | .save session, sessions => (.ok (), sessions.insert session)
    | .load sessionId, sessions => (.ok (sessions.get? sessionId), sessions)
    | .delete sessionId, sessions => (.ok (), sessions.remove sessionId)
    | .refreshLive session nowUnix, sessions =>
      AxMemorySessionStore.refreshLive sessions session nowUnix

end Memory

section Sql

/-- A row of `ax_sessions` under its primary key; `J` is the type of `data_json`. -/
structure Row (J : Type) where
  subject : String
  dataJson : J
  createdAtUnix : Int64
  lastSeenAtUnix : Int64
  expiresAtUnix : Int64

/-- The part of `serde_json` that a store uses. -/
structure DataCodec (D J : Type) where
  serialize : D → Except String J
  deserialize : J → Except String D

/-- `WHERE id = ? AND created_at_unix = ? AND expires_at_unix > ?`. -/
def refreshable (session : AxSession D) (nowUnix : Int64) (id : String) (row : Row J) : Bool :=
  id = session.id && row.createdAtUnix = session.createdAtUnix && row.expiresAtUnix > nowUnix

/-- `SET last_seen_at_unix = MAX(…, ?), expires_at_unix = MAX(…, ?)`. -/
def Row.later (session : AxSession D) (row : Row J) : Row J :=
  { row with
    lastSeenAtUnix := max row.lastSeenAtUnix session.lastSeenAtUnix
    expiresAtUnix := max row.expiresAtUnix session.expiresAtUnix }

def sqlRefreshLive (rows : Table String (Row J)) (session : AxSession D) (nowUnix : Int64) :
    AxRuntimeResult Bool × Table String (Row J) :=
  let updated := rows.update (refreshable session nowUnix) (Row.later session)
  (.ok (updated.2 == 1), updated.1)

/-- `INSERT … ON CONFLICT(id) DO UPDATE SET …`. -/
def sqlSave (codec : DataCodec D J) (rows : Table String (Row J)) (session : AxSession D) :
    AxRuntimeResult Unit × Table String (Row J) :=
  match codec.serialize session.data with
  | .error error => (.error (.message s!"session data serialization failed: {error}"), rows)
  | .ok dataJson =>
    (.ok (), rows.insert session.id ⟨session.subject, dataJson, session.createdAtUnix,
      session.lastSeenAtUnix, session.expiresAtUnix⟩)

/-- `SELECT … WHERE id = ?`. -/
def sqlLoad (codec : DataCodec D J) (rows : Table String (Row J)) (sessionId : String) :
    AxRuntimeResult (Option (AxSession D)) :=
  match rows.get? sessionId with
  | none => .ok none
  | some row =>
    match codec.deserialize row.dataJson with
    | .error error => .error (.message s!"stored session data is invalid: {error}")
    | .ok data => .ok (some ⟨sessionId, row.subject, data, row.createdAtUnix, row.lastSeenAtUnix,
        row.expiresAtUnix⟩)

/-- Both SQL stores issue the same statements; they differ in the type of `data_json`. -/
def sqlSessionStore (codec : DataCodec D J) : AxSessionStore (Table String (Row J)) D where
  initial := Table.empty
  step
    | .save session, rows => sqlSave codec rows session
    | .load sessionId, rows => (sqlLoad codec rows sessionId, rows)
    | .delete sessionId, rows => (.ok (), rows.erase sessionId)
    | .refreshLive session nowUnix, rows => sqlRefreshLive rows session nowUnix

/-- `data_json TEXT`, through `to_string` and `from_str`. -/
def AxSqliteSessionStore (text : DataCodec D String) := sqlSessionStore text

/-- `data_json JSONB`, through `to_value` and `from_value`. -/
def AxPostgresSessionStore (value : DataCodec D J) := sqlSessionStore value

end Sql

section Leases

/-- What the lifetime of a session depends on. -/
structure Lease where
  created : Int64
  expires : Int64

abbrev Leases := String → Option Lease

def AxSession.lease (session : AxSession D) : Lease := ⟨session.createdAtUnix, session.expiresAtUnix⟩

def Row.lease (row : Row J) : Lease := ⟨row.createdAtUnix, row.expiresAtUnix⟩

def Leases.set (leases : Leases) (id : String) (lease : Option Lease) : Leases :=
  Function.update leases id lease

/-- What an access may do to the leases. -/
inductive LeaseStep : (op : StoreOp D) → Leases → op.Result → Leases → Prop
  | unchanged (op : StoreOp D) (leases : Leases) (error : AxRuntimeError) :
      LeaseStep op leases (op.failure error) leases
  | saved (session : AxSession D) (leases : Leases) (result : AxRuntimeResult Unit) :
      LeaseStep (.save session) leases result (leases.set session.id (some session.lease))
  | found (session : AxSession D) (leases : Leases) (present : leases session.id = some session.lease) :
      LeaseStep (.load session.id) leases (.ok (some session)) leases
  | absent (id : String) (leases : Leases) (missing : leases id = none) :
      LeaseStep (.load id) leases (.ok none) leases
  | deleted (id : String) (leases : Leases) (result : AxRuntimeResult Unit) :
      LeaseStep (.delete id) leases result (leases.set id none)
  | extended (session : AxSession D) (nowUnix : Int64) (leases : Leases) (lease : Lease)
      (result : AxRuntimeResult Bool) (present : leases session.id = some lease)
      (live : nowUnix < lease.expires) (same : lease.created = session.createdAtUnix) :
      LeaseStep (.refreshLive session nowUnix) leases result
        (leases.set session.id (some ⟨lease.created, max lease.expires session.expiresAtUnix⟩))
  | refused (session : AxSession D) (nowUnix : Int64) (leases : Leases)
      (result : AxRuntimeResult Bool) (denied : result ≠ .ok true) :
      LeaseStep (.refreshLive session nowUnix) leases result leases

/-- A store refines the lease table it shows. -/
structure Refines {S : Type} (store : AxSessionStore S D) (view : S → Leases) : Prop where
  initial : view store.initial = fun _ => none
  step : ∀ op state result next, Exec store op state result next →
    LeaseStep op (view state) result (view next)

def memoryView (sessions : MemorySessions D) : Leases := fun id =>
  (sessions.get? id).map AxSession.lease

def sqlView (rows : Table String (Row J)) : Leases := fun id => (rows.get? id).map Row.lease

/-- A lost answer tells no more than a failure. -/
theorem LeaseStep.lose {op : StoreOp D} {leases next : Leases} {result : op.Result}
    (step : LeaseStep op leases result next) (error : AxRuntimeError) :
    LeaseStep op leases (op.failure error) next := by
  cases step with
  | unchanged => exact .unchanged _ _ error
  | saved session => exact .saved session leases _
  | found session present => exact .unchanged _ _ error
  | absent id missing => exact .unchanged _ _ error
  | deleted id => exact .deleted id leases _
  | extended session nowUnix _ lease _ present live same =>
    exact .extended session nowUnix leases lease _ present live same
  | refused session nowUnix result denied => exact .unchanged _ _ error

theorem Refines.of_step {S : Type} {store : AxSessionStore S D} {view : S → Leases}
    (initial : view store.initial = fun _ => none)
    (step : ∀ op state, LeaseStep op (view state) (store.step op state).1
      (view (store.step op state).2)) : Refines store view := by
  refine ⟨initial, fun op state result next executed => ?_⟩
  cases executed with
  | done => exact step op state
  | failed error => exact .unchanged op _ error
  | lost error => exact (step op state).lose error

/-- The leases of a table that gained, changed or lost one key. -/
theorem view_set {V : Type} (lease : V → Lease) {before after : Table String V} (id : String)
    (value : Option V)
    (moved : ∀ other, after.get? other = if other = id then value else before.get? other) :
    (fun other => (after.get? other).map lease) =
      Leases.set (fun other => (before.get? other).map lease) id (value.map lease) := by
  funext other
  rw [moved, Leases.set, Function.update_apply]
  split <;> rfl

theorem memory_refines : Refines (AxMemorySessionStore D) memoryView := by
  refine .of_step rfl fun op sessions => ?_
  cases op with
  | save session =>
    have view : memoryView (sessions.insert session) =
        (memoryView sessions).set session.id (some session.lease) :=
      view_set AxSession.lease session.id (some session) fun other => Table.get?_insert _ _ _ _
    exact view ▸ .saved session _ _
  | load sessionId =>
    cases found : sessions.get? sessionId with
    | none =>
      simp only [AxMemorySessionStore, found]
      exact .absent _ _ (by simp [memoryView, found])
    | some session =>
      obtain rfl := sessions.keyed sessionId session found
      simp only [AxMemorySessionStore, found]
      exact .found session _ (by simp [memoryView, found])
  | delete sessionId =>
    have view : memoryView (sessions.remove sessionId) =
        (memoryView sessions).set sessionId none :=
      view_set AxSession.lease sessionId none fun other => Table.get?_erase _ _ _
    exact view ▸ .deleted sessionId _ _
  | refreshLive session nowUnix =>
    simp only [AxMemorySessionStore, AxMemorySessionStore.refreshLive]
    cases found : sessions.get? session.id with
    | none => exact .refused session nowUnix _ _ (by simp)
    | some current =>
      dsimp only
      split
      next => exact .refused session nowUnix _ _ (by simp)
      next live =>
        simp only [AxSession.isExpired, Bool.or_eq_true, decide_eq_true_eq, not_or,
          Decidable.not_not, Int64.not_le] at live
        have view : memoryView (sessions.extend session) =
            (memoryView sessions).set session.id (some (MemorySessions.later session current).lease) :=
          view_set AxSession.lease session.id (some (MemorySessions.later session current))
            fun other => by
              rw [MemorySessions.extend, Table.get?_modify]
              split
              next same =>
                have held : sessions.table.get? session.id = some current := found
                rw [same, held, Option.map_some]
              next => rfl
        rw [view]
        exact .extended session nowUnix _ current.lease _ (by simp [memoryView, found]) live.1 live.2

theorem sql_refines (codec : DataCodec D J) : Refines (sqlSessionStore codec) sqlView := by
  refine .of_step rfl fun op rows => ?_
  cases op with
  | save session =>
    simp only [sqlSessionStore, sqlSave]
    cases codec.serialize session.data with
    | error error => exact .unchanged (.save session) _ _
    | ok dataJson =>
      dsimp only
      have view : sqlView (rows.insert session.id ⟨session.subject, dataJson, session.createdAtUnix,
          session.lastSeenAtUnix, session.expiresAtUnix⟩) =
          (sqlView rows).set session.id (some session.lease) :=
        view_set Row.lease session.id (some _) fun other => Table.get?_insert _ _ _ _
      exact view ▸ .saved session _ _
  | load sessionId =>
    simp only [sqlSessionStore, sqlLoad]
    cases found : rows.get? sessionId with
    | none => exact .absent _ _ (by simp [sqlView, found])
    | some row =>
      dsimp only
      cases codec.deserialize row.dataJson with
      | error error => exact .unchanged (.load sessionId) _ _
      | ok data =>
        exact .found ⟨sessionId, row.subject, data, _, _, _⟩ _ (by simp [sqlView, found]; rfl)
  | delete sessionId =>
    have view : sqlView (rows.erase sessionId) = (sqlView rows).set sessionId none :=
      view_set Row.lease sessionId none fun other => Table.get?_erase _ _ _
    exact view ▸ .deleted sessionId _ _
  | refreshLive session nowUnix =>
    have selects (id : String) (row : Row J) (chosen : refreshable session nowUnix id row = true) :
        id = session.id := by
      simp only [refreshable, Bool.and_eq_true, decide_eq_true_eq] at chosen
      exact chosen.1.1
    simp only [sqlSessionStore, sqlRefreshLive, Table.update_count selects]
    cases matched : (rows.get? session.id).any (refreshable session nowUnix session.id) with
    | false =>
      have view : sqlView (rows.update (refreshable session nowUnix) (Row.later session)).1 =
          sqlView rows := by
        funext id
        simp only [sqlView, Table.get?_update]
        cases found : rows.get? id with
        | none => rfl
        | some row =>
          cases chosen : refreshable session nowUnix id row with
          | false => simp [chosen]
          | true =>
            obtain rfl := selects id row chosen
            simp [found, chosen] at matched
      exact view ▸ .refused session nowUnix _ _ (by simp)
    | true =>
      obtain ⟨row, found, chosen⟩ := (Option.any_eq_true _ _).mp matched
      have view : sqlView (rows.update (refreshable session nowUnix) (Row.later session)).1 =
          (sqlView rows).set session.id (some (Row.later session row).lease) :=
        view_set Row.lease session.id (some (Row.later session row)) fun other => by
          rw [Table.get?_update]
          split
          next same => simp [same, found, chosen]
          next apart =>
            cases rows.get? other with
            | none => rfl
            | some held =>
              have unselected : ¬ refreshable session nowUnix other held = true :=
                fun chosen => apart (selects other held chosen)
              simp [unselected]
      simp only [refreshable, Bool.and_eq_true, decide_eq_true_eq] at chosen
      rw [view]
      exact .extended session nowUnix _ row.lease _ (by simp [sqlView, found]) chosen.2 chosen.1.2

end Leases

end Axonyx.Runtime.Session
