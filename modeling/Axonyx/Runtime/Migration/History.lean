import Axonyx.Ledger
import Axonyx.Outcome
import Axonyx.Runtime.Migration.Scanner

/-! Migrations and the table that records them. A call is one transaction: any of its statements
can fail, and then nothing of it stays. Scripts run on the database itself, so what a script
does to the record table is up to the script. -/
namespace Axonyx.Runtime.Migration

open Outcome (bind_ok)

section Validation

structure AxMigration where
  version : String
  name : String
  checksum : String
  upSql : String
  downSql : String
  deriving DecidableEq, Repr

structure AxAppliedMigration where
  version : String
  name : String
  checksum : String
  appliedAt : String
  executionMs : Nat
  deriving DecidableEq, Repr

def migrationSqlHasExecutableStatement (sql : String) : Bool :=
  ((Text.lines sql).map fun line => ((Text.splitOnce line "--").map Prod.fst).getD line).any fun code =>
    !(Text.trim code).isEmpty

def isHexDigit (c : Char) : Bool := c.isDigit || ('a' ≤ c && c ≤ 'f') || ('A' ≤ c && c ≤ 'F')

def validateMigration (migration : AxMigration) : AxRuntimeResult Unit :=
  let validVersion := !migration.version.isEmpty &&
    migration.version.toList.all fun ch => ch.isDigit || ch == '_' || ch == '-'
  let validName := !migration.name.isEmpty &&
    migration.name.toList.all fun ch => ch.isAlphanum || ch == '_' || ch == '-'
  let validChecksum := migration.checksum.utf8ByteSize == 64 && migration.checksum.toList.all isHexDigit
  if !validVersion || !validName || !validChecksum then
    .error (migrationError .invalidQuery migration.version
      "migration version, name, or SHA-256 checksum is invalid")
  else if !migrationSqlHasExecutableStatement migration.upSql ||
      !migrationSqlHasExecutableStatement migration.downSql then
    .error (migrationError .invalidQuery migration.version
      "migration requires non-empty up.sql and down.sql")
  else do
    rejectMigrationTransactionControl migration.version migration.upSql
    rejectMigrationTransactionControl migration.version migration.downSql

def validateRollbackTarget (migration : AxMigration) :
    Option (String × String) → AxRuntimeResult Unit
  | none => .error (migrationError .migrationConflict migration.version
      "database migration history is empty")
  | some (version, checksum) =>
    if version ≠ migration.version then
      .error (migrationError .migrationConflict migration.version
        ("only latest migration \x60" ++ version ++ "\x60 can be rolled back"))
    else if checksum ≠ migration.checksum then
      .error (migrationError .migrationChecksumMismatch migration.version
        "local migration differs from the applied migration")
    else .ok ()

def sqliteDatabasePath (url : String) : String :=
  if url = ":memory:" ∨ url = "sqlite::memory:" ∨ url = "sqlite://:memory:" then ":memory:"
  else match Text.stripPrefix url "sqlite:///" with
    | some path => "/" ++ path
    | none => match Text.stripPrefix url "sqlite://" with
      | some path => path
      | none => (Text.stripPrefix url "sqlite:").getD url

def ensurePersistentSqliteMigrationUrl (url : Option String) : AxRuntimeResult Unit :=
  if url.any fun url => sqliteDatabasePath url = ":memory:" then
    .error (migrationError .invalidQuery migrationsResource
      "database migrations require a persistent SQLite file")
  else .ok ()

end Validation

section Database

inductive Driver where
  | sqlite (url : Option String)
  | postgres

/-- The rows of the record table; `none`, while there is no such table. -/
abbrev History := Option (List AxAppliedMigration)

/-- What the database does with a script, and how it sorts texts. -/
structure Server (S : Type) where
  driver : Driver
  execute : String → S × History → Except AxDbError (S × History)
  collates : String → String → Bool

/-- The log says which scripts took effect, with the version and the checksum of each. -/
structure Database (S : Type) where
  schema : S
  history : History
  log : List (Ledger.Event String String)

/-- An open transaction: the database as it sees it, and the statements that will fail. -/
structure Session (S : Type) where
  database : Database S
  faults : List (Option AxDbError)

variable {S : Type}

/-- A statement that does not fail by itself. -/
def Session.attempt (session : Session S) : AxRuntimeResult (Session S) :=
  match session.faults with
  | some error :: _ => .error error
  | none :: faults => .ok { session with faults }
  | [] => .ok session

def noTable : AxDbError :=
  { AxDbError.new .unknownResource with
    resource := some migrationsResource, detail := some "no such table: _axonyx_migrations" }

def duplicateVersion : AxDbError :=
  { AxDbError.new .uniqueViolation with
    resource := some migrationsResource
    detail := some "UNIQUE constraint failed: _axonyx_migrations.version" }

def Session.rows (session : Session S) : AxRuntimeResult (List AxAppliedMigration) :=
  match session.database.history with
  | none => .error noTable
  | some rows => .ok rows

def Session.script (server : Server S) (sql : String) (event : Ledger.Event String String)
    (session : Session S) : AxRuntimeResult (Session S) := do
  let session ← session.attempt
  let (schema, history) ← server.execute sql (session.database.schema, session.database.history)
  return { session with database := ⟨schema, history, session.database.log ++ [event]⟩ }

def Session.withRows (session : Session S) (rows : List AxAppliedMigration) : Session S :=
  { session with database := { session.database with history := some rows } }

/-- `create table if not exists`. -/
def Session.ensureTable (session : Session S) : AxRuntimeResult (Session S) := do
  let session ← session.attempt
  return session.withRows (session.database.history.getD [])

def recorded (rows : List AxAppliedMigration) (version : String) : Option String :=
  (rows.find? fun row => row.version == version).map AxAppliedMigration.checksum

def Session.select (session : Session S) (version : String) :
    AxRuntimeResult (Option String × Session S) := do
  let session ← session.attempt
  let rows ← session.rows
  return (recorded rows version, session)

/-- The version is the primary key. -/
def Session.insert (session : Session S) (row : AxAppliedMigration) :
    AxRuntimeResult (Session S) := do
  let session ← session.attempt
  let rows ← session.rows
  if (recorded rows row.version).isSome then throw duplicateVersion
  else return session.withRows (rows ++ [row])

def Session.delete (session : Session S) (version : String) : AxRuntimeResult (Session S) := do
  let session ← session.attempt
  let rows ← session.rows
  return session.withRows (rows.filter fun row => row.version ≠ version)

/-- `order by version desc limit 1`. -/
def latest (collates : String → String → Bool) (rows : List AxAppliedMigration) :
    Option AxAppliedMigration :=
  rows.foldl (fun best row =>
    match best with
    | none => some row
    | some best => if collates best.version row.version then some row else some best) none

def Session.beginTransaction (server : Server S) (session : Session S) : AxRuntimeResult (Session S) := do
  match server.driver with
  | .sqlite url =>
    ensurePersistentSqliteMigrationUrl url
    if url.isNone then
      throw { AxDbError.new .connectionFailed with
        driver := some "sqlite", resource := some migrationsResource
        detail := some "missing sqlite database url" }
    else
      let session ← session.attempt
      session.attempt
  | .postgres =>
    let session ← session.attempt
    let session ← session.attempt
    session.attempt

end Database

section Operations

variable {S : Type} (server : Server S)

/-- When and how long a script ran. -/
abbrev Clock := AxMigration → String × Nat

def AxMigration.applied (migration : AxMigration) (clock : Clock) : AxAppliedMigration :=
  ⟨migration.version, migration.name, migration.checksum, (clock migration).1, (clock migration).2⟩

/-- SQLite reads the time of the record back; Postgres returns it from the insert. -/
def Session.readBack (session : Session S) : Driver → AxRuntimeResult (Session S)
  | .sqlite _ => session.attempt
  | .postgres => .ok session

/-- One round of the loop of `apply_migrations_locked`. -/
def applyOne (skipApplied : Bool) (clock : Clock) (migration : AxMigration) (session : Session S) :
    AxRuntimeResult (List AxAppliedMigration × Session S) := do
  let (existing, session) ← session.select migration.version
  match existing with
  | some checksum =>
    if checksum ≠ migration.checksum then
      throw (migrationError .migrationChecksumMismatch migration.version
        "migration version is already present with a different checksum")
    else if skipApplied then return ([], session)
    else throw (migrationError .migrationConflict migration.version
      "migration version is already present in database history")
  | none =>
    let session ← session.script server migration.upSql (.enter migration.version migration.checksum)
    let session ← session.insert (migration.applied clock)
    let session ← session.readBack server.driver
    return ([migration.applied clock], session)

def applyEach (skipApplied : Bool) (clock : Clock) :
    List AxMigration → Session S → AxRuntimeResult (List AxAppliedMigration × Session S)
  | [], session => .ok ([], session)
  | migration :: rest, session => do
    let (first, session) ← applyOne server skipApplied clock migration session
    let (others, session) ← applyEach skipApplied clock rest session
    return (first ++ others, session)

def validateAll : List AxMigration → AxRuntimeResult Unit
  | [] => .ok ()
  | migration :: rest => do
    validateMigration migration
    validateAll rest

/-- `sqlite_apply_migrations_locked` and `postgres_apply_migrations_locked`. -/
def applyMigrationsLocked (migrations : List AxMigration) (skipApplied : Bool) (clock : Clock)
    (session : Session S) : AxRuntimeResult (List AxAppliedMigration × Session S) := do
  validateAll migrations
  if migrations.isEmpty then return ([], session)
  else
    let session ← session.beginTransaction server
    let session ← session.ensureTable
    let (applied, session) ← applyEach server skipApplied clock migrations session
    let session ← session.attempt
    return (applied, session)

def rollbackLocked (migration : AxMigration) (session : Session S) :
    AxRuntimeResult (Session S) := do
  validateMigration migration
  let session ← session.beginTransaction server
  let session ← session.attempt
  if session.database.history.isNone then
    throw (migrationError .migrationConflict migration.version "database migration history is empty")
  else
    let session ← session.attempt
    let rows ← session.rows
    validateRollbackTarget migration
      ((latest server.collates rows).map fun row => (row.version, row.checksum))
    let session ← session.script server migration.downSql (.leave migration.version migration.checksum)
    let session ← session.delete migration.version
    session.attempt

inductive Call where
  | applyMigration (migration : AxMigration)
  | applyMigrations (migrations : List AxMigration)
  | rollbackMigration (migration : AxMigration)

/-- A call of some process, with the statements of it that fail and the time it takes. -/
structure Request where
  call : Call
  faults : List (Option AxDbError)
  clock : Clock

/-- A transaction stays open until its last statement; an error before leaves the database. -/
def transact {α : Type} (database : Database S) (faults : List (Option AxDbError))
    (body : Session S → AxRuntimeResult (α × Session S)) : AxRuntimeResult α × Database S :=
  match body ⟨database, faults⟩ with
  | .error error => (.error error, database)
  | .ok (result, session) => (.ok result, session.database)

/-- What a call answers, as a list of applied migrations, and the database behind it. -/
def perform (request : Request) (database : Database S) :
    AxRuntimeResult (List AxAppliedMigration) × Database S :=
  match request.call with
  | .applyMigration migration =>
    let (result, database) := transact database request.faults
      (applyMigrationsLocked server [migration] false request.clock)
    (result.bind fun applied =>
      match applied.getLast? with
      | some row => .ok [row]
      | none => .error (migrationError .migrationConflict migration.version
          "migration was already applied"), database)
  | .applyMigrations migrations =>
    transact database request.faults (applyMigrationsLocked server migrations true request.clock)
  | .rollbackMigration migration =>
    transact database request.faults fun session => do
      let session ← rollbackLocked server migration session
      return ([], session)

/-- The calls of all processes in the order in which the database takes them. -/
def performAll (requests : List Request) (database : Database S) : Database S :=
  requests.foldl (fun database request => (perform server request database).2) database

end Operations

section Steps

variable {S : Type} {server : Server S}

theorem attempt_ok {session later : Session S} (ran : session.attempt = .ok later) :
    later.database = session.database := by
  unfold Session.attempt at ran
  split at ran
  · cases ran
  · cases ran; rfl
  · cases ran; rfl

theorem rows_ok {session : Session S} {rows : List AxAppliedMigration}
    (ran : session.rows = .ok rows) : session.database.history = some rows := by
  unfold Session.rows at ran
  split at ran
  · cases ran
  · next shape =>
    cases ran
    exact shape

theorem beginTransaction_ok {session later : Session S}
    (ran : session.beginTransaction server = .ok later) : later.database = session.database := by
  unfold Session.beginTransaction at ran
  split at ran
  · obtain ⟨_, _, ran⟩ := bind_ok.mp ran
    split at ran
    · cases ran
    · obtain ⟨first, opened, ran⟩ := bind_ok.mp ran
      exact (attempt_ok ran).trans (attempt_ok opened)
  · obtain ⟨first, opened, ran⟩ := bind_ok.mp ran
    obtain ⟨second, begun, ran⟩ := bind_ok.mp ran
    exact (attempt_ok ran).trans ((attempt_ok begun).trans (attempt_ok opened))

theorem ensureTable_ok {session later : Session S} (ran : session.ensureTable = .ok later) :
    later.database =
      { session.database with history := some (session.database.history.getD []) } := by
  obtain ⟨first, tried, ran⟩ := bind_ok.mp ran
  cases ran
  rw [Session.withRows, attempt_ok tried]

theorem select_ok {session later : Session S} {version : String} {existing : Option String}
    (ran : session.select version = .ok (existing, later)) :
    later.database = session.database ∧
      ∃ rows, session.database.history = some rows ∧ recorded rows version = existing := by
  obtain ⟨first, tried, ran⟩ := bind_ok.mp ran
  obtain ⟨rows, table, ran⟩ := bind_ok.mp ran
  cases ran
  have same := attempt_ok tried
  exact ⟨same, rows, same ▸ rows_ok table, rfl⟩

/-- The script leaves the record table as it is. -/
def Server.Keeps (server : Server S) (sql : String) : Prop :=
  ∀ schema history schema' history',
    server.execute sql (schema, history) = .ok (schema', history') → history' = history

theorem script_ok {session later : Session S} {sql : String} {event : Ledger.Event String String}
    (keeps : server.Keeps sql) (ran : session.script server sql event = .ok later) :
    later.database.history = session.database.history ∧
      later.database.log = session.database.log ++ [event] := by
  obtain ⟨first, tried, ran⟩ := bind_ok.mp ran
  obtain ⟨⟨schema, history⟩, executed, ran⟩ := bind_ok.mp ran
  cases ran
  rw [← attempt_ok tried]
  exact ⟨keeps _ _ _ _ executed, rfl⟩

theorem insert_ok {session later : Session S} {row : AxAppliedMigration}
    (ran : session.insert row = .ok later) : ∃ rows, session.database.history = some rows ∧
      recorded rows row.version = none ∧ later.database.history = some (rows ++ [row]) ∧
      later.database.log = session.database.log := by
  obtain ⟨first, tried, ran⟩ := bind_ok.mp ran
  obtain ⟨rows, table, ran⟩ := bind_ok.mp ran
  split at ran
  · cases ran
  next fresh =>
  cases ran
  have same := attempt_ok tried
  exact ⟨rows, same ▸ rows_ok table, by simpa using fresh, rfl, by rw [Session.withRows, same]⟩

theorem delete_ok {session later : Session S} {version : String}
    (ran : session.delete version = .ok later) : ∃ rows, session.database.history = some rows ∧
      later.database.history = some (rows.filter fun row => row.version ≠ version) ∧
      later.database.log = session.database.log := by
  obtain ⟨first, tried, ran⟩ := bind_ok.mp ran
  obtain ⟨rows, table, ran⟩ := bind_ok.mp ran
  cases ran
  have same := attempt_ok tried
  exact ⟨rows, same ▸ rows_ok table, rfl, by rw [Session.withRows, same]⟩

theorem readBack_ok {session later : Session S} {driver : Driver}
    (ran : session.readBack driver = .ok later) : later.database = session.database := by
  cases driver with
  | sqlite url => exact attempt_ok ran
  | postgres => cases ran; rfl

theorem validateRollbackTarget_ok {migration : AxMigration} {target : Option (String × String)}
    (passed : validateRollbackTarget migration target = .ok ()) :
    target = some (migration.version, migration.checksum) := by
  unfold validateRollbackTarget at passed
  split at passed
  · cases passed
  · split at passed
    · cases passed
    next version =>
    split at passed
    · cases passed
    next checksum => rw [not_ne_iff.mp version, not_ne_iff.mp checksum]

theorem latest_mem {collates : String → String → Bool} {rows : List AxAppliedMigration}
    {row : AxAppliedMigration} (found : latest collates rows = some row) : row ∈ rows := by
  have best (start : Option AxAppliedMigration) (rows : List AxAppliedMigration) :
      ∀ row, rows.foldl (fun best row =>
        match best with
        | none => some row
        | some best => if collates best.version row.version then some row else some best) start =
          some row → start = some row ∨ row ∈ rows := by
    induction rows generalizing start with
    | nil => exact fun row same => .inl same
    | cons first rest ih =>
      intro row same
      rcases ih _ row same with here | later
      · cases start with
        | none => exact .inr (List.mem_cons.mpr (.inl (Option.some.inj here).symm))
        | some best =>
          dsimp only at here
          split at here
          · exact .inr (List.mem_cons.mpr (.inl (Option.some.inj here).symm))
          · exact .inl here
      · exact .inr (List.mem_cons_of_mem _ later)
  exact (best none rows row found).resolve_left (by simp)

end Steps

section Invariant

variable {S : Type} {server : Server S}

def records (rows : List AxAppliedMigration) : List (String × String) :=
  rows.map fun row => (row.version, row.checksum)

def Database.records (database : Database S) : List (String × String) :=
  Migration.records (database.history.getD [])

/-- The record table is what the log of the scripts leaves. -/
def Database.Exact (database : Database S) : Prop :=
  Ledger.replay database.log = some database.records

/-- The migration is on record under its checksum. -/
def Database.Holds (database : Database S) (migration : AxMigration) : Prop :=
  ∃ rows, database.history = some rows ∧ recorded rows migration.version = some migration.checksum

theorem recorded_none {rows : List AxAppliedMigration} {version : String} :
    recorded rows version = none ↔ version ∉ Ledger.keys (records rows) := by
  simp [recorded, Ledger.keys, records]

theorem recorded_append {rows : List AxAppliedMigration} {version checksum : String}
    (found : recorded rows version = some checksum) (later : List AxAppliedMigration) :
    recorded (rows ++ later) version = some checksum := by
  obtain ⟨row, first, rfl⟩ := Option.map_eq_some_iff.mp found
  rw [recorded, List.find?_append, first]
  rfl

theorem Database.Exact.enter {before after : Database S} {rows : List AxAppliedMigration}
    {row : AxAppliedMigration} (exact : before.Exact) (table : before.history = some rows)
    (fresh : recorded rows row.version = none) (history : after.history = some (rows ++ [row]))
    (log : after.log = before.log ++ [.enter row.version row.checksum]) : after.Exact := by
  have held : before.records = Migration.records rows := by rw [Database.records, table]; rfl
  have new : after.records = Migration.records rows ++ [(row.version, row.checksum)] := by
    rw [Database.records, history, Option.getD_some, Migration.records, List.map_append]
    rfl
  rw [Database.Exact, held] at exact
  rw [Database.Exact, new, log, Ledger.replay_snoc, exact]
  exact if_neg (recorded_none.mp fresh)

theorem Database.Exact.leave {before after : Database S} {rows : List AxAppliedMigration}
    {row : AxAppliedMigration} (exact : before.Exact) (table : before.history = some rows)
    (member : row ∈ rows)
    (history : after.history = some (rows.filter fun other => other.version ≠ row.version))
    (log : after.log = before.log ++ [.leave row.version row.checksum]) : after.Exact := by
  have held : before.records = Migration.records rows := by rw [Database.records, table]; rfl
  have left : after.records =
      (Migration.records rows).filter fun entry => entry.1 ≠ row.version := by
    rw [Database.records, history, Option.getD_some, Migration.records, Migration.records,
      List.filter_map]
    rfl
  rw [Database.Exact, held] at exact
  rw [Database.Exact, left, log, Ledger.replay_snoc, exact]
  exact if_pos (List.mem_map_of_mem (f := fun row => (row.version, row.checksum)) member)

/-- A round skips a migration that is on record, or applies it and puts it there. -/
theorem applyOne_ok {skipApplied : Bool} {clock : Clock} {migration : AxMigration}
    {session later : Session S} {applied : List AxAppliedMigration}
    (keeps : server.Keeps migration.upSql)
    (ran : applyOne server skipApplied clock migration session = .ok (applied, later)) :
    (applied = [] ∧ skipApplied = true ∧ later.database = session.database ∧
      session.database.Holds migration) ∨
    (applied = [migration.applied clock] ∧ ∃ rows, session.database.history = some rows ∧
      recorded rows migration.version = none ∧
      later.database.history = some (rows ++ [migration.applied clock]) ∧
      later.database.log =
        session.database.log ++ [.enter migration.version migration.checksum]) := by
  obtain ⟨⟨existing, first⟩, selected, ran⟩ := bind_ok.mp ran
  obtain ⟨same, rows, table, found⟩ := select_ok selected
  dsimp only at ran
  split at ran
  · split at ran
    · cases ran
    next equal =>
    split at ran
    next skips =>
      cases ran
      exact .inl ⟨rfl, skips, same, rows, table, not_ne_iff.mp equal ▸ found⟩
    · cases ran
  · obtain ⟨second, executed, ran⟩ := bind_ok.mp ran
    obtain ⟨third, inserted, ran⟩ := bind_ok.mp ran
    obtain ⟨fourth, read, ran⟩ := bind_ok.mp ran
    cases ran
    obtain ⟨kept, logged⟩ := script_ok keeps executed
    obtain ⟨present, there, fresh, written, unlogged⟩ := insert_ok inserted
    rw [readBack_ok read]
    rw [kept, same, table] at there
    obtain rfl := Option.some.inj there
    exact .inr ⟨rfl, rows, table, fresh, written, by rw [unlogged, logged, same]⟩

theorem applyOne_exact {skipApplied : Bool} {clock : Clock} {migration : AxMigration}
    {session later : Session S} {applied : List AxAppliedMigration}
    (keeps : server.Keeps migration.upSql) (exact : session.database.Exact)
    (ran : applyOne server skipApplied clock migration session = .ok (applied, later)) :
    later.database.Exact ∧ later.database.Holds migration ∧
      ∀ other, session.database.Holds other → later.database.Holds other := by
  rcases applyOne_ok keeps ran with ⟨-, -, same, holds⟩ | ⟨-, rows, table, fresh, history, log⟩
  · rw [same]
    exact ⟨exact, holds, fun _ held => held⟩
  · refine ⟨@Database.Exact.enter _ _ _ _ (migration.applied clock) exact table fresh history log, ?_, ?_⟩
    · refine ⟨_, history, ?_⟩
      obtain absent := Option.map_eq_none_iff.mp fresh
      rw [recorded, List.find?_append, absent]
      simp [AxMigration.applied]
    · rintro other ⟨_, here, found⟩
      rw [table] at here
      obtain rfl := Option.some.inj here
      exact ⟨_, history, recorded_append found _⟩

theorem applyEach_exact {skipApplied : Bool} {clock : Clock} {migrations : List AxMigration}
    {session later : Session S} {applied : List AxAppliedMigration}
    (keeps : ∀ migration ∈ migrations, server.Keeps migration.upSql)
    (exact : session.database.Exact)
    (ran : applyEach server skipApplied clock migrations session = .ok (applied, later)) :
    later.database.Exact ∧ (∀ migration ∈ migrations, later.database.Holds migration) ∧
      ∀ other, session.database.Holds other → later.database.Holds other := by
  induction migrations generalizing session applied with
  | nil =>
    cases ran
    exact ⟨exact, (fun _ member => nomatch member), fun _ held => held⟩
  | cons first rest ih =>
    obtain ⟨here, others⟩ := List.forall_mem_cons.mp keeps
    obtain ⟨⟨one, middle⟩, step, ran⟩ := bind_ok.mp ran
    obtain ⟨⟨more, last⟩, run, ran⟩ := bind_ok.mp ran
    cases ran
    obtain ⟨stepped, held, stays⟩ := applyOne_exact here exact step
    obtain ⟨finished, all, remains⟩ := ih others stepped run
    exact ⟨finished, List.forall_mem_cons.mpr ⟨remains first held, all⟩,
      fun other holds => remains other (stays other holds)⟩

theorem Database.Exact.ensured {database : Database S} (exact : database.Exact) :
    ({ database with history := some (database.history.getD []) } : Database S).Exact := exact

theorem applyMigrationsLocked_exact {skipApplied : Bool} {clock : Clock}
    {migrations : List AxMigration} {session later : Session S}
    {applied : List AxAppliedMigration}
    (keeps : ∀ migration ∈ migrations, server.Keeps migration.upSql)
    (exact : session.database.Exact)
    (ran : applyMigrationsLocked server migrations skipApplied clock session =
      .ok (applied, later)) :
    later.database.Exact ∧ ∀ migration ∈ migrations, later.database.Holds migration := by
  obtain ⟨_, _, ran⟩ := bind_ok.mp ran
  split at ran
  next empty =>
    cases ran
    rw [List.isEmpty_iff.mp empty]
    exact ⟨exact, fun _ member => nomatch member⟩
  · obtain ⟨first, begun, ran⟩ := bind_ok.mp ran
    obtain ⟨second, ensured, ran⟩ := bind_ok.mp ran
    obtain ⟨⟨rows, third⟩, run, ran⟩ := bind_ok.mp ran
    obtain ⟨fourth, committed, ran⟩ := bind_ok.mp ran
    cases ran
    have start : second.database.Exact := by
      rw [ensureTable_ok ensured, beginTransaction_ok begun]
      exact Database.Exact.ensured exact
    obtain ⟨finished, all, -⟩ := applyEach_exact keeps start run
    rw [attempt_ok committed]
    exact ⟨finished, all⟩

theorem rollbackLocked_exact {migration : AxMigration} {session later : Session S}
    (keeps : server.Keeps migration.downSql) (exact : session.database.Exact)
    (ran : rollbackLocked server migration session = .ok later) : later.database.Exact := by
  obtain ⟨_, _, ran⟩ := bind_ok.mp ran
  obtain ⟨first, begun, ran⟩ := bind_ok.mp ran
  obtain ⟨second, asked, ran⟩ := bind_ok.mp ran
  split at ran
  · cases ran
  obtain ⟨third, queried, ran⟩ := bind_ok.mp ran
  obtain ⟨rows, table, ran⟩ := bind_ok.mp ran
  obtain ⟨_, target, ran⟩ := bind_ok.mp ran
  obtain ⟨fourth, executed, ran⟩ := bind_ok.mp ran
  obtain ⟨fifth, deleted, committed⟩ := bind_ok.mp ran
  obtain ⟨row, found, same⟩ := Option.map_eq_some_iff.mp (validateRollbackTarget_ok target)
  obtain ⟨version, checksum⟩ := Prod.mk.inj same
  have unchanged : third.database = session.database :=
    (attempt_ok queried).trans ((attempt_ok asked).trans (beginTransaction_ok begun))
  obtain ⟨kept, logged⟩ := script_ok keeps executed
  obtain ⟨present, there, written, unlogged⟩ := delete_ok deleted
  rw [kept, rows_ok table] at there
  obtain rfl := Option.some.inj there
  rw [attempt_ok committed]
  rw [← unchanged] at exact
  exact exact.leave (rows_ok table) (latest_mem found) (version ▸ written)
    (by rw [unlogged, logged, version, checksum])

end Invariant

section Runs

variable {S : Type} {server : Server S}

def Call.scripts : Call → List String
  | .applyMigration migration => [migration.upSql]
  | .applyMigrations migrations => migrations.map AxMigration.upSql
  | .rollbackMigration migration => [migration.downSql]

theorem transact_ok {α : Type} {database after : Database S} {faults : List (Option AxDbError)}
    {body : Session S → AxRuntimeResult (α × Session S)} {result : α}
    (ran : transact database faults body = (.ok result, after)) :
    ∃ session, body ⟨database, faults⟩ = .ok (result, session) ∧ after = session.database := by
  unfold transact at ran
  split at ran
  · cases ran
  · next session ok =>
    cases ran
    exact ⟨session, ok, rfl⟩

theorem transact_database {α : Type} (database : Database S) (faults : List (Option AxDbError))
    (body : Session S → AxRuntimeResult (α × Session S)) :
    (transact database faults body).2 = database ∨ ∃ result session,
      body ⟨database, faults⟩ = .ok (result, session) ∧
        transact database faults body = (.ok result, session.database) := by
  unfold transact
  split
  · exact .inl rfl
  · next result session ok => exact .inr ⟨result, session, ok, rfl⟩

theorem perform_exact {request : Request} {database : Database S}
    (keeps : ∀ sql ∈ request.call.scripts, server.Keeps sql) (exact : database.Exact) :
    (perform server request database).2.Exact := by
  obtain ⟨call, faults, clock⟩ := request
  cases call with
  | applyMigration migration =>
    rcases transact_database database faults
      (applyMigrationsLocked server [migration] false clock) with same | ⟨_, session, ok, ran⟩
    · exact same.symm ▸ exact
    · change (transact database faults _).2.Exact
      rw [ran]
      exact (applyMigrationsLocked_exact (by simpa [Call.scripts] using keeps) exact ok).1
  | applyMigrations migrations =>
    rcases transact_database database faults
      (applyMigrationsLocked server migrations true clock) with same | ⟨_, session, ok, ran⟩
    · exact same.symm ▸ exact
    · change (transact database faults _).2.Exact
      rw [ran]
      exact (applyMigrationsLocked_exact (by simpa [Call.scripts] using keeps) exact ok).1
  | rollbackMigration migration =>
    rcases transact_database database faults (fun session => do
        let session ← rollbackLocked server migration session
        return (([] : List AxAppliedMigration), session)) with same | ⟨_, session, ok, ran⟩
    · exact same.symm ▸ exact
    · change (transact database faults _).2.Exact
      rw [ran]
      obtain ⟨later, rolled, ok⟩ := bind_ok.mp ok
      cases ok
      exact rollbackLocked_exact (by simpa [Call.scripts] using keeps) exact rolled

theorem performAll_exact {requests : List Request} {database : Database S}
    (keeps : ∀ request ∈ requests, ∀ sql ∈ request.call.scripts, server.Keeps sql)
    (exact : database.Exact) : (performAll server requests database).Exact := by
  induction requests generalizing database with
  | nil => exact exact
  | cons first rest ih =>
    obtain ⟨here, others⟩ := List.forall_mem_cons.mp keeps
    exact ih others (perform_exact here exact)

/-- A single migration that is not refused is applied. -/
theorem applyMigrationsLocked_single {clock : Clock} {migration : AxMigration}
    {session later : Session S} {applied : List AxAppliedMigration}
    (ran : applyMigrationsLocked server [migration] false clock session = .ok (applied, later)) :
    applied ≠ [] := by
  obtain ⟨_, _, ran⟩ := bind_ok.mp ran
  obtain ⟨first, _, ran⟩ := bind_ok.mp ran
  obtain ⟨second, _, ran⟩ := bind_ok.mp ran
  obtain ⟨⟨rows, third⟩, run, ran⟩ := bind_ok.mp ran
  obtain ⟨fourth, _, ran⟩ := bind_ok.mp ran
  cases ran
  obtain ⟨⟨one, middle⟩, step, run⟩ := bind_ok.mp run
  cases run
  obtain ⟨⟨existing, after⟩, _, step⟩ := bind_ok.mp step
  dsimp only at step
  split at step
  · split at step
    · cases step
    · cases step
  · obtain ⟨_, _, step⟩ := bind_ok.mp step
    obtain ⟨_, _, step⟩ := bind_ok.mp step
    obtain ⟨_, _, step⟩ := bind_ok.mp step
    cases step
    simp

/-- A call that fails leaves the database as it was. -/
theorem perform_error {request : Request} {database : Database S} {error : AxDbError}
    (failed : (perform server request database).1 = .error error) :
    (perform server request database).2 = database := by
  obtain ⟨call, faults, clock⟩ := request
  cases call with
  | applyMigration migration =>
    rcases transact_database database faults
      (applyMigrationsLocked server [migration] false clock) with same | ⟨applied, session, ok, ran⟩
    · exact same
    · have some_row := applyMigrationsLocked_single ok
      rw [perform] at failed
      simp only [ran] at failed
      cases last : applied.getLast? with
      | none => exact absurd (List.getLast?_eq_none_iff.mp last) some_row
      | some row =>
        simp only [Except.bind, last] at failed
        cases failed
  | applyMigrations migrations =>
    rcases transact_database database faults
      (applyMigrationsLocked server migrations true clock) with same | ⟨applied, session, ok, ran⟩
    · exact same
    · rw [perform] at failed
      simp only [ran] at failed
      cases failed
  | rollbackMigration migration =>
    rcases transact_database database faults (fun session => do
        let session ← rollbackLocked server migration session
        return (([] : List AxAppliedMigration), session)) with same | ⟨applied, session, ok, ran⟩
    · exact same
    · rw [perform] at failed
      simp only [ran] at failed
      cases failed

end Runs

section Repetition

variable {S : Type} {server : Server S}

theorem applyOne_held {skipApplied : Bool} {clock : Clock} {migration : AxMigration}
    {session later : Session S} {applied : List AxAppliedMigration}
    (keeps : server.Keeps migration.upSql) (held : session.database.Holds migration)
    (ran : applyOne server skipApplied clock migration session = .ok (applied, later)) :
    applied = [] ∧ later.database = session.database := by
  rcases applyOne_ok keeps ran with ⟨none, -, same, -⟩ | ⟨-, rows, table, fresh, -⟩
  · exact ⟨none, same⟩
  · obtain ⟨_, here, found⟩ := held
    rw [table] at here
    obtain rfl := Option.some.inj here
    rw [fresh] at found
    cases found

theorem applyEach_held {clock : Clock} {migrations : List AxMigration}
    {session later : Session S} {applied : List AxAppliedMigration}
    (keeps : ∀ migration ∈ migrations, server.Keeps migration.upSql)
    (held : ∀ migration ∈ migrations, session.database.Holds migration)
    (ran : applyEach server true clock migrations session = .ok (applied, later)) :
    applied = [] ∧ later.database = session.database := by
  induction migrations generalizing session applied with
  | nil =>
    cases ran
    exact ⟨rfl, rfl⟩
  | cons first rest ih =>
    obtain ⟨here, others⟩ := List.forall_mem_cons.mp keeps
    obtain ⟨one, all⟩ := List.forall_mem_cons.mp held
    obtain ⟨⟨row, middle⟩, step, ran⟩ := bind_ok.mp ran
    obtain ⟨⟨more, last⟩, run, ran⟩ := bind_ok.mp ran
    cases ran
    obtain ⟨rfl, same⟩ := applyOne_held here one step
    obtain ⟨rfl, remains⟩ := ih others (same ▸ all) run
    exact ⟨rfl, remains.trans same⟩

theorem ensured_same {database : Database S} {rows : List AxAppliedMigration}
    (table : database.history = some rows) :
    ({ database with history := some (database.history.getD []) } : Database S) = database := by
  cases database
  subst table
  rfl

theorem applyMigrationsLocked_held {clock : Clock} {migrations : List AxMigration}
    {session later : Session S} {applied : List AxAppliedMigration}
    (keeps : ∀ migration ∈ migrations, server.Keeps migration.upSql)
    (held : ∀ migration ∈ migrations, session.database.Holds migration)
    (ran : applyMigrationsLocked server migrations true clock session = .ok (applied, later)) :
    applied = [] ∧ later.database = session.database := by
  obtain ⟨_, _, ran⟩ := bind_ok.mp ran
  cases migrations with
  | nil =>
    cases ran
    exact ⟨rfl, rfl⟩
  | cons migration rest =>
    obtain ⟨first, begun, ran⟩ := bind_ok.mp ran
    obtain ⟨second, ensured, ran⟩ := bind_ok.mp ran
    obtain ⟨⟨rows, third⟩, run, ran⟩ := bind_ok.mp ran
    obtain ⟨fourth, committed, ran⟩ := bind_ok.mp ran
    cases ran
    obtain ⟨present, table, -⟩ := held migration List.mem_cons_self
    have unchanged : second.database = session.database := by
      rw [ensureTable_ok ensured, beginTransaction_ok begun, ensured_same table]
    obtain ⟨none, same⟩ := applyEach_held keeps (unchanged ▸ held) run
    exact ⟨none, (attempt_ok committed).trans (same.trans unchanged)⟩

theorem applyEach_quiet {clock : Clock} {migrations : List AxMigration} {database : Database S}
    (held : ∀ migration ∈ migrations, database.Holds migration) :
    applyEach server true clock migrations ⟨database, []⟩ = .ok ([], ⟨database, []⟩) := by
  induction migrations with
  | nil => rfl
  | cons first rest ih =>
    obtain ⟨⟨rows, table, found⟩, others⟩ := List.forall_mem_cons.mp held
    have selected : (⟨database, []⟩ : Session S).select first.version =
        .ok (some first.checksum, ⟨database, []⟩) := by
      simp [Session.select, Session.attempt, Session.rows, table, found, bind, Except.bind, pure,
        Except.pure]
    simp [applyEach, applyOne, selected, ih others, bind, Except.bind, pure, Except.pure]

theorem beginTransaction_quiet {session later : Session S} (database : Database S)
    (ran : session.beginTransaction server = .ok later) :
    (⟨database, []⟩ : Session S).beginTransaction server = .ok ⟨database, []⟩ := by
  unfold Session.beginTransaction at ran ⊢
  split at ran
  · obtain ⟨_, persistent, ran⟩ := bind_ok.mp ran
    split at ran
    · cases ran
    next some_url =>
    refine bind_ok.mpr ⟨_, persistent, ?_⟩
    rw [if_neg some_url]
    rfl
  · rfl

/-- Behind a successful call, the same call without failing statements applies nothing. -/
theorem applyMigrationsLocked_quiet {clock again : Clock} {migrations : List AxMigration}
    {session later : Session S} {applied : List AxAppliedMigration}
    (held : ∀ migration ∈ migrations, later.database.Holds migration)
    (ran : applyMigrationsLocked server migrations true clock session = .ok (applied, later)) :
    applyMigrationsLocked server migrations true again ⟨later.database, []⟩ =
      .ok ([], ⟨later.database, []⟩) := by
  obtain ⟨_, valid, ran⟩ := bind_ok.mp ran
  refine bind_ok.mpr ⟨_, valid, ?_⟩
  cases migrations with
  | nil => rfl
  | cons migration rest =>
    obtain ⟨first, begun, -⟩ := bind_ok.mp ran
    obtain ⟨rows, table, -⟩ := held migration List.mem_cons_self
    refine bind_ok.mpr ⟨_, beginTransaction_quiet _ begun, ?_⟩
    have ensured : (⟨later.database, []⟩ : Session S).ensureTable =
        .ok ⟨later.database, []⟩ := by
      change Except.ok (⟨{ later.database with
        history := some (later.database.history.getD []) }, []⟩ : Session S) = _
      rw [ensured_same table]
    refine bind_ok.mpr ⟨_, ensured, bind_ok.mpr ⟨_, applyEach_quiet held, rfl⟩⟩

end Repetition

section Histories

variable {S : Type}

def Database.fresh (schema : S) : Database S := ⟨schema, none, []⟩

theorem fresh_exact (schema : S) : (Database.fresh schema).Exact := rfl

/-- A database that keeps the scripts it ran, and knows one that empties the record table. -/
def tracker : Server (List String) where
  driver := .sqlite (some "app.db")
  execute sql state :=
    if sql = "delete from _axonyx_migrations" then .ok (state.1, state.2.map fun _ => [])
    else .ok (sql :: state.1, state.2)
  collates a b := a < b

def digest : String := .ofList (List.replicate 64 '0')

def createNotes : AxMigration := ⟨"1", "notes", digest, "create table notes (id int)", "drop table notes"⟩

def emptyRecords : AxMigration := ⟨"2", "empty", digest, "delete from _axonyx_migrations", "select 1"⟩

def createTwice : Request :=
  ⟨.applyMigrations [createNotes, createNotes], [], fun _ => ("now", 1)⟩

end Histories

end Axonyx.Runtime.Migration
