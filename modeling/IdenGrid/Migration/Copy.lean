import IdenGrid.Lib.Results
import IdenGrid.Migration.Uniqueness

/-! # Copying from SQLite to MySQL

`migrate_engines` in the phases in which it changes the destination or does not: what it checks and
reads before, the schema, the transaction with all inserts, and what it checks afterwards.

Every operation on a database may raise (`raises`). What the destination makes of an inserted row is
its own (`insert`); it gives as many rows back as it was given. Rows of a table are listed in the
order of their primary key. -/

namespace IdenGrid.Migration.Copy

open IdenGrid.Lib.Sql IdenGrid.Migration.Statements IdenGrid.Migration.Values
open IdenGrid.Migration.Uniqueness

/-- A foreign key with its columns and those of the parent. -/
structure ForeignKey where
  name : Option String
  columns : List String
  parent : String
  remote : List String
  deriving DecidableEq, Repr

/-- A table of the models. -/
structure Table where
  name : String
  /-- The columns, each with a flag whether it is computed. -/
  columns : List (String × Bool)
  /-- The only column of the primary key that is incremented automatically, if it is an integer. -/
  integerPk : Option String
  foreignKeys : List ForeignKey
  deriving DecidableEq, Repr

/-- A `MigrationError` with its message, or any other exception. -/
inductive Err
  | migration (message : String)
  | driver
  deriving DecidableEq, Repr

/-- The operations on the databases. -/
inductive Operation
  | sourceTables
  | destinationTables
  | reflect
  | readSource (table : String)
  | dropAll
  | createAll
  | prepareTarget
  | readAgain (table : String)
  | commit
  | autoIncrement (table : String)
  | generated
  | orphans
  | uniqueness
  | readTarget (table : String)
  deriving DecidableEq, Repr

/-- Both engines. -/
structure Engines where
  sourceTables : List String
  sourceColumns : String → List String
  sourceRows : Content
  destinationTables : List String
  /-- `engine.dialect.name` of the destination. -/
  dialectName : String
  /-- The schema of the destination once it is prepared. -/
  schema : Schema
  raises : Operation → Bool
  /-- What a query gives for the rows after they have been inserted; `none` where that raises. -/
  insert : String → List (Row String Value) → Option (List (Row String Value))
  insert_length : ∀ table rows rows', insert table rows = some rows' → rows'.length = rows.length

def attempt (E : Engines) (operation : Operation) : Except Err Unit :=
  if E.raises operation then .error .driver else .ok ()

def attemptIf (E : Engines) (wanted : Bool) (operation : Operation) : Except Err Unit :=
  if wanted then attempt E operation else .ok ()

/-- `raise MigrationError(message)`, if there is a reason to. -/
def refuse (reason : Prop) [Decidable reason] (message : String) : Except Err Unit :=
  if reason then .error (.migration message) else .ok ()

/-- `_copy_columns` -/
def copyColumns (E : Engines) (table : Table) : List String :=
  (table.columns.filter fun c => c.1 ∈ E.sourceColumns table.name && !c.2).map Prod.fst

/-- The columns of a row that are selected. -/
def select (columns : List String) (row : Row String Value) : Row String Value :=
  fun c => if c ∈ columns then row c else none

/-- `_destination_nonempty` -/
def destinationNonempty (E : Engines) (content : Content) : List String :=
  (E.destinationTables.filter fun table => content table ≠ []).insertionSort (· ≤ ·)

/-! ## Before the schema is touched -/

structure SourceEntry where
  count : ℕ
  sha256 : List ℕ
  deriving DecidableEq, Repr

section

variable (sha256 : List ℕ → List ℕ) (E : Engines)

/-- A fingerprint; `ValueError` or `OverflowError` where it cannot be taken. -/
def takeFingerprint (columns : List String) (rows : List (Row String Value)) :
    Except Err (List ℕ) :=
  match fingerprint sha256 columns rows with
  | none => .error .driver
  | some digest => .ok digest

/-- The `source_report`, in the order of the tables. -/
def sourceReport : List Table → Except Err (List SourceEntry)
  | [] => .ok []
  | table :: tables => do
    attempt E (.readSource table.name)
    let rows := E.sourceRows table.name
    let digest ← takeFingerprint sha256 (copyColumns E table) rows
    let entries ← sourceReport tables
    pure (⟨rows.length, digest⟩ :: entries)

def missing (metadata : List Table) : List String :=
  (metadata.map Table.name).filter fun name => name ∉ E.sourceTables

/-- What `migrate_engines` does before the schema is touched. -/
def inspectSource (metadata : List Table) (resetEmptyDestination : Bool) (content : Content) :
    Except Err (List SourceEntry) := do
  attempt E .sourceTables
  refuse (missing E metadata ≠ [])
    ("source is missing model tables: " ++ ", ".intercalate (missing E metadata))
  attempt E .destinationTables
  refuse (destinationNonempty E content ≠ [] ∧ resetEmptyDestination = false)
    "refusing non-empty destination; explicit safe reset is required"
  attempt E .reflect
  sourceReport sha256 E metadata

/-! ## The schema and the inserts -/

def prepareSchema (resetEmptyDestination prepareTarget : Bool) : Except Err Unit := do
  attemptIf E resetEmptyDestination .dropAll
  attempt E .createAll
  attemptIf E prepareTarget .prepareTarget

/-- The rows of one table are replaced. -/
def put (content : Content) (table : String) (rows : List (Row String Value)) : Content :=
  fun name => if name = table then rows else content name

/-- The inserts of all tables; the content is what the transaction sees. -/
def insertAll : List Table → Content → Except Err Content
  | [], content => .ok content
  | table :: tables, content => do
    attempt E (.readAgain table.name)
    let rows := (E.sourceRows table.name).map (select (copyColumns E table))
    if rows = [] then insertAll tables content
    else
      match E.insert table.name rows with
      | none => .error .driver
      | some stored => insertAll tables (put content table.name stored)

/-- `with target.begin()`: the inserts are committed together, or not at all. -/
def transaction (metadata : List Table) (content : Content) : Except Err Content := do
  let inserted ← insertAll E metadata content
  attempt E .commit
  pure inserted

/-! ## The checks afterwards -/

/-- The next value of an integer column. -/
def nextValue (rows : List (Row String Value)) (column : String) : ℤ :=
  max 1 (((rows.filterMap fun row => match row column with
    | some (.int n) => some n
    | _ => none).max?).getD 0 + 1)

/-- `_reset_mysql_auto_increment`, once the dialect is MySQL. -/
def resetTables (content : Content) : List Table → Except Err (List (String × ℤ))
  | [] => .ok []
  | table :: tables =>
    match table.integerPk with
    | none => resetTables content tables
    | some column => do
      attempt E (.autoIncrement table.name)
      let values ← resetTables content tables
      pure ((table.name, nextValue (content table.name) column) :: values)

/-- `_reset_mysql_auto_increment` -/
def resetMysqlAutoIncrement (metadata : List Table) (content : Content) :
    Except Err (List (String × ℤ)) :=
  if E.dialectName ≠ "mysql" then .ok [] else resetTables E content metadata

end

/-- The generated columns that a table must have. -/
def expectedColumns : List (String × List String) :=
  [("node_enrollments", ["active_edge_node_id"]),
    ("node_registration_requests", ["active_machine_fingerprint", "active_public_key_fingerprint"]),
    ("store_connection_leases", ["active_store_id", "active_owner_user_id", "active_device_id"]),
    ("local_history_entries", ["url_sha256"])]

/-- The unique indexes that a table must have. -/
def expectedIndexes : List (String × List String) :=
  [("node_enrollments", ["uq_mysql_active_node_enrollment"]),
    ("node_registration_requests",
      ["uq_mysql_active_node_registration_machine", "uq_mysql_active_node_registration_key"]),
    ("store_connection_leases", ["uq_mysql_active_store_user_device_lease"]),
    ("local_history_entries", ["uq_mysql_local_history_user_url_sha256"])]

/-- `_mysql_generated_constraint_checks` -/
def mysqlGeneratedConstraintChecks (dialectName : String) (schema : Schema) : List (String × Bool) :=
  if dialectName ≠ "mysql" then []
  else
    (expectedColumns.map fun (table, names) =>
      (table ++ ":generated_columns", names.all fun c => decide (.column table c ∈ schema))) ++
    expectedIndexes.map fun (table, names) =>
      (table ++ ":unique_indexes", names.all fun i => decide (.index table i ∈ schema))

/-- The row has a value in each column of the foreign key, and no parent has the same. -/
def isOrphan (content : Content) (key : ForeignKey) (row : Row String Value) : Bool :=
  key.columns.all (fun c => (row c).isSome) &&
    !(content key.parent).any fun parent =>
      (key.columns.zip key.remote).all fun (c, r) => decide (row c = parent r)

/-- `_foreign_key_orphans` -/
def foreignKeyOrphans (metadata : List Table) (content : Content) : List (String × ℕ) :=
  metadata.flatMap fun table => table.foreignKeys.map fun key =>
    (table.name ++ ":" ++ key.name.getD (",".intercalate key.columns),
      ((content table.name).filter (isOrphan content key)).length)

structure TableEntry where
  table : String
  source : SourceEntry
  target : SourceEntry
  deriving DecidableEq, Repr

structure Report where
  tables : List TableEntry
  foreignKeyOrphans : List (String × ℕ)
  criticalActiveDuplicates : List (String × ℕ)
  mysqlGeneratedConstraints : List (String × Bool)
  autoIncrementNext : List (String × ℤ)
  deriving DecidableEq, Repr

section

variable (sha256 : List ℕ → List ℕ) (E : Engines)

/-- The rows of the destination against the `source_report`. -/
def compareTables (content : Content) : List (Table × SourceEntry) → Except Err (List TableEntry)
  | [] => .ok []
  | (table, entry) :: tables => do
    attempt E (.readTarget table.name)
    let rows := content table.name
    let digest ← takeFingerprint sha256 (copyColumns E table) rows
    refuse (entry.count ≠ rows.length ∨ entry.sha256 ≠ digest)
      ("verification failed for table " ++ table.name)
    let entries ← compareTables content tables
    pure (⟨table.name, entry, ⟨rows.length, digest⟩⟩ :: entries)

/-- What `migrate_engines` does once the inserts are committed. -/
def verify (metadata : List Table) (report : List SourceEntry) (content : Content) :
    Except Err Report := do
  let autoIncrement ← resetMysqlAutoIncrement E metadata content
  attempt E .generated
  let generated := mysqlGeneratedConstraintChecks E.dialectName E.schema
  refuse (∃ check ∈ generated, check.2 = false) "MySQL generated constraint verification failed"
  attempt E .orphans
  let orphans := foreignKeyOrphans metadata content
  attempt E .uniqueness
  let duplicates := activeUniquenessChecks (metadata.map Table.name) content
  let tables ← compareTables sha256 E content (metadata.zip report)
  refuse (∃ check ∈ orphans, check.2 ≠ 0) "foreign-key orphan verification failed"
  refuse (∃ check ∈ duplicates, check.2 ≠ 0) "critical active uniqueness verification failed"
  pure ⟨tables, orphans, duplicates, generated, autoIncrement⟩

/-- What is returned: the report of a dry run has the source only. -/
inductive Returned
  | dryRun (tables : List SourceEntry)
  | migrated (report : Report)
  deriving DecidableEq, Repr

/-- `migrate_engines`: what it returns or raises, and what the destination holds then. -/
def migrateEngines (metadata : List Table) (resetEmptyDestination dryRun prepareTarget : Bool)
    (content : Content) : Except Err Returned × Content :=
  match inspectSource sha256 E metadata resetEmptyDestination content with
  | .error e => (.error e, content)
  | .ok report =>
    if dryRun then (.ok (.dryRun report), content)
    else
      -- `drop_all` leaves no row in a table of the models, however the rest of the schema goes.
      let emptied := if resetEmptyDestination ∧ E.raises .dropAll = false then
        (metadata.map Table.name).foldl (fun content table => put content table []) content
        else content
      match prepareSchema E resetEmptyDestination prepareTarget with
      | .error e => (.error e, emptied)
      | .ok () =>
        match transaction E metadata emptied with
        | .error e => (.error e, emptied)
        | .ok committed =>
          match verify sha256 E metadata report committed with
          | .error e => (.error e, committed)
          | .ok report => (.ok (.migrated report), committed)

end

end IdenGrid.Migration.Copy
