import IdenGrid.Lib.Ddl

/-! # The migrations of the MySQL schema

`edge_platform_migration_statements`, `mysql_active_uniqueness_statements` with
`mysql_active_store_lease_statements`, and `mysql_device_platform_constraint_statements`: each looks
at the schema and gives the statements that are missing. MySQL commits every DDL statement on its
own, so that a schema may be left behind after any of them.

A schema is the set of its columns, indexes and check constraints, and a statement is what its SQL
text says; `Statement.change` is what it does to the schema. -/

namespace IdenGrid.Migration.Statements

open IdenGrid.Lib.Ddl

inductive Object
  | column (table name : String)
  | index (table name : String)
  | check (table name : String)
  deriving DecidableEq, Repr

/-- What the inspector finds. -/
abbrev Schema := Finset Object

/-- The expression of a generated column. -/
inductive Expression
  /-- `CASE WHEN status IN (...) THEN column ELSE NULL END`, or with `=` for a single status. -/
  | whenStatus (statuses : List String) (column : String)
  | sha256 (column : String)
  deriving DecidableEq, Repr

/-- The columns that an expression reads. -/
def Expression.columns : Expression → List String
  | .whenStatus _ column => ["status", column]
  | .sha256 column => [column]

/-- The DDL statements. The platform is a `VARCHAR(20) NOT NULL DEFAULT 'linux'`, on SQLite with its
check inline; a generated column is `STORED`. -/
inductive Statement
  | addPlatform (table : String) (inlineCheck : Bool)
  | addPlatformCheck (table name : String) (platforms : List String)
  | dropCheck (table name : String)
  | addGenerated (table column dataType : String) (expression : Expression)
  | createUniqueIndex (name table : String) (columns : List String)
  | dropIndex (name table : String)
  deriving DecidableEq, Repr

/-- What a statement does to the schema. -/
def Statement.change : Statement → Change Object
  | .addPlatform table _ => .add (.column table "platform") []
  | .addPlatformCheck table name _ => .add (.check table name) [.column table "platform"]
  | .dropCheck table name => .drop (.check table name)
  | .addGenerated table column _ expression =>
    .add (.column table column) (expression.columns.map (.column table))
  | .createUniqueIndex name table columns =>
    .add (.index table name) (columns.map (.column table))
  | .dropIndex name table => .drop (.index table name)

/-- The statement, if it is to be emitted. -/
def emit (wanted : Bool) (statement : Statement) : List Statement :=
  if wanted then [statement] else []

/-! ## The platform of nodes and registrations -/

def edgePlatformStatements (schema : Schema) (dialectName table : String) : List Statement :=
  emit (.column table "platform" ∉ schema) (.addPlatform table (dialectName = "sqlite")) ++
    emit (dialectName = "mysql" ∧ .check table ("ck_" ++ table ++ "_platform") ∉ schema)
      (.addPlatformCheck table ("ck_" ++ table ++ "_platform") ["linux", "windows"])

/-- `edge_platform_migration_statements` -/
def edgePlatformMigrationStatements (schema : Schema) (dialectName : String) : List Statement :=
  ["edge_nodes", "node_registration_requests"].flatMap (edgePlatformStatements schema dialectName)

/-! ## Active rows are unique -/

/-- A generated column with its unique index. -/
structure ActiveUniqueness where
  table : String
  column : String
  dataType : String
  expression : Expression
  indexName : String
  indexColumns : List String
  deriving DecidableEq, Repr

def activeEnrollmentStatuses : List String := ["pending", "claimed", "installing", "ready"]

def activeRegistrationStatuses : List String :=
  ["pending_proof", "pending_approval", "approved", "installing", "ready"]

/-- `_MYSQL_ACTIVE_UNIQUENESS` -/
def mysqlActiveUniqueness : List ActiveUniqueness :=
  [{ table := "node_enrollments"
     column := "active_edge_node_id"
     dataType := "BIGINT"
     expression := .whenStatus activeEnrollmentStatuses "edge_node_id"
     indexName := "uq_mysql_active_node_enrollment"
     indexColumns := ["active_edge_node_id"] },
    { table := "node_registration_requests"
      column := "active_machine_fingerprint"
      dataType := "VARCHAR(64)"
      expression := .whenStatus activeRegistrationStatuses "machine_fingerprint"
      indexName := "uq_mysql_active_node_registration_machine"
      indexColumns := ["active_machine_fingerprint"] },
    { table := "node_registration_requests"
      column := "active_public_key_fingerprint"
      dataType := "VARCHAR(64)"
      expression := .whenStatus activeRegistrationStatuses "public_key_fingerprint"
      indexName := "uq_mysql_active_node_registration_key"
      indexColumns := ["active_public_key_fingerprint"] },
    { table := "local_history_entries"
      column := "url_sha256"
      dataType := "BINARY(32)"
      expression := .sha256 "url"
      indexName := "uq_mysql_local_history_user_url_sha256"
      indexColumns := ["user_id", "url_sha256"] }]

def leases : String := "store_connection_leases"

def legacyIndex : String := "uq_mysql_active_store_connection_lease"

def scopedIndex : String := "uq_mysql_active_store_user_device_lease"

/-- The generated columns of the leases, each with its type and the column that it copies. -/
def generated : List (String × String × String) :=
  [("active_store_id", "BIGINT", "store_id"), ("active_owner_user_id", "BIGINT", "owner_user_id"),
    ("active_device_id", "VARCHAR(100)", "device_id")]

/-- `mysql_active_store_lease_statements` -/
def mysqlActiveStoreLeaseStatements (schema : Schema) : List Statement :=
  emit (.index leases legacyIndex ∈ schema) (.dropIndex legacyIndex leases) ++
    generated.flatMap (fun (column, dataType, source) =>
      emit (.column leases column ∉ schema)
        (.addGenerated leases column dataType (.whenStatus ["active"] source))) ++
    emit (.index leases scopedIndex ∉ schema)
      (.createUniqueIndex scopedIndex leases
        ["active_store_id", "active_owner_user_id", "active_device_id"])

/-- `mysql_active_uniqueness_statements` -/
def mysqlActiveUniquenessStatements (schema : Schema) : List Statement :=
  mysqlActiveStoreLeaseStatements schema ++
    mysqlActiveUniqueness.flatMap fun u =>
      emit (.column u.table u.column ∉ schema)
          (.addGenerated u.table u.column u.dataType u.expression) ++
        emit (.index u.table u.indexName ∉ schema)
          (.createUniqueIndex u.indexName u.table u.indexColumns)

/-! ## The platform of device sessions -/

def supported : String := "ck_device_sessions_platform_supported"

def legacy : String := "ck_device_sessions_platform_macos"

/-- `mysql_device_platform_constraint_statements` -/
def mysqlDevicePlatformConstraintStatements (schema : Schema) : List Statement :=
  if .check "device_sessions" supported ∈ schema then []
  else
    emit (.check "device_sessions" legacy ∈ schema) (.dropCheck "device_sessions" legacy) ++
      [.addPlatformCheck "device_sessions" supported ["macos", "windows"]]

/-! ## Running them -/

/-- What `create_app` runs on MySQL, each with its own look at the schema. -/
def migrations : List (Schema → List Statement) :=
  [fun schema => edgePlatformMigrationStatements schema "mysql", mysqlActiveUniquenessStatements,
    mysqlDevicePlatformConstraintStatements]

/-- One statement; `none` is an error of MySQL. -/
def exec (schema : Schema) (statement : Statement) : Option Schema :=
  statement.change.exec schema

end IdenGrid.Migration.Statements
