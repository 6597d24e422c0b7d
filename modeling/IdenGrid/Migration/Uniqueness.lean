import IdenGrid.Migration.Statements
import IdenGrid.Migration.Values

/-! # Three definitions of the same uniqueness

That active enrollments, registrations and leases are unique is said three times: by the partial
unique indexes of the models on SQLite, by the generated columns with their unique indexes on MySQL,
and by `_active_uniqueness_checks` of the migration from the one to the other.

`accepts_iff`: the two databases accept the same content. `agrees_iff`: the checks report a duplicate
in accepted content exactly if two active rows agree on their key with a NULL in it, as two active
leases without a device do: `GROUP BY` takes the NULLs for equal. -/

namespace IdenGrid.Migration.Uniqueness

open IdenGrid.Lib.Sql IdenGrid.Migration.Statements IdenGrid.Migration.Values

/-- The rows of each table. -/
abbrev Content := String → List (Row String Value)

def tables : List String :=
  ["node_enrollments", "node_registration_requests", "store_connection_leases"]

/-! ## The models on SQLite -/

/-- A unique index with a `sqlite_where` on the status. -/
structure PartialIndex where
  name : String
  table : String
  columns : List String
  statuses : List String
  deriving DecidableEq, Repr

def PartialIndex.accepts (index : PartialIndex) (content : Content) : Prop :=
  Unique index.columns
    (whereIn "status" (index.statuses.map Value.text) (content index.table))

def uqActiveNodeEnrollment : PartialIndex :=
  { name := "uq_active_node_enrollment"
    table := "node_enrollments"
    columns := ["edge_node_id"]
    statuses := ["pending", "claimed", "installing", "ready"] }

def uqActiveNodeRegistrationMachine : PartialIndex :=
  { name := "uq_active_node_registration_machine"
    table := "node_registration_requests"
    columns := ["machine_fingerprint"]
    statuses := ["pending_proof", "pending_approval", "approved", "installing", "ready"] }

def uqActiveNodeRegistrationKey : PartialIndex :=
  { name := "uq_active_node_registration_key"
    table := "node_registration_requests"
    columns := ["public_key_fingerprint"]
    statuses := ["pending_proof", "pending_approval", "approved", "installing", "ready"] }

def uqActiveStoreUserDeviceLease : PartialIndex :=
  { name := "uq_active_store_user_device_lease"
    table := "store_connection_leases"
    columns := ["store_id", "owner_user_id", "device_id"]
    statuses := ["active"] }

def sqliteIndexes : List PartialIndex :=
  [uqActiveNodeEnrollment, uqActiveNodeRegistrationMachine, uqActiveNodeRegistrationKey,
    uqActiveStoreUserDeviceLease]

def sqliteAccepts (content : Content) : Prop := ∀ index ∈ sqliteIndexes, index.accepts content

/-! ## The generated columns on MySQL -/

/-- The value of a generated column; `sha2` is `UNHEX(SHA2(url,256))`. -/
def evaluate (sha2 : Value → Value) (row : Row String Value) : Expression → Option Value
  | .whenStatus statuses column => caseIn row "status" (statuses.map Value.text) column
  | .sha256 column => (row column).map sha2

/-- What the statements make of a schema without any of their objects. -/
def mysqlDdl : List Statement := mysqlActiveUniquenessStatements ∅

def generatedColumn (table column : String) : Option Expression :=
  mysqlDdl.findSome? fun statement => match statement with
    | .addGenerated t c _ expression => if t = table ∧ c = column then some expression else none
    | _ => none

/-- The unique indexes of the three tables. -/
def mysqlIndexes : List (String × List String) :=
  mysqlDdl.filterMap fun statement => match statement with
    | .createUniqueIndex _ table columns => if table ∈ tables then some (table, columns) else none
    | _ => none

/-- A row with its generated columns. -/
def mysqlRow (sha2 : Value → Value) (table : String) (row : Row String Value) : Row String Value :=
  fun column => match generatedColumn table column with
    | some expression => evaluate sha2 row expression
    | none => row column

def mysqlAccepts (sha2 : Value → Value) (content : Content) : Prop :=
  ∀ index ∈ mysqlIndexes, Unique index.2 ((content index.1).map (mysqlRow sha2 index.1))

/-! ## The checks of the migration -/

/-- The table, the key columns and the active statuses. -/
structure Spec where
  table : String
  keys : List String
  statuses : List String
  deriving DecidableEq, Repr

def specs : List Spec :=
  [{ table := "node_enrollments"
     keys := ["edge_node_id"]
     statuses := ["pending", "claimed", "installing", "ready"] },
    { table := "node_registration_requests"
      keys := ["machine_fingerprint"]
      statuses := ["pending_proof", "pending_approval", "approved", "installing", "ready"] },
    { table := "node_registration_requests"
      keys := ["public_key_fingerprint"]
      statuses := ["pending_proof", "pending_approval", "approved", "installing", "ready"] },
    { table := "store_connection_leases"
      keys := ["store_id", "owner_user_id", "device_id"]
      statuses := ["active"] }]

/-- The key of its entry. -/
def Spec.name (spec : Spec) : String := spec.table ++ ":" ++ ",".intercalate spec.keys

/-- The rows that a spec is about. -/
def Spec.active (spec : Spec) (content : Content) : List (Row String Value) :=
  whereIn "status" (spec.statuses.map Value.text) (content spec.table)

/-- `_active_uniqueness_checks` -/
def activeUniquenessChecks (metadata : List String) (content : Content) : List (String × ℕ) :=
  specs.filterMap fun spec =>
    if spec.table ∉ metadata then none
    else some (spec.name, duplicates spec.keys (spec.active content))

def noDuplicates (content : Content) : Prop :=
  ∀ check ∈ activeUniquenessChecks tables content, check.2 = 0

/-! ## They are about the same rows -/

variable {sha2 : Value → Value} {content : Content}

/-- The spec with the table, the columns and the statuses of an index. -/
def PartialIndex.spec (index : PartialIndex) : Spec :=
  { table := index.table, keys := index.columns, statuses := index.statuses }

theorem sqliteAccepts_iff :
    sqliteAccepts content ↔ ∀ spec ∈ specs, Unique spec.keys (spec.active content) := by
  have hspecs : specs = sqliteIndexes.map PartialIndex.spec := by decide
  rw [hspecs, List.forall_mem_map]
  rfl

/-- The generated columns of an index, each with the column that it copies for active rows. -/
structure Copies (spec : Spec) (pairs : List (String × String)) : Prop where
  nonempty : pairs ≠ []
  keys : pairs.map Prod.snd = spec.keys
  generated : ∀ p ∈ pairs,
    generatedColumn spec.table p.1 = some (.whenStatus spec.statuses p.2)

theorem Copies.unique_iff {spec : Spec} {pairs : List (String × String)} (h : Copies spec pairs) :
    Unique (pairs.map Prod.fst) ((content spec.table).map (mysqlRow sha2 spec.table)) ↔
      Unique spec.keys (spec.active content) := by
  rw [← h.keys]
  refine unique_generated h.nonempty "status" (spec.statuses.map Value.text) _ fun row p hp => ?_
  simp only [mysqlRow, h.generated p hp]
  rfl

/-- The generated columns of each spec. -/
def copies : List (Spec × List (String × String)) :=
  specs.zip
    [[("active_edge_node_id", "edge_node_id")],
      [("active_machine_fingerprint", "machine_fingerprint")],
      [("active_public_key_fingerprint", "public_key_fingerprint")],
      [("active_store_id", "store_id"), ("active_owner_user_id", "owner_user_id"),
        ("active_device_id", "device_id")]]

theorem copies_of_mem : ∀ c ∈ copies, Copies c.1 c.2 := by
  have hall : ∀ c ∈ copies, c.2 ≠ [] ∧ c.2.map Prod.snd = c.1.keys ∧ ∀ p ∈ c.2,
      generatedColumn c.1.table p.1 = some (.whenStatus c.1.statuses p.2) := by decide
  intro c hc
  obtain ⟨hne, hkeys, hgenerated⟩ := hall c hc
  exact ⟨hne, hkeys, hgenerated⟩

theorem mysqlAccepts_iff :
    mysqlAccepts sha2 content ↔ ∀ spec ∈ specs, Unique spec.keys (spec.active content) := by
  have hindexes : mysqlIndexes.Perm (copies.map fun c => (c.1.table, c.2.map Prod.fst)) := by decide
  have hspecs : specs = copies.map Prod.fst := by decide
  rw [hspecs, List.forall_mem_map]
  unfold mysqlAccepts
  simp only [hindexes.mem_iff]
  rw [List.forall_mem_map]
  exact forall₂_congr fun c hc => (copies_of_mem c hc).unique_iff

theorem noDuplicates_iff :
    noDuplicates content ↔ ∀ spec ∈ specs, duplicates spec.keys (spec.active content) = 0 := by
  have htables : ∀ spec ∈ specs, spec.table ∈ tables := by decide
  unfold noDuplicates activeUniquenessChecks
  constructor
  · intro h spec hspec
    refine h (spec.name, duplicates spec.keys (spec.active content))
      (List.mem_filterMap.mpr ⟨spec, hspec, ?_⟩)
    exact if_neg (not_not.mpr (htables spec hspec))
  · rintro h check hcheck
    obtain ⟨spec, hspec, heq⟩ := List.mem_filterMap.mp hcheck
    rw [if_neg (not_not.mpr (htables spec hspec))] at heq
    obtain rfl := Option.some.inj heq
    exact h spec hspec

/-- **The databases accept the same content.** -/
theorem accepts_iff : sqliteAccepts content ↔ mysqlAccepts sha2 content :=
  sqliteAccepts_iff.trans mysqlAccepts_iff.symm

/-- The indexes accept the content if and only if the checks report no duplicate. -/
def Agrees (sha2 : Value → Value) (content : Content) : Prop :=
  (sqliteAccepts content ↔ mysqlAccepts sha2 content) ∧
    (mysqlAccepts sha2 content ↔ noDuplicates content)

/-- **The checks agree with the indexes** unless active rows agree with a NULL in the key, and no
others without one. -/
theorem agrees_iff (sha2 : Value → Value) (content : Content) :
    Agrees sha2 content ↔
      ((∃ spec ∈ specs, NullTwins spec.keys (spec.active content)) →
        ∃ spec ∈ specs, Two (Same spec.keys) (spec.active content)) := by
  rw [Agrees, and_iff_right accepts_iff, mysqlAccepts_iff, noDuplicates_iff]
  simp only [duplicates_eq_zero]
  constructor
  · rintro h ⟨spec, hspec, htwins⟩
    by_contra hno
    have hunique : ∀ spec ∈ specs, Unique spec.keys (spec.active content) := fun spec hspec =>
      not_not.mp fun hn => hno ⟨spec, hspec, not_unique.mp hn⟩
    exact (h.mp hunique spec hspec).2 htwins
  · intro h
    refine ⟨fun hunique spec hspec => ⟨hunique spec hspec, fun htwins => ?_⟩,
      fun hall spec hspec => (hall spec hspec).1⟩
    obtain ⟨other, hother, htwo⟩ := h ⟨spec, hspec, htwins⟩
    exact not_unique.mpr htwo (hunique other hother)

/-- A lease of store 7 and user 3 without a device. -/
def withoutDevice (id : String) : Row String Value := fun column =>
  if column = "id" then some (.text id)
  else if column = "store_id" then some (.int 7)
  else if column = "owner_user_id" then some (.int 3)
  else if column = "status" then some (.text "active")
  else none

def twoWithoutDevice : Content := fun table =>
  if table = "store_connection_leases" then [withoutDevice "a", withoutDevice "b"] else []

theorem twoWithoutDevice_disagrees : ¬ Agrees id twoWithoutDevice := by
  rintro ⟨-, h⟩
  have haccepted : ∀ spec ∈ specs, Unique spec.keys (spec.active twoWithoutDevice) := by decide
  have hreported : ¬ ∀ check ∈ activeUniquenessChecks tables twoWithoutDevice, check.2 = 0 := by
    decide
  exact hreported (h.mp (mysqlAccepts_iff.mpr haccepted))

end IdenGrid.Migration.Uniqueness
