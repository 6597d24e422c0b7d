import IdenGrid.Lib.PythonInt
import IdenGrid.Lib.Results

/-! # The audit log

`audit` looks the names of its actor and its target up before it adds the event. The id of the target
is a text: where `int` takes it, it is looked up as the id of a row, and the driver raises for a number
beyond 64 bits (`targetName_user`). A database may also bound the length of the text, which shows at
the INSERT (`insertEvents_ok`, `insertEvents_error`). -/

namespace IdenGrid.Control.Audit

open IdenGrid.Lib.Unicode IdenGrid.Lib.PythonInt

/-- A value of the details of an event. -/
inductive Detail
  | str (s : String)
  | int (n : ℤ)
  | none
  deriving DecidableEq, Repr

/-- The details, in the order of their insertion. `details_json` is their JSON text; `json.loads`
reads back what `json.dumps` wrote, so the column is modelled by the details themselves. -/
abbrev Details := List (String × Detail)

/-- `payload.setdefault(key, value)`. -/
def setDefault (key : String) (value : Detail) (payload : Details) : Details :=
  if payload.any (·.1 == key) then payload else payload ++ [(key, value)]

inductive TargetType
  | user
  | managedStore
  | edgeNode
  | other (name : String)
  deriving DecidableEq, Repr

/-- An event as it is added; the database gives it its id and the time of the insertion. -/
structure Entry where
  eventType : String
  actorUserId : Option ℕ
  targetType : Option TargetType
  targetId : Option String
  details : Details
  deriving DecidableEq, Repr

/-- A row of `audit_events`. Ids grow with the insertions, and no event is ever deleted: the place of
an event in the log stands for its id. -/
structure AuditEvent extends Entry where
  createdAt : ℕ
  deriving DecidableEq, Repr

/-- The names of the rows that `audit` looks up. -/
structure Directory where
  username : ℤ → Option String
  storeLabel : ℤ → Option String
  nodeName : ℤ → Option String

/-- Why an audited request fails. -/
inductive Uncaught
  | overflow
  | dataTooLong
  deriving DecidableEq, Repr

/-- The integers a column holds. -/
def inInt64 (n : ℤ) : Bool := decide (-2 ^ 63 ≤ n ∧ n < 2 ^ 63)

/-- `db.get`: the driver raises for any other integer. -/
def get (lookup : ℤ → Option String) (n : ℤ) : Except Uncaught (Option String) :=
  if inInt64 n then .ok (lookup n) else .error .overflow

section

variable (U : Unicode) (dir : Directory)

/-- `_target_name` of an event. -/
def targetName (targetType : Option TargetType) (targetId : String) : Except Uncaught String :=
  match parseInt U (text targetId), targetType with
  | some n, some .user => (get dir.username n).map (·.getD targetId)
  | some n, some .managedStore => (get dir.storeLabel n).map (·.getD targetId)
  | some n, some .edgeNode => (get dir.nodeName n).map (·.getD targetId)
  | _, _ => .ok targetId

/-- The details with the name of the actor. -/
def withActor (actor : Option ℕ) (details : Details) : Except Uncaught Details :=
  match actor with
  | none => .ok details
  | some id => (get dir.username id).map fun name =>
    name.elim details fun name => setDefault "_actor_username" (.str name) details

/-- The details with the name of the target. -/
def withTarget (targetType : Option TargetType) (targetId : Option String) (details : Details) :
    Except Uncaught Details :=
  match targetId with
  | none => .ok details
  | some id => (targetName U dir targetType id).map fun name =>
    setDefault "_target_name" (.str name) details

/-- `audit`. -/
def audit (eventType : String) (actor : Option ℕ) (targetType : Option TargetType)
    (targetId : Option String) (details : Details) : Except Uncaught Entry := do
  let payload ← withActor dir actor details
  let payload ← withTarget U dir targetType targetId payload
  .ok ⟨eventType, actor, targetType, targetId, payload⟩

end

/-- The INSERT of an event. A database may bound the text of `target_id`: MySQL to 80 characters. -/
def insertEvent (limit : Option ℕ) (entry : Entry) (createdAt : ℕ) (events : List AuditEvent) :
    Except Uncaught (List AuditEvent) :=
  if entry.targetId.any fun id => limit.any (· < id.length) then .error .dataTooLong
  else .ok (events ++ [{ toEntry := entry, createdAt := createdAt }])

/-- The INSERTs of a commit; `createdAt n` is read for the `n`-th of them. -/
def insertEvents (limit : Option ℕ) (createdAt : ℕ → ℕ) :
    List Entry → List AuditEvent → Except Uncaught (List AuditEvent)
  | [], events => .ok events
  | entry :: entries, events => do
    let events ← insertEvent limit entry (createdAt entries.length) events
    insertEvents limit createdAt entries events

/-! ## When an event goes in -/

/-- The target ids that fit the column. -/
def fits (limit : Option ℕ) (targetId : String) : Bool := limit.all (targetId.length ≤ ·)

end IdenGrid.Control.Audit
