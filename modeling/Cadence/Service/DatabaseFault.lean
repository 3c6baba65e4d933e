import Cadence.Service.Error

/-!
# Faults of the database

How a fault reported by the database becomes an error of the service: a row that is not there is not
found, a broken uniqueness rule is a duplicate, and all else is a failed operation.
-/

namespace Cadence

/-- The rules that a database may report as broken, and the states in which it refuses to work. -/
inductive DatabaseRule
  | unique | foreignKey | unableToSend | serialization | readOnlyTransaction | restrict | notNull
  | check | exclusion | closedConnection | unknown
  deriving DecidableEq, Repr

namespace DatabaseRule

def name : DatabaseRule → String
  | unique => "UniqueViolation"
  | foreignKey => "ForeignKeyViolation"
  | unableToSend => "UnableToSendCommand"
  | serialization => "SerializationFailure"
  | readOnlyTransaction => "ReadOnlyTransaction"
  | restrict => "RestrictViolation"
  | notNull => "NotNullViolation"
  | check => "CheckViolation"
  | exclusion => "ExclusionViolation"
  | closedConnection => "ClosedConnection"
  | unknown => "Unknown"

end DatabaseRule

/-- What the database reports with a broken rule. -/
structure RuleReport where
  message : String
  details : Option String := none
  table : Option String := none
  column : Option String := none
  constraint : Option String := none
  deriving DecidableEq, Repr

inductive DatabaseFault
  | rowNotFound
  | broken (rule : DatabaseRule) (report : RuleReport)
  | rollback
  | alreadyInTransaction
  | notInTransaction
  deriving DecidableEq, Repr

namespace DatabaseFault

/-- The column in the name of a uniqueness rule of the job table, `cron_jobs_<column>_key`. -/
def columnOfConstraint? (name : String) : Option String :=
  let cs := name.toList
  let last := "_key".toList
  let first := "cron_jobs_".toList
  if last.isSuffixOf cs then
    let stem := cs.take (cs.length - last.length)
    if first.isPrefixOf stem then some (String.ofList (stem.drop first.length)) else none
  else none

/-- The error of the service for a fault met in an operation. -/
def toError (operation : String) : DatabaseFault → ServiceError
  | rowNotFound => .notFound "resource" "id" "unknown"
  | broken .unique r =>
    .duplicate (r.table.getD "resource")
      ((r.column <|> r.constraint.bind columnOfConstraint?).getD "unknown")
      (r.details.getD "")
  | broken rule r => .database operation [s!"{rule.name}: {r.message}"]
  | rollback => .database operation ["You have asked diesel to rollback the transaction"]
  | alreadyInTransaction =>
    .database operation ["Cannot perform this operation while a transaction is open"]
  | notInTransaction =>
    .database operation ["Cannot perform this operation outside of a transaction"]

/-- The operation named when none is known. -/
def defaultOperation : String := "database operation"

end DatabaseFault

end Cadence
