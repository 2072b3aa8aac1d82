import Tabular.Log.Record

/-! Settings of a database and of its log. -/

namespace Tabular

/-- Settings: the largest size that a string column may be given, which records are logged, and
whether the marks of log lines are colored. -/
structure Config where
  maxVarcharSize : Nat := 65535
  threshold : Log.Threshold := .upTo .info
  coloredLogs : Bool := true
  deriving DecidableEq, Repr

end Tabular
