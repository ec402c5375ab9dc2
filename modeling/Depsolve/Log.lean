/-!
# Log records

What an operation reports besides its result. Records are values, returned in order.
-/
namespace Depsolve

inductive LogLevel where
  | error
  | warn
  | info
  | debug
deriving DecidableEq

def LogLevel.text : LogLevel → String
  | .error => "ERROR"
  | .warn => "WARN"
  | .info => "INFO"
  | .debug => "DEBUG"

structure LogRecord where
  level : LogLevel
  /-- The component that reports. -/
  target : String
  message : String
deriving DecidableEq

def LogRecord.text (r : LogRecord) : String := s!"{r.level.text} {r.target}: {r.message}"

end Depsolve
