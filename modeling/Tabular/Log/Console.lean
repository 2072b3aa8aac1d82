import Tabular.Config

/-! The log as lines of text. A console writes nothing until it is first initialized; that first
time decides for good whether its marks are colored, and every time sets the threshold anew. -/

namespace Tabular.Log

/-- A string with spaces added on the right up to a width. -/
def padded (width : Nat) (s : String) : String := s.pushn ' ' (width - s.length)

/-- Writes records as lines. -/
structure Logger where
  colored : Bool
  deriving DecidableEq, Repr

namespace Logger

/-- The terminal's code for the color of a level. -/
def color : Level → String
  | .error => "31"
  | .warn => "33"
  | .info => "36"
  | .debug => "90"
  | .trace => "90"

/-- The mark of a level: its name in braces, bold and colored if the logger colors. -/
def mark (l : Logger) (level : Level) : String :=
  let text := "\x7b" ++ level.name ++ "\x7d"
  if l.colored then "\x1b[1;" ++ color level ++ "m" ++ text ++ "\x1b[0m" else text

/-- The line of a record. The mark fills eight places and the line number four. -/
def line (l : Logger) (r : Record) : String :=
  padded 8 (l.mark r.level) ++ r.file.getD "" ++ ":" ++ padded 4 (r.line.getD 0).repr ++ " " ++
    r.text ++ "\n"

end Logger

/-- A console: the threshold, the logger that records go to, the logger that initialization made,
and the text written so far. -/
structure Console where
  threshold : Threshold := .off
  installed : Option Logger := none
  own : Option Logger := none
  output : String := ""
  deriving DecidableEq, Repr

namespace Console

/-- The console with a logger that records go to, unless it has one already. -/
def install? (c : Console) (l : Logger) : Option Console :=
  match c.installed with
  | some _ => none
  | none => some { c with installed := some l }

/-- Initializes a console. The first time makes a logger and installs it; every time sets the
threshold. The truth value tells whether a logger that had to be installed could be. -/
def init (c : Console) (config : Config) : Bool × Console :=
  match c.own with
  | some _ => (true, { c with threshold := config.threshold })
  | none =>
    let logger : Logger := { colored := config.coloredLogs }
    let made := { c with own := some logger, threshold := config.threshold }
    match made.install? logger with
    | some installed => (true, installed)
    | none => (false, made)

def enabled (c : Console) (level : Level) : Bool := c.threshold.allows level

/-- Writes a record, if its level is enabled and there is a logger. -/
def write (c : Console) (r : Record) : Console :=
  match c.installed with
  | some l => if c.enabled r.level then { c with output := c.output ++ l.line r } else c
  | none => c

end Console

end Tabular.Log
