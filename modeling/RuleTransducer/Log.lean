/-! Log levels. A level is set by name, and a record is shown if it ranks at least as high
as the set level. -/

namespace RuleTransducer

/-- The names by which a level can be set. Two of them are second names. -/
inductive LogLevel
  | notSet
  | debug
  | info
  | warn
  | warning
  | error
  | fatal
  | critical
  deriving DecidableEq

namespace LogLevel

def name : LogLevel → String
  | notSet => "NOTSET"
  | debug => "DEBUG"
  | info => "INFO"
  | warn => "WARN"
  | warning => "WARNING"
  | error => "ERROR"
  | fatal => "FATAL"
  | critical => "CRITICAL"

def rank : LogLevel → Nat
  | notSet => 0
  | debug => 10
  | info => 20
  | warn | warning => 30
  | error => 40
  | fatal | critical => 50

def all : List LogLevel := [notSet, debug, info, warn, warning, error, fatal, critical]

/-- The capital of a character, as far as level names need it: besides the small Latin
letters, the dotless i and the long s have capitals in ASCII. -/
def capital (c : Char) : Char :=
  if c = '\u0131' then 'I' else if c = '\u017f' then 'S' else c.toUpper

/-- The level of a given name in letters of either case. -/
def ofName? (name : String) : Option LogLevel :=
  all.find? fun level => level.name.toList = name.toList.map capital

/-- The level to log at: the lowest that is of use if asked to be verbose, else the one
that the environment names, and warnings where it names none. -/
def choose (verbose : Bool) (setting : Option String) : LogLevel :=
  if verbose then debug else (setting.bind ofName?).getD warning

/-- Whether records of a level are shown at the set level. -/
def shows (set record : LogLevel) : Bool := set.rank ≤ record.rank

end LogLevel

/-- A log record: its level, the part of the program that speaks, and the message. -/
structure LogRecord where
  level : LogLevel
  speaker : String
  message : String
  deriving DecidableEq

/-- The line that shows a record. -/
def LogRecord.line (r : LogRecord) : String := s!"{r.level.name} {r.speaker}: {r.message}"

end RuleTransducer
