import RuleTransducer.Command.Grammar
import RuleTransducer.Text.Numeral

/-! The command line of the program: one command with its own arguments, and before it the
options that concern every command. Whatever stops the reading first decides, be it a
request for help or a fault. -/

namespace RuleTransducer.Command

/-- What there is to do. -/
inductive Job
  /-- Run the inputs on the rules of a file. -/
  | parse (rulesFile : String) (inputs : List String) (asJson : Bool)
  /-- Tell the size of the graph of a rules file. -/
  | stats (rulesFile : String)
  /-- Check a rules file without building a graph. -/
  | validate (rulesFile : String)
  /-- Answer requests at an address, of which a part may be left open. -/
  | serve (host? : Option String) (port? : Option Int)
  deriving DecidableEq

/-- The rules file that a job needs. -/
def Job.rulesFile? : Job → Option String
  | parse path _ _ | stats path | validate path => some path
  | serve _ _ => none

/-- A command line that was read to its end. -/
structure Invocation where
  verbose : Bool
  job? : Option Job
  deriving DecidableEq

/-- Why the reading of a command line stopped. -/
inductive Stop
  | help (lines : List String)
  | misuse
  deriving DecidableEq

/-! ### Commands -/

inductive CommandName
  | parse
  | stats
  | validate
  | serve
  deriving DecidableEq

namespace CommandName

def name : CommandName → String
  | parse => "parse"
  | stats => "stats"
  | validate => "validate"
  | serve => "serve"

def all : List CommandName := [parse, stats, validate, serve]

/-- The command of a name, which has to be written in full. -/
def ofName? (name : String) : Option CommandName := all.find? fun command => command.name = name

def helpOption : OptionSpec := ⟨["-h", "--help"], .help, "help"⟩

def rulesOperand : OperandSpec := ⟨"rules_file", .one⟩

/-- The grammar of a command's arguments. -/
def grammar : CommandName → Grammar
  | parse => ⟨[helpOption, ⟨["--json"], .switch, "json"⟩], [rulesOperand, ⟨"inputs", .several⟩]⟩
  | stats | validate => ⟨[helpOption], [rulesOperand]⟩
  | serve => ⟨[helpOption, ⟨["--host"], .setting, "host"⟩, ⟨["--port"], .setting, "port"⟩], []⟩

/-- The lines on the options of a help text that has no others. -/
def helpOnly : List String := ["options:", "  -h, --help  show this help message and exit"]

/-- The lines on the rules file in a help text. -/
def helpOnRules : List String :=
  ["positional arguments:", "  rules_file  Path to rules JSON file"]

/-- The help on a command. -/
def help : CommandName → List String
  | parse => ["usage: genfst parse [-h] [--json] rules_file inputs [inputs ...]", ""] ++
    helpOnRules ++ ["  inputs      Input strings", ""] ++ helpOnly ++ ["  --json      Emit JSON"]
  | stats => ["usage: genfst stats [-h] rules_file", ""] ++ helpOnRules ++ [""] ++ helpOnly
  | validate => ["usage: genfst validate [-h] rules_file", ""] ++ helpOnRules ++ [""] ++ helpOnly
  | serve => ["usage: genfst serve [-h] [--host HOST] [--port PORT]", "", "options:",
    "  -h, --help   show this help message and exit", "  --host HOST", "  --port PORT"]

/-- The address to serve at unless one is given. -/
def defaultHost : String := "127.0.0.1"

def defaultPort : Int := 8000

/-- The job that a command's arguments set. -/
def job (command : CommandName) (arguments : Reading) : Job :=
  let rulesFile := (arguments.words "rules_file").headD ""
  match command with
  | parse => .parse rulesFile (arguments.words "inputs") (arguments.isSwitched "json")
  | stats => .stats rulesFile
  | validate => .validate rulesFile
  | serve =>
    .serve ((arguments.values "host").getLastD (some defaultHost))
      (((arguments.values "port").map (·.bind Text.integer?)).getLastD (some defaultPort))

/-- What a taking stops with: help where it is asked for, and a port that is no integer. -/
def stop? (command : CommandName) : Taking → Option Stop
  | .help => some (.help command.help)
  | .setting "port" (some value) =>
    if (Text.integer? value).isSome then none else some .misuse
  | _ => none

/-- Reads the arguments of a command. -/
def interpret (command : CommandName) (line : List String) : Except Stop Job :=
  let arguments := command.grammar.read line
  match arguments.takings.findSome? command.stop? with
  | some stop => .error stop
  | none => if arguments.fits then .ok (command.job arguments) else .error .misuse

end CommandName

/-! ### The whole line -/

/-- The grammar of the line up to the command, which takes all that follows it. -/
def mainGrammar : Grammar :=
  ⟨[CommandName.helpOption, ⟨["--verbose", "-v"], .switch, "verbose"⟩], [⟨"command", .command⟩]⟩

/-- The help on the whole program. -/
def mainHelp : List String :=
  ["usage: genfst [-h] [--verbose] \x7bparse,stats,validate,serve\x7d ...", "",
    "GenFST - rule-driven finite-state transducer", "",
    "positional arguments:",
    "  \x7bparse,stats,validate,serve\x7d",
    "                        Commands",
    "    parse               Transduce inputs",
    "    stats               Show graph statistics",
    "    validate            Check rules for errors",
    "    serve               Run the HTTP API", "",
    "options:",
    "  -h, --help            show this help message and exit",
    "  --verbose, -v         Enable debug logging"]

/-- The job of a command with the words that follow it. -/
def interpretCommand : List String → Except Stop (Option Job)
  | [] => .ok none
  | name :: line =>
    match CommandName.ofName? name with
    | some command => (command.interpret line).map some
    | none => .error .misuse

def Taking.isHelp : Taking → Bool
  | help => true
  | _ => false

/-- Reads a command line. Since the command takes all that follows it, help on the whole
program is asked for before the command if at all. -/
def interpret (line : List String) : Except Stop Invocation :=
  let reading := mainGrammar.read line
  if reading.takings.any Taking.isHelp then .error (.help mainHelp)
  else
    match interpretCommand (reading.words "command") with
    | .error stop => .error stop
    | .ok job? =>
      if reading.fits then .ok ⟨reading.isSwitched "verbose", job?⟩ else .error .misuse

end RuleTransducer.Command
