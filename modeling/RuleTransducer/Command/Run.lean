import RuleTransducer.Command.Arguments
import RuleTransducer.Compilation
import RuleTransducer.Json.Writer
import RuleTransducer.Rule.File

/-! Running a command line, as a function from its words, the setting of the log level and
the rules file to a report: what is printed on either side and how the run ends. Log lines
come before the messages on the errors of the same run. A line with a surrogate cannot be printed,
and the run breaks off there. -/

namespace RuleTransducer.Command

/-- What makes a run break off without a message of its own. -/
inductive Breakdown
  | rulesFile (e : RulesFileError)
  /-- A rule that passes validation and still is not built. -/
  | build (e : BuildError)
  /-- A line with a surrogate. -/
  | unprintable

/-- How a run ends. -/
inductive Ending
  | exit (code : Nat)
  /-- The command line does not fit; the exit code is 2. -/
  | misuse
  | breakdown (cause : Breakdown)

/-- What a run leaves: its ending, the lines on standard output and on standard error, and
the host and port that were served. -/
structure Report where
  ending : Ending
  output : List String := []
  errors : List String := []
  served? : Option (Option String × Option Int) := none

/-- Lines with their ends. -/
def lineText (lines : List String) : String := String.join (lines.map (· ++ "\n"))

namespace Report

def stdout (report : Report) : String := lineText report.output

def stderr (report : Report) : String := lineText report.errors

/-- Puts lines before those on standard error. -/
def logged (lines : List String) (report : Report) : Report :=
  { report with errors := lines ++ report.errors }

/-- The report on a rules file that gives no rules. -/
def ofRulesFileError (path : String) (e : RulesFileError) : Report :=
  match e.message? path with
  | some message => ⟨.exit 1, [], [message], none⟩
  | none => ⟨.breakdown (.rulesFile e), [], [], none⟩

/-- The report on rules that do not compile. -/
def ofRuleError : RuleError → Report
  | .invalid flaws =>
    ⟨.exit 1, [], "Error: invalid rules:" :: flaws.map fun flaw => "  - " ++ flaw.message, none⟩
  | .build e => ⟨.breakdown (.build e), [], [], none⟩

end Report

/-- The lines of the events that are shown at a level. -/
def logLines (level : LogLevel) (events : List Event) : List String :=
  ((events.map Event.record).filter fun record => level.shows record.level).map LogRecord.line

/-- How deep a rules file may nest that is validated, which takes two levels of its own. -/
def validatedNesting : Nat := Json.nesting - 2

/-- How deep a rules file may nest that is compiled, which takes three levels of its own. -/
def compiledNesting : Nat := Json.nesting - 3

/-- Compiles the rules file of a path and reports on its graph. -/
def onGraph (level : LogLevel) (path : String) (content : FileContent)
    (report : Graph Text → Report) : Report :=
  match RulesFile.ofContent compiledNesting content with
  | .error e => .ofRulesFileError path e
  | .ok rules =>
    let compiled := compileAll rules
    let rest : Report := match compiled.error? with
      | some e => .ofRuleError e
      | none => report compiled.graph
    rest.logged (logLines level compiled.events)

/-! ### Running inputs -/

/-- An outcome in its short form: a tag with the output, the outputs or the reason. -/
def outcomeJson (outcome : Outcome Text) : Json :=
  let content : Json := match outcome with
    | .success output => .text output
    | .ambiguous outputs => .texts outputs
    | .failure reason => .text reason
  .array [.text outcome.tag, content]

/-- An input with its outcome. -/
def resultJson (result : Text × Outcome Text) : Json :=
  .object [("input", .text result.1), ("result", outcomeJson result.2)]

/-- The line on an input: the input, the tag, and the outputs or the reason. -/
def resultLine (result : Text × Outcome Text) : Text :=
  let content := match result.2 with
    | .success output => output
    | .ambiguous outputs => .intercalate ", " outputs
    | .failure reason => reason
  result.1 ++ "\t" ++ result.2.tag ++ "\t" ++ content

/-- The lines on results. -/
def resultLines (results : List (Text × Outcome Text)) (asJson : Bool) : List Text :=
  if asJson then [(Json.array (results.map resultJson)).indented] else results.map resultLine

/-- Prints lines up to the first with a surrogate; tells whether these are all. -/
def printLines : List Text → List String × Bool
  | [] => ([], true)
  | line :: rest =>
    match line.string? with
    | some printed => (printLines rest).map (printed :: ·) id
    | none => ([], false)

/-- Reports on every input; the run succeeds if all are accepted. -/
def parseReport (level : LogLevel) (inputs : List String) (asJson : Bool) (g : Graph Text) :
    Report :=
  let texts := inputs.map Text.ofString
  let outcomes := g.parseBatch texts
  let results := texts.zip outcomes
  let events := results.map fun (input, outcome) => Event.parsed input outcome.kind
  let code := if outcomes.all Outcome.isAccepted then 0 else 1
  let (printed, complete) := printLines (resultLines results asJson)
  ⟨if complete then .exit code else .breakdown .unprintable, printed, logLines level events, none⟩

/-! ### The other commands -/

def statsReport (g : Graph Text) : Report :=
  let size := g.stats
  ⟨.exit 0, [s!"Vertices: {size.vertices}", s!"Edges: {size.edges}",
    s!"Terminal vertices: {size.terminals}"], [], none⟩

/-- A heading with a list under it, after an empty line; nothing for an empty list. -/
def listing (heading : String) (messages : List String) : List String :=
  if messages.isEmpty then [] else "" :: heading :: messages.map ("  - " ++ ·)

/-- Reports on the rules of a file; the run succeeds if they have no errors. -/
def validateReport (path : String) (content : FileContent) : Report :=
  match RulesFile.ofContent validatedNesting content with
  | .error e => .ofRulesFileError path e
  | .ok rules =>
    let findings := validateRules rules
    let lines := s!"Rules: {rules.length}" :: listing "Warnings:" findings.warnings
    if findings.isValid then ⟨.exit 0, lines ++ ["OK"], [], none⟩
    else ⟨.exit 1, lines ++ listing "Errors:" findings.errors, [], none⟩

/-- Runs a job with the content of its rules file. -/
def Job.report (level : LogLevel) (read : String → FileContent) : Job → Report
  | parse path inputs asJson => onGraph level path (read path) (parseReport level inputs asJson)
  | stats path => onGraph level path (read path) statsReport
  | validate path => validateReport path (read path)
  | serve host? port? => ⟨.exit 0, [], [], some (host?, port?)⟩

/-- Runs a command line. One that does not fit is answered with the usage. Without a command
the help is printed, which counts as a failure. -/
def run (setting : Option String) (read : String → FileContent) (line : List String) : Report :=
  match interpret line with
  | .error (.help lines) => ⟨.exit 0, lines, [], none⟩
  | .error .misuse => ⟨.misuse, [], mainHelp.take 1, none⟩
  | .ok ⟨_, none⟩ => ⟨.exit 1, mainHelp, [], none⟩
  | .ok ⟨verbose, some job⟩ => job.report (.choose verbose setting) read

end RuleTransducer.Command
