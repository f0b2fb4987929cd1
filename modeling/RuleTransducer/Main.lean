import RuleTransducer.Api.Http
import RuleTransducer.Command.Run
import RuleTransducer.Json.Writer

/-! The program: reads the rules file that the command line names, prints the report, and
answers requests if it is told to serve. A request is one line of standard input, an
object with a method, a path and perhaps a body; the response is one line of output, or the
reason why there is none. -/

namespace RuleTransducer

/-- Reads a file. -/
def readFile (path : String) : IO FileContent := do
  match ← (IO.FS.readBinFile path).toBaseIO with
  | .ok octets => return .ok octets.toList
  | .error (.noFileOrDirectory _ _ _) => return .error .missing
  | .error _ => return .error .isDirectory

/-- The response to the request on a line. -/
def answerLine (r : Registry) (line : String) : Registry × Json :=
  match Json.decode (line : Text).toList with
  | .error _ => (r, .null)
  | .ok request =>
    let field (name : String) := match request.field? name with
      | some (.text s) => s.string?.getD ""
      | _ => ""
    let body := (request.field? "body").elim (.error .absent) .ok
    match Api.answer r (field "method") (field "path") body with
    | (r, .ok response) =>
      (r, .object [("status", .nat response.status), ("body", response.body)])
    | (r, .error breakdown) => (r, .object [("error", .text breakdown.message)])

/-- Answers requests until the input ends. -/
partial def serve (r : Registry) : IO Unit := do
  let line ← (← IO.getStdin).getLine
  unless line.isEmpty do
    let (r, response) := answerLine r line
    IO.println (response.compact.string?.getD "")
    (← IO.getStdout).flush
    serve r

/-- The content of the rules file that a command line names. -/
def contentOf (line : List String) : IO FileContent :=
  match Command.interpret line with
  | .ok ⟨_, some job⟩ => (job.rulesFile?.map readFile).getD (pure (.error .missing))
  | _ => pure (.error .missing)

end RuleTransducer

open RuleTransducer

/-- Runs a command line. -/
def main (line : List String) : IO UInt32 := do
  let content ← contentOf line
  let report := Command.run (← IO.getEnv "GENFST_LOG_LEVEL") (fun _ => content) line
  IO.print report.stdout
  IO.eprint report.stderr
  if report.served?.isSome then serve .empty
  match report.ending with
  | .exit code => return code.toUInt32
  | .misuse => return 2
  | .breakdown _ =>
    IO.eprintln "genfst: the run broke off"
    return 1
