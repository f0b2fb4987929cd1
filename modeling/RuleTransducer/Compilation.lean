import RuleTransducer.Graph.Building
import RuleTransducer.Graph.Traversal
import RuleTransducer.Log
import RuleTransducer.Rule.Validation

/-! Compiling validated rules. A declared rule enters a graph only if it is valid, so that
a malformed one leaves the graph as it was; its warnings are noted and it is built all the
same. Rules accumulate in one graph in the order of registration. -/

namespace RuleTransducer

/-- What compiling and running note in the log. -/
inductive Event
  | dubious (declared : Datum) (warning : RuleWarning)
  | compiled (input : Text) (added : Nat) (ending : Status)
  | parsed (text : Text) (kind : OutcomeKind)

/-- The log record of an event. -/
def Event.record : Event → LogRecord
  | dubious declared warning =>
    ⟨.warning, "genfst.fst", s!"rule {declared.printed}: {warning.message}"⟩
  | compiled input added ending =>
    ⟨.debug, "genfst.rule_compiler.compiler",
      s!"compiled rule {Text.quoted input}: {added} new edge(s), ends at {ending.name}"⟩
  | parsed text kind =>
    ⟨.debug, "genfst.engine_core.transducer", s!"parse {Text.quoted text} -> {kind.name}"⟩

/-- Why a rule was not admitted. -/
inductive RuleError
  | invalid (flaws : List RuleFlaw)
  | build (e : BuildError)

def RuleError.message : RuleError → String
  | invalid flaws => s!"Rule validation failed with {flaws.length} error(s)"
  | build e => e.message

/-- A declared rule with its elements at hand: any run of elements but a text or a rule
becomes a list. -/
def Datum.materialised (declared : Datum) : Datum :=
  match declared with
  | text _ | list _ | rule _ => declared
  | _ => (declared.elements?.map list).getD declared

variable {α : Type}

/-- The effect of admitting rules: the graph after it, the events, and what stopped it. -/
structure Admission (α : Type) where
  graph : Graph α
  events : List Event
  error? : Option RuleError

variable [BEq α] [Fragment α]

namespace Graph

/-- Validates a declared rule and builds it if it is valid. -/
def addRule (g : Graph α) (declared : Datum) : Admission α :=
  let declared := declared.materialised
  let verdict := declared.validate
  if verdict.isValid then
    let warned := verdict.warnings.map (.dubious declared)
    let built := g.buildDeclared declared
    match built.error? with
    | none => ⟨built.graph, warned ++ [.compiled built.input built.added built.ending], none⟩
    | some e => ⟨built.graph, warned, some (.build e)⟩
  else ⟨g, [], some (.invalid verdict.flaws)⟩

/-- Admits declared rules in order, up to the first that fails. -/
def addRules (g : Graph α) : List Datum → Admission α
  | [] => ⟨g, [], none⟩
  | declared :: rest =>
    let first := g.addRule declared
    match first.error? with
    | some _ => first
    | none =>
      let later := first.graph.addRules rest
      { later with events := first.events ++ later.events }

/-- Builds declared rules in order without validation. The rules before a failing one stay
and those after it are not touched. -/
def buildAll (g : Graph α) : List Datum → Graph α × Option BuildError
  | [] => (g, none)
  | declared :: rest =>
    let built := g.buildDeclared declared
    match built.error? with
    | some e => (built.graph, some e)
    | none => built.graph.buildAll rest

/-- Builds each element of a value as a rule, without validation. -/
def buildEach (g : Graph α) (rules : Datum) : Graph α × Option BuildError :=
  match rules.elements with
  | .ok rules => g.buildAll rules
  | .error e => (g, some (.declaration e))

end Graph

/-- Compiles declared rules into a fresh graph. -/
def compileAll (rules : List Datum) : Admission α := Graph.empty.addRules rules

/-- Compiles the elements of a value into a fresh graph. -/
def compile (rules : Datum) : Admission α :=
  match rules.elements with
  | .ok rules => compileAll rules
  | .error e => ⟨.empty, [], some (.build (.declaration e))⟩

/-- The graph of declared rules, if all of them are admitted. -/
def compile? (rules : List Datum) : Except RuleError (Graph Text) :=
  let admission := compileAll rules
  match admission.error? with
  | none => .ok admission.graph
  | some e => .error e

end RuleTransducer
