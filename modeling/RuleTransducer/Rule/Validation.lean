import RuleTransducer.Rule.Declared

/-! Validation of declared rules, before anything is built from them. Every item has to be
a text or a pair of texts, and a transform that writes has to read. A rule whose last item
reads nothing is allowed with a warning, since it can never reach a terminal vertex. -/

namespace RuleTransducer

/-- What is wrong with an item. -/
inductive ItemFlaw
  | neitherTextNorPair (typeName : String)
  | partCount (count : Nat)
  | sourceNotText
  | destinationNotText
  | insertion (destination : Text)
  deriving DecidableEq

def ItemFlaw.message : ItemFlaw → String
  | neitherTextNorPair typeName =>
    "expected text or a (source, destination) pair, got " ++ typeName
  | partCount count => s!"transformation must have exactly 2 parts, got {count}"
  | sourceNotText => "transformation source must be text"
  | destinationNotText => "transformation destination must be text"
  | insertion destination =>
    "transformation with empty source cannot emit " ++ Text.quoted destination ++
      " without consuming input"

/-- What is dubious about an item. -/
inductive ItemWarning
  | emptyLiteral
  | emptyTransform
  deriving DecidableEq

def ItemWarning.message : ItemWarning → String
  | emptyLiteral => "empty literal has no effect"
  | emptyTransform => "empty transformation has no effect"

/-- What is wrong with a rule. -/
inductive RuleFlaw
  | singleString
  | notItems (typeName : String)
  | inItem (index : Nat) (flaw : ItemFlaw)
  deriving DecidableEq

def RuleFlaw.message : RuleFlaw → String
  | singleString => "rule must be a list of items, not a single string"
  | notItems typeName => "rule must be a list of items, got " ++ typeName
  | inItem index flaw => s!"item {index}: " ++ flaw.message

/-- What is dubious about a rule. -/
inductive RuleWarning
  | emptyRule
  | deadEnd
  | inItem (index : Nat) (warning : ItemWarning)
  deriving DecidableEq

def RuleWarning.message : RuleWarning → String
  | emptyRule => "rule is empty and will never accept any input"
  | deadEnd => "last item consumes no input; rule can never reach a terminal vertex"
  | inItem index warning => s!"item {index}: " ++ warning.message

/-- The findings on one item. -/
structure ItemVerdict where
  flaws : List ItemFlaw := []
  warnings : List ItemWarning := []
  deriving DecidableEq

/-- The findings on one rule. -/
structure Verdict where
  flaws : List RuleFlaw := []
  warnings : List RuleWarning := []
  deriving DecidableEq

/-- A rule is valid if nothing is wrong with it; warnings do not count. -/
def Verdict.isValid (verdict : Verdict) : Bool := verdict.flaws.isEmpty

namespace Datum

/-- Checks the two parts of a transform. -/
def checkPair (source destination : Datum) : ItemVerdict :=
  match source.text?, destination.text? with
  | some s, some d =>
    if !s.isEmpty then {}
    else if d.isEmpty then { warnings := [.emptyTransform] }
    else { flaws := [.insertion d] }
  | some _, none => { flaws := [.destinationNotText] }
  | none, some _ => { flaws := [.sourceNotText] }
  | none, none => { flaws := [.sourceNotText, .destinationNotText] }

/-- Checks the raw form of an item. -/
def checkRaw : Datum → ItemVerdict
  | text s => if s.isEmpty then { warnings := [.emptyLiteral] } else {}
  | list [source, destination] => checkPair source destination
  | tuple [source, destination] => checkPair source destination
  | list parts => { flaws := [.partCount parts.length] }
  | tuple parts => { flaws := [.partCount parts.length] }
  | value => { flaws := [.neitherTextNorPair value.typeName] }

/-- Checks an item; a finished one is checked by its raw form. -/
def checkItem : Datum → ItemVerdict
  | item part => part.raw.checkRaw
  | value => value.checkRaw

/-- Whether an item without flaws reads at least one code point. -/
def consumesInput : Datum → Bool
  | item part => part.source.isPresent
  | list (source :: _) => source.isPresent
  | tuple (source :: _) => source.isPresent
  | value => value.isPresent

/-- Checks the items of a rule. -/
def checkItems (items : List Datum) : Verdict :=
  match items.getLast? with
  | none => { warnings := [.emptyRule] }
  | some last =>
    let flaws := items.zipIdx.flatMap fun (value, i) => value.checkItem.flaws.map (.inItem i)
    let warnings := items.zipIdx.flatMap fun (value, i) =>
      value.checkItem.warnings.map (.inItem i)
    let deadEnd := flaws.isEmpty && !last.consumesInput
    ⟨flaws, if deadEnd then warnings ++ [.deadEnd] else warnings⟩

/-- Validates one rule, given as a rule or as a run of raw items. -/
def validate : Datum → Verdict
  | text _ | bytes _ => { flaws := [.singleString] }
  | value =>
    match value.elements? with
    | some items => checkItems items
    | none => { flaws := [.notItems value.typeName] }

end Datum

/-- A message about the rule of a given index. -/
def aboutRule (index : Nat) (message : String) : String := s!"rule {index}: " ++ message

/-- The messages on several rules, each with the index of its rule. -/
structure Findings where
  errors : List String
  warnings : List String

def Findings.isValid (findings : Findings) : Bool := findings.errors.isEmpty

/-- Validates several rules. -/
def validateRules (rules : List Datum) : Findings where
  errors := rules.zipIdx.flatMap fun (rule, i) =>
    rule.validate.flaws.map fun flaw => aboutRule i flaw.message
  warnings := rules.zipIdx.flatMap fun (rule, i) =>
    rule.validate.warnings.map fun warning => aboutRule i warning.message

end RuleTransducer
