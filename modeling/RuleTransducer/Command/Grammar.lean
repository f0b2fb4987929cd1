import RuleTransducer.Text.Numeral

/-! Command-line grammars. A grammar has options, known by names of one or two dashes, and
operands in order. Words are sorted into options and operands before anything is taken;
then operands and options are taken in turn from left to right. A long name may be cut
short while it stays unambiguous, a value may follow a name behind an equals sign, short
options may share one dash, and two dashes alone end the options. -/

namespace RuleTransducer.Command

/-- What an option does: ask for help, switch something on, or set a value. -/
inductive OptionRole
  | help
  | switch
  | setting
  deriving DecidableEq

structure OptionSpec where
  names : List String
  role : OptionRole
  key : String

/-- How many words an operand takes: one, one or more, or a command with all that follows
it, options included. -/
inductive OperandRole
  | one
  | several
  | command
  deriving DecidableEq

structure OperandSpec where
  key : String
  role : OperandRole

structure Grammar where
  options : List OptionSpec
  operands : List OperandSpec

/-- A word of the command line after sorting. -/
inductive Word
  | operand (word : String)
  /-- The two dashes that end the options. -/
  | divider
  /-- An option by one of its names, perhaps with text joined to the name. -/
  | option (word name : String) (spec : OptionSpec) (joined : Option String)
  | unknownOption (word : String)

namespace Word

def isOption : Word → Bool
  | option _ _ _ _ | unknownOption _ => true
  | _ => false

def isDivider : Word → Bool
  | divider => true
  | _ => false

/-- The word as it was given. -/
def text : Word → String
  | operand word => word
  | divider => "--"
  | option word _ _ _ => word
  | unknownOption word => word

end Word

/-- What is taken from the command line, in order. A setting may be left without a value,
since two dashes in its place are dropped. -/
inductive Taking
  | help
  | switch (key : String)
  | setting (key : String) (value? : Option String)
  | operand (key : String) (words : List String)

/-! ### Sorting -/

/-- Every option under each of its names. -/
def Grammar.named (g : Grammar) : List (String × OptionSpec) :=
  g.options.flatMap fun spec => spec.names.map fun name => (name, spec)

/-- Whether a word starts with another. -/
def starts (word start : String) : Bool := start.toList.isPrefixOf word.toList

/-- Whether a name or word is a long one. -/
def isLong (word : String) : Bool := starts word "--"

/-- Splits a word at its first equals sign. -/
def splitEquals (word : String) : String × Option String :=
  match word.toList.span (· != '=') with
  | (name, _ :: value) => (String.ofList name, some (String.ofList value))
  | (name, []) => (String.ofList name, none)

/-- The options that a word can mean when it is no option's name itself: long names that
it cuts short, or the short option that it starts with. -/
def Grammar.candidates (g : Grammar) (word : String) : List Word :=
  if isLong word then
    let (start, value) := splitEquals word
    g.named.filterMap fun (name, spec) =>
      if starts name start then some (.option word name spec value) else none
  else
    let short := String.ofList (word.toList.take 2)
    g.named.filterMap fun (name, spec) =>
      if name = short then
        some (.option word name spec (some (String.ofList (word.toList.drop 2))))
      else if starts name word then some (.option word name spec none)
      else none

/-- Sorts one word; an ambiguous one belongs nowhere. A word with a dash that is no option
is an operand if it looks like a negative number or has a space in it. -/
def Grammar.sortWord (g : Grammar) (word : String) : Option Word :=
  if !starts word "-" || word = "-" then some (.operand word)
  else
    match g.named.find? (·.1 = word), splitEquals word with
    | some (name, spec), _ => some (.option word name spec none)
    | none, (start, value) =>
      match value, g.named.find? (·.1 = start) with
      | some value, some (name, spec) => some (.option word name spec (some value))
      | _, _ =>
        match g.candidates word with
        | [candidate] => some candidate
        | [] =>
          if Text.isNegativeNumber word || word.toList.contains ' ' then some (.operand word)
          else some (.unknownOption word)
        | _ => none

/-- Sorts all words; behind the divider every word is an operand. -/
def Grammar.sort (g : Grammar) : List String → Option (List Word)
  | [] => some []
  | "--" :: rest => some (.divider :: rest.map .operand)
  | word :: rest => do return (← g.sortWord word) :: (← g.sort rest)

/-! ### Taking operands -/

/-- The ways in which an operand can take words from the front, the longest first. An
operand of several words has one, since it leaves nothing that the next could take. -/
def OperandRole.ways (role : OperandRole) (words : List Word) : List (List Word × List Word) :=
  let (dividers, rest) := words.span Word.isDivider
  match rest with
  | .operand word :: rest =>
    let least := dividers ++ [.operand word]
    match role with
    | one =>
      match rest with
      | .divider :: after => [(least ++ [.divider], after), (least, rest)]
      | _ => [(least, rest)]
    | several =>
      let (more, rest) := rest.span fun word => !word.isOption
      [(least ++ more, rest)]
    | command => [(least ++ rest, [])]
  | _ => []

/-- Takes words for all operands, each as many as it can. -/
def takeOperands : List OperandSpec → List Word → Option (List Taking × List Word)
  | [], words => some ([], words)
  | operand :: later, words =>
    (operand.role.ways words).findSome? fun (taken, rest) =>
      let texts := taken.map Word.text
      let texts := if operand.role = .command then texts else texts.erase "--"
      (takeOperands later rest).map fun (takings, rest) =>
        (.operand operand.key texts :: takings, rest)

/-- Takes words for as many operands as possible; gives the operands left. -/
def takeMost (operands : List OperandSpec) (words : List Word) :
    List Taking × List OperandSpec × List Word :=
  let counts := (List.range operands.length).reverse.map (· + 1)
  let taken := counts.findSome? fun n =>
    (takeOperands (operands.take n) words).map fun (takings, rest) =>
      (takings, operands.drop n, rest)
  taken.getD ([], operands, words)

/-! ### Taking options -/

/-- Takes an option that stands without joined text: a setting takes the next word. -/
def takeBare (spec : OptionSpec) (rest : List Word) : Option (List Taking × List Word) :=
  match spec.role, rest with
  | .help, _ => some ([.help], rest)
  | .switch, _ => some ([.switch spec.key], rest)
  | .setting, .operand value :: rest => some ([.setting spec.key (some value)], rest)
  | .setting, _ => none

/-- The value that a setting has by its joined text. -/
def joinedValue? (joined : List Char) : Option String :=
  if joined = ['-', '-'] then none else some (String.ofList joined)

/-- Takes an option with joined text. A setting takes the text; a short option without a
value leaves it to the short options whose letters follow, and an equals sign before them
does not count. -/
def Grammar.takeJoined (g : Grammar) (rest : List Word) :
    List Char → (name : String) → OptionSpec → Option (List Taking × List Word)
  | [], _, spec =>
    if spec.role = .setting then some ([.setting spec.key (some "")], rest) else none
  | letter :: after, name, spec =>
    if spec.role = .setting then
      some ([.setting spec.key (joinedValue? (letter :: after))], rest)
    else if isLong name then none
    else
      let next := String.ofList ['-', letter]
      match g.named.find? (·.1 = next) with
      | none => none
      | some (_, following) =>
        let later :=
          if after.isEmpty then takeBare following rest
          else g.takeJoined rest after next following
        let own := if spec.role = .help then Taking.help else .switch spec.key
        later.map fun (takings, rest) => (own :: takings, rest)

/-- Takes an option by one of its names. -/
def Grammar.takeOption (g : Grammar) (name : String) (spec : OptionSpec)
    (joined : Option String) (rest : List Word) : Option (List Taking × List Word) :=
  match joined with
  | some text => g.takeJoined rest text.toList name spec
  | none => takeBare spec rest

/-! ### Reading -/

/-- What a command line gives: the takings in order, and whether it fits the grammar to
its end. Where it does not, the takings are those before the fault shows. -/
structure Reading where
  takings : List Taking
  fits : Bool

/-- Takes operands and options in turn; `surplus` tells whether a word was left over. The
fuel bounds the rounds, each of which takes a word. -/
def Grammar.take (g : Grammar) :
    Nat → List OperandSpec → List Word → Bool → Reading
  | 0, _, _, _ => ⟨[], false⟩
  | fuel + 1, operands, words, surplus =>
    if words.any Word.isOption then
      match words with
      | [] => ⟨[], false⟩
      | .unknownOption _ :: rest => g.take fuel operands rest true
      | .option _ name spec joined :: rest =>
        match g.takeOption name spec joined rest with
        | none => ⟨[], false⟩
        | some (takings, rest) =>
          let later := g.take fuel operands rest surplus
          ⟨takings ++ later.takings, later.fits⟩
      | words =>
        match takeMost operands words with
        | ([], _, _) => g.take fuel operands (words.dropWhile fun word => !word.isOption) true
        | (takings, operands, rest) =>
          let later := g.take fuel operands rest surplus
          ⟨takings ++ later.takings, later.fits⟩
    else
      let (takings, operands, rest) := takeMost operands words
      let missing := operands.any fun operand => operand.role != .command
      ⟨takings, !surplus && rest.isEmpty && !missing⟩

/-- Reads a command line. -/
def Grammar.read (g : Grammar) (line : List String) : Reading :=
  match g.sort line with
  | some words => g.take (words.length + 1) g.operands words false
  | none => ⟨[], false⟩

namespace Reading

/-- The words that an operand took. -/
def words (reading : Reading) (key : String) : List String :=
  reading.takings.flatMap fun taking =>
    match taking with
    | .operand known words => if known = key then words else []
    | _ => []

def isSwitched (reading : Reading) (key : String) : Bool :=
  reading.takings.any fun taking =>
    match taking with
    | .switch known => known = key
    | _ => false

/-- The values of a setting in order, as far as it has been given with one; the last time
counts. -/
def values (reading : Reading) (key : String) : List (Option String) :=
  reading.takings.filterMap fun taking =>
    match taking with
    | .setting known value? => if known = key then some value? else none
    | _ => none

end Reading

end RuleTransducer.Command
