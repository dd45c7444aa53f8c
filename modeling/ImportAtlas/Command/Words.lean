import ImportAtlas.Settings
import ImportAtlas.Text.Pieces

/-!
# Words of a command line

A command line is read at two levels, before the name of a command and behind
it. At each level there are switches, options with a value, and operands. A
switch or option is spelled by a long name or by a letter; letters of switches
may be run together, and a value may follow its option directly, behind an equals
sign, or as the next word. Everything behind `--` is an operand.
-/

namespace ImportAtlas.Command

/-- The commands. -/
inductive Verb where
  | version
  | scan
  | report
  | compile
  deriving DecidableEq, Repr

/-- Options without a value. -/
inductive Switch where
  | verbose
  | json
  | sibling
  | rank
  | dependencies
  deriving DecidableEq, Repr

/-- Options with a value. -/
inductive Key where
  | cwd
  | format
  | python
  | required
  | ignore
  | width
  | module
  | jobs
  | output
  | emit
  deriving DecidableEq, Repr

/-- What a spelling stands for. -/
inductive Meaning where
  | switch (switch : Switch)
  | key (key : Key)
  | help
  | title
  deriving DecidableEq, Repr

/-- Where on the command line a word stands: before a command, or behind it. -/
abbrev Level := Option Verb

/-- Why reading ends before the last word. -/
inductive Stop where
  /-- The command line is not well-formed. -/
  | usage
  /-- Help was asked for. -/
  | help
  /-- The name and version of the program were asked for. -/
  | title
  deriving DecidableEq, Repr

/-! ## Spelling -/

def Verb.name : Verb → String
  | .version => "version"
  | .scan => "scan"
  | .report => "report"
  | .compile => "compile"

def Verb.ofName? (name : String) : Option Verb :=
  [Verb.version, .scan, .report, .compile].find? (·.name == name)

def Switch.name : Switch → String
  | .verbose => "verbose"
  | .json => "json"
  | .sibling => "pyc"
  | .rank => "rank"
  | .dependencies => "dependencies"

def Switch.letter? : Switch → Option Char
  | .verbose => some 'v'
  | _ => none

def Key.name : Key → String
  | .cwd => "cwd"
  | .format => "format"
  | .python => "python"
  | .required => "required"
  | .ignore => "ignore"
  | .width => "width"
  | .module => "module"
  | .jobs => "jobs"
  | .output => "output"
  | .emit => "emit"

def Key.letter? : Key → Option Char
  | .jobs => some 'j'
  | .output => some 'o'
  | _ => none

namespace Level

/-- The switches that are understood at a level. -/
def switches : Level → List Switch
  | none => [.verbose, .json]
  | some .version => [.verbose, .json]
  | some .scan => [.verbose, .json, .sibling]
  | some .report => [.verbose, .json, .sibling, .rank, .dependencies]
  | some .compile => [.verbose, .json]

/-- The options with a value that are understood at a level. -/
def keys : Level → List Key
  | none => [.cwd]
  | some .version => [.cwd]
  | some .scan => [.cwd, .format, .python]
  | some .report =>
    [.cwd, .format, .python, .required, .ignore, .width, .module, .jobs, .output]
  | some .compile => [.cwd, .format, .python, .emit]

/-- How many operands there may be at a level. -/
def operands : Level → Nat
  | none => 0
  | some .version => 0
  | some .scan => 1
  | some .report => 1
  | some .compile => 1

/-- Asking for help and, before a command, for the version. -/
def requests (level : Level) : List (String × Char × Meaning) :=
  ("help", 'h', .help) :: if level.isNone then [("version", 'V', .title)] else []

/-- What a long name stands for. -/
def long? (level : Level) (name : String) : Option Meaning :=
  (((switches level).find? (·.name == name)).map .switch)
    <|> (((keys level).find? (·.name == name)).map .key)
    <|> (((requests level).find? (·.1 == name)).map (·.2.2))

/-- What a letter stands for. -/
def short? (level : Level) (letter : Char) : Option Meaning :=
  (((switches level).find? (·.letter? == some letter)).map .switch)
    <|> (((keys level).find? (·.letter? == some letter)).map .key)
    <|> (((requests level).find? (·.2.1 == letter)).map (·.2.2))

end Level

/-! ## What has been given -/

/-- The options and operands of one level. -/
structure Given where
  switches : List Switch := []
  /-- Options with their values, in order. -/
  values : List (Key × String) := []
  operands : List String := []
  deriving DecidableEq, Repr

/-- A count: digits, perhaps behind a plus sign, that a machine word can hold. -/
def count? (word : String) : Option Nat :=
  let digits := match word.toList with
    | '+' :: digits => digits
    | digits => digits
  if Json.areDigits digits ∧ Json.digitsValue digits < countLimit then
    some (Json.digitsValue digits)
  else none

/-- Whether a key takes this word for a value. Paths are not empty, counts are numerals. -/
def Key.accepts : Key → String → Bool
  | .cwd, word | .python, word | .output, word | .emit, word => !word.isEmpty
  | .width, word | .jobs, word => (count? word).isSome
  | _, _ => true

namespace Given

/-- Adds a switch; only `verbose` may be given more than once. -/
def addSwitch (given : Given) (switch : Switch) : Except Stop Given :=
  if switch ≠ .verbose ∧ switch ∈ given.switches then .error .usage
  else .ok { given with switches := switch :: given.switches }

/-- Adds an option; only lists of names may be given more than once. -/
def addValue (given : Given) (key : Key) (word : String) : Except Stop Given :=
  if !key.accepts word then .error .usage
  else if key ≠ .required ∧ key ≠ .ignore ∧ given.values.any (·.1 == key) then .error .usage
  else .ok { given with values := given.values ++ [(key, word)] }

/-- Adds an operand. Operands are paths and not empty. -/
def addOperand (level : Level) (given : Given) (word : String) : Except Stop Given :=
  if word.isEmpty ∨ Level.operands level ≤ given.operands.length then .error .usage
  else .ok { given with operands := given.operands ++ [word] }

/-- Whether a switch was given. -/
def has (given : Given) (switch : Switch) : Bool :=
  given.switches.contains switch

/-- The value of an option that is given at most once. -/
def value? (given : Given) (key : Key) : Option String :=
  given.values.lookup key

def path? (given : Given) (key : Key) : Option Path :=
  (given.value? key).map Path.mk

def number? (given : Given) (key : Key) : Option Nat :=
  (given.value? key).bind count?

/-- The names listed by an option, with commas between them, over all times it is given. -/
def names (given : Given) (key : Key) : List String :=
  given.values.flatMap fun (other, word) =>
    if other = key then (Text.pieces ',' word.toList).map String.ofList else []

end Given

/-! ## Reading -/

/-- Whether a word is an option, or ends the options; a single dash is neither. -/
def looksLikeOption (word : String) : Bool :=
  match word.toList with
  | '-' :: _ :: _ => true
  | _ => false

/-- A long option, cut at its first equals sign. -/
def splitLong (body : List Char) : String × Option String :=
  let name := String.ofList (body.takeWhile (· != '='))
  match body.dropWhile (· != '=') with
  | [] => (name, none)
  | _ :: value => (name, some (String.ofList value))

/-- What a word leaves to be done. -/
inductive Pending where
  | nothing
  /-- The next word is the value of this option. -/
  | value (key : Key)

/-- Reads a long option. -/
def readLong (level : Level) (given : Given) (body : List Char) : Except Stop (Given × Pending) :=
  match splitLong body with
  | (name, value) =>
    match Level.long? level name, value with
    | none, _ => .error .usage
    | some (.key key), some value => do return (← given.addValue key value, .nothing)
    | some (.key key), none => .ok (given, .value key)
    | some _, some _ => .error .usage
    | some (.switch switch), none => do return (← given.addSwitch switch, .nothing)
    | some .help, none => .error .help
    | some .title, none => .error .title

/-- Reads letters that are run together, the last of which may be an option with its value. -/
def readLetters (level : Level) (given : Given) : List Char → Except Stop (Given × Pending)
  | [] => .ok (given, .nothing)
  | letter :: rest =>
    match Level.short? level letter with
    | none => .error .usage
    | some .help => .error .help
    | some .title => .error .title
    | some (.switch switch) => do readLetters level (← given.addSwitch switch) rest
    | some (.key key) =>
      match rest with
      | [] => .ok (given, .value key)
      | '=' :: value => do return (← given.addValue key (String.ofList value), .nothing)
      | value => do return (← given.addValue key (String.ofList value), .nothing)

/-- Reads one option. -/
def readOption (level : Level) (given : Given) (word : String) : Except Stop (Given × Pending) :=
  match word.toList with
  | '-' :: '-' :: body => readLong level given body
  | _ :: letters => readLetters level given letters
  | [] => .error .usage

/-- The name by which help is asked for in the place of a command. -/
def helpName : String := "help"

/--
What asking for help on the given words comes to. Help is there on the program,
on a command and on help itself, and no command has others below it.
-/
def helpOn : List String → Stop
  | [] => .help
  | [name] => if name == helpName || (Verb.ofName? name).isSome then .help else .usage
  | _ => .usage

/--
Reads the words of a level. Before a command this ends at the name of a command,
which is given with the words behind it.
-/
def readWords (level : Level) (given : Given) :
    List String → Except Stop (Given × Option (Verb × List String))
  | [] => .ok (given, none)
  | word :: rest =>
    if word = "--" then do
      return (← rest.foldlM (Given.addOperand level) given, none)
    else if looksLikeOption word then
      match readOption level given word with
      | .error stop => .error stop
      | .ok (given, .nothing) => readWords level given rest
      | .ok (given, .value key) =>
        match rest with
        | [] => .error .usage
        | value :: rest =>
          if looksLikeOption value then .error .usage
          else do readWords level (← given.addValue key value) rest
    else if level.isNone && word == helpName then .error (helpOn rest)
    else
      match level, Verb.ofName? word with
      | none, some verb => .ok (given, some (verb, rest))
      | _, _ => do readWords level (← given.addOperand level word) rest

end ImportAtlas.Command
