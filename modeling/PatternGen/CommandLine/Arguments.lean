import PatternGen.DecisionLog.Text
import PatternGen.Settings

/-!
# Arguments of the command line

Options take one value, switches take none, and one argument is the pattern. The value of an option
may follow in the next argument; then the option stays *pending*, and its value is looked at when
the next argument is taken or the arguments end.
-/

namespace PatternGen.CommandLine

/-- When output is coloured. -/
inductive ColorWhen where
  | always
  | never
  | auto
deriving DecidableEq, Repr, Inhabited

/-- What the command line asks for (`Config`). -/
structure Request where
  pattern : List Char
  flags : List Char := []
  count : Nat := 1
  target : Option (List Char) := none
  replay : Option DecisionLog := none
  seed : Option Nat := none
  max : Nat := defaultRepeatCap
  showLog : Bool := false
  color : ColorWhen := .never

/-- Why the arguments make no request. The first two are answers rather than errors. -/
inductive UsageError where
  | help
  | version
  | unknownArgument
  | invalidValue
  | unreadableValue
  | missingPattern
  | conflict
  | unexpectedValue
deriving DecidableEq, Repr

namespace UsageError

/-- The status that the program ends with. -/
def exitCode : UsageError → Nat
  | help => 0
  | version => 0
  | _ => 2

/-- What the user is told. -/
def message : UsageError → String
  | help =>
    "Usage: randexp [-f FLAGS] [-n COUNT] [-t TARGET | -r LOG] [-s SEED] [--max MAX] " ++
      "[--show-log] [--color WHEN] [--] PATTERN"
  | version => "randexp 0.1.0"
  | unknownArgument => "error: unexpected argument"
  | invalidValue => "error: a value is missing, or not one of the possible values"
  | unreadableValue => "error: a value cannot be read"
  | missingPattern => "error: the pattern is missing"
  | conflict => "error: an argument is given twice, or cannot be used with another"
  | unexpectedValue => "error: a value is given to an argument that takes none"

end UsageError

/-! ## Names -/

/-- An option that takes a value. -/
inductive Param where
  | flags
  | count
  | target
  | replay
  | seed
  | max
  | color
deriving DecidableEq, Repr

/-- An argument that takes no value. -/
inductive Switch where
  | showLog
  | help
  | version
deriving DecidableEq, Repr

/-- What a name stands for. -/
inductive Name where
  | param (p : Param)
  | switch (s : Switch)
deriving DecidableEq, Repr

/-- The long names. -/
def longNames : List (String × Name) :=
  [("flags", .param .flags), ("count", .param .count), ("target", .param .target),
    ("replay", .param .replay), ("seed", .param .seed), ("max", .param .max),
    ("color", .param .color), ("show-log", .switch .showLog), ("help", .switch .help),
    ("version", .switch .version)]

/-- The letters that stand for a name. -/
def shortNames : List (Char × Name) :=
  [('f', .param .flags), ('n', .param .count), ('t', .param .target), ('r', .param .replay),
    ('s', .param .seed), ('h', .switch .help), ('V', .switch .version)]

/-! ## Values -/

/-- What is given so far. -/
structure Given where
  pattern : Option (List Char) := none
  flags : Option (List Char) := none
  count : Option Nat := none
  target : Option (List Char) := none
  replay : Option DecisionLog := none
  seed : Option Nat := none
  max : Option Nat := none
  color : Option ColorWhen := none
  showLog : Bool := false

def readNumber (value : List Char) : Except UsageError Nat :=
  (Numeral.read value).mapError fun _ => .unreadableValue

def readColor (value : List Char) : Except UsageError ColorWhen :=
  match String.ofList value with
  | "always" => .ok .always
  | "never" => .ok .never
  | "auto" => .ok .auto
  | _ => .error .invalidValue

namespace Given

def has (given : Given) : Param → Bool
  | .flags => given.flags.isSome
  | .count => given.count.isSome
  | .target => given.target.isSome
  | .replay => given.replay.isSome
  | .seed => given.seed.isSome
  | .max => given.max.isSome
  | .color => given.color.isSome

/-- Gives an option its value. No option is given twice, whatever the values are. -/
def assign (given : Given) (p : Param) (value : List Char) : Except UsageError Given :=
  if given.has p then .error .conflict
  else
    match p with
    | .flags => .ok { given with flags := some value }
    | .count => (readNumber value).map fun n => { given with count := some n }
    | .target => .ok { given with target := some value }
    | .replay =>
      match DecisionLog.parse value with
      | .ok log => .ok { given with replay := some log }
      | .error _ => .error .unreadableValue
    | .seed => (readNumber value).map fun n => { given with seed := some n }
    | .max => (readNumber value).map fun n => { given with max := some n }
    | .color => (readColor value).map fun c => { given with color := some c }

/-- Turns a switch on. -/
def turnOn (given : Given) : Switch → Except UsageError Given
  | .showLog =>
    if given.showLog then .error .conflict else .ok { given with showLog := true }
  | .help => .error .help
  | .version => .error .version

/-- The request that is given. A target and a log to replay exclude one another. -/
def request (given : Given) : Except UsageError Request :=
  if given.target.isSome && given.replay.isSome then .error .conflict
  else
    match given.pattern with
    | none => .error .missingPattern
    | some pattern =>
      .ok
        { pattern
          flags := given.flags.getD []
          count := given.count.getD 1
          target := given.target
          replay := given.replay
          seed := given.seed
          max := given.max.getD defaultRepeatCap
          showLog := given.showLog
          color := given.color.getD .never }

end Given

/-! ## Arguments in order -/

/-- An option whose value is to come, or has come and was not looked at. -/
structure Pending where
  param : Param
  value : Option (List Char) := none

/-- How far the arguments are taken. -/
structure Progress where
  given : Given := {}
  pending : Option Pending := none
  /-- Only the pattern may follow. -/
  patternOnly : Bool := false

namespace Progress

/-- Looks at the value of the pending option. -/
def resolve (p : Progress) : Except UsageError Progress :=
  match p.pending with
  | none => .ok p
  | some ⟨_, none⟩ => .error .invalidValue
  | some ⟨param, some value⟩ =>
    (p.given.assign param value).map fun given => { p with given, pending := none }

/-- Takes an option with its value, or one whose value is to come. -/
def takeParam (p : Progress) (param : Param) (value : Option (List Char)) :
    Except UsageError Progress :=
  match p.resolve, value with
  | .error e, _ => .error e
  | .ok p, none => .ok { p with pending := some { param } }
  | .ok p, some value => (p.given.assign param value).map fun given => { p with given }

/-- Takes a switch. -/
def takeSwitch (p : Progress) (s : Switch) : Except UsageError Progress :=
  match p.resolve with
  | .error e => .error e
  | .ok p => (p.given.turnOn s).map fun given => { p with given }

/-- Takes the pattern. There is only one. -/
def takePattern (p : Progress) (arg : List Char) : Except UsageError Progress :=
  if p.given.pattern.isSome then .error .unknownArgument
  else p.resolve.map fun p => { p with given := { p.given with pattern := some arg } }

/-- Takes an argument behind two dashes: a long name, and a value behind an equals sign. -/
def takeLong (p : Progress) (arg : List Char) : Except UsageError Progress :=
  let value :=
    match arg.dropWhile (· ≠ '=') with
    | [] => none
    | _ :: value => some value
  match longNames.lookup (String.ofList (arg.takeWhile (· ≠ '='))), value with
  | none, _ => .error .unknownArgument
  | some (.param param), value => p.takeParam param value
  | some (.switch _), some _ => .error .unexpectedValue
  | some (.switch s), none => p.takeSwitch s

/-- Takes an argument behind one dash: a letter, and a value behind it or behind an equals sign. -/
def takeShort (p : Progress) (letter : Char) (rest : List Char) : Except UsageError Progress :=
  match shortNames.lookup letter with
  | none => .error .unknownArgument
  | some (.switch s) => p.takeSwitch s
  | some (.param param) =>
    match rest with
    | [] => p.takeParam param none
    | '=' :: value => p.takeParam param (some value)
    | value => p.takeParam param (some value)

/-- Takes an argument that begins with no dash: the value of the pending option if that has none,
else the pattern. -/
def takePlain (p : Progress) (arg : List Char) : Except UsageError Progress :=
  match p.pending with
  | some ⟨param, none⟩ => .ok { p with pending := some ⟨param, some arg⟩ }
  | _ => p.takePattern arg

/-- Takes the next argument. -/
def take (p : Progress) (arg : List Char) : Except UsageError Progress :=
  if p.patternOnly then p.takePattern arg
  else
    match arg with
    | ['-', '-'] => .ok { p with patternOnly := true }
    | '-' :: '-' :: rest => p.takeLong rest
    | '-' :: letter :: rest => p.takeShort letter rest
    | arg => p.takePlain arg

end Progress

/-- Reads arguments on from some progress. -/
def readArguments (p : Progress) : List (List Char) → Except UsageError Request
  | [] =>
    match p.resolve with
    | .error e => .error e
    | .ok p => p.given.request
  | arg :: rest =>
    match p.take arg with
    | .error e => .error e
    | .ok p => readArguments p rest

/-- The request of a list of arguments (`parse_args`). -/
def Request.parse (args : List String) : Except UsageError Request :=
  readArguments {} (args.map String.toList)

end PatternGen.CommandLine
