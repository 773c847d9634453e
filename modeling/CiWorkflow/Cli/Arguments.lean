/-!
# Command lines

A command line names a command, perhaps one below it, and gives options and texts. Options may stand before and behind the
texts; behind `--` everything is a text. Global options may be given at every level.
-/

namespace CiWorkflow.Cli

/-- Why a command line runs no command. -/
inductive UsageFault where
  | missingCommand
  | unknownCommand
  | missingArgument
  | unknownArgument
  /-- an option is given twice, or beside one that excludes it -/
  | conflict
  | invalidValue
  /-- a value for an option that takes none -/
  | unexpectedValue
  | helpAsked
  | versionAsked
  /-- nothing at all is given -/
  | nothingGiven
  deriving DecidableEq, Repr

/-- What may be given for an option or as a text. -/
inductive ValueKind where
  | any
  | nonempty
  | oneOf (choices : List String)
  deriving DecidableEq, Repr

namespace ValueKind

def accepts : ValueKind → String → Bool
  | any, _ => true
  | nonempty, s => s != ""
  | oneOf choices, s => choices.contains s

end ValueKind

/-- An option, with or without a value. -/
structure OptionSpec where
  name : String
  short : Option Char := none
  value : Option ValueKind := none
  /-- an environment variable that can give the value instead -/
  variableName : Option String := none
  deriving DecidableEq, Repr

/-- How many texts a command takes. -/
inductive Arity where
  | none
  | one (kind : ValueKind)
  | many
  deriving DecidableEq, Repr

/-- A command with what may be given to it. -/
inductive CommandSpec where
  | mk (name : String) (options : List OptionSpec) (texts : Arity) (hasVersion : Bool) (children : List CommandSpec)

namespace CommandSpec

def name : CommandSpec → String
  | mk n _ _ _ _ => n

def options : CommandSpec → List OptionSpec
  | mk _ o _ _ _ => o

def texts : CommandSpec → Arity
  | mk _ _ t _ _ => t

def hasVersion : CommandSpec → Bool
  | mk _ _ _ v _ => v

def children : CommandSpec → List CommandSpec
  | mk _ _ _ _ c => c

def child? (c : CommandSpec) (name : String) : Option CommandSpec := c.children.find? fun k => k.name == name

end CommandSpec

/-- The option that asks for help. -/
def helpOption : OptionSpec := { name := "help", short := some 'h' }

/-- The option that asks for the version. -/
def versionOption : OptionSpec := { name := "version", short := some 'V' }

/-- The command that asks for help. -/
def helpCommand : String := "help"

/-- What was given to one command. -/
structure Level where
  command : String
  options : List (String × String) := []
  texts : List String := []
  deriving DecidableEq, Repr

namespace Level

def has (l : Level) (name : String) : Bool := (l.options.lookup name).isSome

end Level

/-- What has been read but not noted yet. -/
inductive Pending where
  | option (o : OptionSpec) (value : Option String)
  | text (kind : ValueKind) (value : String)
  deriving DecidableEq, Repr

/-- The state of reading one command's part of a line. -/
structure Scan where
  level : Level
  pending : Option Pending := none
  deriving DecidableEq, Repr

namespace Scan

/-- Notes a value of an option that is not given yet. -/
def note (l : Level) (o : OptionSpec) (value : String) : Except UsageFault Level :=
  if l.has o.name then .error .conflict
  else if (o.value.map fun k => k.accepts value).getD true then .ok { l with options := l.options ++ [(o.name, value)] }
  else .error .invalidValue

/-- Notes what is pending. -/
def resolvePending (s : Scan) : Except UsageFault Scan :=
  match s.pending with
  | none => .ok s
  | some (.option _ none) => .error .invalidValue
  | some (.option o (some v)) => (note s.level o v).map fun l => { level := l }
  | some (.text k v) =>
    if k.accepts v then .ok { level := { s.level with texts := s.level.texts ++ [v] } } else .error .invalidValue

/-- Takes an option that has no value. -/
def flag (s : Scan) (o : OptionSpec) : Except UsageFault Scan := do
  let s ← s.resolvePending
  if o.name = helpOption.name then .error .helpAsked
  else if o.name = versionOption.name then .error .versionAsked
  else return { level := ← note s.level o "" }

/-- Whether an option waits for its value. -/
def awaits (s : Scan) : Bool :=
  match s.pending with
  | some (.option _ none) => true
  | _ => false

end Scan

/-- All options of a command, those for help and version among them. -/
def allOptions (c : CommandSpec) : List OptionSpec :=
  c.options ++ helpOption :: (if c.hasVersion then [versionOption] else [])

/-- Splits a long option at the first equals sign. -/
def splitValue (cs : List Char) : String × Option String :=
  match cs.dropWhile (· != '=') with
  | [] => (String.ofList cs, none)
  | _ :: v => (String.ofList (cs.takeWhile (· != '=')), some (String.ofList v))

/-- Takes a long option, by what follows its two dashes. -/
def takeLong (c : CommandSpec) (s : Scan) (cs : List Char) : Except UsageFault Scan := do
  let (name, value) := splitValue cs
  match (allOptions c).find? fun o => o.name == name with
  | none => .error .unknownArgument
  | some o =>
    match o.value, value with
    | none, some _ => .error .unexpectedValue
    | none, none => s.flag o
    | some _, some v =>
      let s ← s.resolvePending
      return { level := ← Scan.note s.level o v }
    | some _, none =>
      let s ← s.resolvePending
      return { s with pending := some (.option o none) }

/-- Takes short options, by the letters behind their dash. None of them has a value. -/
def takeShort (c : CommandSpec) : Scan → List Char → Except UsageFault Scan
  | s, [] => .ok s
  | s, l :: r =>
    match (allOptions c).find? fun o => o.short == some l with
    | none => .error .unknownArgument
    | some o => (s.flag o).bind fun s => takeShort c s r

/-- Takes a text. -/
def takeText (c : CommandSpec) (s : Scan) (trailing : Bool) (text : String) : Except UsageFault Scan :=
  let isFirst := s.level.texts.isEmpty &&
    match s.pending with
    | some (.text ..) => false
    | _ => true
  let accept (k : ValueKind) : Except UsageFault Scan :=
    s.resolvePending.map fun s => { s with pending := some (.text k text) }
  match c.texts with
  | .many => accept .any
  | .one k => if isFirst then accept k else .error .unknownArgument
  | .none =>
    .error (if c.children.isEmpty || (trailing && ((c.child? text).isSome || text == helpCommand)) then .unknownArgument
      else .unknownCommand)

/-- The answer to the command that asks for help about the commands named behind it. -/
def helpFor (c : CommandSpec) : List String → UsageFault
  | [] => .helpAsked
  | n :: r =>
    match c.child? n with
    | some k => helpFor k r
    | none => if n = helpCommand && !c.children.isEmpty && r.isEmpty then .helpAsked else .unknownCommand

/-- What an argument is to a command while no option waits for its value. -/
inductive Word where
  | command (c : CommandSpec)
  | help
  | escape
  | long (cs : List Char)
  | short (cs : List Char)
  | text

/-- Tells what an argument is. -/
def Word.of (c : CommandSpec) (s : Scan) (arg : String) : Word :=
  let options : Word :=
    match arg.toList with
    | ['-', '-'] => .escape
    | '-' :: '-' :: r => .long r
    | '-' :: a :: r => .short (a :: r)
    | _ => .text
  if s.awaits then options
  else
    match c.child? arg with
    | some k => .command k
    | none => if arg = helpCommand && !c.children.isEmpty then .help else options

/-- Reads the part of a line that belongs to a command, up to a command below it, which comes back with the rest. -/
def scan (c : CommandSpec) : Scan → Bool → List String → Except UsageFault (Scan × Option (CommandSpec × List String))
  | s, _, [] => .ok (s, none)
  | s, true, arg :: r => (takeText c s true arg).bind fun s => scan c s true r
  | s, false, arg :: r =>
    match Word.of c s arg with
    | .command k => .ok (s, some (k, r))
    | .help => .error (helpFor c r)
    | .escape => scan c s true r
    | .long cs => (takeLong c s cs).bind fun s => scan c s false r
    | .short cs => (takeShort c s cs).bind fun s => scan c s false r
    | .text =>
      match s.pending with
      | some (.option o none) => scan c { s with pending := some (.option o (some arg)) } false r
      | _ => (takeText c s false arg).bind fun s => scan c s false r

/-- Adds the values that environment variables give for options that are not given. -/
def addVariables (values : List (String × String)) (l : Level) : List OptionSpec → Except UsageFault (List (String × String))
  | [] => .ok []
  | o :: r =>
    match (if l.has o.name then none else o.variableName.bind fun n => values.lookup n) with
    | none => addVariables values l r
    | some v => do
      let l' ← Scan.note l o v
      return (l'.options.drop l.options.length) ++ (← addVariables values l r)

/-- Checks what was given to a command as a whole. -/
def check (c : CommandSpec) (excludes : List (String × String)) (l : Level) (given : Bool) (hasChild : Bool) :
    Except UsageFault Unit :=
  if !hasChild && !c.children.isEmpty then .error (if given then .missingCommand else .nothingGiven)
  else if excludes.any fun (a, b) => l.has a && l.has b then .error .conflict
  else if l.texts.isEmpty && c.texts != .none then .error .missingArgument
  else .ok ()

/-- A level, and the values that variables gave for it. -/
structure Reading where
  level : Level
  fromVariables : List (String × String)
  deriving DecidableEq, Repr

/-- Reads a line by the commands it goes through, outermost first, in at most `fuel` levels. A command's own part is checked
when the parts of the commands below it have been. -/
def parse (excludes : List (String × String)) (values : List (String × String)) :
    Nat → CommandSpec → List String → Except UsageFault (List Reading)
  | 0, _, _ => .error .missingCommand
  | fuel + 1, c, args => do
    let (s, next) ← scan c { level := { command := c.name } } false args
    let below ← match next with
      | none => pure []
      | some (k, r) => parse excludes values fuel k r
    let s ← s.resolvePending
    let extra ← addVariables values s.level c.options
    check c excludes s.level (!s.level.options.isEmpty || !extra.isEmpty) next.isSome
    return { level := s.level, fromVariables := extra } :: below

/-- The value of a global option: the innermost one that is given, else one from a variable. -/
def globalValue? (rs : List Reading) (name : String) : Option String :=
  ((rs.reverse.filterMap fun r => r.level.options.lookup name).head?).orElse fun _ =>
    (rs.filterMap fun r => r.fromVariables.lookup name).head?

end CiWorkflow.Cli
