import ImageTriage.CommandLine.Arguments

/-!
# Reading arguments

Options have a long name after two dashes, and some a letter after one dash. A value follows its
option as the next argument or, attached to it, after `=`; to a letter it may be attached without.
Letters of options without a value may stand together. All that does not begin with a dash is a
file, and so is all that follows `--`, and `-` alone.

Most options may be given once. A path may not be empty.
-/

namespace ImageTriage

/-- What an option does with a value. -/
inductive OptionKind where
  /-- A switch, given once. -/
  | switch
  /-- A switch that is counted. -/
  | counter
  /-- A value, given once. -/
  | single
  /-- A value, given any number of times. -/
  | repeated
  deriving DecidableEq, Repr

/-- The options of the program. -/
inductive OptionName where
  | pe
  | recursive
  | dump
  | hashes
  | extract
  | peid
  | clamav
  | rulesDir
  | config
  | verbose
  | logJson
  | help
  | version
  deriving DecidableEq, Repr

namespace OptionName

/-- All options with their long names and letters. -/
def table : List (OptionName × String × Option Char) :=
  [(pe, "pe", some 'p'), (recursive, "recursive", some 'r'), (dump, "dump", some 'd'),
    (hashes, "hashes", none), (extract, "extract", some 'x'), (peid, "peid", none),
    (clamav, "clamav", none), (rulesDir, "rules-dir", none), (config, "config", none),
    (verbose, "verbose", some 'v'), (logJson, "log-json", none), (help, "help", some 'h'),
    (version, "version", some 'V')]

/-- The option of a long name. -/
def ofLong? (name : String) : Option OptionName :=
  (table.find? (·.2.1 == name)).map Prod.fst

/-- The option of a letter. -/
def ofLetter? (c : Char) : Option OptionName :=
  (table.find? (·.2.2 == some c)).map Prod.fst

/-- What an option does with a value. -/
def kind : OptionName → OptionKind
  | pe | dump => .repeated
  | extract | rulesDir | config => .single
  | verbose => .counter
  | recursive | hashes | peid | clamav | logJson | help | version => .switch

/-- Whether an option takes a value. -/
def takesValue (o : OptionName) : Bool := o.kind == .single || o.kind == .repeated

/-- Whether an option may be given once only. -/
def isOnce (o : OptionName) : Bool := o.kind == .single || o.kind == .switch

end OptionName

/-- Why reading arguments stops early. -/
inductive Stop where
  | usage (reason : String)
  | help
  | version
  deriving DecidableEq, Repr

/-- The name and version of the program. -/
def versionText : String := "pescan 0.1.0\n"

/-- How the program is called. -/
def usageText : String := "Usage: pescan [OPTIONS] [FILE]...\n"

/-- What is shown then. -/
def Stop.notice : Stop → Notice
  | usage reason => .complaint ("error: " ++ reason ++ "\n\n" ++ usageText)
  | help => .answer usageText
  | version => .answer versionText

namespace Arguments

/-- Arguments read so far. -/
structure Progress where
  arguments : Arguments := {}
  /-- The options that were given. -/
  seen : List OptionName := []
  /-- The option whose value is to come. -/
  pending : Option OptionName := none

/-- A path, which may not be empty. -/
def path (value : String) : Except Stop Path :=
  if value = "" then .error (.usage "a value is required") else .ok value

/-- Stores the value of an option. -/
def store (a : Arguments) (value : String) : OptionName → Except Stop Arguments
  | .pe => return { a with flaggedFiles := a.flaggedFiles ++ [← path value] }
  | .dump => return { a with dump := a.dump ++ [value] }
  | .extract => return { a with extractTo := some (← path value) }
  | .rulesDir => return { a with rulesDirectory := some (← path value) }
  | .config => return { a with settingsFile := some (← path value) }
  | _ => return a

/-- Turns an option without a value on. -/
def turnOn (a : Arguments) : OptionName → Except Stop Arguments
  | .recursive => return { a with recursive := true }
  | .hashes => return { a with hashes := true }
  | .peid => return { a with packer := true }
  | .clamav => return { a with malware := true }
  | .logJson => return { a with structuredLog := true }
  | .verbose => return { a with verbosity := a.verbosity + 1 }
  | .help => throw .help
  | .version => throw .version
  | _ => return a

namespace Progress

/-- Notes that an option is given; some may be given once only. -/
def note (p : Progress) (o : OptionName) : Except Stop Progress :=
  if o.isOnce && p.seen.contains o then
    .error (.usage "an option cannot be used more than once")
  else
    .ok { p with seen := o :: p.seen, pending := none }

/-- Takes an option with its value. -/
def withValue (p : Progress) (o : OptionName) (value : String) : Except Stop Progress := do
  let p ← p.note o
  return { p with arguments := ← p.arguments.store value o }

/-- Takes an option without a value. -/
def withSwitch (p : Progress) (o : OptionName) : Except Stop Progress := do
  let p ← p.note o
  return { p with arguments := ← p.arguments.turnOn o }

/-- Takes a file. -/
def withFile (p : Progress) (value : String) : Except Stop Progress := do
  let file ← path value
  return { p with arguments := { p.arguments with files := p.arguments.files ++ [file] } }

/-- An option may not be waiting for its value. -/
def settled (p : Progress) : Except Stop Unit :=
  if p.pending.isSome then .error (.usage "a value is required") else .ok ()

/-- Takes an argument that begins with two dashes, which are left out here. -/
def long (p : Progress) (cs : List Char) : Except Stop Progress :=
  let name := String.ofList (cs.takeWhile (· ≠ '='))
  let attached := cs.dropWhile (· ≠ '=')
  match OptionName.ofLong? name with
  | none => .error (.usage "unexpected argument")
  | some o =>
    match o.takesValue, attached with
    | true, [] => .ok { p with pending := some o }
    | true, _ :: value => p.withValue o (String.ofList value)
    | false, [] => p.withSwitch o
    | false, _ :: _ => .error (.usage "unexpected value")

/-- Takes letters after one dash. -/
def letters (p : Progress) : List Char → Except Stop Progress
  | [] => .ok p
  | c :: rest =>
    match OptionName.ofLetter? c with
    | none => .error (.usage "unexpected argument")
    | some o =>
      if o.takesValue then
        match rest with
        | [] => .ok { p with pending := some o }
        | '=' :: value => p.withValue o (String.ofList value)
        | value => p.withValue o (String.ofList value)
      else do
        letters (← p.withSwitch o) rest

end Progress

/-- Reads arguments. -/
def readFrom (p : Progress) : List String → Except Stop Progress
  | [] => do
    p.settled
    return p
  | argument :: rest =>
    match argument.toList with
    | ['-', '-'] => do
      p.settled
      rest.foldlM Progress.withFile p
    | '-' :: '-' :: cs => do
      p.settled
      readFrom (← p.long cs) rest
    | '-' :: c :: cs => do
      p.settled
      readFrom (← p.letters (c :: cs)) rest
    | _ => do
      match p.pending with
      | some o => readFrom (← p.withValue o argument) rest
      | none => readFrom (← p.withFile argument) rest

/-- Reads the arguments, or tells why they give no run. A directory of rules that the environment
names counts when no argument names one. -/
def ask (environment : Option String) (arguments : List String) : Except Stop Arguments := do
  let p ← readFrom {} arguments
  match p.arguments.rulesDirectory, environment with
  | none, some directory => p.arguments.store directory .rulesDir
  | _, _ => return p.arguments

/-- Reads the arguments of the program. -/
def read (environment : Option String) (arguments : List String) : Except Notice Arguments :=
  match ask environment arguments with
  | .ok a => .ok a
  | .error stop => .error stop.notice

/-- The reading of arguments by long names and letters. -/
abbrev reader : ArgumentReader where
  read := read
  usage := usageText

end Arguments

end ImageTriage
