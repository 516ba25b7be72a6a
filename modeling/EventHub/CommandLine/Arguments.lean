import EventHub.FileName
set_option autoImplicit false

namespace EventHub.CommandLine

inductive Command where
  | dump (log : FileName) (json : Bool)
  | demo (events : Nat) (directory : Option FileName)
  | config
  deriving DecidableEq, Repr

structure Request where
  debug : Bool
  verbose : Bool
  config : Option FileName
  skipGlobal : Bool
  command : Command
  deriving DecidableEq, Repr

inductive Stop where
  | usage
  | help
  | version
  deriving DecidableEq, Repr

inductive Setting where
  | debug
  | verbose
  | config
  | skipGlobal
  | json
  | events
  | directory
  | help
  | version
  deriving DecidableEq, Repr

structure Spelling where
  setting : Setting
  short : Option Char
  long : String
  valued : Bool

def everywhere : List Spelling :=
  [⟨.debug, some 'd', "debug", false⟩, ⟨.verbose, some 'v', "verbose", false⟩,
   ⟨.config, some 'c', "config", true⟩, ⟨.skipGlobal, none, "no-global-config", false⟩,
   ⟨.help, some 'h', "help", false⟩]

/-- What may stand at one level: its options, how many operands, and whether a command follows. -/
structure Level where
  spellings : List Spelling
  operands : Nat
  isTop : Bool

def top : Level := ⟨everywhere ++ [⟨.version, some 'V', "version", false⟩], 0, true⟩
def dumpLevel : Level := ⟨everywhere ++ [⟨.json, none, "json", false⟩], 1, false⟩
def demoLevel : Level :=
  ⟨everywhere ++ [⟨.events, some 'n', "events", true⟩, ⟨.directory, none, "record-dir", true⟩], 0, false⟩
def configLevel : Level := ⟨everywhere, 0, false⟩

structure Given where
  settings : List (Setting × String)
  operands : List String

namespace Given

def none : Given := ⟨[], []⟩

def has (g : Given) (s : Setting) : Bool := g.settings.any fun p => p.1 == s

def value? (g : Given) (s : Setting) : Option String := g.settings.lookup s

end Given

/-- A count is written in digits, with a plus before them or without, and fits into sixty-four bits. -/
def count? (text : String) : Option Nat :=
  let digits := match text.toList with
    | '+' :: cs => cs
    | cs => cs
  if digits.isEmpty || !digits.all Char.isDigit then Option.none
  else
    let n := digits.foldl (fun n c => n * 10 + (c.toNat - '0'.toNat)) 0
    if n < Nat.pow 2 64 then some n else Option.none

def isValue : Setting → String → Bool
  | .config, text | .directory, text => !text.isEmpty
  | .events, text => (count? text).isSome
  | _, _ => true

/-- Nothing is given twice at one level. -/
def give (g : Given) (s : Setting) (value : String) : Except Stop Given :=
  match s with
  | .help => .error .help
  | .version => .error .version
  | s =>
    if g.has s || !isValue s value then .error .usage
    else .ok { g with settings := g.settings ++ [(s, value)] }

inductive Token where
  | escape
  | long (name : List Char) (value : Option (List Char))
  | shorts (letters : List Char)
  | plain

def Token.ofText (text : String) : Token :=
  match text.toList with
  | ['-', '-'] => .escape
  | '-' :: '-' :: cs =>
    match cs.dropWhile (· != '=') with
    | _ :: value => .long (cs.takeWhile (· != '=')) (some value)
    | [] => .long cs Option.none
  | '-' :: c :: cs => .shorts (c :: cs)
  | _ => .plain

/-- Options in one word. The first that wants a value takes the rest of the word, or waits for the next. -/
def giveShorts (spellings : List Spelling) (g : Given) : List Char → Except Stop (Given × Option Setting)
  | [] => .ok (g, none)
  | c :: cs =>
    match spellings.find? fun s => s.short == some c with
    | none => .error .usage
    | some s =>
      if s.valued then
        match cs with
        | [] => .ok (g, some s.setting)
        | '=' :: value => (give g s.setting (String.ofList value)).map fun g => (g, none)
        | value => (give g s.setting (String.ofList value)).map fun g => (g, none)
      else (give g s.setting "").bind fun g => giveShorts spellings g cs

def giveLong (spellings : List Spelling) (g : Given) (name : List Char) (value : Option (List Char)) :
    Except Stop (Given × Option Setting) :=
  match spellings.find? fun s => s.long.toList == name with
  | none => .error .usage
  | some s =>
    match s.valued, value with
    | true, none => .ok (g, some s.setting)
    | true, some value => (give g s.setting (String.ofList value)).map fun g => (g, none)
    | false, none => (give g s.setting "").map fun g => (g, none)
    | false, some _ => .error .usage

def giveOperand (level : Level) (g : Given) (text : String) : Except Stop Given :=
  if g.operands.length < level.operands && !text.isEmpty then
    .ok { g with operands := g.operands ++ [text] }
  else .error .usage

/-- A level up to its end, or to the name of a command and what follows it. `waiting` is the option that
the next word is the value of, and `escaped` says that all that follows are operands. -/
def readLevel (level : Level) :
    Given → Option Setting → Bool → List String → Except Stop (Given × Option (String × List String))
  | g, none, _, [] => .ok (g, none)
  | _, some _, _, [] => .error .usage
  | g, none, true, text :: rest =>
    (giveOperand level g text).bind fun g => readLevel level g none true rest
  | g, some s, _, text :: rest =>
    match Token.ofText text with
    | .plain => (give g s text).bind fun g => readLevel level g none false rest
    | _ => .error .usage
  | g, none, false, text :: rest =>
    match Token.ofText text with
    | .escape => readLevel level g none true rest
    | .long name value =>
      (giveLong level.spellings g name value).bind fun (g, waiting) => readLevel level g waiting false rest
    | .shorts letters =>
      (giveShorts level.spellings g letters).bind fun (g, waiting) => readLevel level g waiting false rest
    | .plain =>
      if level.isTop then .ok (g, some (text, rest))
      else (giveOperand level g text).bind fun g => readLevel level g none false rest

def readCommand (name : String) (rest : List String) : Except Stop (Given × Command) :=
  match name with
  | "dump" => do
    let (g, _) ← readLevel dumpLevel .none none false rest
    match g.operands with
    | [log] => .ok (g, .dump ⟨log⟩ (g.has .json))
    | _ => .error .usage
  | "demo" => do
    let (g, _) ← readLevel demoLevel .none none false rest
    let events := ((g.value? .events).bind count?).getD 5
    .ok (g, .demo events ((g.value? .directory).map FileName.mk))
  | "config" => do
    let (g, _) ← readLevel configLevel .none none false rest
    .ok (g, .config)
  | "help" =>
    match rest with
    | [] => .error .help
    | [topic] => .error (if ["dump", "demo", "config", "help"].contains topic then .help else .usage)
    | _ => .error .usage
  | _ => .error .usage

/-- An option counts wherever it was given; of two files the one behind the command is meant. -/
def read (arguments : List String) : Except Stop Request := do
  let (before, next) ← readLevel top .none none false arguments
  match next with
  | none => .error .usage
  | some (name, rest) =>
    let (behind, command) ← readCommand name rest
    let either (s : Setting) : Bool := before.has s || behind.has s
    .ok
      { debug := either .debug
        verbose := either .verbose
        config := ((behind.value? .config).or (before.value? .config)).map FileName.mk
        skipGlobal := either .skipGlobal
        command := command }

end EventHub.CommandLine
