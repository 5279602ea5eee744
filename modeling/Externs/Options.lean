import Externs.File.Path
import Externs.Text.Digit
import Externs.Text.Quoted

/-!
# Command lines

A command line is a list of words: switches, some of which take a value, and the files
to work on. The files stand side by side; behind two dashes every word is a file.

* `Switch.ofText`: what a word is taken for. The long name of a switch may be cut short
  where no other begins like it, and short names may share one dash.
* `Request.ofWords`: what a command line asks for.
* `UsageError.message`: why it asks for nothing.
-/

namespace Externs

inductive Switch where
  | help
  | verbose
  | quiet
  | config
  | logFile
  deriving DecidableEq, Repr

namespace Switch

def all : List Switch := [help, verbose, quiet, config, logFile]

def long : Switch → String
  | help => "--help"
  | verbose => "--verbose"
  | quiet => "--quiet"
  | config => "--config"
  | logFile => "--log-file"

def letter? : Switch → Option Char
  | help => some 'h'
  | verbose => some 'v'
  | quiet => some 'q'
  | config => none
  | logFile => none

def short? (s : Switch) : Option String := s.letter?.map fun c => String.ofList ['-', c]

def takesValue : Switch → Bool
  | config | logFile => true
  | _ => false

/-- All names of a switch. -/
def label (s : Switch) : String := "/".intercalate (s.short?.toList ++ [s.long])

def ofLetter? (c : Char) : Option Switch := all.find? (·.letter? = some c)

end Switch

inductive UsageError where
  | unrecognized (words : List String)
  | noValue (s : Switch)
  | idleValue (s : Switch) (value : String)
  | ambiguous (word : String) (switches : List Switch)
  | tooManyFiles
  deriving DecidableEq, Repr

def UsageError.message : UsageError → String
  | unrecognized words => "unrecognized arguments: " ++ " ".intercalate words
  | noValue s => "argument " ++ s.label ++ ": expected one argument"
  | idleValue s value => "argument " ++ s.label ++ ": ignored explicit argument " ++ quoted value
  | ambiguous word ss =>
    "ambiguous option: " ++ word ++ " could match " ++ ", ".intercalate (ss.map Switch.long)
  | tooManyFiles => "expected an input file and at most one output file"

/-- What a word of a command line is taken for. -/
inductive Word where
  | file
  /-- Two dashes. -/
  | divider
  /-- A switch by its long or short name, with a value that stands in the same word. -/
  | switch (s : Switch) (short : Bool) (value : Option String)
  | unknown
  deriving DecidableEq, Repr

namespace Word

/-- A switch by its whole name. -/
def named? (name : String) : Option (Switch × Bool) :=
  match Switch.all.find? fun s => s.short? = some name with
  | some s => some (s, true)
  | none => (Switch.all.find? (·.long = name)).map (·, false)

/-- A text before its first equals sign, and what stands behind the sign if there is one. -/
def splitValue (cs : List Char) : List Char × Option String :=
  (cs.takeWhile (· ≠ '='), match cs.dropWhile (· ≠ '=') with
    | _ :: value => some (String.ofList value)
    | [] => none)

/-- Whether a word is a number below nought, which is no switch. A line end may follow it. -/
def isNegative (cs : List Char) : Bool :=
  let cs := if cs.getLast? = some '\n' then cs.dropLast else cs
  match cs with
  | '-' :: rest =>
    match rest.dropWhile isDecimalDigit with
    | [] => !rest.isEmpty
    | '.' :: fraction => !fraction.isEmpty && fraction.all isDecimalDigit
    | _ => false
  | _ => false

/-- The switches that a word can be short for, with the value in it. -/
def candidates (cs : List Char) : List Word :=
  match cs with
  | '-' :: '-' :: _ =>
    let (start, value) := splitValue cs
    (Switch.all.filter fun s => start.isPrefixOf s.long.toList).map (switch · false value)
  | '-' :: c :: rest => (Switch.ofLetter? c).toList.map (switch · true (some (String.ofList rest)))
  | _ => []

/-- What a word that begins with a dash and is no whole name is taken for. -/
def ofUnnamed (text : String) : Except UsageError Word :=
  let cs := text.toList
  match candidates cs with
  | [w] => .ok w
  | [] => .ok (if isNegative cs || cs.contains ' ' then file else unknown)
  | ws => .error (.ambiguous text (ws.filterMap fun
    | switch s _ _ => some s
    | _ => none))

def ofText (text : String) : Except UsageError Word :=
  let cs := text.toList
  if cs.head? ≠ some '-' || cs = ['-'] then .ok file
  else match named? text, splitValue cs with
    | some (s, short), _ => .ok (switch s short none)
    | none, (name, some value) =>
      match named? (String.ofList name) with
      | some (s, short) => .ok (switch s short (some value))
      | none => ofUnnamed text
    | none, (_, none) => ofUnnamed text

/-- The words of a command line. Two dashes make files of all words behind them. -/
def ofTexts : List String → Except UsageError (List (String × Word))
  | [] => .ok []
  | text :: rest =>
    if text = "--" then .ok ((text, divider) :: rest.map (·, file))
    else do
      let w ← ofText text
      let ws ← ofTexts rest
      pure ((text, w) :: ws)

end Word

/-- The switches that share a dash with `s`, itself first. -/
def Switch.spread (s : Switch) : List Char → Except UsageError (List Switch)
  | [] => .ok [s]
  | c :: rest =>
    match ofLetter? c with
    | some t => (t.spread rest).map (s :: ·)
    | none => .error (.idleValue s (String.ofList (c :: rest)))

/-- The switches of a word that begins with one without a value. -/
def Switch.flags (s : Switch) (short : Bool) : Option String → Except UsageError (List Switch)
  | none => .ok [s]
  | some value =>
    if short && !value.isEmpty then s.spread value.toList else .error (.idleValue s value)

/-- What the switches of a command line say. -/
structure Options where
  verbose : Bool := false
  quiet : Bool := false
  config : Option Path := none
  logFile : Option Path := none
  deriving DecidableEq, Repr

namespace Options

def turnOn (o : Options) : Switch → Options
  | .verbose => { o with verbose := true }
  | .quiet => { o with quiet := true }
  | _ => o

/-- The last value of a switch counts. Two dashes stand for no value. -/
def give (o : Options) (s : Switch) (value : String) : Options :=
  let path := if value = "--" then none else some (Path.ofString value)
  match s with
  | .config => { o with config := path }
  | .logFile => { o with logFile := path }
  | _ => o

end Options

/-- What a command line asks for. -/
inductive Request where
  | help
  /-- No file is named. -/
  | usage
  | run (input : Path) (output : Option Path) (options : Options)
  deriving DecidableEq, Repr

/-- Whether files may still be named: they stand side by side. -/
inductive Stage where
  | before
  | within
  | behind
  deriving DecidableEq, Repr

/-- What has been read of a command line. -/
structure Reading where
  options : Options := {}
  files : List String := []
  stage : Stage := .before
  /-- The words that have no place. -/
  stray : List String := []

namespace Reading

def addFile (r : Reading) (text : String) : Reading :=
  if r.stage = .behind then { r with stray := r.stray ++ [text] }
  else { r with files := r.files ++ [text], stage := .within }

def divide (r : Reading) (text : String) : Reading :=
  if r.stage = .behind then { r with stray := r.stray ++ [text] } else { r with stage := .within }

/-- A switch ends the files that stand before it. -/
def close (r : Reading) : Reading := if r.stage = .within then { r with stage := .behind } else r

def finish (r : Reading) : Except UsageError Request :=
  if !r.stray.isEmpty then .error (.unrecognized r.stray)
  else match r.files with
    | [] => .ok .usage
    | [input] => .ok (.run (.ofString input) none r.options)
    | [input, output] => .ok (.run (.ofString input) (some (.ofString output)) r.options)
    | _ => .error .tooManyFiles

/-- Reads on. Help is given as soon as it is asked for, whatever comes behind. -/
def read (r : Reading) : List (String × Word) → Except UsageError Request
  | [] => r.finish
  | (text, .file) :: rest => (r.addFile text).read rest
  | (text, .divider) :: rest => (r.divide text).read rest
  | (text, .unknown) :: rest => { r.close with stray := r.stray ++ [text] }.read rest
  | (_, .switch s short value) :: rest =>
    if s.takesValue then
      match value, rest with
      | some v, rest => { r.close with options := r.options.give s v }.read rest
      | none, (v, .file) :: rest => { r.close with options := r.options.give s v }.read rest
      | none, _ => .error (.noValue s)
    else
      match s.flags short value with
      | .error e => .error e
      | .ok ss =>
        if ss.contains .help then .ok .help
        else { r.close with options := ss.foldl Options.turnOn r.options }.read rest

end Reading

def Request.ofWords (words : List String) : Except UsageError Request := do
  let ws ← Word.ofTexts words
  Reading.read {} ws

end Externs
