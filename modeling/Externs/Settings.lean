import Externs.File.OutputPath
import Externs.File.Tree
import Externs.Text.Blank
import Externs.Text.Lower
import Externs.Text.Utf8
import Externs.Yaml.Value

/-!
# Settings

The settings of a directory stand in a file of one name, or in any YAML file that is
asked for. A file that is not there gives the defaults, and so does each key by itself
whose value is of no use. Where users are at home and how a document is read is up to
the host.

* `Host`: what settings are loaded with.
* `Host.expandHome`: a path with the home directory that it starts from.
* `settingsPath`: the file that a path leads to.
* `Settings.load`: the settings in it.
* `SettingsError.message`: why there are none.
-/

namespace Externs

/-- What settings are loaded with besides the files. -/
structure Host where
  /-- The home directory of a user as the system has it, by the user's name. The empty name is that of
  whoever asks. -/
  homes : String → Option String
  /-- The document in a text. -/
  yaml : List Char → Except Yaml.Fault Yaml.Document

/-- A host of one user, which reads documents as they are read here. -/
def Host.single (home : String) : Host :=
  ⟨fun user => if user.isEmpty then some home else none, Yaml.Document.load⟩

structure Settings where
  /-- The directory of the settings, which a log file's path starts from. -/
  root : Path
  extension : String := defaultExtension
  echo : Bool := true
  logFile : Option Path := none
  deriving DecidableEq, Repr

/-- Why the text of a file cannot be had. -/
inductive ReadFault where
  | file (e : FileError)
  | encoding (f : Utf8.Flaw) (first : UInt8)
  deriving DecidableEq, Repr

inductive SettingsError where
  | unreadable (name : String) (f : ReadFault)
  | malformed (name : String)
  | noMapping
  /-- A value that does not exist, or another error over a document; this is not told as an error of the
  settings. -/
  | value (f : Yaml.ValueFault)
  /-- The place of the settings cannot be looked at, or there is none. -/
  | place (e : FileError)
  /-- A home directory that is not known. -/
  | home
  deriving DecidableEq, Repr

def Utf8.Defect.text : Utf8.Defect → String
  | badStart => "invalid start byte"
  | badContinuation => "invalid continuation byte"
  | truncated => "unexpected end of data"

def ReadFault.message : ReadFault → String
  | file e => e.message
  | encoding f first =>
    "'utf-8' codec can't decode " ++
      (if f.count = 1 then
        "byte 0x" ++ String.ofList (hex 2 first.toNat) ++ " in position " ++ toString f.place
      else "bytes in position " ++ toString f.place ++ "-" ++ toString (f.place + f.count - 1)) ++
      ": " ++ f.defect.text

def settingsName : String := ".externgen.yml"

def SettingsError.message : SettingsError → String
  | unreadable name f => "Cannot read " ++ name ++ ": " ++ f.message
  | malformed name => "Failed to parse " ++ name
  | noMapping => settingsName ++ " must contain a mapping at the root"
  | value f => f.message
  | place e => e.message
  | home => "Could not determine home directory."

namespace Host

/-- The home directory of a user. Slashes alone are the root, and no home starts with a tilde. -/
def home (host : Host) (user : String) : Except SettingsError Path :=
  if user.toList.contains '\x00' then .error (.place ⟨.null, user, none⟩)
  else match host.homes user with
    | none => .error .home
    | some text =>
      if text.toList.head? = some '~' then .error .home
      else if text.toList.all (· = '/') then .ok ⟨"/", []⟩
      else .ok (.ofString text)

/-- A home directory in place of a first part that stands for it: a tilde, with the user's name behind it. -/
def expandHome (host : Host) (p : Path) : Except SettingsError Path :=
  match p.root.isEmpty, p.parts with
  | true, part :: rest =>
    match part.toList with
    | '~' :: user => (host.home (String.ofList user)).map fun home => { home with parts := home.parts ++ rest }
    | _ => .ok p
  | _, _ => .ok p

end Host

/-- What is at a path, if anything; a place that cannot be looked at is an error. -/
def FileTree.look (t : FileTree) (dir : Place) (p : Path) : Except SettingsError (Option Entry) :=
  match t.stat dir p with
  | .ok e => .ok (some e)
  | .error .missing => .ok none
  | .error .notDirectory => .ok none
  | .error .null => .ok none
  | .error f => .error (.place ⟨f, p.toString, none⟩)

/-- The settings file for a path at which there is something, or nothing: in a directory the one of the
usual name, a YAML file itself, and beside any other file again the one of the usual name. -/
def settingsFor (found : Option Entry) (p : Path) : Path :=
  if found = some .dir then p.join ⟨"", [settingsName]⟩
  else if p.suffix = ".yml" || p.suffix = ".yaml" then p
  else p.parent.join ⟨"", [settingsName]⟩

/-- The path from the one root on. -/
def Path.resolve (dir : Place) (p : Path) : Except SettingsError Path :=
  if p.hasNull then .error (.place ⟨.null, p.toString, none⟩) else .ok { p.absolute dir with root := "/" }

/-- The settings file that a path leads to. -/
def settingsPath (t : FileTree) (dir : Place) (host : Host) (p : Path) : Except SettingsError Path := do
  let p ← host.expandHome p
  let found ← t.look dir p
  (settingsFor found p).resolve dir

/-- Every kind of line end made the one kind. -/
def oneLineEnd : List Char → List Char
  | '\r' :: '\n' :: rest => '\n' :: oneLineEnd rest
  | '\r' :: rest => '\n' :: oneLineEnd rest
  | c :: rest => c :: oneLineEnd rest
  | [] => []

def FileTree.readText (t : FileTree) (dir : Place) (p : Path) : Except ReadFault (List Char) :=
  match t.readFile dir p with
  | .error f => .error (.file ⟨f, p.toString, none⟩)
  | .ok bytes =>
    match Utf8.decode bytes with
    | .ok cs => .ok (oneLineEnd cs)
    | .error f => .error (.encoding f ((bytes.drop f.place).headD 0))

namespace Yaml.Value

/-- The text of a text or number. -/
def text? : Value → Except ValueFault (Option String)
  | str s => .ok (some s)
  | int n =>
    if maxDigits < (Nat.toDigits 10 n.natAbs).length then .error (.digits none) else .ok (some (toString n))
  | float x => .ok (some (Decimal.floatText x))
  | _ => .ok none

/-- A truth value, also as a word for one. -/
def truth? : Value → Option Bool
  | bool b => some b
  | str s =>
    let word := String.ofList (lower (stripList s.toList))
    if ["true", "yes", "1"].contains word then some true
    else if ["false", "no", "0"].contains word then some false
    else none
  | _ => none

end Yaml.Value

namespace Settings

/-- The text under a key, if there is one that is not empty. -/
def textOf (d : Yaml.Document) (key : String) : Except SettingsError (Option String) :=
  match d.get key with
  | none => .ok none
  | some v => (v.text?.mapError SettingsError.value).map (·.filter (!·.isEmpty))

def dotted (extension : String) : String :=
  if extension.toList.head? = some '.' then extension else "." ++ extension

/-- The settings that a document gives to a directory. -/
def ofDocument (root : Path) (d : Yaml.Document) : Except SettingsError Settings := do
  match d with
  | .other => throw .noMapping
  | .absent => pure { root }
  | .mapping _ =>
    let extension ← textOf d "output_extension"
    let echo := (d.get "echo").bind (·.truth?)
    let logFile ← textOf d "log_file"
    pure { root
           extension := (extension.map dotted).getD defaultExtension
           echo := echo.getD true
           logFile := logFile.map fun s => root.join (.ofString s) }

/-- The settings in the text of a file. -/
def ofText (host : Host) (root : Path) (name : String) (cs : List Char) : Except SettingsError Settings :=
  if cs.all isSpace then .ok { root }
  else match host.yaml cs with
    | .error .malformed => .error (.malformed name)
    | .error (.value f) => .error (.value f)
    | .ok d => ofDocument root d

/-- The settings that a path leads to. -/
def load (t : FileTree) (dir : Place) (host : Host) (p : Path) : Except SettingsError Settings := do
  let file ← settingsPath t dir host p
  let root := file.parent
  if (← t.look dir file).isNone then pure { root }
  else match t.readText dir file with
    | .error f => throw (.unreadable file.name f)
    | .ok cs => ofText host root file.name cs

end Settings

end Externs
