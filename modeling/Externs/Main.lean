import Externs.Command
import Std.Time.Zoned

/-!
# The program

Reads the files that a command can touch, runs the command on them, and writes back
what it changed.
-/

namespace Externs.Main

/-- What stands at a place of the file system. -/
def entryAt (place : Place) : IO (Option Entry) := do
  let path := (← IO.currentDir) / ("/" ++ "/".intercalate place)
  if ← path.isDir then return some .dir
  match ← (IO.FS.readBinFile path).toBaseIO with
  | .ok bytes => return some (.file bytes.toList)
  | .error _ => return none

/-- Adds what stands at the places of a path, from the root down. -/
def look (t : FileTree) (dir : Place) (p : Path) : IO FileTree := do
  let mut t := t
  let mut place := if p.root.isEmpty then dir else []
  for part in p.parts do
    place := if part = ".." then place.dropLast else place ++ [part]
    if (t.get? place).isNone then
      if let some e ← entryAt place then t := t.set place e
  return t

def lookAll (t : FileTree) (dir : Place) (ps : List Path) : IO FileTree :=
  ps.foldlM (fun t p => look t dir p) t

/-- The text of a file; one that cannot be read has none. -/
def textAt (path : String) : IO String := do
  match ← (IO.FS.readFile path).toBaseIO with
  | .ok text => return text
  | .error _ => return ""

/-- The users of the system, with their names, numbers and home directories. -/
def users : IO (List (String × String × String)) := do
  return ((← textAt "/etc/passwd").splitOn "\n").filterMap fun line =>
    match line.splitOn ":" with
    | [name, _, number, _, _, home, _] => some (name, number, home)
    | _ => none

/-- The number of the user who runs the program. -/
def ownNumber : IO String := do
  let line := ((← textAt "/proc/self/status").splitOn "\n").find? (·.startsWith "Uid:")
  return ((line.getD "").splitOn "\t").getD 1 ""

/-- The host that the program runs on. -/
def thisHost : IO Host := do
  let users ← users
  let number ← ownNumber
  let named ← IO.getEnv "HOME"
  let own := (users.find? (·.2.1 = number)).map (·.2.2)
  return ⟨fun user => if user.isEmpty then named <|> own else (users.lookup user).map (·.2), Yaml.Document.load⟩

/-- The paths that a command line names, with the settings files beside them. -/
def mentioned (host : Host) (words : List String) : List Path :=
  match Request.ofWords words with
  | .ok (.run input output o) =>
    let settings := host.expandHome (o.config.getD input.parent)
    let found := match settings with
      | .ok p => [p, p.join ⟨"", [settingsName]⟩, p.parent.join ⟨"", [settingsName]⟩]
      | .error _ => []
    [input] ++ output.toList ++ o.logFile.toList ++ found
  | _ => []

/-- The paths that the settings lead to. -/
def implied (t : FileTree) (dir : Place) (host : Host) (words : List String) : List Path :=
  match Request.ofWords words with
  | .ok (.run input _ o) =>
    match Settings.load t dir host (o.config.getD input.parent) with
    | .ok settings =>
      let output := match targetPath input settings.extension with
        | .ok p => [p]
        | .error _ => []
      output ++ settings.logFile.toList
    | .error _ => []
  | _ => []

/-- Puts an entry at its place, a file by way of a temporary one beside it. -/
def store (token : String) (place : Place) (e : Entry) : IO Unit := do
  let pathOf := fun (place : Place) => "/" ++ "/".intercalate place
  match e with
  | .dir => IO.FS.createDir (pathOf place)
  | .file bytes =>
    let temporary := place.dropLast ++ [temporaryName (place.getLast?.getD "") token]
    IO.FS.writeBinFile (pathOf temporary) ⟨bytes.toArray⟩
    IO.FS.rename (pathOf temporary) (pathOf place)

/-- Makes the file system agree with what a command has done. -/
def writeBack (token : String) (before after : FileTree) : IO Unit := do
  for (place, e) in after.entries do
    if before.get? place ≠ some e then store token place e

/-- The local time, to the millisecond. -/
def timeText : IO String := do
  let t ← Std.Time.PlainDateTime.now
  let two := fun (n : Int) => (if n < 10 then "0" else "") ++ toString n
  let ms : Int := t.nanosecond.val / 1000000
  let pad := if ms < 10 then "00" else if ms < 100 then "0" else ""
  return toString t.year ++ "-" ++ two t.month.val ++ "-" ++ two t.day.val ++ " " ++ two t.hour.val ++ ":" ++
    two t.minute.val ++ ":" ++ two t.second.val ++ "," ++ pad ++ toString ms

/-- Eight random characters. -/
def freshToken : IO String := do
  let bytes ← IO.getRandomBytes 8
  let letters := "abcdefghijklmnopqrstuvwxyz0123456789_".toList
  return String.ofList (bytes.toList.filterMap fun b => letters[b.toNat % letters.length]?)

end Externs.Main

open Externs

def main (words : List String) : IO UInt32 := do
  let dir := (Path.ofString (← IO.currentDir).toString).parts
  let host ← Main.thisHost
  let named := Main.mentioned host words
  let files ← Main.lookAll ⟨[]⟩ [] [⟨"/", dir⟩]
  let files ← Main.lookAll files dir named
  let files ← Main.lookAll files dir (Main.implied files dir host words)
  let token ← Main.freshToken
  let session : Session := { files, dir, time := ← Main.timeText, token }
  let (after, ending) := session.command host words
  (← IO.getStdout).putStr after.echoed
  (← IO.getStderr).putStr after.console
  try
    Main.writeBack token files after.files
  catch e =>
    (← IO.getStderr).putStrLn (toString e)
    return 1
  match ending with
  | .exit code => return code.toUInt32
  | .breakdown b =>
    (← IO.getStderr).putStrLn b.message
    return 1
