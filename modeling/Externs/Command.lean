import Externs.Options
import Externs.Run
import Externs.Settings

/-!
# Commands

A command reads its command line, loads the settings of the input's directory, or those
that it is pointed to, sets up the log and makes one run.

* `Session.command`: one command, with what it prints and the files that it changes.
* `Ending`: how it ends.
-/

namespace Externs

/-- A fault for which a command has no message of its own. -/
inductive Breakdown where
  | settings (e : SettingsError)
  | log (e : FileError)
  | run (e : RunError)
  deriving DecidableEq, Repr

def Breakdown.message : Breakdown → String
  | settings e => e.message
  | log e => e.message
  | run e => e.message

inductive Ending where
  | exit (code : Nat)
  | breakdown (b : Breakdown)
  deriving DecidableEq, Repr

/-! ## Texts -/

def usageText : String :=
  "usage: externgen [-h] [-v] [-q] [--config CONFIG] [--log-file LOG_FILE]\n" ++
  "                 [file ...]\n"

def helpText : String :=
  usageText ++
  "\n" ++
  "List every qualified name declared by a TypeScript declaration file.\n" ++
  "\n" ++
  "positional arguments:\n" ++
  "  file                 Input declaration file, optionally followed by the\n" ++
  "                       output path.\n" ++
  "\n" ++
  "options:\n" ++
  "  -h, --help           show this help message and exit\n" ++
  "  -v, --verbose        Increase log verbosity for troubleshooting.\n" ++
  "  -q, --quiet          Do not echo the generated names; log only warnings to\n" ++
  "                       the console.\n" ++
  "  --config CONFIG      Path to a .externgen.yml file (defaults to the input\n" ++
  "                       file's directory).\n" ++
  "  --log-file LOG_FILE  Also write logs to this file.\n"

/-- What a command without a file is answered with. -/
def hintText : String :=
  "Usage: externgen [file ...]\n" ++
  "Example: externgen a.d.ts a.externs\n"

def failureText (message : String) : String :=
  "externgen failed: " ++ message ++ "\nRun with --verbose for more details.\n"

/-! ## Running -/

/-- Whether an error lies in what the settings say, and not in looking for them. -/
def SettingsError.isTold : SettingsError → Bool
  | unreadable .. | malformed _ | noMapping => true
  | value _ | place _ | home => false

namespace Session

def echo (s : Session) (text : String) : Session := { s with echoed := s.echoed ++ text }

def generate (s : Session) (input : Path) (output : Option Path) (o : Options) (settings : Settings) :
    Session × Ending :=
  match s.setUpLog o.verbose o.quiet (o.logFile <|> settings.logFile) with
  | (s, some e) => (s, .breakdown (.log e))
  | (s, none) =>
    match s.run input output settings.extension (settings.echo && !o.quiet) with
    | (s, .ok _) => (s, .exit 0)
    | (s, .error e) =>
      if e.isTold then (s.print (failureText e.message), .exit 1) else (s, .breakdown (.run e))

/-- One command. -/
def command (s : Session) (host : Host) (words : List String) : Session × Ending :=
  match Request.ofWords words with
  | .error e => (s.print (usageText ++ "externgen: error: " ++ e.message ++ "\n"), .exit 2)
  | .ok .help => (s.echo helpText, .exit 0)
  | .ok .usage => (s.echo hintText, .exit 0)
  | .ok (.run input output o) =>
    match Settings.load s.files s.dir host (o.config.getD input.parent) with
    | .ok settings => s.generate input output o settings
    | .error e =>
      if e.isTold then (s.print (e.message ++ "\n"), .exit 1) else (s, .breakdown (.settings e))

end Session

end Externs
