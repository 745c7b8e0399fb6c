import Datebook.Broker.Retry
import Datebook.Launch.Address
import Datebook.Launch.Arguments
import Datebook.Settings.Basic
import Datebook.Store.Opening

/-!
# Starting a program

The three programs start in the same order: the arguments, the configuration, the storage, and then
what the program is for. The gateway needs an address to listen at, the other two a broker, to which
they connect with retries for a limited time. A program gives up at the first of these that fails;
what it has opened by then stays where it is.
-/

namespace Datebook

inductive Program
  | gateway
  | scheduler
  | storer
  deriving DecidableEq

/-- Why a program gives up. -/
inductive LaunchError
  | configuration
  | storage (e : OpenError)
  | broker (e : BrokerError)
  | connectTimeout (p : Program)
  | address
  deriving DecidableEq

/-- How a start ends. -/
inductive Launch
  | shown (text : String)
  | misused
  | failed (e : LaunchError)
  | running (settings : Settings)
  deriving DecidableEq

namespace Program

def name : Program → String
  | .gateway => "calendar"
  | .scheduler => "calendar-scheduler"
  | .storer => "calendar-storer"

def ofName? (s : String) : Option Program :=
  [.gateway, .scheduler, .storer].find? fun p => p.name == s

def purpose : Program → String
  | .gateway => "Calendar event HTTP API"
  | .scheduler => "Scans events and publishes due reminders"
  | .storer => "Persists delivered reminders"

/-- The program's client of the broker. -/
def clientName : Program → String
  | .storer => "consumer"
  | _ => "producer"

def help (p : Program) : String :=
  p.purpose ++ "\n\nUsage: " ++ p.name ++ " [OPTIONS]\n\nOptions:\n" ++
    "  -c, --config <CONFIG>  Config file path (falls back to CALENDAR_CONFIG, " ++
    "then ~/.calendar/calendar.toml)\n" ++
    "  -h, --help             Print help\n" ++
    "  -V, --version          Print version\n"

def version (p : Program) : String := p.name ++ " 0.1.0\n"

end Program

namespace LaunchError

def message : LaunchError → String
  | .configuration => "loading config"
  | .storage e => e.message
  | .broker e => e.message
  | .connectTimeout p => p.clientName ++ " connect timed out"
  | .address => "invalid socket address syntax"

end LaunchError

/-- The code with which a program that gives up or only shows a text exits. -/
def Launch.exitCode : Launch → Nat
  | .shown _ => 0
  | .misused => 2
  | .failed _ => 1
  | .running _ => 0

/-- What a program finds when it is started: its arguments, its environment, the files, the place
that it is started from, and whether the broker can be reached. -/
structure Surroundings where
  arguments : List String
  environment : List (String × String)
  folder : Folder
  place : Place
  broker : Except BrokerError Unit

namespace Surroundings

def home (s : Surroundings) : Option String := s.environment.lookup "HOME"

/-- The path of the configuration: the one given, or the environment's, or the usual one. -/
def configPath (s : Surroundings) (given : Option String) : String :=
  (given.or (s.environment.lookup "CALENDAR_CONFIG")).getD (Settings.defaultPath s.home)

/-- The file of a path; a relative one is looked up from the place and then from each above. -/
def findFile? (s : Surroundings) (path : String) : Option Octets :=
  if isWhole path then s.folder.file? [] path
  else
    (List.range (s.place.length + 1)).findSome? fun n =>
      s.folder.file? (s.place.take (s.place.length - n)) path

/-- The configuration, in which a file that is not there sets nothing. -/
def settings? (s : Surroundings) (given : Option String) : Option Settings :=
  match s.findFile? (s.configPath given) with
  | none => Settings.load? none s.environment s.home
  | some content =>
    content.text?.bind fun text => Settings.load? (some text) s.environment s.home

end Surroundings

namespace Program

/-- The program keeps what it stores in a database. -/
def needsDatabase (p : Program) (s : StorageSettings) : Bool :=
  p == .storer || s.kind == .database

/-- Opens the storage, and closes it again when the program ends. -/
def openStorage (p : Program) (settings : StorageSettings) (s : Surroundings) :
    Except OpenError Unit × Folder :=
  if p.needsDatabase settings then
    match s.folder.openDatabase s.place settings.path with
    | (.ok d, folder) => (.ok (), folder.close d)
    | (.error e, folder) => (.error e, folder)
  else (.ok (), s.folder)

/-- The time after which a program gives up connecting, in nanoseconds. -/
def connectLimit : Nat := 30 * 1000000000

/-- Connects to the broker with retries. -/
def connect (p : Program) (b : BrokerSettings) (s : Surroundings) : Except LaunchError Unit :=
  let c := Connecting.run (fun _ => (s.broker, ())) .exact (.ofNat b.maxAttempts)
    (b.retryBackoffMs * 1000000) (some connectLimit) ()
  match c.result with
  | .ok () => .ok ()
  | .error .cancelled => .error (.connectTimeout p)
  | .error e => .error (.broker e)

/-- The address to listen at. -/
def addressText (s : ServerSettings) : List Char :=
  s.bind.toList ++ ':' :: (toString s.port).toList

/-- Gets what the program is for, once its storage is open. -/
def attend (p : Program) (settings : Settings) (s : Surroundings) : Except LaunchError Unit :=
  match p with
  | .gateway =>
    if Address.isSocketAddress (addressText settings.server) then .ok () else .error .address
  | _ => p.connect settings.broker s

/-- Starts a program; tells how that ends, and what the files are afterwards. -/
def launch (p : Program) (s : Surroundings) : Launch × Folder :=
  match Arguments.ofTexts s.arguments with
  | .help => (.shown p.help, s.folder)
  | .version => (.shown p.version, s.folder)
  | .misused => (.misused, s.folder)
  | .run given =>
    match s.settings? given with
    | none => (.failed .configuration, s.folder)
    | some settings =>
      match p.openStorage settings.storage s with
      | (.error e, folder) => (.failed (.storage e), folder)
      | (.ok (), folder) =>
        match p.attend settings s with
        | .error e => (.failed e, folder)
        | .ok () => (.running settings, folder)

end Program

end Datebook
