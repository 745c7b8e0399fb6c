import Datebook.Scheduler.Tick
import Datebook.Settings.Environment
import Datebook.Toml.Document

/-!
# The configuration

Five sections of keys, each with a default. A key's value is the environment's if it sets the key,
otherwise the file's, otherwise the default; a value of the wrong kind or out of range makes the
whole configuration unreadable, and so does a section that has no keys. Unknown keys make no
difference.
-/

namespace Datebook

structure ServerSettings where
  bind : String
  port : Nat
  deriving DecidableEq

structure LoggingSettings where
  level : String
  deriving DecidableEq

/-- The ways to keep events. -/
inductive StorageKind
  | memory
  | database
  deriving DecidableEq

structure StorageSettings where
  kind : StorageKind
  path : String
  deriving DecidableEq

/-- Where the broker is, the stream and the names used there, and the limits. -/
structure BrokerSettings where
  url : String
  stream : String
  group : String
  consumer : String
  maxAttempts : Nat
  retryBackoffMs : Nat
  maxLength : Nat
  blockMs : Nat
  deriving DecidableEq

structure Settings where
  server : ServerSettings
  logging : LoggingSettings
  storage : StorageSettings
  broker : BrokerSettings
  scheduler : SchedulerSettings
  deriving DecidableEq

namespace StorageKind

def name : StorageKind → String
  | .memory => "memory"
  | .database => "sqlite"

def ofName? (s : String) : Option StorageKind :=
  if s = "memory" then some .memory else if s = "sqlite" then some .database else none

end StorageKind

namespace Setting

/-- The section under a key, of which there may be none. -/
def section? (root : Setting) (position : Nat) (key : String) : Option Setting :=
  match root.member? position key with
  | none => some .empty
  | some v => if v.isSection then some v else none

/-- The value of a key as its kind accepts it, or the default if it is not set. -/
def key? {α : Type} (holder : Setting) (position : Nat) (key : String) (accept : Setting → Option α)
    (fallback : α) : Option α :=
  match holder.member? position key with
  | none => some fallback
  | some v => accept v

end Setting

/-- The directory in which a user's files of this program are. -/
def homeDirectory (home : Option String) : String := home.getD "." ++ "/.calendar"

def ServerSettings.ofSetting? (s : Setting) : Option ServerSettings := do
  return ⟨← s.key? 0 "bind" Setting.text? "127.0.0.1",
    ← s.key? 1 "port" (Setting.nat? (twoTo 16)) 8080⟩

def LoggingSettings.ofSetting? (s : Setting) : Option LoggingSettings := do
  return ⟨← s.key? 0 "level" Setting.text? "info"⟩

def StorageSettings.ofSetting? (home : Option String) (s : Setting) : Option StorageSettings := do
  return ⟨← s.key? 0 "kind" (fun v => v.text?.bind StorageKind.ofName?) .memory,
    ← s.key? 1 "path" Setting.text? (homeDirectory home ++ "/calendar.db")⟩

def BrokerSettings.ofSetting? (s : Setting) : Option BrokerSettings := do
  return {
    url := ← s.key? 0 "url" Setting.text? "redis://127.0.0.1:6379"
    stream := ← s.key? 1 "stream" Setting.text? "notifications"
    group := ← s.key? 2 "group" Setting.text? "storer"
    consumer := ← s.key? 3 "consumer" Setting.text? "storer-1"
    maxAttempts := ← s.key? 4 "max_attempts" (Setting.nat? (twoTo 32)) 10
    retryBackoffMs := ← s.key? 5 "retry_backoff_ms" (Setting.nat? (twoTo 64)) 1000
    maxLength := ← s.key? 6 "max_len" (Setting.nat? (twoTo 64)) 10000
    blockMs := ← s.key? 7 "block_ms" (Setting.nat? (twoTo 64)) 1000 }

def SchedulerSettings.ofSetting? (s : Setting) : Option SchedulerSettings := do
  return ⟨← s.key? 0 "interval_secs" (Setting.nat? (twoTo 64)) 60,
    ← s.key? 1 "retention_secs" (Setting.nat? (twoTo 64)) 31536000⟩

namespace Settings

/-- The file that is read if no other is named. -/
def defaultPath (home : Option String) : String := homeDirectory home ++ "/calendar.toml"

/-- The configuration that a table of sections makes. -/
def ofSetting? (home : Option String) (root : Setting) : Option Settings := do
  return {
    server := ← ServerSettings.ofSetting? (← root.section? 0 "server")
    logging := ← LoggingSettings.ofSetting? (← root.section? 1 "logging")
    storage := ← StorageSettings.ofSetting? home (← root.section? 2 "storage")
    broker := ← BrokerSettings.ofSetting? (← root.section? 3 "broker")
    scheduler := ← SchedulerSettings.ofSetting? (← root.section? 4 "scheduler") }

/-- The sections with their keys, in the order in which a list gives their values. -/
def sections : List (String × List String) :=
  [("server", ["bind", "port"]), ("logging", ["level"]), ("storage", ["kind", "path"]),
    ("broker", ["url", "stream", "group", "consumer", "max_attempts", "retry_backoff_ms", "max_len",
      "block_ms"]),
    ("scheduler", ["interval_secs", "retention_secs"])]

/-- The names of the environment's entries for all keys. -/
def entryNames : List String :=
  sections.flatMap fun (part, keys) => keys.map (Environment.entryName part)

/-- The layers of a configuration: the text of a file, if there is one, and the environment. -/
def layers? (file : Option String) (entries : List (String × String)) : Option Setting :=
  match file with
  | none => some (Setting.empty.overlay (Environment.layer entries))
  | some text => (Toml.ofText? text).map fun below => below.overlay (Environment.layer entries)

/-- The configuration of a file and an environment; none if either cannot be used. -/
def load? (file : Option String) (entries : List (String × String)) (home : Option String) :
    Option Settings :=
  (layers? file entries).bind (ofSetting? home)

end Settings

end Datebook
