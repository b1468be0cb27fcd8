/-
  Dshare.Session.Startup
  ──────────────────────
  From the command line to the first connection: `run_async` finds the configuration,
  `run_server` listens, and `run_client` connects.

  What is asked of the environment is a value for each variable, if it is set, and how the
  platform joins paths.
-/
import Dshare.Core.Config
import Dshare.Session.Client

namespace Dshare.Session

open Documents Dshare.Core Dshare.Protocol

structure Env where
  home : Option String
  appdata : Option String
  computername : Option String
  hostname : Option String
  /-- `PathBuf::join` with a relative path. -/
  join : String → String → String

/-- `PathBuf::join` with a relative path on Unix: a separator comes between, unless there is
one already or nothing to separate from. -/
def joinPath (path component : String) : String :=
  if path.toList.getLast?.all (· == '/') then path ++ component else path ++ "/" ++ component

def dirsPath (env : Env) : String :=
  match env.home with
  | some home => env.join (env.join home ".config") "dshare"
  | none =>
      match env.appdata with
      | some appdata => env.join appdata "dshare"
      | none => "."

/-- `Config::default_path`. -/
def defaultPath (env : Env) : String := env.join (dirsPath env) "config.toml"

/-- `hostname`. -/
def hostnameOf (env : Env) : String := (env.computername.or env.hostname).getD "unknown"

variable (uuid : Form Uuid) (toml : Toml)

/-- What `run_async` hands to the subcommand; `config` is the option `--config`. -/
def runAsync (env : Env) (disk : Disk) (config : Option String) : Config :=
  (Config.load uuid toml disk (config.getD (defaultPath env))).getD .default

/-- Where `run_server` listens; a role of `client` is only a warning. -/
def runServer (cfg : Config) : String := cfg.bindAddr

/-- Where `run_client` connects to. -/
def runClient (cfg : Config) : Except String String :=
  match cfg.serverAddr with
  | some server => .ok server
  | none => .error "client mode requires server_addr in config"

/-- The `Hello` of `handle_peer`. -/
def helloOf (env : Env) (peerId : Uuid) (cfg : Config) : Hello :=
  ourHello peerId (hostnameOf env) ⟨cfg.layout.serverScreen.width, cfg.layout.serverScreen.height⟩

end Dshare.Session
