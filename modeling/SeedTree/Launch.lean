import SeedTree.Command.Reading
import SeedTree.Command.Running
import SeedTree.Config.Loading
import SeedTree.Engine.Run
import SeedTree.Log.Logger

/- A whole run for a request: the configuration is loaded, logging set up, the store opened and the
   command carried out. What a stage did stays done when a later one fails. -/
namespace SeedTree

inductive LaunchFault where
  | loading (fault : ConfigFault)
  | logging (fault : LogFault)
  | opening (failure : Failure)
  | command (failure : Failure)

def LaunchFault.message : LaunchFault → String
  | .loading fault => "Error loading configuration: " ++ (Failure.invalidConfig fault).message
  | .logging fault =>
    "Error initializing logging: " ++ (Failure.invalidConfig (.log fault)).message
  | .opening failure => "Error opening store: " ++ failure.message
  | .command failure => failure.message

def Config.openStore (config : Config) (env : Environment) (disk : Disk) :
    Except Failure (String × Store × Disk) := do
  config.check.mapError Failure.invalidConfig
  let path ← (config.storeFile env).mapError Failure.invalidConfig
  let (store, disk) ← (disk.openStore path).mapError Failure.storage
  return (path, store, disk)

def Config.load (file : Option String) (env : Environment) (disk : Disk) :
    Except ConfigFault Config := do
  let config ← match file with
    | some path => ofFile disk env path
    | none => ofEnvironment env
  config.check
  return config

structure Launch where
  result : Except LaunchFault String
  disk : Disk
  logger : Logger := .silent
  /-- What was told, in order. -/
  events : List Event := []

namespace Launch

def openEngine (config : Config) (world : String) : Attempt (Engine × World) := do
  Attempt.tell .storeOpened
  let e ← Engine.start config
  let world ← e.world world
  return (e, world)

def onStore (request : Request) (config : Config) (logger : Logger) (env : Environment)
    (clock : Nat → Moment) (disk : Disk) : Launch :=
  match config.openStore env disk with
  | .error failure => { result := .error (.opening failure), disk, logger }
  | .ok (path, store, disk) =>
    let left (result : Except LaunchFault String) (disk : Disk) (site : Site) : Launch :=
      { result, disk := disk.saveStore path site.store, logger, events := site.events }
    let (opened, site) := (openEngine config request.world).runOn (Site.fresh store clock)
    match opened with
    | .error failure => left (.error (.opening failure)) disk site
    | .ok (e, world) =>
      let (done, site) := (request.command.run e world disk).runOn site
      match done with
      | .error failure => left (.error (.command failure)) disk site
      | .ok (text, disk) => left (.ok text) disk site

def run (request : Request) (env : Environment) (clock : Nat → Moment) (disk : Disk) : Launch :=
  match Config.load request.config env disk with
  | .error fault => { result := .error (.loading fault), disk }
  | .ok config =>
    match Logger.start config.logging request.logging env disk with
    | .error fault => { result := .error (.logging fault), disk }
    | .ok (logger, disk) => onStore request config logger env clock disk

end Launch

end SeedTree
