import SeedTree.Command.Help
import SeedTree.Launch
import SeedTree.Log.Line
import SeedTree.Store.Image

/- The program: it shows a run the files it may touch, and afterwards carries out what the run did
   to them. A store is kept in one file. -/
namespace SeedTree.Outside

def parts (separator : Char) (s : String) : List String :=
  (Text.splitOn separator s.toList).map String.ofList

def textAt (path : String) : IO String := do
  try
    let bytes ← IO.FS.readBinFile path
    return (String.fromUTF8? bytes).getD ""
  catch _ => return ""

def accountHome : IO (Option String) := do
  let status ← textAt "/proc/self/status"
  let user := (parts '\n' status).findSome? fun line =>
    match parts '\t' line with
    | "Uid:" :: id :: _ => some id
    | _ => none
  let accounts ← textAt "/etc/passwd"
  return (parts '\n' accounts).findSome? fun line =>
    match parts ':' line with
    | [_, _, id, _, _, home, _] => if user = some id then some home else none
    | _ => none

def environment : IO Environment := do
  let all ← textAt "/proc/self/environ"
  let given := (parts '\x00' all).foldl (fun m entry =>
    match Text.splitFirst? '=' entry.toList with
    | some (name, value) => m.insert (String.ofList name) (String.ofList value)
    | none => m) (∅ : NameMap String)
  return { given, accountHome := ← accountHome }

def beginning : IO Moment := do
  let place ← IO.FS.realPath "/proc/self"
  let time := (← place.metadata).modified
  return Moment.afterEpoch time.sec.toNat time.nsec.toNat

def pathOf (names : List String) : String := "/" ++ String.intercalate "/" names

def entryAt (names : List String) : IO (Option DiskEntry) := do
  try
    let place ← IO.FS.realPath (pathOf names)
    if ← place.isDir then return some .folder
    let bytes := (← IO.FS.readBinFile place).toList
    return some (match Store.Image.decode? bytes with
      | some s => .store s
      | none => .file bytes)
  catch _ => return none

def shown (disk : Disk) (path : String) : IO Disk := do
  let names := disk.namesOf path
  let mut disk := disk
  for i in List.range (names.length + 1) do
    match ← entryAt (names.take i) with
    | some e => disk := disk.put (names.take i) e
    | none => return disk
  return disk

def showAll (disk : Disk) (paths : List String) : IO Disk := paths.foldlM shown disk

def emptyDisk : IO Disk := do
  let here ← IO.currentDir
  return { here := (parts '/' here.toString).filter (· ≠ "") }

def pathsNamed (request : Request) : List String :=
  let config := request.config.toList.flatMap fun path =>
    path :: DocumentForm.endings.map fun e => path ++ "." ++ e.1
  match request.command with
  | .show _ _ _ _ out => config ++ out.toList
  | .upload file _ => file :: config
  | _ => config

def pathsImplied (request : Request) (env : Environment) (config : Config) : List String :=
  (config.storeFile env).toOption.toList
    ++ (env.logFile request.logging.file config.logging.file).toOption.toList

def keepFile (path : String) (bytes : Bytes) : IO Unit := do
  match Disk.folderOf? path with
  | some folder => if folder ≠ "" then IO.FS.createDirAll folder
  | none => pure ()
  IO.FS.writeBinFile path ⟨bytes.toArray⟩

def tell (l : Launch) (time : Moment) : IO Unit := do
  let lines := l.logger.lines time l.events
  let text := String.join (lines.map fun line => line ++ "\n")
  if l.logger.outputs.stdout then IO.print text
  if l.logger.outputs.stderr then IO.eprint text
  match l.logger.file with
  | none => return
  | some path =>
    match l.disk.look path with
    | .ok (.file bytes) => keepFile path (bytes ++ utf8 text)
    | _ => return

def keep (l : Launch) (request : Request) (paths : List String) : IO Unit := do
  for path in paths do
    match l.disk.look path with
    | .ok (.store s) => keepFile path (Store.Image.encode s)
    | _ => pure ()
  match request.command, l.result with
  | .show _ _ _ _ (some out), .ok _ =>
    match l.disk.look out with
    | .ok (.file bytes) => keepFile out bytes
    | _ => return
  | _, _ => return

def run (request : Request) : IO UInt32 := do
  let env ← environment
  let time ← beginning
  let disk ← showAll (← emptyDisk) (pathsNamed request)
  let paths := match Config.load request.config env disk with
    | .ok config => pathsImplied request env config
    | .error _ => []
  let disk ← showAll disk paths
  let l := Launch.run request env (fun _ => time) disk
  tell l time
  keep l request paths
  match l.result with
  | .ok text =>
    IO.println text
    return 0
  | .error fault =>
    IO.eprintln ("Error: " ++ fault.message)
    return 1

end SeedTree.Outside

def main (arguments : List String) : IO UInt32 :=
  match SeedTree.Request.ofArguments arguments with
  | .ok request => SeedTree.Outside.run request
  | .error .helpWanted => do
    IO.println SeedTree.Request.help
    return 0
  | .error fault => do
    IO.eprintln (fault.message ++ "\n" ++ SeedTree.Request.help)
    return 2
