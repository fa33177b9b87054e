import SimpleFiles.CommandLine
import SimpleFiles.FileTree.Changes
import Std.Time.DateTime.Timestamp

/-! The program. It surveys the current directory and the places that the
arguments name, performs the command on what it has found, and makes the changes. -/
namespace SimpleFiles.Main

def place (l : Location) : String := "/" ++ "/".intercalate l

def locationOf (text : String) : Location :=
  (Path.ofText text).segments.filter fun segment => !Path.isIdle segment

/-- An entry with all below it. A link that leads nowhere leads to itself. -/
partial def survey (files : FileSystem) (l : Location) : IO FileSystem := do
  let path := (← IO.currentDir) / place l
  let known ← path.symlinkMetadata
  let put := fun n =>
    { files with
      tree := files.tree.insert l n
      stamps := (l, DateTime.ofSeconds known.modified.sec) :: files.stamps }
  match known.type with
  | .dir =>
    let entries ← path.readDir
    entries.foldlM (fun files e => survey files (l ++ [e.fileName])) (put .directory)
  | .symlink =>
    let target ← (IO.FS.realPath path).toBaseIO
    return put (.link (match target with
      | .ok target => target.toString
      | .error _ => place l))
  | _ => return put (.file (← IO.FS.readBinFile path))

def surveyAll (files : FileSystem) (places : List String) : IO FileSystem :=
  places.foldlM (fun files (p : String) => do
    let path := (← IO.currentDir) / p
    if ← path.pathExists then
      let real := (← IO.FS.realPath path).toString
      let above := ((Path.ofText real).parent?.map files.createAll).map Prod.fst
      survey (above.getD files) (locationOf real)
    else return files) files

def host (words : List String) : IO Host := do
  let here := (← IO.FS.realPath (← IO.currentDir)).toString
  let now := (← Std.Time.Timestamp.now).toSecondsSinceUnixEpoch.val
  let environment ← Config.variableNames.filterMapM fun name => do
    return (← IO.getEnv name).map (name, ·)
  return {
    files := ← surveyAll { clock := .ofSeconds now } (here :: words)
    directory := .ofText here
    environment := environment.foldl (fun t (name, value) => t.insert name value) .empty }

def make : Change → IO Unit
  | .makeDirectory l => IO.FS.createDirAll (place l)
  | .write l content => IO.FS.writeBinFile (place l) content
  | .moveLink source target => IO.FS.rename (place source) (place target)
  | .removeDirectory l => IO.FS.removeDir (place l)
  | .removeFile l => IO.FS.removeFile (place l)

def usage : String :=
  "Usage: simplefiles [--config FILE] (run [--working-dir DIR] [--strict] FILE"
    ++ " | check [--strict] FILE | ast FILE | config | help)"

end SimpleFiles.Main

open SimpleFiles in
def main (words : List String) : IO UInt32 := do
  match Arguments.read words with
  | .error .help =>
    IO.println Main.usage
    return 0
  | .error _ =>
    IO.eprintln Main.usage
    return 2
  | .ok arguments =>
    let host ← Main.host words
    let done := arguments.perform host
    (host.files.tree.changes done.files.tree).forM Main.make
    IO.print done.output
    IO.eprint done.errors
    match done.ending.fault? with
    | some fault => IO.eprintln ("Error: " ++ fault)
    | none => pure ()
    return if done.ending = .success then 0 else 1
