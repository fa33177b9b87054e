import SimpleFiles.CommandLine.Arguments
import SimpleFiles.Config
import SimpleFiles.Interpreter
import SimpleFiles.Program.Json

/-! The commands: a program is run, checked or shown, or the configuration is
shown. Each writes to two outputs, leaves files behind and ends well or badly. -/
namespace SimpleFiles

inductive Ending where
  | success
  | failure
  | noConfig (cause : ConfigError)
  | unreadable (file : Path) (cause : FileError)
deriving DecidableEq, Repr, Inhabited

namespace Ending

def ofSuccess (isSuccess : Bool) : Ending := if isSuccess then .success else .failure

def fault? : Ending → Option String
  | .success | .failure => none
  | .noConfig cause => some cause.message
  | .unreadable file cause => some ("Failed to read " ++ file.text ++ ": " ++ cause.message)

end Ending

structure Completion where
  output : String := ""
  errors : String := ""
  files : FileSystem
  ending : Ending
deriving DecidableEq, Inhabited

def Report.text (r : Report) : String :=
  .join (r.map fun line =>
    "[" ++ toString line.index ++ "] " ++ line.label ++ ": " ++ line.outcome.message ++ "\n")
  ++ "\n" ++ toString r.completed ++ " of " ++ toString r.length ++ " statement(s) completed\n"

namespace Command

def errorLine (message : String) : String := "Error: " ++ message ++ "\n"

def runSource (i : Interpreter) (files : FileSystem) (source : String) : Completion :=
  let r := i.runSource files source
  match r.result with
  | .ok report =>
    { output := report.text, files := r.files, ending := .ofSuccess !report.hasFailures }
  | .error (.aborted abort report) =>
    { output := report.text
      errors := errorLine ("statement " ++ toString abort.statement ++ " aborted the run: "
        ++ abort.cause.message)
      files := r.files
      ending := .failure }
  | .error e => { errors := errorLine e.message, files := r.files, ending := .failure }

def checkSource (c : Checker) (files : FileSystem) (file : Path) (source : String) : Completion :=
  match Source.parse source with
  | .error fault =>
    { errors := errorLine (InterpreterError.source fault).message, files, ending := .failure }
  | .ok p =>
    let findings := c.findings p
    let listed := String.join (findings.map fun f => f.display ++ "\n")
    if findings.any Check.Finding.isError then { output := listed, files, ending := .failure }
    else
      { output := listed ++ "✓ " ++ file.text ++ " is valid\n", files, ending := .success }

def showSource (files : FileSystem) (source : String) : Completion :=
  match Source.parse source with
  | .error fault => { errors := errorLine fault.message, files, ending := .failure }
  | .ok p => { output := p.toJson.indented ++ "\n", files, ending := .success }

def onSource (h : Host) (file : Path) (work : String → Completion) : Completion :=
  match h.files.readText (h.directory.join file) with
  | .ok source => work source
  | .error cause => { files := h.files, ending := .unreadable file cause }

def perform (h : Host) (c : Config) : Command → Completion
  | .run file _ _ =>
    onSource h file (runSource ⟨.ofStrict c.isStrict, c.directory⟩ h.files)
  | .check file _ => onSource h file (checkSource (.ofStrict c.isStrict) h.files file)
  | .ast file => onSource h file (showSource h.files)
  | .config => { output := c.toToml, files := h.files, ending := .success }

end Command

namespace Arguments

/-- What the arguments ask of the configuration; a flag that is missing asks for nothing. -/
def wishes (a : Arguments) : Config.Wishes :=
  let strict := fun isStrict => if isStrict then some true else none
  match a.command with
  | .run _ directory isStrict => { file := a.config, directory, isStrict := strict isStrict }
  | .check _ isStrict => { file := a.config, isStrict := strict isStrict }
  | .ast _ | .config => { file := a.config }

def perform (h : Host) (a : Arguments) : Completion :=
  match Config.load h a.wishes with
  | .error cause => { files := h.files, ending := .noConfig cause }
  | .ok c => a.command.perform h c

end Arguments
end SimpleFiles
