import SimpleFiles.CommandLine
import SimpleFiles.Proofs.EnvFile
import SimpleFiles.Proofs.FileTree.Lookup
import SimpleFiles.Proofs.Path.Components
import SimpleFiles.Proofs.Path.Relative

/-! The layers of a configuration. Every setting has the value of the highest source that
sets it: what was asked for, the variables of the environment file that the process does
not have, the variables of the process, the configuration file, and at last the default.
No setting depends on what a source says of another one. -/
namespace SimpleFiles.Config

/-! What each source says. -/

/-- A file holds a document in the format that goes by the extension of its name. -/
def Holds (h : Host) (p : Path) (values : List (String × Toml.Value)) : Prop :=
  ∃ extension format content, extension? p.fileName = some extension ∧
    format ∈ h.formats.all ∧ extension ∈ format.extensions ∧
    (extension = "toml" → format = .toml) ∧ h.files.content p = .ok content ∧
    format.read? (Text.ofBytes content) = some values

/-- The path of the file that is given, or else of the one with the usual name. -/
def documentPath (h : Host) (file : Option Path) : Path :=
  h.directory.join (file.getD (.ofText defaultFile))

def IsThere (h : Host) (file : Option Path) : Prop :=
  ∀ p, file = some p → p ≠ .empty ∧ h.files.pathExists (h.directory.join p) = true

/-- What the configuration file says. One that is given must be there; the usual one may be missing.
Nothing is said of what stands in for a path that leads to no file, but where no file has the usual
name, with or without an extension after it, nothing is set. -/
structure Document (h : Host) (file : Option Path) (values : List (String × Toml.Value)) :
    Prop where
  there : IsThere h file
  holds : h.files.isFile (documentPath h file) = true → Holds h (documentPath h file) values
  absent : file = none → h.files.isFile (documentPath h none) = false →
    (∀ extension, h.files.isFile
      ((documentPath h none).withFileName (defaultFile ++ "." ++ extension)) = false) → values = []

inductive Decides (wish : Option α) (source : Option Toml.Value) (read : Toml.Value → Option α)
    (default : α) : α → Prop
  | wished {a : α} (asked : wish = some a) : Decides wish source read default a
  | given {v : Toml.Value} {a : α} (unasked : wish = none) (said : source = some v)
      (isRead : read v = some a) : Decides wish source read default a
  | default (unasked : wish = none) (unsaid : source = none) :
      Decides wish source read default default

theorem Decides.unique {wish : Option α} {source : Option Toml.Value}
    {read : Toml.Value → Option α} {default a b : α} (ha : Decides wish source read default a)
    (hb : Decides wish source read default b) : a = b := by
  cases ha <;> cases hb <;> simp_all

/-! The layers, looked up. -/

theorem exists_content {files : FileSystem} {p : Path} (there : files.isFile p = true) :
    ∃ content, files.content p = .ok content := by
  rw [FileSystem.isFile] at there
  rw [FileSystem.content]
  cases found : Place.locate files.tree true p with
  | error e => simp [found] at there
  | ok l =>
    rw [found] at there
    obtain ⟨content, held⟩ := (files.tree.isFile_iff l).mp there
    exact ⟨content, by simp [held, bind, Except.bind, pure, Except.pure]⟩

end SimpleFiles.Config

namespace SimpleFiles

def Command.isStrict : Command → Bool
  | .run _ _ isStrict => isStrict
  | .check _ isStrict => isStrict
  | _ => false

namespace Config

end Config
end SimpleFiles
