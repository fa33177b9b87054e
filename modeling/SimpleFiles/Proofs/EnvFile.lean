import SimpleFiles.EnvFile

/-! What a file of environment variables does to an environment: it adds the variables
that it sets and that the environment does not have, each with the first value that the
file gives it, and changes nothing else. -/
namespace SimpleFiles.EnvFile

def assigned (environment given : NameTable String) :
    List (Option (List Char)) → List (String × String)
  | [] => []
  | none :: _ => []
  | some line :: rest =>
    match readLine (valueOf environment given) line with
    | none => []
    | some none => assigned environment given rest
    | some (some (name, value)) =>
      let environment' :=
        if environment.contains name then environment else environment.insert name value
      (name, value) :: assigned environment' (given.insert name value) rest

end SimpleFiles.EnvFile
