import ClassFilter.Chain.Compile
import ClassFilter.IoFault
import ClassFilter.Text.Quoted

/-!
# `ClassFilter.Source`: specifications from outside

A specification can come from an environment variable or from a file. The caller looks
the value up or reads the bytes; the functions here judge what was found.
-/

set_option autoImplicit false

namespace ClassFilter

/-- Why no chain came from outside: the specification was refused, the value of an environment
variable is no text, or a file could not be read. -/
inductive SourceError where
  | spec (e : SpecError)
  | environment (variableName : String) (value : List UInt8)
  | io (fault : IoFault)
deriving DecidableEq, Repr

/-- The error in words. The value of a variable is shown in quotes, with the bytes that are no text
spelled out. -/
def SourceError.message : SourceError → String
  | .spec e => e.message
  | .environment variableName value =>
    "environment variable '" ++ variableName ++
      "' is not usable: environment variable was not valid unicode: " ++ Text.Quoted.quote value
  | .io fault => fault.message

/-- A specification file's content without the line ends at its end. All of them are dropped, in any
mixture, and none that stands inside. -/
def dropLineEnds (text : String) : String :=
  String.ofList (text.toList.reverse.dropWhile fun c => c == '\r' || c == '\n').reverse

namespace Chain

/-- The chain of an environment variable's value. An unset variable is a missing specification,
named after the variable, while a value that is no text is an error of its own. -/
def ofEnvironment (variableName : String) (value : Option (List UInt8)) :
    Except SourceError Chain :=
  match value with
  | none => .error (.spec ⟨variableName, .missing⟩)
  | some bytes =>
    match Text.Utf8.decode bytes with
    | .error _ => .error (.environment variableName bytes)
    | .ok spec => (compile spec).mapError .spec

/-- The chain of a specification file, given what reading the file gave. An editor's line end at the
end of the file would be a part of the last element otherwise, so it is dropped. -/
def ofSpecFile (content : Except IoFault (List UInt8)) : Except SourceError Chain :=
  match content with
  | .error fault => .error (.io fault)
  | .ok bytes =>
    match Text.Utf8.decode bytes with
    | .error _ => .error (.io .notUtf8)
    | .ok text => (compile (dropLineEnds text)).mapError .spec

end Chain

end ClassFilter
