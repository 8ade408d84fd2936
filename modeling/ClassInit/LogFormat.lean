/-!
The formats in which a log can be written.
-/

set_option autoImplicit false

namespace ClassInit

inductive LogFormat where
  | text
  | tree
  | json
deriving DecidableEq, Inhabited

namespace LogFormat

/-- The format with a name in any case; any other name means plain text. No letter outside ASCII has
a lower case that occurs in the names. -/
def ofName (name : String) : LogFormat :=
  match name.toLower with
  | "tree" => tree
  | "json" => json
  | _ => text

end LogFormat

end ClassInit
