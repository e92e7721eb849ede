/-
# Log settings

Where logs go and which messages they keep, as environment variables choose them.
-/
import CodeAtlas.Text.Blank

namespace CodeAtlas

/-- Filter directives and the directory of the log files; no directory stands for the default one
in the home directory. -/
structure LogSettings where
  directives : String
  dir : Option String
deriving DecidableEq, Repr

namespace LogSettings

/-- The value of a variable, where a blank value counts as unset. -/
def setting? (var : String → Option String) (name : String) : Option String :=
  (var name).filter (fun value => !Text.allBlank value)

/-- The directory below the home directory that logs go to by default. -/
def defaultDir : String := ".cmtscope/logs"

/-- The settings an environment chooses.  The library's own variable wins over the general one. -/
def resolve (var : String → Option String) : LogSettings where
  directives :=
    ((setting? var "CMTSCOPE_LOG").or (setting? var "RUST_LOG")).getD "info"
  dir := setting? var "CMTSCOPE_LOG_DIR"

end LogSettings

end CodeAtlas
