import ImportGuard.CommandLine.Markup
import ImportGuard.CommandLine.Run
import ImportGuard.Settings.DotEnv
import ImportGuard.Settings.Json
import ImportGuard.Settings.Yaml.Reader
import ImportGuard.Syntax.File

/-!
# The services of the program

The program runs with readers of its own.  They know as much of Go, of YAML and of markup as sources,
settings and messages commonly use.
-/

namespace ImportGuard

def programReaders : Readers where
  document text :=
    match Yaml.parse? text with
    | none => .error "the text is no YAML"
    | some value => .ok value
  bindings := DotEnv.parse
  json := Json.parse?
  settings := Settings.ofSources

/-- **What the program runs with.** -/
def programServices : Services where
  parse := readTree
  readers := programReaders
  console := Markup.render

end ImportGuard
