import CardRules.Workbench

/-!
The command line: `workbench [templates.toml] [rules.toml] [config.toml]`.
-/

namespace CardRules

/-- The bytes of a file, if it can be read. -/
def fileBytes? (path : String) : IO (Option ByteArray) := do
  try
    return some (← IO.FS.readBinFile path)
  catch _ =>
    return none

end CardRules

open CardRules

/-- Runs the workbench session on the files of the command line and shows its lines. -/
def main (arguments : List String) : IO UInt32 := do
  let templates ← fileBytes? (arguments.getD 0 "data/templates.toml")
  let rules ← fileBytes? (arguments.getD 1 "data/rules.toml")
  let config ← arguments[2]?.mapM fileBytes?
  let outcome := Workbench.run { templates, rules, config }
  for line in outcome.lines do
    IO.println line
  match outcome.error with
  | some error =>
    IO.eprintln error.message
    return 1
  | none => return 0
