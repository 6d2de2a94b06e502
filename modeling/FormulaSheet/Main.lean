import FormulaSheet.Command.Report
import FormulaSheet.Document.Reading

/-!
# FormulaSheet — the command

Reads the document that the arguments name, and prints the report on it.
-/

namespace FormulaSheet

/-- The bytes of a file, if it can be read. -/
def readBytes? (path : String) : IO (Option ByteArray) := do
  try
    return some (← IO.FS.readBinFile path)
  catch _ =>
    return none

def runCommand (arguments : List String) : IO Report := do
  match Options.parse? arguments with
  | none => return ⟨[], .badUsage⟩
  | some options =>
    return .ofLoaded options (Document.ofFile (← readBytes? options.document))

end FormulaSheet

/-- The entry point: prints the report and ends with its exit code. -/
def main (arguments : List String) : IO UInt32 := do
  let report ← FormulaSheet.runCommand arguments
  IO.print report.output
  if let some message := report.ending.message? then
    IO.eprintln message
  return report.ending.exitCode
