import TransactionalPages.CommandLine.Run

/-!
# The command line

Reads the arguments, runs the workload and prints its report. The table's file is
written into the data directory when the run is over.
-/

namespace TransactionalPages.CommandLine

def bytesOf (file : ByteFile) : ByteArray := ⟨file.read 0 file.length⟩

def writeTable (dir : String) : Option (TableId × ByteFile) → IO Unit
  | none => pure ()
  | some (table, file) => IO.FS.writeBinFile (dir ++ "/" ++ toString table ++ ".dat") (bytesOf file)

def printOutcome : Outcome → IO Unit
  | .failed failure => failure.lines.forM fun line => IO.eprintln line
  | .finished report => report.lines.forM fun line => IO.println line
  | .mismatch report => do
    report.lines.forM fun line => IO.println line
    report.mismatch.lines.forM fun line => IO.eprintln line
  | .stopped fault => IO.eprintln fault.message

/-- Runs the command line and answers with the exit code. -/
def start (args : List String) : IO UInt32 := do
  match parse args with
  | .error e =>
    IO.eprintln ("error: " ++ e.message)
    pure 2
  | .ok options =>
    IO.FS.createDirAll options.dataDir
    let seed ← IO.rand 0 4611686018427387903
    let (outcome, file) := run .linear (UInt64.ofNat seed) options
    writeTable options.dataDir file
    printOutcome outcome
    pure outcome.exitCode

end TransactionalPages.CommandLine

def main (args : List String) : IO UInt32 :=
  TransactionalPages.CommandLine.start args
