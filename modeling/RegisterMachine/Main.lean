import RegisterMachine.CommandLine

/-! # The program

Prints what the command line reports and exits with its code.
-/
open RegisterMachine

def main (args : List String) : IO UInt32 := do
  let report := CommandLine.run args Sink.endless
  (← IO.getStdout).putStr report.stdout
  (← IO.getStderr).putStr report.stderr
  return report.exitCode.toUInt32
