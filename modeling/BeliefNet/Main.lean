import BeliefNet.Report

/-!
# The program

Prints the output for its arguments, and ends with its exit code.
-/

def main (arguments : List String) : IO UInt32 := do
  let output := BeliefNet.Output.ofArguments arguments
  (← IO.getStdout).putStr output.text
  if output.exitCode = 2 then
    (← IO.getStderr).putStr BeliefNet.helpText
  return output.exitCode
