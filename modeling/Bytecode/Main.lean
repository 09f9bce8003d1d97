import Bytecode.CommandLine.Run

/-!
# The command line

Puts out what the program answers to its arguments.
-/

def main (args : List String) : IO UInt32 := do
  let response := Bytecode.CommandLine.run (args.map String.toList)
  IO.print response.output
  if let some reason := response.refusal then
    IO.eprintln reason.message
  return response.status
