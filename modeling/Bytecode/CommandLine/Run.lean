import Bytecode.CommandLine.Build
import Bytecode.Listing

/-!
# The program

The program prints the listing of the chunk that its arguments ask for.  What is wrong
with a constant, a byte or the line is part of what it prints; arguments that cannot be
understood make it fail without a word on its standard output.

* `CommandLine.answer` — what is printed for arguments that are understood.
* `CommandLine.run` — what the program does.
-/

namespace Bytecode.CommandLine

/-- What the program does: its exit status, what it prints, and why it refused its arguments. -/
structure Response where
  status : UInt32
  output : String
  refusal : Option Refusal
deriving Repr, DecidableEq

/-- The words for a refusal, on the standard error. -/
def Refusal.message : Refusal → String
  | .unknownArgument => "error: there is an argument that is not known"
  | .emptyValue => "error: an option needs a value"
  | .repeated => "error: an option is given more than once"
  | .tooManyValues => "error: an option takes no value"

/-- The name that a listing is printed under when none is given. -/
def defaultName : Text := "code".toList

/-- The line with the name and the version of the program. -/
def versionText : String := "pepita-dasm 0.1.0\n"

/-- What the program prints about itself. -/
def helpText : String := versionText ++ String.join [
  "Bytecode disassembler for hand written chunks\n",
  "\n",
  "USAGE:\n",
  "    pepita-dasm [OPTIONS] [BYTE]...\n",
  "\n",
  "ARGS:\n",
  "    <BYTE>...    bytes to append to the chunk, in decimal or 0x hex\n",
  "\n",
  "OPTIONS:\n",
  "        --demo             disassemble a small sample chunk instead\n",
  "    -h, --help             Print help information\n",
  "    -k, --const <VALUE>    add a value to the constant pool (repeatable, in order)\n",
  "    -l, --line <LINE>      source line recorded for every byte\n",
  "    -n, --name <NAME>      name printed in the listing header\n",
  "    -V, --version          Print version information\n"]

/-- The exit status of a program that is cut short by an overflow. -/
def overflowStatus : UInt32 := 101

/-- The exit status of a program that refuses its arguments. -/
def refusalStatus : UInt32 := 2

/-- Prints a listing, or that there is nothing to list. -/
def present (name : Text) (c : Chunk) : Response :=
  if c.isEmpty ∧ c.constants.isEmpty then ⟨0, "No input.\n", none⟩
  else
    let printed := Listing.print c name
    match printed.reply with
    | .error (.overflow _) => ⟨overflowStatus, printed.state.text, none⟩
    | _ => ⟨0, printed.state.text, none⟩

/-- What is printed for arguments that are understood. -/
def answer (a : Arguments) : Response :=
  match if a.demo then demo else build a with
  | .error (.overflow _) => ⟨overflowStatus, "", none⟩
  | .error e => ⟨0, String.ofList e.report ++ "\n", none⟩
  | .ok c => present (a.name.getD defaultName) c

/-- What the program does with its arguments. -/
def run (arguments : List Text) : Response :=
  match parse arguments with
  | .error .help => ⟨0, helpText, none⟩
  | .error .version => ⟨0, versionText, none⟩
  | .error (.refused reason) => ⟨refusalStatus, "", some reason⟩
  | .ok a => answer a

end Bytecode.CommandLine
