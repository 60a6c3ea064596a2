import Pizzeria.Shell.Dialog

/-!
# The command line

The program itself: it looks for scripts and reads lines when the dialog waits for them,
and writes what the dialog answers.  Every decision is made by `Pizzeria.Dialog`.
-/

namespace Pizzeria.Command

/-- Write a text at once. -/
def put (text : Text) : IO Unit := do
  let out ← IO.getStdout
  out.putStr (String.ofList text)
  out.flush

/-- There is something under a path. -/
def present (path : String) : IO Bool := do
  try
    discard (IO.FS.realPath path)
    return true
  catch _ => return false

/-- What is found under the path of a script. -/
def load (path : Text) : IO Script := do
  let path := String.ofList path
  unless ← present path do return .missing
  try
    return .ofBytes (← IO.FS.readBinFile path).toList
  catch _ => return .unreadable

/-- The bytes up to and including the next newline, or up to the end of the input.
`earlier` holds the bytes of the line already read, last one first. -/
partial def readLine (stdin : IO.FS.Stream) (earlier : List UInt8) : IO (List UInt8) := do
  match (← stdin.read 1).toList with
  | byte :: _ =>
      if byte = 10 then return (byte :: earlier).reverse
      readLine stdin (byte :: earlier)
  | [] => return earlier.reverse

/-- What becomes of asking for the next line. -/
def nextLine (stdin : IO.FS.Stream) : IO Dialog.Event := do
  try
    return .ofBytes (← readLine stdin [])
  catch _ => return .broken

/-- Write, get what the dialog waits for, and go on until it waits for nothing. -/
partial def serve (stdin : IO.FS.Stream) (turn : Dialog.Turn) : IO UInt32 := do
  put turn.output
  match turn.next with
  | .script _ path _ _ => serve stdin (turn.next.feed (.script (← load path)))
  | .entry _ _ => serve stdin (turn.next.feed (← nextLine stdin))
  | .over exitCode => return exitCode.toUInt32

end Pizzeria.Command

open Pizzeria in
/-- The program. -/
def main (arguments : List String) : IO UInt32 := do
  let arguments := arguments.map String.toList
  if let .error fault := Request.ofArguments arguments then
    IO.eprintln (String.ofList ("error: " ++ fault.message))
  Command.serve (← IO.getStdin) (Dialog.start arguments)
