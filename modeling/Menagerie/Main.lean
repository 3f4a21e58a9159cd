import Menagerie.CommandLine

/-!
# The program

Runs a scenario and prints the state of every agent at its end. The files of the data folder are
read from standard input, as one JSON object from their names to their texts; the path that the
arguments give is the one that messages name.
-/

open Menagerie

/-- All of standard input. -/
partial def readAll (input : IO.FS.Stream) (read : String) : IO String := do
  let line ← input.getLine
  if line.isEmpty then return read else readAll input (read ++ line)

def main (args : List String) : IO UInt32 := do
  let text ← readAll (← IO.getStdin) ""
  let files := (Document.Json.read? text).bind (Shaped.mapOf? Shaped.text?)
  let outcome := Request.run (fun path => ⟨path, files.getD .empty⟩) args
  (← IO.getStdout).putStr outcome.printed
  return outcome.code
