import PatternGen.CommandLine.Run
import PatternGen.Supply

/-!
# The program

Generates strings from a pattern, as the arguments say. Without a seed the numbers are begun at
random.
-/

open PatternGen PatternGen.CommandLine

def main (args : List String) : IO UInt32 := do
  match Request.parse args with
  | .error usage =>
    if usage.exitCode = 0 then IO.println usage.message else IO.eprintln usage.message
    pure usage.exitCode.toUInt32
  | .ok request =>
    let seed ←
      match request.seed with
      | some seed => pure seed
      | none => IO.rand 0 Numeral.largest
    let terminal ← (← IO.getStdout).isTty
    let outcome := run request terminal Supply.generator seed
    IO.print outcome.output
    match outcome.failure with
    | some failure => IO.eprintln s!"randexp: {failure.message}"
    | none => pure ()
    pure outcome.exitCode.toUInt32
