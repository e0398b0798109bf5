import ParserAlgebra.HexColour

/-!
# A session about colours

Reads lines until one of them ends the session, and answers each.
-/

set_option autoImplicit false

def main : IO Unit := do
  let input ← IO.getStdin
  let output ← IO.getStdout
  output.putStr ParserAlgebra.Colour.greeting
  output.flush
  repeat do
    let line ← input.getLine
    if line.isEmpty then break
    match ParserAlgebra.Colour.reply? line.toList with
    | none => break
    | some reply =>
      output.putStr reply
      output.flush
