import Script.CommandLine

/-! # The program

Reads what the arguments name, runs it, and writes the response. -/

namespace Script.CommandLine

/-- The number of a system error; some operations report it with the sign turned. -/
def errorNumber (code : UInt32) : Nat :=
  if Nat.pow 2 31 ≤ code.toNat then Nat.pow 2 32 - code.toNat else code.toNat

/-- A system error as the reason for a failure. -/
def systemFailure (code : UInt32) (details : String) : ReadFailure :=
  .ofNumber (errorNumber code) details

/-- What the system says about a file that cannot be read. -/
def failureOf : IO.Error → ReadFailure
  | .noFileOrDirectory _ code details => systemFailure code details
  | .inappropriateType _ code details => systemFailure code details
  | .permissionDenied _ code details => systemFailure code details
  | .resourceExhausted _ code details => systemFailure code details
  | .invalidArgument _ code details => systemFailure code details
  | .otherError code details => systemFailure code details
  | other => .system other.toString 5

/-- Reads the whole of a stream. -/
partial def readAll (stream : IO.FS.Stream) (sofar : ByteArray) : IO ByteArray := do
  let chunk ← stream.read 65536
  if chunk.isEmpty then return sofar else readAll stream (sofar ++ chunk)

/-- Reads where the program comes from, as far as it has to be read. -/
def readOrigin (origin? : Option Origin) : IO (Except ReadFailure ByteArray) := do
  try
    match origin? with
    | some (.file path) => return .ok (← IO.FS.readBinFile path)
    | some .standardInput => return .ok (← readAll (← IO.getStdin) .empty)
    | _ => return .ok .empty
  catch error => return .error (failureOf error)

/-- More fuel than any run can use. -/
def ampleFuel : Nat := Nat.pow 2 62

/-- Writes a response and ends with its exit code. -/
def answer (response : Response) : IO UInt32 := do
  (← IO.getStdout).putStr response.output
  (← IO.getStderr).putStr response.errors
  return response.exitCode.toUInt32

end Script.CommandLine

open Script.CommandLine in
/-- Runs the program that the arguments name. -/
def main (arguments : List String) : IO UInt32 := do
  let request := Request.ofArguments arguments
  match request.respond ampleFuel (← readOrigin request.origin?) with
  | some response => answer response
  | none => answer { exitCode := 1, errors := "out of fuel\n" }
