import Script.Evaluation

/-! # The command line

The arguments say where the program comes from, whether the value of its last statement is echoed,
and how deep calls may nest.  They are read from left to right, and the first one that settles the
matter (a usage error, or a question for the version or for help) ends the reading.

What has to be read from files or standard input is read by the caller; from what was read,
`Request.respond` makes the texts to write and the exit code. -/

namespace Script.CommandLine

/-- What the arguments ask for. -/
structure Arguments where
  /-- The program is in a file. -/
  file : Bool := false
  /-- The value of the last statement is echoed. -/
  print : Bool := false
  /-- How often more logging was asked for. -/
  verbosity : Nat := 0
  /-- How many calls may be under way at once. -/
  maxCalls : Option Nat := none
  /-- The program, or the name of its file. -/
  contents : Option String := none
  deriving DecidableEq

/-- The outcome of reading the arguments. -/
inductive Request where
  | run (arguments : Arguments)
  | version
  | help
  | usageError
  deriving DecidableEq

/-! ## Reading arguments -/

/-- The largest number that an option takes. -/
def maxNumber : Nat := Nat.pow 2 64 - 1

/-- The number that decimal digits write, if they do. -/
def number? (digits : List Char) : Option Nat :=
  if digits ≠ [] ∧ digits.all Char.isDigit ∧ digitsValue digits ≤ maxNumber then
    some (digitsValue digits)
  else
    none

/-- The number that an option's text writes; it may have a plus sign in front. -/
def numberText? (text : String) : Option Nat :=
  match text.toList with
  | '+' :: digits => number? digits
  | digits => number? digits

/-- Whether an argument is read as flags: it starts with a minus sign and has more behind it. -/
def isFlag (text : String) : Bool :=
  match text.toList with
  | '-' :: _ :: _ => true
  | _ => false

/-- The effect of one flag: the arguments with the flag added, or the request that it settles. -/
def flag (a : Arguments) : Char → Except Request Arguments
  | 'f' => if a.file then .error .usageError else .ok { a with file := true }
  | 'p' => if a.print then .error .usageError else .ok { a with print := true }
  | 'v' => .ok { a with verbosity := a.verbosity + 1 }
  | 'V' => .error .version
  | 'h' => .error .help
  | _ => .error .usageError

/-- The effects of several flags in one argument. -/
def flags : Arguments → List Char → Except Request Arguments
  | a, [] => .ok a
  | a, letter :: rest =>
    match flag a letter with
    | .ok a => flags a rest
    | .error request => .error request

/-- The one-letter form of a flag that is written out. -/
def letterOf? : String → Option Char
  | "file" => some 'f'
  | "print" => some 'p'
  | "verbose" => some 'v'
  | "version" => some 'V'
  | "help" => some 'h'
  | _ => none

/-- The option that takes a number. -/
def numberOption : String := "max-call-depth"

/-- The arguments with the limit on calls, which may be given once. -/
def withMaxCalls (a : Arguments) (text : String) : Except Request Arguments :=
  match a.maxCalls, numberText? text with
  | none, some n => .ok { a with maxCalls := some n }
  | _, _ => .error .usageError

/-- The arguments with a text that is no flag, of which there may be one. -/
def withContents (a : Arguments) (text : String) : Except Request Arguments :=
  match a.contents with
  | none => .ok { a with contents := some text }
  | some _ => .error .usageError

/-- Texts that are no flags, whatever they start with. -/
def plainTexts : Arguments → List String → Request
  | a, [] => .run a
  | a, text :: rest =>
    match withContents a text with
    | .ok a => plainTexts a rest
    | .error request => request

/-- Reads the arguments from left to right. -/
def read : Arguments → List String → Request
  | a, [] => .run a
  | a, argument :: rest =>
    match argument.toList with
    | ['-', '-'] => plainTexts a rest
    | '-' :: '-' :: long =>
      let name := String.ofList (long.takeWhile (· != '='))
      match long.dropWhile (· != '=') with
      | _ :: value =>
        if name = numberOption then
          match withMaxCalls a (String.ofList value) with
          | .ok a => read a rest
          | .error request => request
        else
          .usageError
      | [] =>
        if name = numberOption then
          match rest with
          | value :: rest =>
            if isFlag value then
              .usageError
            else
              match withMaxCalls a value with
              | .ok a => read a rest
              | .error request => request
          | [] => .usageError
        else
          match letterOf? name with
          | some letter =>
            match flag a letter with
            | .ok a => read a rest
            | .error request => request
          | none => .usageError
    | '-' :: letter :: letters =>
      match flags a (letter :: letters) with
      | .ok a => read a rest
      | .error request => request
    | _ =>
      match withContents a argument with
      | .ok a => read a rest
      | .error request => request

/-- What a list of arguments asks for. -/
def Request.ofArguments (arguments : List String) : Request :=
  read {} arguments

/-! ## Running -/

/-- Where the program comes from. -/
inductive Origin where
  | text (program : String)
  | file (path : String)
  | standardInput
  /-- A file is asked for, but not named. -/
  | unnamedFile
  deriving DecidableEq

/-- Why a program could not be read. -/
inductive ReadFailure where
  /-- The system refused, for a reason in words and as a number. -/
  | system (reason : String) (code : Nat)
  /-- The bytes are not text. -/
  | notText
  deriving DecidableEq

namespace ReadFailure

/-- No file has this name. -/
def notFound : ReadFailure := .system "No such file or directory" 2

/-- The file may not be read. -/
def notPermitted : ReadFailure := .system "Permission denied" 13

/-- A file stands where a path needs a directory. -/
def notADirectory : ReadFailure := .system "Not a directory" 20

/-- A directory stands where a file is needed. -/
def isADirectory : ReadFailure := .system "Is a directory" 21

/-- A path, or a name in it, is longer than names can be. -/
def nameTooLong : ReadFailure := .system "File name too long" 36

/-- The failures that have usual words, by their numbers. -/
def usual : List (Nat × ReadFailure) :=
  [(2, notFound), (13, notPermitted), (20, notADirectory), (21, isADirectory), (36, nameTooLong)]

/-- The failure with a number; `details` are the words if there are no usual ones. -/
def ofNumber (number : Nat) (details : String) : ReadFailure :=
  (usual.lookup number).getD (.system details number)

/-- The failure in words. -/
def describe : ReadFailure → String
  | system reason code => s!"{reason} (os error {code})"
  | notText => "stream did not contain valid UTF-8"

end ReadFailure

/-- Bytes as text. -/
def decode (bytes : ByteArray) : Except ReadFailure String :=
  match String.fromUTF8? bytes with
  | some text => .ok text
  | none => .error .notText

/-- What the program leaves behind when it ends. -/
structure Response where
  exitCode : Nat
  output : String := ""
  errors : String := ""
  deriving DecidableEq

/-- The name of the program and its version. -/
def versionText : String := "xscript 0.1.0\n"

/-- A reminder of the arguments. -/
def usageText : String :=
  "Usage: xscript [-f|--file] [-p|--print] [-v|--verbose]... [--max-call-depth N] [CONTENTS]\n"

namespace Arguments

/-- Where the program comes from. -/
def origin (a : Arguments) : Origin :=
  match a.contents, a.file with
  | some path, true => .file path
  | some program, false => .text program
  | none, true => .unnamedFile
  | none, false => .standardInput

/-- The limits of the run: only the one on calls can be chosen. -/
def limits (a : Arguments) : Limits :=
  match a.maxCalls with
  | some n => { maxCalls := n }
  | none => {}

/-- What stays the same during the run.  The host has no functions beyond the standard ones. -/
def context (a : Arguments) : Context where
  limits := a.limits
  host := fun _ _ line => .error ⟨.native "no such function", line⟩

/-- Runs a program and reports its end; `none` if the fuel is used up. -/
def runText (a : Arguments) (fuel : Nat) (program : String) : Option Response :=
  match run a.context fuel program .standard with
  | none => none
  | some (.ok value, s) =>
    let echoed := if a.print && !value.equals .null then value.echo ++ "\n" else ""
    some { exitCode := 0, output := s.output ++ echoed }
  | some (.error error, s) =>
    some { exitCode := 1, output := s.output, errors := error.message ++ "\n" }

/-- Reports that the program could not be read. -/
def unreadable (a : Arguments) (failure : ReadFailure) : Response :=
  let reason :=
    match a.origin with
    | .file path => s!"Failed to read the input file '{path}': {failure.describe}"
    | _ => s!"Failed to read standard input: {failure.describe}"
  { exitCode := 1, errors := reason ++ "\n" }

/-- The response to the arguments; `contents` is what the named file or standard input holds. -/
def respond (a : Arguments) (fuel : Nat) (contents : Except ReadFailure ByteArray) :
    Option Response :=
  match a.origin with
  | .text program => a.runText fuel program
  | .unnamedFile => some { exitCode := 1, errors := "--file requires a path\n" }
  | _ =>
    match contents.bind decode with
    | .ok program => a.runText fuel program
    | .error failure => some (a.unreadable failure)

end Arguments

/-- The response to a request; `contents` is what the named file or standard input holds. -/
def Request.respond (request : Request) (fuel : Nat) (contents : Except ReadFailure ByteArray) :
    Option Response :=
  match request with
  | .run a => a.respond fuel contents
  | .version => some { exitCode := 0, output := versionText }
  | .help => some { exitCode := 0, output := usageText }
  | .usageError => some { exitCode := 2, errors := usageText }

/-- Where the program that a request runs comes from. -/
def Request.origin? : Request → Option Origin
  | .run a => some a.origin
  | _ => none

end Script.CommandLine
