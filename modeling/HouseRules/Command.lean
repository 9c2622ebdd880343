import HouseRules.Text.Digits
import HouseRules.World

/-! Commands that are started from outside, and how they end. -/

namespace HouseRules

/-- A program with its arguments and its standard input. The output is shown or, for a quiet
command, dropped; the limit is in seconds. -/
structure Command where
  program : String
  arguments : List String
  input : List UInt8
  isQuiet : Bool
  limit : Option Nat
  deriving DecidableEq

/-- How a program that was started has ended by itself. -/
inductive Ending where
  | exited (status : Nat)
  | killed (signal : Nat)
  deriving DecidableEq

namespace Ending

def isSuccess (e : Ending) : Bool := e = .exited 0

/-- The names of signals. -/
def signalName? (n : Nat) : Option String :=
  match n with
  | 1 => some "SIGHUP"
  | 2 => some "SIGINT"
  | 3 => some "SIGQUIT"
  | 4 => some "SIGILL"
  | 5 => some "SIGTRAP"
  | 6 => some "SIGABRT"
  | 7 => some "SIGBUS"
  | 8 => some "SIGFPE"
  | 9 => some "SIGKILL"
  | 10 => some "SIGUSR1"
  | 11 => some "SIGSEGV"
  | 12 => some "SIGUSR2"
  | 13 => some "SIGPIPE"
  | 14 => some "SIGALRM"
  | 15 => some "SIGTERM"
  | _ => none

/-- The text of an ending. -/
def text : Ending → String
  | exited status => "exit status: " ++ Text.decimal status
  | killed signal =>
    "signal: " ++ Text.decimal signal ++
      (match signalName? signal with
        | some name => " (" ++ name ++ ")"
        | none => "")

end Ending

/-- What came of a command. -/
inductive CommandResult where
  | cannotStart
  | timedOut
  /-- The program has ended, with what it wrote to its standard error. -/
  | ended (ending : Ending) (errors : String)
  deriving DecidableEq

/-- Whether the program has ended well. -/
def CommandResult.isSuccess : CommandResult → Bool
  | ended ending _ => ending.isSuccess
  | _ => false

/-- What starts commands and waits for them. -/
abbrev Launcher (σ : Type := World) := Command → σ → CommandResult × σ

end HouseRules
