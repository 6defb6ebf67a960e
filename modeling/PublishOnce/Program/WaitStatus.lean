/-
PublishOnce.Program.WaitStatus — how a process ended, as the system reports it.

The report is one number. Its low seven bits are zero for an exit, whose code
is in the next byte; otherwise they are the signal that killed the process, and
the bit above them says whether memory was dumped. All seven bits set mean that
nothing ended at all: the process was only stopped or continued. Success is the
number zero and nothing else.
-/

namespace PublishOnce.Program

/-- The number that the system reports. -/
structure WaitStatus where
  raw : Nat
  deriving DecidableEq, Repr, Inhabited

namespace WaitStatus

/-- The report on an exit with a code; a code has one byte. -/
def exit (code : Nat) : WaitStatus := ⟨code % 256 * 256⟩

/-- The report on an end by a signal, without a dump. -/
def signal (number : Nat) : WaitStatus := ⟨number⟩

def succeeded (status : WaitStatus) : Bool := status.raw = 0

/-- The names of the signals, from number one on. -/
def signalNames : List String :=
  ["SIGHUP", "SIGINT", "SIGQUIT", "SIGILL", "SIGTRAP", "SIGABRT", "SIGBUS", "SIGFPE", "SIGKILL",
   "SIGUSR1", "SIGSEGV", "SIGUSR2", "SIGPIPE", "SIGALRM", "SIGTERM", "SIGSTKFLT", "SIGCHLD",
   "SIGCONT", "SIGSTOP", "SIGTSTP", "SIGTTIN", "SIGTTOU", "SIGURG", "SIGXCPU", "SIGXFSZ",
   "SIGVTALRM", "SIGPROF", "SIGWINCH", "SIGIO", "SIGPWR", "SIGSYS"]

/-- A signal by number and, if it has one, name. -/
def describeSignal (number : Nat) : String :=
  toString number ++
    (match if number = 0 then none else signalNames[number - 1]? with
     | some name => " (" ++ name ++ ")"
     | none => "")

def text (status : WaitStatus) : String :=
  let low := status.raw % 128
  let byte := status.raw / 256 % 256
  if low = 0 then "exit status: " ++ toString byte
  else if low ≠ 127 then
    "signal: " ++ describeSignal low
      ++ (if status.raw / 128 % 2 = 1 then " (core dumped)" else "")
  else if status.raw % 256 = 127 then
    "stopped (not terminated) by signal: " ++ describeSignal byte
  else if status.raw = 0xFFFF then "continued (WIFCONTINUED)"
  else
    "unrecognised wait status: " ++ toString status.raw ++ " 0x"
      ++ String.ofList (Nat.toDigits 16 status.raw)

end WaitStatus

end PublishOnce.Program
