import Mathlib.Tactic.Common

/-!
# Wait statuses and child processes

What a parent learns about a child: the status that waiting stores, and the answers the parent
gets while it polls. A process is a script of such answers, so that a statement over all
processes is a statement over every way a child can behave.
-/

namespace P101Test

/-- A status stored by waiting for a child: it exited, a signal ended it, or it stopped. -/
inductive WaitStatus
  | exited (code : ℕ)
  | signaled (signal : ℕ)
  | stopped (signal : ℕ)
  deriving DecidableEq, Repr

namespace WaitStatus

/-- The status of a child that has ended; waiting without a request for stopped children reports
no other. -/
def Ended : WaitStatus → Prop
  | stopped _ => False
  | _ => True

instance (s : WaitStatus) : Decidable s.Ended := by
  cases s <;> simp only [Ended] <;> infer_instance

/-- `WIFEXITED` and `WEXITSTATUS` together. -/
def exitCode? : WaitStatus → Option ℕ
  | exited code => some code
  | _ => none

/-- `WIFSIGNALED` and `WTERMSIG` together. -/
def signal? : WaitStatus → Option ℕ
  | signaled signal => some signal
  | _ => none

end WaitStatus

/-- How polling a running child ends. -/
inductive Ending
  /-- The child is reported. -/
  | reaped (status : WaitStatus) (ended : status.Ended)
  /-- Waiting fails with an error number. -/
  | waitFails (code : ℕ)
  /-- The deadline passes first; reading the clock may fail before it is noticed. -/
  | expires (clock : Option ℕ)

/-- What spawning a command leads to. A spawned child is found running once for each pause; a
pause carries the failure, if any, of the clock read that follows it. -/
inductive Process
  | refused (code : ℕ)
  | spawned (clock : Option ℕ) (pauses : List (Option ℕ)) (ending : Ending)

end P101Test
