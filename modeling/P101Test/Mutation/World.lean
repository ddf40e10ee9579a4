import P101Test.FileSystem.Calls
import P101Test.Process.WaitStatus
import P101Test.Stdio.Format

/-!
# The world of the mutation tool

The tool acts on a file system and on one error record, and it launches commands. `Host` fixes
everything the tool cannot decide: which of its calls fail, how many bytes a transfer moves, what
the compile database answers and how each launched command behaves and what it does to the file
system. Quantifying over hosts covers every pattern of failures. The world keeps a log of the
launches; nothing reads it.

A wrapper performs its call whether or not an error is recorded, and records an error when the
call fails. Memory allocation succeeds.

## Main definitions

* `Host`, `World`: the environment's choices and the state of a run.
* `call`, `callOptional`: a wrapped call, and one whose failure is not recorded.

## Main results

* `call_none`, `call_some`: a failed call only records, a successful one only acts.
-/

namespace P101Test.Mutation

/-- `P101_MUTATION_PATH_SIZE`. -/
def pathSize : ℕ := 4096

/-- What a recorded error says. -/
inductive Fault
  | errno (e : Errno)
  | user (message : Text)
  deriving DecidableEq, Repr

/-- `struct p101_c_compile_command`, and the copy `build_compile_command` makes of it. -/
structure CompileCommand where
  directory : Text
  arguments : List Text
  deriving DecidableEq, Repr

/-- How a launched command ended, as far as the tool can tell. -/
inductive Outcome
  | refused
  | unobserved
  | timedOut
  | ended (status : WaitStatus)
  deriving DecidableEq, Repr

/-- One launch: the file and arguments handed to `posix_spawnp`, how it ended, and the file system
before and after it. -/
structure Launch where
  file : Text
  argv : List Text
  outcome : Outcome
  fs : FileSystem
  after : FileSystem

/-- The environment's choices: call number `k` fails with `failure k` if that is given, and a
transfer at call `k` moves at most `transfer k` bytes. -/
structure Host where
  cwd : Path
  umask : ℕ
  failure : ℕ → Option ℕ
  transfer : ℕ → ℕ
  /-- The six characters `mkdtemp` puts in place of its template's at call `k`. -/
  temporary : ℕ → { suffix : Text // suffix.length = 6 ∧ '/' ∉ suffix }
  /-- The compile database's command for a source file. -/
  compileCommand : FileSystem → Text → Text → Option CompileCommand
  /-- How the `n`-th command launched behaves, and what it leaves of the file system. -/
  process : ℕ → Text → List Text → FileSystem → Process × FileSystem

/-- A host that grants every call in full. -/
def Host.granting (compileCommand : FileSystem → Text → Text → Option CompileCommand)
    (process : ℕ → Text → List Text → FileSystem → Process × FileSystem) : Host where
  cwd := []
  umask := 0o022
  failure _ := none
  transfer _ := pathSize
  temporary _ := ⟨"aaaaaa".toList, by decide⟩
  compileCommand := compileCommand
  process := process

/-- The state of a run. -/
structure World where
  fs : FileSystem
  err : Option Fault
  calls : ℕ
  launches : List Launch

namespace World

/-- `p101_error_has_error`. -/
def hasError (w : World) : Bool := w.err.isSome

/-- `P101_ERROR_RAISE_USER` and `P101_ERROR_RAISE_ERRNO`. -/
def raise (w : World) (fault : Fault) : World := { w with err := some fault }

/-- `p101_error_reset`. -/
def reset (w : World) : World := { w with err := none }

/-- One more call was made. -/
def tick (w : World) : World := { w with calls := w.calls + 1 }

/-- The launches made since an earlier world. -/
def launchedSince (w' w : World) : List Launch := w'.launches.drop w.launches.length

theorem launchedSince_of_append {w w' : World} {launches : List Launch}
    (h : w'.launches = w.launches ++ launches) : w'.launchedSince w = launches := by
  rw [launchedSince, h, List.drop_left]

variable (w : World) (fault : Fault)

@[simp] theorem raise_fs : (w.raise fault).fs = w.fs := rfl
@[simp] theorem raise_err : (w.raise fault).err = some fault := rfl
@[simp] theorem raise_launches : (w.raise fault).launches = w.launches := rfl
@[simp] theorem reset_fs : w.reset.fs = w.fs := rfl
@[simp] theorem reset_err : w.reset.err = none := rfl
@[simp] theorem reset_launches : w.reset.launches = w.launches := rfl
@[simp] theorem tick_fs : w.tick.fs = w.fs := rfl
@[simp] theorem tick_err : w.tick.err = w.err := rfl
@[simp] theorem tick_launches : w.tick.launches = w.launches := rfl

theorem hasError_eq_false_iff {w : World} : w.hasError = false ↔ w.err = none := by
  simp [hasError]

@[simp] theorem hasError_raise : (w.raise fault).hasError = true := rfl

/-- Clearing the record only when something is recorded is clearing it. -/
theorem ite_hasError_reset : (if w.hasError then w.reset else w) = w.reset := by
  rcases w with ⟨fs, _ | err, calls, launches⟩ <;> rfl

end World

variable (host : Host) {α : Type}

/-- A wrapped call: the host may make it fail, and a failure is recorded. -/
def call (c : Call α) (w : World) : Option α × World :=
  match host.failure w.calls with
  | some code => (none, w.tick.raise (.errno (.host code)))
  | none =>
    match c w.fs with
    | .error e => (none, w.tick.raise (.errno e))
    | .ok (a, fs) => (some a, { w.tick with fs := fs })

/-- A call made with `P101_ERROR_OPTIONAL`: its failure is not recorded. -/
def callOptional (c : Call α) (w : World) : Option α × World :=
  match host.failure w.calls with
  | some _ => (none, w.tick)
  | none =>
    match c w.fs with
    | .error _ => (none, w.tick)
    | .ok (a, fs) => (some a, { w.tick with fs := fs })

/-- A call that touches no file, such as reading the next entry of a directory stream. -/
def attempt (w : World) : Bool × World :=
  match host.failure w.calls with
  | some code => (false, w.tick.raise (.errno (.host code)))
  | none => (true, w.tick)

/-- The same with `P101_ERROR_OPTIONAL`. -/
def attemptOptional (w : World) : Bool × World :=
  ((host.failure w.calls).isNone, w.tick)

variable {host} {c : Call α} {w w' : World} {a : α}

/-- A failed call leaves the file system and records an error. -/
theorem call_none (h : call host c w = (none, w')) :
    w'.fs = w.fs ∧ w'.hasError = true ∧ w'.launches = w.launches := by
  unfold call at h
  split at h
  · obtain ⟨-, rfl⟩ := Prod.mk.inj h
    simp [World.hasError]
  · split at h
    · obtain ⟨-, rfl⟩ := Prod.mk.inj h
      simp [World.hasError]
    · simp at h

/-- The error a failed call records is the host's or the one the file system explains. -/
theorem err_of_call_none (h : call host c w = (none, w')) :
    (∃ code, w'.err = some (.errno (.host code))) ∨
      ∃ e, c w.fs = .error e ∧ w'.err = some (.errno e) := by
  unfold call at h
  split at h
  · obtain ⟨-, rfl⟩ := Prod.mk.inj h
    exact .inl ⟨_, rfl⟩
  · split at h
    · next e heq =>
      obtain ⟨-, rfl⟩ := Prod.mk.inj h
      exact .inr ⟨e, heq, rfl⟩
    · simp at h

/-- A successful call acts on the file system and leaves the error record. -/
theorem call_some (h : call host c w = (some a, w')) :
    c w.fs = .ok (a, w'.fs) ∧ w'.err = w.err ∧ w'.launches = w.launches := by
  unfold call at h
  split at h
  · simp at h
  · split at h
    · simp at h
    · next heq =>
      simp only [Prod.mk.injEq, Option.some.injEq] at h
      obtain ⟨rfl, rfl⟩ := h
      exact ⟨heq, rfl, rfl⟩

theorem callOptional_none (h : callOptional host c w = (none, w')) :
    w'.fs = w.fs ∧ w'.err = w.err ∧ w'.launches = w.launches := by
  unfold callOptional at h
  split at h
  · obtain ⟨-, rfl⟩ := Prod.mk.inj h
    simp
  · split at h
    · obtain ⟨-, rfl⟩ := Prod.mk.inj h
      simp
    · simp at h

theorem callOptional_some (h : callOptional host c w = (some a, w')) :
    c w.fs = .ok (a, w'.fs) ∧ w'.err = w.err ∧ w'.launches = w.launches := by
  unfold callOptional at h
  split at h
  · simp at h
  · split at h
    · simp at h
    · next heq =>
      simp only [Prod.mk.injEq, Option.some.injEq] at h
      obtain ⟨rfl, rfl⟩ := h
      exact ⟨heq, rfl, rfl⟩

@[simp] theorem attempt_fs (host : Host) (w : World) : (attempt host w).2.fs = w.fs := by
  unfold attempt
  split <;> rfl

/-- A failed attempt records an error. -/
theorem hasError_of_attempt (h : attempt host w = (false, w')) : w'.hasError = true := by
  unfold attempt at h
  split at h
  · obtain ⟨-, rfl⟩ := Prod.mk.inj h
    rfl
  · simp at h

@[simp] theorem attemptOptional_fs (host : Host) (w : World) : (attemptOptional host w).2.fs = w.fs := rfl

end P101Test.Mutation
