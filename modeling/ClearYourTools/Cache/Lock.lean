import Mathlib.Data.Nat.Notation
import Mathlib.Logic.Function.Basic
import ClearYourTools.Misc.Runs

/-!
# The build lock

`cache/lock.rs`: processes that take turns through a lock file. What a process does to the file
system are single steps, between which the others take theirs; the time passes between steps.
-/

namespace ClearYourTools.Cache

open Misc

/-- `STALE_SECONDS`, in milliseconds. -/
def staleMs : ℕ := 600 * 1000

/-- How long `acquire` tries, in milliseconds. -/
def waitMs : ℕ := 5 * 1000

/-- Where a process is in `BuildLock`. -/
inductive Phase
  /-- Not in `acquire`, or out of it with an error. -/
  | idle
  /-- Before `create_new`. -/
  | trying (deadline : ℕ)
  /-- Before `lock_stale`, after a `create_new` that found the file. -/
  | checking (deadline : ℕ)
  /-- Before `remove_file`, after a `lock_stale` that said so. -/
  | removing (deadline : ℕ)
  | sleeping (deadline : ℕ)
  /-- Between `acquire` and the drop, with the time at which the file was created. -/
  | holding (since : ℕ)
deriving DecidableEq

/-- The lock file, by its modification time, and the processes. -/
structure LockState (P : Type) where
  now : ℕ
  file : Option ℕ
  phase : P → Phase

/-- `lock_stale`. A time that is not over yet makes the lock stale, as a missing file does. -/
def lockStale (now : ℕ) (file : Option ℕ) : Bool :=
  match file with
  | none => true
  | some modified => if now < modified then true else now - modified > staleMs

/-- The single steps of the processes. -/
inductive LockAction (P : Type)
  | start (p : P)
  | createNew (p : P)
  | metadata (p : P)
  | removeFile (p : P)
  | wake (p : P)
  | drop (p : P)
  | tick (ms : ℕ)
deriving DecidableEq

namespace LockState

variable {P : Type} [DecidableEq P]

def enter (s : LockState P) (p : P) (phase : Phase) : LockState P :=
  { s with phase := Function.update s.phase p phase }

/-- One step of `BuildLock`. -/
def step (s : LockState P) : LockAction P → Option (LockState P)
  | .start p =>
    match s.phase p with
    | .idle => some (s.enter p (.trying (s.now + waitMs)))
    | _ => none
  | .createNew p =>
    match s.phase p with
    | .trying deadline =>
      match s.file with
      | none => some ({ s with file := some s.now }.enter p (.holding s.now))
      | some _ => some (s.enter p (if s.now < deadline then .checking deadline else .idle))
    | _ => none
  | .metadata p =>
    match s.phase p with
    | .checking deadline =>
      some (s.enter p (if lockStale s.now s.file then .removing deadline else .sleeping deadline))
    | _ => none
  | .removeFile p =>
    match s.phase p with
    | .removing deadline => some ({ s with file := none }.enter p (.sleeping deadline))
    | _ => none
  | .wake p =>
    match s.phase p with
    | .sleeping deadline => some (s.enter p (.trying deadline))
    | _ => none
  | .drop p =>
    match s.phase p with
    | .holding _ => some ({ s with file := none }.enter p .idle)
    | _ => none
  | .tick ms => some { s with now := s.now + ms }

end LockState

end ClearYourTools.Cache
