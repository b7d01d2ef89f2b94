import JPipe.Program
import JPipe.Raising
import JPipe.Worker

/-!
# What a failure says

`main` prints the error last raised in its thread and ends. The run raises what it
refuses before it starts the threads: an option, an operand, a part of the path of the
output directory or the queue. The one error returned without being raised is that of
the threads: there either a call on a thread has failed, which is raised, or a thread
has left an error, of which it prints a row of its own.

So the status and the row of `main` say the same, but for errors of the threads.
-/

namespace JPipe

open Printf Paths

variable {Tree : Type}

/-! ### The whole run -/

/-- What a run finds outside of the source: the file system, the ordering of
`getopt_long` and the word its errors are shown with, the error of `jp_queue_create`, and
what the calls on the threads answer. -/
structure Surroundings (Tree : Type) where
  fs : FileSystem Tree
  ordering : Getopt.Ordering
  pointed : Words → List Byte
  queueCreate : Nat → Nat → Policy → Errno
  threads : WorkerCtx → World Tree → ThreadAnswers × CancelAnswers × World Tree

/-- The surroundings as the run meets them: `orchestrate_threads` does and raises what it
does for these answers. -/
def Surroundings.environment (env : Surroundings Tree) : Environment Tree where
  fs := env.fs
  ordering := env.ordering
  pointed := env.pointed
  queueCreate := env.queueCreate
  orchestrateThreads ctx world :=
    let (answers, cancels, ended) := env.threads ctx world
    (·, ended) <$> Calls.orchestrateThreads answers cancels

/-- The call of `jp_cmd_exec` in `main`. -/
def Calls.mainCall (env : Surroundings Tree) (argv : Words) (conf : Conf) (world : World Tree) :
    Call (Option (Errno × World Tree)) :=
  match (JPipe.mainCall argv conf).1 with
  | .invoked .jpWrkExec words => jpWrkExec env.environment words world
  | .invoked .jpCmdHelp _ => pure (some (.ok, world))
  | .invoked .jpCmdVersion _ => pure (some (.ok, world))
  | .raised err =>
    match argv with
    | _ :: word :: _ => some <$> raisef commandFile 38 err (Quotation.command.shown word) world
    | _ => some <$> raise commandFile 29 err world

/-! ### Calls on the threads -/

/-- The context of a thread that has raised nothing. -/
def ErrnoCtx.clean : ErrnoCtx := jpErrnoCtxSet .ok .srcNone 0 noText 0

end JPipe
