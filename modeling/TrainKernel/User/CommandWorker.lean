import TrainKernel.User.Engineer

/-!
# The command worker

The command worker asks the engineer for a command, carries it out and reports what it has told
the train. Between two reports it waits, and the engineer handles other messages.
-/

namespace TrainKernel.User

variable {Node : Type}

/-- A reversal stops the train, turns it and sets it back to the speed of the command. -/
def executeCommand (command : Command) : List EngineerMessage :=
  match command.type with
  | .setSpeed => [.commandWorkerSpeedSet command.trainSpeed]
  | .reverse =>
    [.commandWorkerSpeedSet 0, .commandWorkerReverseSet, .commandWorkerSpeedSet command.trainSpeed]

/-- The worker: the messages that it sends next. With none left it waits for a command. -/
structure CommandWorker where
  tid : Nat
  next : List EngineerMessage

def commandWorker (tid : Nat) : CommandWorker := ⟨tid, [.commandWorkerRequest]⟩

def EngineerMessage.isReport : EngineerMessage → Bool
  | .commandWorkerRequest | .commandWorkerSpeedSet _ | .commandWorkerReverseSet => true
  | _ => false

namespace CommandWorker

def allows (worker : CommandWorker) (round : EngineerRound Node) : Bool :=
  if round.message.isReport then
    round.tid = worker.tid ∧ worker.next.head? = some round.message
  else round.tid ≠ worker.tid

def receive (worker : CommandWorker) : EngineerOutput Node → CommandWorker
  | .command tid command =>
    if tid = worker.tid then
      { worker with next := executeCommand command ++ [.commandWorkerRequest] }
    else worker
  | _ => worker

def after (worker : CommandWorker) (round : EngineerRound Node) (t : EngineerTurn Node) :
    CommandWorker :=
  let worker :=
    if round.message.isReport then { worker with next := worker.next.tail } else worker
  t.sent.foldl receive worker

end CommandWorker

variable (world : EngineerWorld Node) [DecidableEq Node]

/-- The rounds are consistent with what the worker does. -/
def followsWorker : CommandWorker → Engineer Node → List (EngineerRound Node) → Bool
  | _, _, [] => true
  | worker, e, round :: rounds =>
    worker.allows round && match engineerRound world e round with
      | .ok t => followsWorker (worker.after round t) t.engineer rounds
      | .error _ => true

end TrainKernel.User
