import CharlieBot.FinalizeEffects

/-!
# The steps of a scheduled task

A scheduled task may be a list of steps. Each step is a worker of its own; when it
ends, the next is started with its result. Nothing is kept of where a chain is:
every call reads it off the threads there are, and off the task as it is configured
at that moment.
-/

/-! ## Tasks -/

structure StepConfig where
  name : String
  prompt : String
  backend : Option String := none

structure ScheduledTask where
  name : String
  steps : List StepConfig := []

structure SpawnStep where
  task : ScheduledTask
  stepIndex : ℕ
  chainRoot : Option String := none
  previousResult : Option String := none

namespace SpawnStep

variable (spawn : SpawnStep)

/-- The description of the step's thread. -/
def description : String :=
  spawn.task.name ++ " · " ++ ((spawn.task.steps[spawn.stepIndex]?).map StepConfig.name).getD ""

/-- What the step's worker is told. -/
def prompt : String :=
  let prompt := ((spawn.task.steps[spawn.stepIndex]?).map StepConfig.prompt).getD ""
  match spawn.stepIndex with
  | 0 => prompt
  | i + 1 =>
    let previousName := ((spawn.task.steps[i]?).map StepConfig.name).getD ""
    String.ofList ((prompt.toList.reverse.dropWhile Text.isSpace).reverse)
      ++ "\n\n## Result of the previous step (" ++ previousName ++ ")\n"
      ++ spawn.previousResult.getD "None"

/-- The thread of the step, before it is one of a chain. -/
def newThread (sessionId id : String) : ThreadMetadata where
  id := id
  sessionId := sessionId
  description := spawn.description
  requireReview := false

end SpawnStep

def stepExists (threads : List ThreadMetadata) (chainRoot : Option String) (stepIndex : ℕ) :
    Bool :=
  threads.any fun t => t.chainRoot = chainRoot && t.stepIndex = some stepIndex
