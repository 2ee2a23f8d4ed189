import Macros.Value

/-! The numbers that bound a run: how long a wait may last and how deep macros may nest. -/

namespace Macros.Limits

/-- A wait looks for a stop after this many seconds. -/
def sleepChunk : Binary64 := .ofDecimal false 5 (-2)

/-- How long an action waits for its confirmation, in seconds. -/
def defaultWaitBudget : Binary64 := .ofInt 10

/-- How long a line looks for an addon or a status, in seconds. -/
def defaultMaxWait : Binary64 := .ofInt 5

/-- The retry setting is cut off here. -/
def maxTimeoutRetries : Int := 10

/-- The most macros that may be in progress at once. -/
def maxFrameDepth : Nat := 16

/-- The cursor of a frame that a script drives. -/
def embeddedStep : Int := -1

/-- The time between two ticks of a run in milliseconds, about one frame of a game. -/
def tickInterval : Int := 16

/-- Every limit, under the name that it is shown by. -/
def table : Table Value := [
  ("SLEEP_CHUNK_S", .number sleepChunk),
  ("DEFAULT_WAIT_BUDGET_S", .number defaultWaitBudget),
  ("DEFAULT_MAXWAIT_S", .number defaultMaxWait),
  ("MAX_TIMEOUT_RETRIES", .int maxTimeoutRetries),
  ("MAX_FRAME_DEPTH", .int maxFrameDepth),
  ("STEP_EMBEDDED", .int embeddedStep),
  ("TICK_INTERVAL_MS", .int tickInterval)]

end Macros.Limits
