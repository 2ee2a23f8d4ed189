/-!
How a line can fail, and what running one comes to.
-/

namespace Macros

inductive FailureKind
  | targetNotFound
  | itemNotFound
  | itemNotUsable
  | addonNotFound
  | addonNotVisible
  | actionTimeout
  | conditionNotMet
  | macroNotFound
  | unsupported
deriving DecidableEq

namespace FailureKind

def text : FailureKind → String
  | targetNotFound => "target not found"
  | itemNotFound => "item not found"
  | itemNotUsable => "item not usable"
  | addonNotFound => "addon not found"
  | addonNotVisible => "addon not visible"
  | actionTimeout => "action timeout"
  | conditionNotMet => "condition not met"
  | macroNotFound => "macro not found"
  | unsupported => "not supported by this environment"

/-- The short name of a kind. -/
def code : FailureKind → String
  | targetNotFound => "TARGET_NOT_FOUND"
  | itemNotFound => "ITEM_NOT_FOUND"
  | itemNotUsable => "ITEM_NOT_USABLE"
  | addonNotFound => "ADDON_NOT_FOUND"
  | addonNotVisible => "ADDON_NOT_VISIBLE"
  | actionTimeout => "ACTION_TIMEOUT"
  | conditionNotMet => "CONDITION_NOT_MET"
  | macroNotFound => "MACRO_NOT_FOUND"
  | unsupported => "UNSUPPORTED"

/-- Every kind, in the order of the settings that concern them. -/
def all : List FailureKind :=
  [targetNotFound, itemNotFound, itemNotUsable, addonNotFound, addonNotVisible, actionTimeout,
    conditionNotMet, macroNotFound, unsupported]

end FailureKind

inductive OutcomeStatus
  | completed
  | failed
  | timedOut
  | skipped
deriving DecidableEq

def OutcomeStatus.label : OutcomeStatus → String
  | completed => "COMPLETED"
  | failed => "FAILED"
  | timedOut => "TIMED_OUT"
  | skipped => "SKIPPED"

/-- What running a line came to. -/
structure Outcome where
  status : OutcomeStatus
  failure : Option FailureKind
  reason : String
deriving DecidableEq

namespace Outcome

def completed : Outcome := ⟨.completed, none, ""⟩

def skipped (reason : String) : Outcome := ⟨.skipped, none, reason⟩

/-- A failure says its kind when it has no reason of its own. -/
def failed (kind : FailureKind) (reason : String) : Outcome :=
  ⟨.failed, some kind, if reason.isEmpty then kind.text else reason⟩

def timedOut (reason : String) : Outcome :=
  ⟨.timedOut, some .actionTimeout, if reason.isEmpty then "no response in time" else reason⟩

def ok (o : Outcome) : Bool := o.status == .completed || o.status == .skipped

end Outcome

end Macros
