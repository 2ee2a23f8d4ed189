import Macros.Text.Quoted

/-! Why an argument or the value of a tag is refused. -/

namespace Macros

inductive GrammarError
  | nameMissing
  | durationMissing
  | notDuration (text : String)
  | badRange (text : String)
  | notCount (text : String)
  | negativeCount (count : Int)
  | notOneKey (text : String)
  | valueGiven (value : String)
  | waitMissing
  | notSeconds (value : Option String)
  | notPositive
  | notConditions (value : Option String)
  | notIndex (value : Option String)
  | indexBelowOne
deriving DecidableEq

namespace GrammarError

/-- The value of a tag, quoted; a tag may have none. -/
def shown : Option String → String
  | some s => Text.quoted s
  | none => "None"

def message : GrammarError → String
  | nameMissing => "a name is required"
  | durationMissing => "a duration is required"
  | notDuration s => "not a duration: " ++ Text.quoted s
  | badRange s => "invalid duration range: " ++ Text.quoted s
  | notCount s => "not a loop count: " ++ Text.quoted s
  | negativeCount n => "loop count must not be negative: " ++ toString n
  | notOneKey s => "expected a single key or key combo, got " ++ Text.quoted s
  | valueGiven s => "takes no value, got " ++ Text.quoted s
  | waitMissing => "requires a duration"
  | notSeconds v => "not a number of seconds: " ++ shown v
  | notPositive => "must be greater than zero"
  | notConditions v => "expected a comma separated list of conditions, got " ++ shown v
  | notIndex v => "not an index: " ++ shown v
  | indexBelowOne => "index starts at 1"

end GrammarError

end Macros
