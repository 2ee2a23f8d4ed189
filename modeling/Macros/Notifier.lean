import Macros.Settings

/-!
Where messages go. The level of a message chooses one of the two channels in the settings, and
the sink under that channel's name receives it; a name may be written in any case.
-/

namespace Macros

/-- The levels that the program itself reports at. -/
inductive Level
  | info
  | success
  | warning
  | error
deriving DecidableEq

def Level.label : Level → String
  | info => "INFO"
  | success => "SUCCESS"
  | warning => "WARNING"
  | error => "ERROR"

/-- Sinks by channel; `fallback` receives what no channel does. -/
structure Notifier (σ : Type) where
  sinks : Table σ
  fallback : Option σ

namespace Notifier

variable {σ : Type}

def addSink (n : Notifier σ) (channel : String) (sink : σ) : Notifier σ :=
  { n with sinks := n.sinks.put (Text.lower channel) sink }

def create (sinks : List (String × σ)) (fallback : Option σ) : Notifier σ :=
  sinks.foldl (fun n s => n.addSink s.1 s.2) ⟨[], fallback⟩

def channelFor (s : Settings) (level : String) : String :=
  let l := Text.upper level
  if l = "WARNING" || l = "ERROR" then Text.lower s.errorChannel else Text.lower s.normalChannel

/-- The sink that a message of this level goes to. -/
def sinkFor? (n : Notifier σ) (s : Settings) (level : String) : Option σ :=
  (n.sinks.get? (channelFor s level)).or n.fallback

/-- The sink that receives a message, and the level that it is told. -/
def delivery? (n : Notifier σ) (s : Settings) (level : String) : Option (σ × String) :=
  (n.sinkFor? s level).map fun sink => (sink, Text.upper level)

end Notifier

end Macros
