import Macros.Input.Keyboard
import Macros.Table

/-!
The scene of a rehearsal: what the game client would find. A client that acts on a scene can lose
its session for a number of calls, and break down at chosen requests.
-/

namespace Macros

structure Scene where
  ready : Bool
  /-- How many calls still find no session. -/
  unavailable : Int
  /-- Actions that are never confirmed. -/
  unconfirmed : List Value
  targets : List Value
  clickable : List Value
  statuses : List Value
  /-- Items, and whether they can be used. -/
  items : Table Bool
  /-- Addons, and whether they can be seen. -/
  addons : Table Bool
  condition : Value
  /-- Faults by the request that they come with. -/
  crashes : Table Fault

inductive SceneChange
  | ready (b : Bool)
  | unavailable (n : Int)
  | unconfirmed (names : List Value)
  | targets (names : List Value)
  | clickable (names : List Value)
  | statuses (names : List Value)
  | items (t : Table Bool)
  | addons (t : Table Bool)
  | condition (name : Value)
  | crashes (t : Table Fault)

namespace Scene

/-- Nothing is there. -/
def empty : Scene := ⟨true, 0, [], [], [], [], [], [], .text "normal", []⟩

def change (s : Scene) : SceneChange → Scene
  | .ready b => { s with ready := b }
  | .unavailable n => { s with unavailable := n }
  | .unconfirmed names => { s with unconfirmed := names }
  | .targets names => { s with targets := names }
  | .clickable names => { s with clickable := names }
  | .statuses names => { s with statuses := names }
  | .items t => { s with items := t }
  | .addons t => { s with addons := t }
  | .condition name => { s with condition := name }
  | .crashes t => { s with crashes := t }

def changeAll (s : Scene) (cs : List SceneChange) : Scene := cs.foldl change s

/-- What the scene has to say to a request. -/
def holds (s : Scene) : Request → Except Misfit Bool
  | .action _ | .useItem _ | .send _ | .hold _ | .release _ => .ok true
  | .actionConfirmed name => .ok (!name.isIn s.unconfirmed)
  | .target name _ => .ok (name.isIn s.targets)
  | .hasItem name => (name.find s.items).map (·.isSome)
  | .canUseItem name => (name.find s.items).map (·.getD false)
  | .addonExists name => (name.find s.addons).map (·.isSome)
  | .addonVisible name => (name.find s.addons).map (·.getD false)
  | .click name => .ok (name.isIn s.clickable)
  | .hasStatus name => .ok (name.isIn s.statuses)

end Scene

namespace Request

/-- Is this a call that acts on the game, and not only a question? -/
def isCall : Request → Bool
  | action _ | target _ _ | useItem _ | click _ | send _ | hold _ | release _ => true
  | _ => false

/-- The name that a call is written down under, and that a breakdown at a request goes by; some
requests never break down. -/
def word? : Request → Option String
  | action _ => some "action"
  | target _ _ => some "target"
  | useItem _ => some "item"
  | click _ => some "click"
  | send _ => some "send"
  | hold _ => some "hold"
  | release _ => some "release"
  | actionConfirmed _ => some "action_confirmed"
  | hasItem _ => some "has_item"
  | addonExists _ => some "addon_exists"
  | hasStatus _ => some "has_status"
  | canUseItem _ | addonVisible _ => none

/-- What the request is about. -/
def subjects : Request → List Value
  | target name index => [name, index]
  | action name | useItem name | click name | send name | hold name | release name
  | actionConfirmed name | hasItem name | addonExists name | hasStatus name
  | canUseItem name | addonVisible name => [name]

end Request

end Macros
