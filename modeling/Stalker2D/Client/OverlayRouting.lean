import Stalker2D.Client.StateStack

/-!
# Which states are called

`update`, `handleNetworkResult` and `render` first scan the stack downwards, as long as a
state lets what is below it be called too, and then call every state from there up to the
top. `routed` says the same of each state by itself: it is called if all states above it
allow that. `handleEvent` calls the top state.

A call is given here together with the states it has called.
-/

namespace Stalker2D.Client

/-- The states above which everything answers yes, from bottom to top. -/
def routed (below : ApplicationState → Bool) : List ApplicationState → List ApplicationState
  | [] => []
  | state :: above => if above.all below then state :: routed below above else routed below above

section Routed

variable {below : ApplicationState → Bool}

end Routed

namespace StateManager

section Scan

variable {below : ApplicationState → Bool} {states : List ApplicationState}

end Scan

end StateManager

namespace Stack

end Stack

end Stalker2D.Client
