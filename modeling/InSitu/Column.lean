import InSitu.Projection.View
namespace InSitu

structure Column (ο : Type) where
  type : ScalarType
  buffer : Buffer ο type.Carrier

namespace Column

def name (c : Column ο) : String := c.buffer.name
def components (c : Column ο) : Nat := c.buffer.components
def mode (c : Column ο) : Mode := c.buffer.mode
def size (c : Column ο) : Nat := c.buffer.size
def isEmpty (c : Column ο) : Bool := c.size = 0

def fork (c : Column ο) : Column ο := ⟨c.type, c.buffer.fork⟩

def onSession (c : Column ο) (x : Act (Session ο c.type.Carrier) ε α) : Outcome ε α × Column ο :=
  let (outcome, reached) := x ⟨c.buffer, 0⟩
  (outcome, ⟨c.type, reached.buffer⟩)

def refresh (objects : List ο) (start stop : Nat) (c : Column ο) :
    Outcome ProjectionError Unit × Column ο :=
  c.onSession (Session.refresh objects start stop)

-- Aborted if the collection ends before the bound range.
def append (objects : List ο) (out : List Float) (c : Column ο) :
    Outcome ε (List Float) × Column ο :=
  c.onSession do
    Session.view objects
    Session.appendWidened objects out

end Column
end InSitu
