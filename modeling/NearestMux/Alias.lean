import NearestMux.Netlist.Module

/-!
# Aliases — the name to show for a wire

A wire that a tool made up is often tied to one that a person named. Where the name of a wire is to
be shown, the first direct connection decides that has the wire whole on one side and a public wire
whole on the other: that other wire lends its name. Without such a connection the wire keeps its
own.

Whichever side the wire is on does not matter, and a connection of a public wire with itself counts.
-/

namespace NearestMux

namespace Connection

/-- The name that a side lends: that of a public wire, when the side is all of it. -/
def publicName? (side : Signal) : Option String :=
  (side.wholeWire?.map (·.name)).filter Identifier.isPublic

/-- The name that a connection lends to a wire. -/
def alias? (c : Connection) (wire : String) : Option String :=
  if c.source.isWhole wire then publicName? c.target
  else if c.target.isWhole wire then publicName? c.source
  else none

end Connection

/-- The name to show for a wire of a module. -/
def Module.shownName (m : Module) (wire : String) : String :=
  (m.connections.findSome? fun c => c.alias? wire).getD wire

end NearestMux
