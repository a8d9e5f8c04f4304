/-!
# Wires — named bundles of bits

A wire is a name and a number of bits. Two wires may bear the same name and still be different
wires: one in each of two modules, or one that is declared nowhere. `Origin` tells them apart. It
matters at one place only, where neighbouring slices of a signal are joined: slices of different
wires stay apart. Everywhere else a wire is known by its name.
-/

namespace NearestMux

/-- Where a wire comes from. -/
inductive Wire.Origin where
  /-- It is declared in the module of this name. -/
  | declared (module : String)
  /-- It is declared nowhere; the serial number tells it from the others. -/
  | detached (serial : Nat)
deriving DecidableEq

/-- A named bundle of bits. -/
structure Wire where
  /-- The name. -/
  name : String
  /-- The number of bits. -/
  width : Nat
  /-- Where it comes from. -/
  origin : Wire.Origin
deriving DecidableEq

end NearestMux
