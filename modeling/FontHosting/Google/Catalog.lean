import FontHosting.Decimal.Shortest
import FontHosting.Table

/-!
# The catalog of font families

What is known about the families that can be downloaded.  A family that is not in
the catalog may exist all the same, so little is checked for it.
-/

namespace FontHosting.Google

/-- A property of a font that varies between two bounds. -/
structure Axis where
  tag : String
  low : Float
  high : Float

/-- The bounds of an axis, as a URL gives them. -/
def Axis.range (axis : Axis) : String :=
  String.ofList (Decimal.plainText axis.low) ++ ".." ++ String.ofList (Decimal.plainText axis.high)

/-- One font family. -/
structure Family where
  /-- Single weights, and `variable` if the weight is an axis. -/
  weights : List String
  styles : List String
  subsets : List String
  axes : List Axis

/-- The known families, by name. -/
abbrev Catalog := Table Family

end FontHosting.Google
