import Mathlib.Init

/-!
# The histogram payload of a datapoint

`datapoint.HistogramValue`, which the receiver takes in, the stores keep and the outputs write. `F`
is `float64`, or the decimals it is written with where an output's text is what is proved about.
-/

namespace SenhubAgent

/-- The classic histogram payload. -/
structure HistogramValue (F : Type := Float) where
  count : UInt64
  sum : Option F
  min : Option F
  max : Option F
  bucketCounts : List UInt64
  explicitBounds : List F

end SenhubAgent
