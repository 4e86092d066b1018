/-! # Options of a conversion -/

namespace Codebox

/-- The name of the main function when nothing else is said. -/
def defaultMain : String := "main"

/-- What a caller may choose. -/
structure Options where
  /-- Refuse default values that are no literals. -/
  strictDefaults : Bool := false
  /-- The function that patch mode turns into the patch body. -/
  mainName : String := defaultMain
  deriving DecidableEq, Repr

end Codebox
