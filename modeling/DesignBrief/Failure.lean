/-!
Why no brief can be made, as it is told to the caller.
-/

namespace DesignBrief

inductive Failure where
  /-- The response lacks what has to be walked. -/
  | structural (detail : String)
  /-- Something cannot be read or written as JSON. -/
  | serialization (detail : String)
  /-- Any other failure, in its own words. -/
  | other (text : String)
deriving DecidableEq

def Failure.message : Failure → String
  | .structural detail => "structure error: " ++ detail
  | .serialization detail => "serialization error: " ++ detail
  | .other text => text

end DesignBrief
