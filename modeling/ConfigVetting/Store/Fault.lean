/-! # Store faults

Why the store did not serve a request.
-/

namespace ConfigVetting

/-- What went wrong in the store. -/
inductive StoreFault where
  /-- The store could not serve the request. -/
  | unavailable (reason : String)
  /-- No subscription could be made. -/
  | subscription (reason : String)
  /-- Stored data has an unexpected shape. -/
  | malformed (reason : String)
  /-- The state of the store was left unusable by a holder that stopped half-way. -/
  | poisoned (reason : String)
  deriving DecidableEq, Repr

namespace StoreFault

/-- The code of a fault. -/
def code : StoreFault → String
  | unavailable _ => "CVL_STORE_UNAVAILABLE"
  | subscription _ => "CVL_STORE_SUBSCRIPTION"
  | malformed _ => "CVL_STORE_MALFORMED"
  | poisoned _ => "CVL_STORE_POISONED"

/-- The wording of a fault. -/
def message : StoreFault → String
  | unavailable reason => s!"Store unavailable: {reason}"
  | subscription reason => s!"Subscription failed: {reason}"
  | malformed reason => s!"Malformed store data: {reason}"
  | poisoned reason => s!"Store lock poisoned: {reason}"

end StoreFault

end ConfigVetting
