/-!
# Handles, tokens and messages of the bus

What the library holds of luna-service2: pointers and numbers it passes on, and what
it asks of a message.
-/

namespace LSHelpers

/-- A `LSHandle*` that is not null. -/
abbrev LSHandle := Nat

abbrev LSMessageToken := Nat

def LSMESSAGE_TOKEN_INVALID : LSMessageToken := 0

structure Message where
  uniqueToken : String
  sender : String
  connection : LSHandle
deriving Repr, DecidableEq

end LSHelpers
