/-!
# Faults

The failures that leave this library: each has a code, which says where it
arose and which a program may match on, and a text for people. `Fault.display`
is the one line in which both are shown.

## Main definitions

* `FaultCode`: Where a failure arose.
* `Fault`: A code and a text.
* `Fault.display`: The code, and the text after it unless it is empty.
-/

namespace CoinCommit

/-- Where a failure arose: in the chain state, in bytes that were read, in the bounds of a window
    of heights, or in the listing of a wallet's outputs. -/
inductive FaultCode where
  | store
  | parse
  | window
  | wallet
deriving DecidableEq, Repr

/-- The fixed text of a code. -/
def FaultCode.name : FaultCode → String
  | .store => "SNAPSHOT_ERR_STORE"
  | .parse => "SNAPSHOT_ERR_PARSE"
  | .window => "SNAPSHOT_ERR_WINDOW"
  | .wallet => "CLAIM_ERR_WALLET"

/-- A failure: its code and a text. -/
structure Fault where
  code : FaultCode
  text : String
deriving DecidableEq, Repr

/-- The code, followed by the text unless that is empty. -/
def Fault.display (f : Fault) : String :=
  if f.text.isEmpty then f.code.name else f.code.name ++ ": " ++ f.text

end CoinCommit
