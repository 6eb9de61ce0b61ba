import CoinCommit.Claim.Spend

/-!
# Claims

Each output of a list is claimed on its own: if it holds anything and a signer
authorises its spend, it becomes a claim, and otherwise it is skipped with the
reason. No output keeps another from being claimed. The signer is any function
from spends to authorisations.

## Main definitions

* `SignError`: Why a signer does not authorise a spend.
* `Signer`: A function from spends to authorisations.
* `Claim`, `Skipped`: What becomes of an output.
* `ClaimBatch.ofUtxos`: The claims and skipped outputs of a list.

## Theorems

* `ClaimBatch.ofUtxos_append`: The batch of two lists in a row.
-/

namespace CoinCommit

/-- Why a signer does not authorise a spend: it lacks the key for the script, it does not know
    scripts of this kind, or its own work failed. -/
inductive SignError where
  | keyUnavailable
  | unsupportedScript
  | failed (text : String)
deriving DecidableEq

/-- The text of the error. -/
def SignError.message : SignError → String
  | .keyUnavailable => "private key not held for locking script"
  | .unsupportedScript => "unsupported locking script"
  | .failed text => "signing failed: " ++ text

/-- The authorisation of a spend, or why there is none. -/
abbrev Signer := Spend → Except SignError Bytes

/-- An output with the authorisation of its spend. -/
structure Claim where
  txid : Bytes32
  vout : UInt32
  script : Bytes
  amount : Int64
  leaf : Bytes32
  authorization : Bytes
deriving DecidableEq

/-- Where the claimed output stands. -/
def Claim.outpoint (c : Claim) : Outpoint := ⟨c.txid, c.vout⟩

/-- Why an output is not claimed. -/
inductive SkipReason where
  | notSpendable
  | notSigned (e : SignError)
deriving DecidableEq

/-- The text of the reason. -/
def SkipReason.message : SkipReason → String
  | .notSpendable => "not spendable"
  | .notSigned e => e.message

/-- An output that is not claimed. -/
structure Skipped where
  outpoint : Outpoint
  reason : SkipReason
deriving DecidableEq

/-- The claims and the skipped outputs of a list, each in the order of the list. -/
structure ClaimBatch where
  claims : List Claim
  skipped : List Skipped
deriving DecidableEq

namespace ClaimBatch

/-- What becomes of an output. -/
def attempt (signer : Signer) (destination : Bytes) (u : Utxo) : Except Skipped Claim :=
  if u.isSpendable then
    let spend := Spend.ofUtxo u destination
    match signer spend with
    | .ok authorization => .ok ⟨u.txid, u.vout, u.script, u.amount, spend.leaf, authorization⟩
    | .error e => .error ⟨u.outpoint, .notSigned e⟩
  else .error ⟨u.outpoint, .notSpendable⟩

/-- One more attempt in front of a batch. -/
def cons (outcome : Except Skipped Claim) (b : ClaimBatch) : ClaimBatch :=
  match outcome with
  | .ok claim => { b with claims := claim :: b.claims }
  | .error skipped => { b with skipped := skipped :: b.skipped }

/-- The batch of a list of outputs. -/
def ofUtxos (signer : Signer) (destination : Bytes) (utxos : List Utxo) : ClaimBatch :=
  utxos.foldr (fun u b => cons (attempt signer destination u) b) ⟨[], []⟩

/-- Lists one after the other give their batches one after the other. -/
theorem ofUtxos_append (signer : Signer) (destination : Bytes) (xs ys : List Utxo) :
    ofUtxos signer destination (xs ++ ys) =
      ⟨(ofUtxos signer destination xs).claims ++ (ofUtxos signer destination ys).claims,
        (ofUtxos signer destination xs).skipped ++ (ofUtxos signer destination ys).skipped⟩ := by
  induction xs with
  | nil => rfl
  | cons u xs ih =>
      have hcons : ∀ us, ofUtxos signer destination (u :: us) =
          cons (attempt signer destination u) (ofUtxos signer destination us) := fun _ => rfl
      rw [List.cons_append, hcons, hcons, ih]
      cases attempt signer destination u <;> rfl

/-- The destination of claims for which none is named: a single byte that no one can spend. -/
def defaultDestination : Bytes := [0x6a]

end ClaimBatch

end CoinCommit
