import CoinCommit.Json.Record

/-!
# Requests

The command line reads one request: a JSON record whose fields all have
defaults, so that each operation's request names only what it needs. A request
is refused as a whole if it is no document or if any field has the wrong kind,
whether or not the operation looks at that field.

## Main definitions

* `Request`: The fields of a request.
* `Request.ofBytes?`: The request in a document.
-/

namespace CoinCommit

/-- A step of a proof as it is written: the digits of a sibling, and its side. -/
structure StepText where
  sibling : String
  siblingIsLeft : Bool
deriving DecidableEq

/-- A request. -/
structure Request where
  op : String
  txid : String
  vout : UInt32
  scriptHex : String
  amount : Int64
  leaves : List String
  leaf : String
  proof : List StepText
  root : String
  storePath : String
  heightMin : Option UInt64
  heightMax : Option UInt64
  manifestOut : String
  keystorePath : String
  destinationHex : Option String
  limit : Option UInt64
deriving DecidableEq

namespace Request

/-- The names of the fields, in their order. -/
def fieldNames : List String :=
  ["op", "txid", "vout", "script_hex", "amount", "leaves", "leaf", "proof", "root", "store_path",
    "height_min", "height_max", "manifest_out", "keystore_path", "destination_hex", "limit"]

/-- A step of a proof. -/
def stepOfJson? (value : Json) : Option StepText := do
  let fields ← Json.record? ["sibling", "sibling_is_left"] value
  let sibling ← Json.required fields "sibling" Json.text?
  let siblingIsLeft ← Json.required fields "sibling_is_left" Json.bool?
  return ⟨sibling, siblingIsLeft⟩

/-- The request that a value gives. -/
def ofJson? (value : Json) : Option Request := do
  let fields ← Json.record? fieldNames value
  let op ← Json.orElse fields "op" "" Json.text?
  let txid ← Json.orElse fields "txid" "" Json.text?
  let vout ← Json.orElse fields "vout" 0 Json.uint32?
  let scriptHex ← Json.orElse fields "script_hex" "" Json.text?
  let amount ← Json.orElse fields "amount" 0 Json.int64?
  let leaves ← Json.orElse fields "leaves" [] (Json.list? Json.text?)
  let leaf ← Json.orElse fields "leaf" "" Json.text?
  let proof ← Json.orElse fields "proof" [] (Json.list? stepOfJson?)
  let root ← Json.orElse fields "root" "" Json.text?
  let storePath ← Json.orElse fields "store_path" "" Json.text?
  let heightMin ← Json.orElse fields "height_min" none (Json.nullable? Json.uint64?)
  let heightMax ← Json.orElse fields "height_max" none (Json.nullable? Json.uint64?)
  let manifestOut ← Json.orElse fields "manifest_out" "" Json.text?
  let keystorePath ← Json.orElse fields "keystore_path" "" Json.text?
  let destinationHex ← Json.orElse fields "destination_hex" none (Json.nullable? Json.text?)
  let limit ← Json.orElse fields "limit" none (Json.nullable? Json.uint64?)
  return { op, txid, vout, scriptHex, amount, leaves, leaf, proof, root, storePath, heightMin,
           heightMax, manifestOut, keystorePath, destinationHex, limit }

/-- The request in a document. -/
def ofBytes? (document : Bytes) : Option Request := Json.parse? document >>= ofJson?

end Request

end CoinCommit
