import CoinCommit.Bytes.Hex
import CoinCommit.Disk.Save
import CoinCommit.Json.Printer
import CoinCommit.Json.Record
import CoinCommit.Wallet.KeyRing

/-!
# Key Files

A key ring is kept in a JSON file that names its version and lists the secrets
as hexadecimal texts, in the order of the ring. A file may list them in any
order and repeat them; the first entry that is not a secret is reported by its
number.

## Main definitions

* `KeyRing.toText`, `KeyRing.ofBytes`: The text of a ring, and the ring of a
  file's bytes.
* `KeyFileError`: Why a file is not the file of a key ring.
* `KeyRing.load`, `KeyRing.save`: The same with a file on a disk.
-/

namespace CoinCommit

/-- Why a file gives no key ring. -/
inductive KeyFileError where
  | unreadable
  | notJson
  | badVersion (version : String)
  | badSecret (i : Nat) (e : Hex32Error)
deriving DecidableEq

/-- The text of the error. -/
def KeyFileError.message : KeyFileError → String
  | .unreadable => "read keystore"
  | .notJson => "keystore json"
  | .badVersion version => "unsupported keystore version: " ++ Quoted.text version
  | .badSecret i e => e.message ("keys[" ++ Nat.repr i ++ "].sk_hex")

namespace KeyRing

variable {scheme : SignatureScheme}

/-- The version of the files that are written, and the only one that is read. -/
def fileVersion : String := "UTXKSv1"

/-- A ring as a document. -/
def toJson (ring : KeyRing scheme) : Json :=
  .fields [("version", .text fileVersion),
    ("keys", .array (ring.pairs.map fun p =>
      .fields [("sk_hex", .text (Hex.encode p.secret.bytes))]))]

/-- The text of a ring's file, with a line end after it. -/
def toText (ring : KeyRing scheme) : String := Json.print Json.indented ring.toJson ++ "\n"

/-- The text of the secret in an entry of a file. -/
def entryOfJson? (value : Json) : Option String := do
  let fields ← Json.record? ["sk_hex"] value
  Json.required fields "sk_hex" Json.text?

/-- The version and the texts of the secrets in a document. -/
def textsOfJson? (value : Json) : Option (String × List String) := do
  let fields ← Json.record? ["version", "keys"] value
  let version ← Json.required fields "version" Json.text?
  let keys ← Json.required fields "keys" (Json.list? entryOfJson?)
  return (version, keys)

/-- The secret with these digits in entry `i`. -/
def secretOfText (text : String) (i : Nat) : Except KeyFileError Bytes32 :=
  (Hex.decode32 text).mapError (.badSecret i)

/-- The ring of a file's bytes. -/
def ofBytes (content : Bytes) : Except KeyFileError (KeyRing scheme) :=
  match Utf8.decode? content with
  | none => .error .unreadable
  | some _ =>
      match Json.parse? content >>= textsOfJson? with
      | none => .error .notJson
      | some (version, texts) =>
          if version ≠ fileVersion then .error (.badVersion version)
          else do
            let secrets ← texts.zipIdx.mapM fun entry => secretOfText entry.1 entry.2
            return ofSecrets secrets

/-- The ring in the file at a path. -/
def load (d : Disk) (path : String) : Except KeyFileError (KeyRing scheme) :=
  match d.read? (PathText.parse path) with
  | none => .error .unreadable
  | some content => ofBytes content

/-- The disk after a ring is saved at a path. -/
def save (ring : KeyRing scheme) (d : Disk) (path tag : String) :
    Disk × Except SecretSaveError Unit :=
  d.saveSecret path tag (Utf8.encode ring.toText)

end KeyRing

end CoinCommit
