import CoinCommit.Proofs.Disk.Files
import CoinCommit.Proofs.Json.RoundTrip
import CoinCommit.Proofs.Wallet.Ownership

/-!
# Key Rings That Are Read Back

A ring is written as the list of its secrets, without their keys. Whoever reads
the list derives each key anew and puts the pair in its place, so it has to be
shown that the ring comes about again. It does, because the secrets are written
in the order of their keys: each key that is derived comes after all before it,
and its pair is put at the end.

A file from elsewhere may list secrets in any order, repeat them, write their
digits in either case and say more than it need. All of this is gone once it is
loaded. So a ring has one file, the one that it is saved as, and to load that
and save it again changes nothing.

## Main definitions

* `KeyRing.secrets`: The secrets of a ring, in the order of their keys.
* `KeyRing.KeptAt`: A file that keeps a ring.

## Theorems

* `KeyRing.ofSecrets_secrets`: A ring comes about again from its secrets.
* `KeyRing.lists_toText`, `KeyRing.ofBytes_toText`: The text of a ring is a file
  of its secrets, and is read as the ring.
* `KeyRing.keptAt_of_save`: A ring that is saved is kept.
* `KeyRing.kept_in_files`: Saving and loading, of rings and of files from
  elsewhere.
-/

namespace CoinCommit

namespace KeyRing

variable {scheme : SignatureScheme} {ring : KeyRing scheme} {d d' : Disk} {path tag : String}

/-- The secrets of a ring, in the order of their keys. -/
def secrets (ring : KeyRing scheme) : List Bytes32 := ring.pairs.map KeyPair.secret

/-- The file at a path has the text of the ring. It lists the secrets of the ring, each once and in
    the order of their keys, and is loaded as the ring. -/
structure KeptAt (ring : KeyRing scheme) (d : Disk) (path : String) : Prop where
  text : d.read? (PathText.parse path) = some (Utf8.encode ring.toText)
  listed : secretsIn d path = ring.secrets
  loaded : load d path = .ok ring

/-! ## From Secrets to the Ring -/

/-- Pairs that a ring could hold come about again from their secrets. -/
theorem pairs_ofSecrets {pairs : List KeyPair} (hsorted : Ascending KeyPair.key pairs)
    (hderived : ∀ p ∈ pairs, p.key = scheme.publicKey p.secret) :
    (ofSecrets (pairs.map KeyPair.secret) : KeyRing scheme).pairs = pairs := by
  -- From the end, as the last secret is put into the ring of those before it.
  induction pairs using List.reverseRecOn with
  | nil => rfl
  | append_singleton pairs p ih =>
      -- The last pair has the largest key, so it is put in behind the others.
      rcases List.pairwise_append.mp hsorted with ⟨hbefore, _, hlast⟩
      have hring := ih hbefore fun q hq => hderived q (List.mem_append_left _ hq)
      have hp : (⟨scheme.publicKey p.secret, p.secret⟩ : KeyPair) = p := by
        rw [← hderived p (List.mem_append_right _ (List.mem_singleton.mpr rfl))]
      rw [List.map_append, List.map_singleton, ofSecrets_concat, insert]
      simp only [hring, hp]
      exact insertByKey_eq_append fun q hq => hlast q hq p (List.mem_singleton.mpr rfl)

/-- A ring comes about again from its secrets. -/
theorem ofSecrets_secrets (ring : KeyRing scheme) : ofSecrets ring.secrets = ring := by
  have hpairs : (ofSecrets ring.secrets : KeyRing scheme).pairs = ring.pairs :=
    pairs_ofSecrets ring.sorted ring.derived
  -- The rest of a ring is proofs about its pairs.
  rcases hring : (ofSecrets ring.secrets : KeyRing scheme) with ⟨pairs, hsorted, hderived⟩
  rw [hring] at hpairs
  cases hpairs
  rfl

/-! ## From the Ring to Its File -/

/-- The entry of a secret in a file. -/
def entryJson (secret : Bytes32) : Json := .fields [("sk_hex", .text (Hex.encode secret.bytes))]

theorem toJson_eq (ring : KeyRing scheme) :
    ring.toJson =
      .fields [("version", .text fileVersion), ("keys", .array (ring.secrets.map entryJson))] := by
  rw [toJson, secrets, List.map_map]
  rfl

/-- The document of a ring has nothing that would not be written as it is. -/
theorem written_toJson (ring : KeyRing scheme) : ring.toJson.written = ring.toJson := by
  have hentries : (Json.array (ring.secrets.map entryJson)).written =
      .array (ring.secrets.map entryJson) := Json.written_array_map fun _ _ => rfl
  rw [toJson_eq]
  exact congrArg (fun keys => Json.fields [("version", .text fileVersion), ("keys", keys)]) hentries

/-- Each entry in the document of a ring is read as the digits that were written in it. -/
theorem textsOfJson?_toJson (ring : KeyRing scheme) :
    textsOfJson? ring.toJson =
      some (fileVersion, ring.secrets.map fun secret => Hex.encode secret.bytes) := by
  have hentries : Json.list? entryOfJson? (.array (ring.secrets.map entryJson)) =
      some (ring.secrets.map fun secret => Hex.encode secret.bytes) :=
    Json.list?_map fun _ _ => rfl
  rw [toJson_eq]
  change (Json.list? entryOfJson? (.array (ring.secrets.map entryJson)) >>= fun keys =>
    some (fileVersion, keys)) = _
  rw [hentries]
  rfl

/-- The text of a ring is a file of its secrets. -/
theorem lists_toText (ring : KeyRing scheme) : Lists (Utf8.encode ring.toText) ring.secrets := by
  -- The text ends in a line break, which is a blank.
  have hblank : ∀ c ∈ "\n".toList, c = '\n' ∨ c = ' ' :=
    fun _ hc => Or.inl (List.mem_singleton.mp hc)
  have hdocument : Json.parse? (Utf8.encode ring.toText) = some ring.toJson := by
    rw [toText, Json.parse?_print_append Json.isBlank_indented _ hblank, written_toJson]
  refine ⟨ring.toText, ring.secrets.map fun secret => Hex.encode secret.bytes,
    Utf8.decode?_encode _, ?_, ?_⟩
  · rw [hdocument]
    exact textsOfJson?_toJson ring
  · exact List.forall₂_map_left_iff.mpr
      (List.forall₂_same.mpr fun secret _ => Hex.decode32_encode secret)

/-- The text of a ring is read as the ring. -/
theorem ofBytes_toText (ring : KeyRing scheme) : ofBytes (Utf8.encode ring.toText) = .ok ring :=
  ofBytes_eq_ok_iff.mpr ⟨ring.secrets, ring.lists_toText, ring.ofSecrets_secrets.symm⟩

/-- A ring that is saved is kept. -/
theorem keptAt_of_save (h : ring.save d path tag = (d', .ok ())) : ring.KeptAt d' path := by
  -- What was saved is found under the path, and read as the ring.
  have hread : d'.read? (PathText.parse path) = some (Utf8.encode ring.toText) :=
    Disk.read?_of_saveSecret h
  refine ⟨hread, secretsIn_of_lists hread ring.lists_toText, ?_⟩
  rw [load, hread]
  exact ring.ofBytes_toText

/-- A ring that is saved is loaded from its path as the same ring, with each secret under its key.
    A file that is loaded may list secrets in any order and repeat them; the ring has the last one
    under each key. It is loaded again after it is saved, and what is then loaded is saved with the
    same bytes. -/
theorem kept_in_files (scheme : SignatureScheme) :
    (∀ (ring : KeyRing scheme) (d d' : Disk) (path tag : String),
      ring.save d path tag = (d', .ok ()) → ring.KeptAt d' path) ∧
    ∀ (ring : KeyRing scheme) (d : Disk) (path : String), load d path = .ok ring →
      (∀ key, ring.secret? key =
        (secretsIn d path).reverse.find? fun secret => scheme.publicKey secret = key) ∧
      ∀ (d₁ d₁' : Disk) (path₁ tag₁ : String), ring.save d₁ path₁ tag₁ = (d₁', .ok ()) →
        load d₁' path₁ = .ok ring ∧
        ∀ (again : KeyRing scheme) (d₂ d₂' : Disk) (path₂ tag₂ : String),
          load d₁' path₁ = .ok again → again.save d₂ path₂ tag₂ = (d₂', .ok ()) →
            ∃ content, d₁'.read? (PathText.parse path₁) = some content ∧
              d₂'.read? (PathText.parse path₂) = some content := by
  refine ⟨fun ring d d' path tag => keptAt_of_save, fun ring d path hload => ⟨?_, ?_⟩⟩
  · -- The file is a list of secrets, of which the last under each key counts.
    exact (Reached.load hload).secret?_eq
  · intro d₁ d₁' path₁ tag₁ hsave
    have hkept := keptAt_of_save hsave
    refine ⟨hkept.loaded, fun again d₂ d₂' path₂ tag₂ hagain hsaveAgain => ?_⟩
    -- What is loaded again is the ring itself, so both files have its text.
    cases hkept.loaded.symm.trans hagain
    exact ⟨_, hkept.text, (keptAt_of_save hsaveAgain).text⟩

end KeyRing

namespace Drawer

/-- The digits of a secret in the upper case. -/
def digits : String := String.join (List.replicate 32 "AB")

/-- A file that lists a secret twice, in digits of either case, with another one in between and more
    than it need say. -/
def text : String :=
  "\x7b\"made\": [1.5, null], \"keys\": [[\"" ++ digits ++
    "\"], \x7b\"label\": \"old\", \"sk_hex\": \"" ++ Hex.encode (Bytes32.fill 7).bytes ++
    "\"\x7d, \x7b\"sk_hex\":\"" ++ Hex.encode (Bytes32.fill 0xab).bytes ++
    "\"\x7d], \"version\": \"UTXKSv1\"\x7d"

/-- A folder with that file. -/
def disk : Disk :=
  ⟨["home"], 0o022,
    [(["home"], .folder), (["home", "old.json"], .file 0o644 (Utf8.encode text))]⟩

/-- The ring of the file. -/
def ring : KeyRing ed25519 := KeyRing.ofSecrets [.fill 0xab, .fill 7, .fill 0xab]

theorem load_disk : KeyRing.load disk "old.json" = .ok ring := by
  have hread : disk.read? (PathText.parse "old.json") = some (Utf8.encode text) := by
    decide +kernel
  have htexts : (Json.parse? (Utf8.encode text) >>= KeyRing.textsOfJson?) =
      some (KeyRing.fileVersion, [digits, Hex.encode (Bytes32.fill 7).bytes,
        Hex.encode (Bytes32.fill 0xab).bytes]) := by
    decide +kernel
  have hdigits : Hex.decode32 digits = .ok (.fill 0xab) := by
    decide +kernel
  rw [KeyRing.load, hread]
  exact KeyRing.ofBytes_eq_ok_iff.mpr ⟨_, ⟨text, _, Utf8.decode?_encode _, htexts,
    .cons hdigits (.cons (Hex.decode32_encode _) (.cons (Hex.decode32_encode _) .nil))⟩, rfl⟩

theorem exists_save_anew : ∃ d', ring.save disk "safe/keys.json" "7" = (d', .ok ()) :=
  Disk.exists_saveSecret (d := disk) _ rfl
    (show _ = some ["home", "safe", "keys.json.tmp.7"] by decide +kernel) (by decide +kernel)
    (show _ = some ["home", "safe", "keys.json"] by decide +kernel) (by decide +kernel)

theorem exists_save_over : ∃ d', ring.save disk "old.json" "8" = (d', .ok ()) :=
  Disk.exists_saveSecret (d := disk) _ rfl
    (show _ = some ["home", "old.json.tmp.8"] by decide +kernel) (by decide +kernel)
    (show _ = some ["home", "old.json"] by decide +kernel) (by decide +kernel)

end Drawer

/-- The ring of the file is saved in a folder that is made for it, and what is loaded from there is
    saved with the same bytes over the file. -/
theorem KeyRing.kept_in_drawer :
    load Drawer.disk "old.json" = .ok Drawer.ring ∧
      ∃ d₁ d₂, Drawer.ring.save Drawer.disk "safe/keys.json" "7" = (d₁, .ok ()) ∧
        load d₁ "safe/keys.json" = .ok Drawer.ring ∧
        Drawer.ring.save Drawer.disk "old.json" "8" = (d₂, .ok ()) ∧
        load d₂ "old.json" = .ok Drawer.ring ∧
        ∃ content, d₁.read? (PathText.parse "safe/keys.json") = some content ∧
          d₂.read? (PathText.parse "old.json") = some content := by
  rcases Drawer.exists_save_anew with ⟨d₁, hanew⟩
  rcases Drawer.exists_save_over with ⟨d₂, hover⟩
  rcases kept_in_files ed25519 with ⟨hkept, hforeign⟩
  rcases (hforeign Drawer.ring _ _ Drawer.load_disk).2 _ _ _ _ hanew with ⟨hloaded, hagain⟩
  exact ⟨Drawer.load_disk, d₁, d₂, hanew, hloaded, hover, (hkept _ _ _ _ _ hover).loaded,
    hagain _ _ _ _ _ hloaded hover⟩

end CoinCommit
