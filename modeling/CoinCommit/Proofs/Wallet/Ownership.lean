import Mathlib.Data.List.Induction
import Mathlib.Data.List.TFAE
import Mathlib.Tactic.TFAE
import CoinCommit.Proofs.Claim.Signed
import CoinCommit.Proofs.Hash.Separated
import CoinCommit.Proofs.Lists.Fallible
import CoinCommit.Wallet.KeyFile

/-!
# What It Means to Own a Script

A key ring is asked in four ways whether a script is its own. It looks for the
key that the script names; it lists the scripts of its secrets; it gives the
script of a key; it signs. Some go by the keys under which the secrets lie,
some by the secrets themselves, and they agree, because a key and its secret
never part: whatever has happened to a ring, a secret lies under its own public
key and under no other.

A ring comes about by putting in secrets, which are given, drawn, or listed in a
file. What it holds then can be told from these secrets without the ring: under
each public key lies the last of the secrets that have it. So the scripts that a
ring owns are those of the secrets that were put into it.

## Main definitions

* `KeyRing.secretsIn`: The secrets that a file lists.
* `KeyRing.Lists`: Bytes that are a file of these secrets.
* `KeyRing.Reached`: A ring that has come about by putting in these secrets.
* `KeyRing.Opens`: A script that names a key under which a secret lies.
* `KeyRing.OwnsAlike`: A ring whose answers agree.

## Theorems

* `KeyRing.publicKey_of_secret?`: A secret lies under its own key.
* `KeyRing.owns_iff`, `KeyRing.mem_scripts_iff`, `KeyRing.scriptFor?_eq_some_iff`:
  Three answers, by what lies under a key.
* `KeyRing.sign_of_not_owns`: Why a spend is not signed.
* `KeyRing.ofBytes_eq_ok_iff`: When bytes are read as a ring, and as which.
* `KeyRing.eq_ofSecrets_of_load`, `KeyRing.Reached.eq_ofSecrets`: The ring is
  that of its secrets.
* `KeyRing.secret?_ofSecrets`, `KeyRing.Reached.secret?_eq`: What lies under a key.
* `KeyRing.Reached.ownsAlike`: The answers agree.
-/

namespace CoinCommit

namespace KeyRing

variable {scheme : SignatureScheme} {ring : KeyRing scheme} {secrets : List Bytes32}
  {key secret : Bytes32} {script : Bytes}

/-- The secrets that the file at a path lists, in its order and each as often; whatever is no
    secret is left out. -/
def secretsIn (d : Disk) (path : String) : List Bytes32 :=
  match d.read? (PathText.parse path) >>= Json.parse? >>= textsOfJson? with
  | none => []
  | some (_, texts) => texts.filterMap fun text => (Hex.decode32 text).toOption

/-- The bytes are a file of these secrets: a text that is read as a document with the version and
    the digits of each secret, in this order. -/
def Lists (content : Bytes) (secrets : List Bytes32) : Prop :=
  ∃ s texts, Utf8.decode? content = some s ∧
    (Json.parse? content >>= textsOfJson?) = some (fileVersion, texts) ∧
    List.Forall₂ (fun text secret => Hex.decode32 text = .ok secret) texts secrets

/-- The ring has come about by putting in secrets, the last one last: it was empty, and each was
    given or drawn, or it was loaded from a file that lists them. -/
inductive Reached : KeyRing scheme → List Bytes32 → Prop
  | empty : Reached empty []
  | insert {ring : KeyRing scheme} {secrets : List Bytes32} (secret : Bytes32)
      (h : Reached ring secrets) : Reached (ring.insert secret) (secrets ++ [secret])
  | generate {ring : KeyRing scheme} {secrets : List Bytes32} (random : Nat → UInt8)
      (h : Reached ring secrets) : Reached (ring.generate random) (secrets ++ [draw random])
  | load {ring : KeyRing scheme} {d : Disk} {path : String} (h : load d path = .ok ring) :
      Reached ring (secretsIn d path)

/-- The script names a key, and the ring holds a secret under it. -/
def Opens (ring : KeyRing scheme) (script : Bytes) : Prop :=
  ∃ key secret, script = KeyScript.encode key ∧ ring.secret? key = some secret

/-- The answers of a ring agree, with each other and with the secrets that were put in. -/
structure OwnsAlike (ring : KeyRing scheme) (secrets : List Bytes32) : Prop where
  derived : ∀ key secret, ring.secret? key = some secret → scheme.publicKey secret = key
  held : ∀ key, ring.secret? key = secrets.reverse.find? fun s => scheme.publicKey s = key
  ascending : ring.scripts.Pairwise (· < ·)
  nodup : ring.scripts.Nodup
  length : ring.scripts.length = ring.length
  owned : ∀ script, List.TFAE [
    ring.owns script = true,
    script ∈ ring.scripts,
    ∃ key : Bytes32, script = 0x01 :: key.bytes ∧ ring.scriptFor? key = some script,
    ∀ spend : Spend, spend.script = script → ∃ authorization, ring.sign spend = .ok authorization,
    ∃ secret ∈ secrets, script = scriptOf scheme secret]
  foreign : ∀ spend : Spend, ring.owns spend.script = false →
    (ring.sign spend = .error .unsupportedScript ↔
        ¬(spend.script.length = 33 ∧ spend.script.head? = some 0x01)) ∧
      (ring.sign spend = .error .keyUnavailable ↔
        spend.script.length = 33 ∧ spend.script.head? = some 0x01)

/-! ## The Answers of a Ring -/

theorem secret?_eq_some_iff : ring.secret? key = some secret ↔ ⟨key, secret⟩ ∈ ring.pairs := by
  rw [secret?, Option.map_eq_some_iff]
  constructor
  · rintro ⟨p, hfind, rfl⟩
    obtain ⟨hmem, rfl⟩ := ring.sorted.find?_eq_some_iff.mp hfind
    exact hmem
  · intro hmem
    exact ⟨⟨key, secret⟩, ring.sorted.find?_eq_some_iff.mpr ⟨hmem, rfl⟩, rfl⟩

/-- A secret lies under its own public key. -/
theorem publicKey_of_secret? (h : ring.secret? key = some secret) :
    scheme.publicKey secret = key :=
  (ring.derived _ (secret?_eq_some_iff.mp h)).symm

theorem scriptOf_of_secret? (h : ring.secret? key = some secret) :
    scriptOf scheme secret = KeyScript.encode key := by
  rw [scriptOf, publicKey_of_secret? h]

theorem owns_iff : ring.owns script = true ↔ ring.Opens script := by
  rw [owns]
  rcases hkey : KeyScript.decode? script with _ | key
  · -- The script names no key, so nothing can lie under it.
    constructor
    · rintro ⟨⟩
    · rintro ⟨key, secret, hscript, _⟩
      cases hkey.symm.trans (KeyScript.decode?_eq_some_iff.mpr hscript)
  · -- The script names one key only.
    have hscript := KeyScript.decode?_eq_some_iff.mp hkey
    change (ring.secret? key).isSome = true ↔ _
    rw [Option.isSome_iff_exists]
    constructor
    · rintro ⟨secret, hsecret⟩
      exact ⟨key, secret, hscript, hsecret⟩
    · rintro ⟨key', secret, hscript', hsecret⟩
      have hsame : key = key' := KeyScript.encode_injective (hscript.symm.trans hscript')
      exact ⟨secret, hsame ▸ hsecret⟩

theorem mem_scripts_iff : script ∈ ring.scripts ↔ ring.Opens script := by
  rw [scripts, List.mem_map]
  constructor
  · rintro ⟨p, hp, rfl⟩
    have hsecret : ring.secret? p.key = some p.secret := secret?_eq_some_iff.mpr hp
    exact ⟨p.key, p.secret, scriptOf_of_secret? hsecret, hsecret⟩
  · -- The pair of the key is in the ring, and its script is the one of the key.
    rintro ⟨key, secret, hscript, hsecret⟩
    exact ⟨⟨key, secret⟩, secret?_eq_some_iff.mp hsecret,
      (scriptOf_of_secret? hsecret).trans hscript.symm⟩

theorem scriptFor?_eq_some_iff :
    ring.scriptFor? key = some script ↔
      script = KeyScript.encode key ∧ ∃ secret, ring.secret? key = some secret := by
  rw [scriptFor?, Option.map_eq_some_iff]
  constructor
  · rintro ⟨secret, hsecret, hscript⟩
    exact ⟨hscript.symm.trans (scriptOf_of_secret? hsecret), secret, hsecret⟩
  · rintro ⟨hscript, secret, hsecret⟩
    exact ⟨secret, hsecret, (scriptOf_of_secret? hsecret).trans hscript.symm⟩

/-- Why a spend is not signed depends on the shape of its script alone. -/
theorem sign_of_not_owns {spend : Spend} (h : ring.owns spend.script = false) :
    ring.sign spend = .error (if (KeyScript.decode? spend.script).isSome then .keyUnavailable
      else .unsupportedScript) := by
  rw [owns] at h
  rw [sign]
  rcases hkey : KeyScript.decode? spend.script with _ | key
  · rfl
  · -- The script names a key, under which nothing lies.
    simp only [hkey, Option.isSome_eq_false_iff, Option.isNone_iff_eq_none] at h
    simp only [h, Option.isSome_some, if_true]

/-- The scripts have the order of the keys, as they start with the same byte. -/
theorem ascending_scripts (ring : KeyRing scheme) : ring.scripts.Pairwise (· < ·) := by
  rw [scripts, List.pairwise_map]
  refine ring.sorted.imp_of_mem fun {p q} hp hq hlt => ?_
  rw [scriptOf, scriptOf, ← ring.derived p hp, ← ring.derived q hq]
  exact List.cons_lt_cons_iff.mpr (Or.inr ⟨rfl, hlt⟩)

/-! ## The Secrets Put In -/

theorem secretOfText_eq_ok_iff (text : String) (i : Nat) (secret : Bytes32) :
    secretOfText text i = .ok secret ↔ Hex.decode32 text = .ok secret := by
  rw [secretOfText]
  rcases Hex.decode32 text with e | found
  · constructor <;> rintro ⟨⟩
  · constructor <;> rintro ⟨⟩ <;> rfl

/-- Bytes are read as a ring if they are a file of secrets, and then as the ring of these. -/
theorem ofBytes_eq_ok_iff {content : Bytes} :
    ofBytes content = .ok ring ↔ ∃ secrets, Lists content secrets ∧ ring = ofSecrets secrets := by
  constructor
  · intro h
    -- What is refused on the way is no file of secrets.
    rw [ofBytes] at h
    rcases htext : Utf8.decode? content with _ | s
    · rw [htext] at h
      cases h
    simp only [htext] at h
    rcases hdoc : Json.parse? content >>= textsOfJson? with _ | ⟨version, texts⟩
    · rw [hdoc] at h
      cases h
    simp only [hdoc] at h
    by_cases hversion : version ≠ fileVersion
    · rw [if_pos hversion] at h
      cases h
    rw [if_neg hversion] at h
    rcases bind_eq_ok_iff.mp h with ⟨found, hfound, hring⟩
    cases hring
    refine ⟨found, ⟨s, texts, htext, ?_, ?_⟩, rfl⟩
    · rw [hdoc, not_not.mp hversion]
    · exact (mapM_zipIdx_eq_ok_iff secretOfText_eq_ok_iff).mp hfound
  · rintro ⟨secrets, ⟨s, texts, htext, hdoc, hspelled⟩, rfl⟩
    simp only [ofBytes, htext, hdoc]
    rw [if_neg (not_not_intro rfl), (mapM_zipIdx_eq_ok_iff secretOfText_eq_ok_iff).mpr hspelled]
    rfl

/-- No text of a file of secrets is left out. -/
theorem secretsIn_of_lists {d : Disk} {path : String} {content : Bytes}
    (hread : d.read? (PathText.parse path) = some content) (h : Lists content secrets) :
    secretsIn d path = secrets := by
  rcases h with ⟨_, texts, _, hdoc, hspelled⟩
  rw [secretsIn, hread]
  change (match Json.parse? content >>= textsOfJson? with | none => [] | some (_, texts) => _) = _
  rw [hdoc]
  -- Each text has its secret, so none is left out.
  exact filterMap_eq_of_forall₂ (hspelled.imp fun text secret hsecret => by rw [hsecret]; rfl)

theorem eq_ofSecrets_of_load {d : Disk} {path : String} (h : load d path = .ok ring) :
    ring = ofSecrets (secretsIn d path) := by
  rw [load] at h
  rcases hread : d.read? (PathText.parse path) with _ | content
  · rw [hread] at h
    cases h
  simp only [hread] at h
  rcases ofBytes_eq_ok_iff.mp h with ⟨found, hlists, hring⟩
  rw [secretsIn_of_lists hread hlists, hring]

theorem ofSecrets_concat (secrets : List Bytes32) (secret : Bytes32) :
    (ofSecrets (secrets ++ [secret]) : KeyRing scheme) = (ofSecrets secrets).insert secret :=
  List.foldl_append

theorem Reached.eq_ofSecrets (h : Reached ring secrets) : ring = ofSecrets secrets := by
  induction h with
  | empty => rfl
  | insert secret _ ih => rw [ofSecrets_concat, ← ih]
  | generate random _ ih => rw [ofSecrets_concat, ← ih, KeyRing.generate]
  | load h => exact eq_ofSecrets_of_load h

/-- Under a key lies the last of the secrets that have it. -/
theorem secret?_ofSecrets (secrets : List Bytes32) (key : Bytes32) :
    (ofSecrets secrets : KeyRing scheme).secret? key =
      secrets.reverse.find? fun s => scheme.publicKey s = key := by
  induction secrets using List.reverseRecOn with
  | nil => rfl
  | append_singleton secrets secret ih =>
      rw [ofSecrets_concat, secret?_insert, ih, List.reverse_append, List.reverse_singleton,
        List.singleton_append, List.find?_cons]
      -- The last secret hides those before it under its own key, and leaves the other keys alone.
      by_cases h : key = scheme.publicKey secret
      · rw [if_pos h, decide_eq_true h.symm]
      · rw [if_neg h, decide_eq_false (fun he => h he.symm)]

theorem Reached.secret?_eq (h : Reached ring secrets) (key : Bytes32) :
    ring.secret? key = secrets.reverse.find? fun s => scheme.publicKey s = key := by
  rw [h.eq_ofSecrets, secret?_ofSecrets]

/-- The scripts of a ring are those of the secrets put in, also of those that another one with
    the same key has replaced. -/
theorem Reached.opens_iff (h : Reached ring secrets) :
    ring.Opens script ↔ ∃ secret ∈ secrets, script = scriptOf scheme secret := by
  constructor
  · rintro ⟨key, secret, hscript, hsecret⟩
    -- What lies under the key is one of the secrets put in.
    have hfound := List.mem_of_find?_eq_some ((h.secret?_eq key).symm.trans hsecret)
    exact ⟨secret, List.mem_reverse.mp hfound,
      hscript.trans (scriptOf_of_secret? hsecret).symm⟩
  · rintro ⟨secret, hmem, hscript⟩
    have hsome : (ring.secret? (scheme.publicKey secret)).isSome = true := by
      rw [h.secret?_eq, List.find?_isSome]
      exact ⟨secret, List.mem_reverse.mpr hmem, decide_eq_true rfl⟩
    -- Under the key lies the last secret that has it, which need not be this one.
    rcases Option.isSome_iff_exists.mp hsome with ⟨last, hlast⟩
    exact ⟨scheme.publicKey secret, last, hscript, hlast⟩

/-- Listing, looking up and signing agree on which scripts a ring owns, and these are the scripts
    of the secrets that were put in. -/
theorem Reached.ownsAlike (h : Reached ring secrets) : ring.OwnsAlike secrets where
  derived key secret := publicKey_of_secret?
  held := h.secret?_eq
  ascending := ascending_scripts ring
  nodup := (ascending_scripts ring).imp fun {a b} hlt => by
    rintro rfl
    exact List.lt_irrefl a hlt
  length := List.length_map _
  owned script := by
    tfae_have 1 ↔ 2 := owns_iff.trans mem_scripts_iff.symm
    tfae_have 1 ↔ 3 := by
      rw [owns_iff]
      constructor
      · rintro ⟨key, secret, hscript, hsecret⟩
        exact ⟨key, hscript, scriptFor?_eq_some_iff.mpr ⟨hscript, secret, hsecret⟩⟩
      · rintro ⟨key, hscript, hfor⟩
        rcases (scriptFor?_eq_some_iff.mp hfor).2 with ⟨secret, hsecret⟩
        exact ⟨key, secret, hscript, hsecret⟩
    tfae_have 1 → 4 := by
      rintro howns spend rfl
      exact sign_of_owns howns
    tfae_have 4 → 1 := by
      intro hsigns
      by_contra hforeign
      -- Any spend of the script will do.
      rcases hsigns ⟨.zero, 0, 0, script, [], .zero⟩ rfl with ⟨authorization, hsign⟩
      cases hsign.symm.trans (sign_of_not_owns (Bool.eq_false_iff.mpr hforeign))
    tfae_have 1 ↔ 5 := owns_iff.trans h.opens_iff
    tfae_finish
  foreign spend hforeign := by
    rw [sign_of_not_owns hforeign, ← KeyScript.isSome_decode?_iff]
    cases (KeyScript.decode? spend.script).isSome <;> decide

/-- A secret that is put in twice, with a drawn one in between, is owned, and a script of another
    kind is refused as such. -/
theorem ownsAlike_repeated :
    let ring : KeyRing ed25519 :=
      ((empty.insert (.fill 7)).generate UInt8.ofNat).insert (.fill 7)
    scriptOf ed25519 (.fill 7) ∈ ring.scripts ∧
      ring.sign ⟨.fill 1, 0, 5, [0x76, 0xa9, 0x14], [0x6a], .fill 2⟩ =
        .error .unsupportedScript := by
  have hempty : (empty : KeyRing ed25519).Reached [] := .empty
  have h := Reached.ownsAlike (((hempty.insert (.fill 7)).generate UInt8.ofNat).insert (.fill 7))
  have howned := (h.owned (scriptOf ed25519 (.fill 7))).out 4 1
  exact ⟨howned.mp ⟨.fill 7, List.mem_append_right _ (List.mem_singleton.mpr rfl), rfl⟩,
    (h.foreign ⟨.fill 1, 0, 5, [0x76, 0xa9, 0x14], [0x6a], .fill 2⟩ rfl).1.mpr (by decide)⟩

end KeyRing

end CoinCommit
