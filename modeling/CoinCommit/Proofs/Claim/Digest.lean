import CoinCommit.Claim.Spend
import CoinCommit.Proofs.Bytes.Delimited
import CoinCommit.Proofs.Hash.Separated

/-!
# What a Signature Commits To

A signature is over a digest, and the digest is over a string in which all
fields of a spend stand in a row. Two of them, script and destination, may have
any length and stand next to each other, so it has to be ruled out that the
bytes of one are taken for bytes of the other. Every field says where it ends:
four have a fixed width, and these two have their length in front. So the string
belongs to one spend, and a signature for two spends is a collision of the hash.

Lengths are written as words of 64 bits. Beyond that a length would be written
like a shorter one, so the spends are those whose fields have a length that fits.

## Main definitions

* `Spend.Sized`: The lengths of script and destination fit into a word.
* `Spend.MovesOn`: Some bytes are taken from one field into the next.

## Theorems

* `Spend.preimage_eq_form`: The string is the domain and the fields in a row.
* `Spend.preimage_injective`: It belongs to one spend.
* `Spend.commits_to_fields`: What equal strings and equal digests mean.
-/

namespace CoinCommit

namespace Spend

/-- The lengths of script and destination fit into a word of 64 bits. -/
structure Sized (s : Spend) : Prop where
  script : s.script.length < UInt64.size
  destination : s.destination.length < UInt64.size

/-- Some bytes at the end of one field of a spend stand at the start of the next field of another:
    of the script in the destination, or of the destination in the leaf. -/
inductive MovesOn (s t : Spend) (moved : Bytes) : Prop
  | toDestination (script : s.script = t.script ++ moved)
      (destination : t.destination = moved ++ s.destination)
  | toLeaf (destination : s.destination = t.destination ++ moved) (leaf : moved <+: t.leaf.bytes)

/-- The fields in the order in which they are written. -/
def fields (s : Spend) : Bytes32 × UInt32 × Int64 × Bytes × Bytes × Bytes32 :=
  (s.txid, s.vout, s.amount, s.script, s.destination, s.leaf)

theorem fields_injective : Function.Injective fields := by
  intro s t h
  cases s
  cases t
  cases h
  rfl

/-- The fields in a row. -/
def form (p : Bytes32 × UInt32 × Int64 × Bytes × Bytes × Bytes32) : Bytes :=
  p.1.bytes ++ (LittleEndian.ofUInt32 p.2.1 ++ (LittleEndian.ofInt64 p.2.2.1 ++
    (CompactSize.sized p.2.2.2.1 ++ (CompactSize.sized p.2.2.2.2.1 ++ p.2.2.2.2.2.bytes))))

theorem preimage_eq_form (s : Spend) : s.preimage = domain ++ form s.fields := by
  simp only [preimage, form, fields, CompactSize.sized, List.append_assoc]

/-- The fields are told apart, one after another. -/
theorem delimited_form : Delimited (fun s => form s.fields) Sized := by
  -- The fields of a fixed width, those with a length in front, and again one of a fixed width.
  have hrow := Bytes32.delimited_bytes.append (LittleEndian.delimited_ofUInt32.append
    (LittleEndian.delimited_ofInt64.append (CompactSize.delimited_sized.append
      (CompactSize.delimited_sized.append Bytes32.delimited_bytes))))
  intro s t hs ht
  exact hrow.comap fields_injective s t
    ⟨trivial, trivial, trivial, hs.script, hs.destination, trivial⟩
    ⟨trivial, trivial, trivial, ht.script, ht.destination, trivial⟩

theorem preimage_injective {s t : Spend} (hs : s.Sized) (ht : t.Sized)
    (h : s.preimage = t.preimage) : s = t := by
  rw [preimage_eq_form, preimage_eq_form] at h
  exact delimited_form.injective hs ht (List.append_cancel_left h)

/-- A spend is never the same after bytes have been taken from one field into the next. -/
theorem MovesOn.ne {s t : Spend} {moved : Bytes} (h : s.MovesOn t moved) (hmoved : moved ≠ []) :
    s ≠ t := by
  rintro rfl
  cases h with
  -- A field would be itself with bytes behind it.
  | toDestination script _ => exact hmoved (List.append_right_eq_self.mp script.symm)
  | toLeaf destination _ => exact hmoved (List.append_right_eq_self.mp destination.symm)

/-- The strings that are hashed for two spends are the same if the spends agree in all their fields,
    and only then, so that no byte can be taken from one field into the next unnoticed. Their
    digests are the same only for this reason, or because two different strings collide. -/
theorem commits_to_fields (s t : Spend) (hs : s.Sized) (ht : t.Sized) :
    (s.preimage = t.preimage ↔ s.txid = t.txid ∧ s.vout = t.vout ∧ s.amount = t.amount ∧
        s.script = t.script ∧ s.destination = t.destination ∧ s.leaf = t.leaf) ∧
      (s.digest = t.digest ↔
        s = t ∨ s.preimage ≠ t.preimage ∧ sha3 s.preimage = sha3 t.preimage) ∧
      ∀ moved, moved ≠ [] → s.MovesOn t moved → s.preimage ≠ t.preimage := by
  refine ⟨?_, ?_, ?_⟩
  · constructor
    · intro h
      rw [preimage_injective hs ht h]
      exact ⟨rfl, rfl, rfl, rfl, rfl, rfl⟩
    · rintro ⟨htxid, hvout, hamount, hscript, hdestination, hleaf⟩
      rw [preimage, preimage, htxid, hvout, hamount, hscript, hdestination, hleaf]
  · constructor
    · intro hdigest
      by_cases he : s.preimage = t.preimage
      · -- The strings are the same, and with them the fields.
        exact Or.inl (preimage_injective hs ht he)
      · exact Or.inr ⟨he, hdigest⟩
    · rintro (rfl | ⟨_, hcollision⟩)
      · rfl
      · exact hcollision
  · -- What moves changes a field, and so the string.
    intro moved hmoved hmoves he
    exact hmoves.ne hmoved (preimage_injective hs ht he)

end Spend

/-- A spend with one byte all over its script, destination and leaf, so that nothing but the lengths
    says where a field ends. -/
def Uniform.spend (script destination : Nat) : Spend :=
  ⟨Bytes32.fill 1, 3, 5000, List.replicate script 2, List.replicate destination 2, Bytes32.fill 2⟩

theorem Uniform.sized_spend {script destination : Nat} (hscript : script < UInt64.size)
    (hdestination : destination < UInt64.size) : (spend script destination).Sized := by
  constructor
  · rw [spend, List.length_replicate]
    exact hscript
  · rw [spend, List.length_replicate]
    exact hdestination

/-- From 253 bytes of script on the length takes three bytes. A script that becomes shorter by one
    byte, which passes into the destination, is told apart all the same. -/
theorem Spend.commits_to_uniform_fields :
    (Uniform.spend 253 1).Sized ∧ (Uniform.spend 252 2).Sized ∧
      (Uniform.spend 253 1).MovesOn (Uniform.spend 252 2) [2] ∧
        (Uniform.spend 253 1).preimage ≠ (Uniform.spend 252 2).preimage := by
  have hlong : (Uniform.spend 253 1).Sized := Uniform.sized_spend (by decide) (by decide)
  have hshort : (Uniform.spend 252 2).Sized := Uniform.sized_spend (by decide) (by decide)
  have hmoves : (Uniform.spend 253 1).MovesOn (Uniform.spend 252 2) [2] :=
    .toDestination List.replicate_succ' rfl
  exact ⟨hlong, hshort, hmoves, (commits_to_fields _ _ hlong hshort).2.2 [2] (by decide) hmoves⟩

end CoinCommit
