import CoinCommit.Proofs.Ledger.Outputs

/-!
# What a Spend Answers and Leaves

A spend looks at one value, the one under the key of its transaction, and
changes at most that one. So all there is to know about it are two functions of
this value, the answer and what remains, and the table around it does not
matter. Every value is possible here, as anything can be written under the key
of a coin: one that cannot be read is an error for every spend of the
transaction and stays where it is.

What remains of a record is written back in its form, and a record that keeps
to the limits still does so with one output less. `Table.SpendEffect` says what
this comes to, from the bytes before to the bytes after.

## Main definitions

* `Outpoint.answer`, `Outpoint.remainder`: The answer to a spend and what it
  leaves, by the value under the key of its transaction.
* `CoinRecord.OnlyLive`, `CoinRecord.Loses`: An output that is the last live one
  of its record, and the loss of an output.
* `Table.SpendEffect`: A spend, from the bytes before to the bytes after.

## Theorems

* `Table.fst_spendOutput`, `Table.get?_spendOutput`: A spend is told by the
  value under its key.
* `CoinRecord.isPruned_spent_iff`: When nothing remains of a record.
* `Table.isUnspent_iff`: A spend is answered with true where a look-up finds the
  output live.
* `Session.spend_effect`: Every spend has this effect on the batch.
-/

namespace CoinCommit

namespace CoinRecord

variable {r : CoinRecord} {vout : UInt32} {output : Output}

/-- What is stored of a record: its form, and nothing if it has no live output. -/
def stored? (r : CoinRecord) : Option Bytes := if r.isPruned then none else some r.encode

/-- No other output of the record is live. -/
def OnlyLive (r : CoinRecord) (vout : UInt32) : Prop :=
  ∀ (i : Nat) (output : Output), r.outputs[i]? = some (some output) → i = vout.toNat

/-- The slot of an output is empty in the second record, which is like the first one otherwise. -/
structure Loses (r : CoinRecord) (vout : UInt32) (r' : CoinRecord) : Prop where
  txid : r'.txid = r.txid
  height : r'.height = r.height
  coinbase : r'.coinbase = r.coinbase
  length : r'.outputs.length = r.outputs.length
  slot : r'.outputs[vout.toNat]? = some none
  others : ∀ i, i ≠ vout.toNat → r'.outputs[i]? = r.outputs[i]?

theorem isSome_output?_iff :
    (r.output? vout).isSome ↔ ∃ output, r.outputs[vout.toNat]? = some (some output) := by
  simp only [Option.isSome_iff_exists, output?_eq_some_iff]

theorem loses_spent (h : r.output? vout = some output) : r.Loses vout (r.spent vout) where
  txid := rfl
  height := rfl
  coinbase := rfl
  length := List.length_set
  slot := by
    have hlt := (List.getElem?_eq_some_iff.mp (output?_eq_some_iff.mp h)).1
    rw [spent, List.getElem?_set_self hlt]
  others i hi := List.getElem?_set_ne (Ne.symm hi)

/-- What remains of a record that is stored can be read back. -/
theorem decode_spent {txid : Bytes32} {value : Bytes} (h : decode txid value = .ok r)
    (vout : UInt32) : decode txid (r.spent vout).encode = .ok (r.spent vout) := by
  rcases of_decode_eq_ok h with ⟨rfl, hlimits, _⟩
  exact decode_encode (hlimits.spent vout)

/-- Nothing remains of a record if no output but the one that is spent was live. -/
theorem isPruned_spent_iff : (r.spent vout).isPruned = true ↔ r.OnlyLive vout := by
  rw [isPruned, List.all_eq_true]
  constructor
  · intro hnone i output hslot
    -- An output in another slot would have stayed there, and the record would not be pruned.
    by_contra hne
    have hkept : (r.spent vout).outputs[i]? = some (some output) := by
      rw [spent, List.getElem?_set_ne (Ne.symm hne), hslot]
    cases hnone _ (List.mem_of_getElem? hkept)
  · intro honly slot hmem
    rcases slot with _ | output
    · rfl
    · rcases List.mem_iff_getElem?.mp hmem with ⟨i, hslot⟩
      by_cases hi : i = vout.toNat
      · -- The slot itself holds nothing now, or was never there.
        rw [spent, hi, List.getElem?_set_self'] at hslot
        rcases hold : r.outputs[vout.toNat]? with _ | slot
        · rw [hold] at hslot
          cases hslot
        · rw [hold] at hslot
          cases hslot
      · rw [spent, List.getElem?_set_ne (Ne.symm hi)] at hslot
        exact absurd (honly i output hslot) hi

end CoinRecord

namespace Outpoint

/-- The answer to the spend of an output, by the value under the key of its transaction. -/
def answer (o : Outpoint) : Option Bytes → Except CoinError Bool
  | none => .ok false
  | some value => (CoinRecord.decode o.txid value).map fun r => (r.output? o.vout).isSome

/-- What the spend leaves under the key. -/
def remainder (o : Outpoint) : Option Bytes → Option Bytes
  | none => none
  | some value =>
      match CoinRecord.decode o.txid value with
      | .ok r => if (r.output? o.vout).isSome then (r.spent o.vout).stored? else some value
      | .error _ => some value

variable {o : Outpoint} {value : Bytes} {stored : Option Bytes} {r : CoinRecord} {e : CoinError}

theorem remainder_of_error (h : CoinRecord.decode o.txid value = .error e) :
    o.remainder (some value) = some value := by
  simp only [remainder, h]

theorem remainder_of_dead (h : CoinRecord.decode o.txid value = .ok r)
    (hdead : ¬ (r.output? o.vout).isSome) : o.remainder (some value) = some value := by
  simp only [remainder, h, hdead, if_false, Bool.false_eq_true]

theorem remainder_of_live (h : CoinRecord.decode o.txid value = .ok r)
    (hlive : (r.output? o.vout).isSome) :
    o.remainder (some value) = (r.spent o.vout).stored? := by
  simp only [remainder, h, hlive, if_true]

theorem remainder_of_answer_ne_true (h : o.answer stored ≠ .ok true) :
    o.remainder stored = stored := by
  rcases stored with _ | value
  · rfl
  · -- Only a record in which the slot is taken is answered with true.
    rcases hdec : CoinRecord.decode o.txid value with e | r
    · exact remainder_of_error hdec
    · refine remainder_of_dead hdec fun hlive => h ?_
      simp only [answer, hdec, Except.map, hlive]

theorem answer_eq_error_iff :
    o.answer stored = .error e ↔
      ∃ value, stored = some value ∧ CoinRecord.decode o.txid value = .error e := by
  rcases stored with _ | value
  · simp only [answer, reduceCtorEq, false_and, exists_false]
  · simp only [answer, Option.some.injEq, exists_eq_left']
    rcases CoinRecord.decode o.txid value with e' | r
    · simp only [Except.map, Except.error.injEq]
    · simp only [Except.map, reduceCtorEq]

/-- A spend has an answer where a record can be read, and the answer is whether the output is
    live in it. -/
theorem answer_eq_ok_iff {live : Bool} :
    o.answer (some value) = .ok live ↔
      ∃ r, CoinRecord.decode o.txid value = .ok r ∧ (r.output? o.vout).isSome = live := by
  rw [answer]
  rcases CoinRecord.decode o.txid value with e' | r
  · simp only [Except.map, reduceCtorEq, false_and, exists_false]
  · simp only [Except.map, Except.ok.injEq, exists_eq_left']

theorem answer_eq_true_iff :
    o.answer stored = .ok true ↔ ∃ value r output, stored = some value ∧
      CoinRecord.decode o.txid value = .ok r ∧ r.outputs[o.vout.toNat]? = some (some output) := by
  rcases stored with _ | value
  · simp [answer]
  · simp only [answer_eq_ok_iff, CoinRecord.isSome_output?_iff, Option.some.injEq,
      exists_and_left, exists_eq_left']

theorem answer_eq_false_iff :
    o.answer stored = .ok false ↔ stored = none ∨ ∃ value r, stored = some value ∧
      CoinRecord.decode o.txid value = .ok r ∧
        ∀ output, r.outputs[o.vout.toNat]? ≠ some (some output) := by
  rcases stored with _ | value
  · simp [answer]
  · simp only [answer_eq_ok_iff, ← Bool.not_eq_true, CoinRecord.isSome_output?_iff, not_exists,
      Option.some.injEq, exists_and_left, exists_eq_left', reduceCtorEq, false_or, ne_eq]

end Outpoint

namespace Table

variable {t : Table} {o : Outpoint}

-- The table with what is stored of a record under its key.
theorem get?_kept (t : Table) (r : CoinRecord) (key : Bytes) :
    (if r.isPruned then t.erase (CoinKey.encode r.txid) else t.putCoin r).get? key =
      if key = CoinKey.encode r.txid then r.stored? else t.get? key := by
  by_cases hpruned : r.isPruned = true
  · rw [if_pos hpruned, get?_erase, CoinRecord.stored?, if_pos hpruned]
  · rw [if_neg hpruned, putCoin, get?_insert, CoinRecord.stored?, if_neg hpruned]

-- Both in one, as the cases are the same: what lies under the key, and what the slot holds.
theorem spendOutput_spec (t : Table) (o : Outpoint) :
    (t.spendOutput o).1 = o.answer (t.get? (CoinKey.encode o.txid)) ∧
      ∀ key, (t.spendOutput o).2.get? key =
        if key = CoinKey.encode o.txid then o.remainder (t.get? key) else t.get? key := by
  -- The cases that leave the table as it is have this in common.
  have hsame : o.remainder (t.get? (CoinKey.encode o.txid)) = t.get? (CoinKey.encode o.txid) →
      ∀ key, t.get? key =
        if key = CoinKey.encode o.txid then o.remainder (t.get? key) else t.get? key := by
    intro hkept key
    by_cases hkey : key = CoinKey.encode o.txid
    · rw [if_pos hkey, hkey, hkept]
    · rw [if_neg hkey]
  rw [spendOutput, getCoin]
  rcases hget : t.get? (CoinKey.encode o.txid) with _ | value
  · exact ⟨rfl, hsame (by rw [hget]; rfl)⟩
  · rw [hget] at hsame
    rcases hdec : CoinRecord.decode o.txid value with e | r
    · simp only [hdec, Outpoint.answer, Except.map, true_and]
      exact hsame (by simp only [Outpoint.remainder, hdec])
    · rcases hout : r.output? o.vout with _ | output
      · simp only [hdec, Outpoint.answer, Except.map, CoinRecord.spend?, hout, Option.isSome_none,
          true_and]
        exact hsame (by simp only [Outpoint.remainder, hdec, hout, Option.isSome_none,
          Bool.false_eq_true, if_false])
      · -- A live output. What is stored of the record without it is what both sides write.
        have hspent : r.spend? o.vout = some (r.spent o.vout) :=
          CoinRecord.spend?_eq_some_iff.mpr ⟨⟨output, hout⟩, rfl⟩
        have htxid : (r.spent o.vout).txid = o.txid := (CoinRecord.of_decode_eq_ok hdec).1
        have hafter : o.remainder (some value) = (r.spent o.vout).stored? := by
          simp only [Outpoint.remainder, hdec, hout, Option.isSome_some, if_true]
        have hkept := t.get?_kept (r.spent o.vout)
        rw [htxid] at hkept
        simp only [hdec, Outpoint.answer, Except.map, hspent, hout, Option.isSome_some]
        refine ⟨by split <;> rfl, fun key => ?_⟩
        by_cases hkey : key = CoinKey.encode o.txid
        · rw [if_pos hkey, hkey, hget, hafter, ← (hkept _).trans (if_pos rfl)]
          split <;> rfl
        · rw [if_neg hkey, ← (hkept key).trans (if_neg hkey)]
          split <;> rfl

theorem fst_spendOutput (t : Table) (o : Outpoint) :
    (t.spendOutput o).1 = o.answer (t.get? (CoinKey.encode o.txid)) :=
  (t.spendOutput_spec o).1

theorem get?_spendOutput (t : Table) (o : Outpoint) (key : Bytes) :
    (t.spendOutput o).2.get? key =
      if key = CoinKey.encode o.txid then o.remainder (t.get? key) else t.get? key :=
  (t.spendOutput_spec o).2 key

/-- The answer of a spend and the table after it, by the bytes under the key of the transaction:
    either they are not the value of a record, or the output is live in the record, or there is
    nothing to spend. Only a live output changes anything, and only its slot. -/
structure SpendEffect (t : Table) (o : Outpoint) (answer : Except CoinError Bool) (t' : Table) :
    Prop where
  error_iff : ∀ e, answer = .error e ↔ ∃ value, t.get? (CoinKey.encode o.txid) = some value ∧
    CoinRecord.decode o.txid value = .error e
  true_iff : answer = .ok true ↔ ∃ value r output, t.get? (CoinKey.encode o.txid) = some value ∧
    CoinRecord.decode o.txid value = .ok r ∧ r.outputs[o.vout.toNat]? = some (some output)
  false_iff : answer = .ok false ↔ t.get? (CoinKey.encode o.txid) = none ∨
    ∃ value r, t.get? (CoinKey.encode o.txid) = some value ∧
      CoinRecord.decode o.txid value = .ok r ∧
        ∀ output, r.outputs[o.vout.toNat]? ≠ some (some output)
  unchanged : answer ≠ .ok true → t' = t
  others : ∀ key, key ≠ CoinKey.encode o.txid → t'.get? key = t.get? key
  removed : ∀ value r, answer = .ok true → t.get? (CoinKey.encode o.txid) = some value →
    CoinRecord.decode o.txid value = .ok r → r.OnlyLive o.vout →
      t'.get? (CoinKey.encode o.txid) = none
  rewritten : ∀ value r, answer = .ok true → t.get? (CoinKey.encode o.txid) = some value →
    CoinRecord.decode o.txid value = .ok r → ¬ r.OnlyLive o.vout →
      ∃ value' r', t'.get? (CoinKey.encode o.txid) = some value' ∧
        CoinRecord.decode o.txid value' = .ok r' ∧ r.Loses o.vout r'

/-- A spend that is not answered with true changes nothing. -/
theorem spendOutput_of_ne_true (h : (t.spendOutput o).1 ≠ .ok true) : (t.spendOutput o).2 = t := by
  refine ext_get? fun key => ?_
  rw [get?_spendOutput]
  rw [fst_spendOutput] at h
  -- Only under the key of the transaction could anything have changed.
  by_cases hkey : key = CoinKey.encode o.txid
  · rw [if_pos hkey, hkey, Outpoint.remainder_of_answer_ne_true h]
  · rw [if_neg hkey]

theorem spendOutput_effect (t : Table) (o : Outpoint) :
    t.SpendEffect o (t.spendOutput o).1 (t.spendOutput o).2 := by
  -- Where the answer is true, a record that is read has the output live.
  have hlive : ∀ {value r}, (t.spendOutput o).1 = .ok true →
      t.get? (CoinKey.encode o.txid) = some value → CoinRecord.decode o.txid value = .ok r →
        (r.output? o.vout).isSome := by
    intro value r htrue hget hdec
    rw [fst_spendOutput, hget, Outpoint.answer_eq_ok_iff] at htrue
    rcases htrue with ⟨r', hdec', hlive⟩
    rw [hdec] at hdec'
    cases hdec'
    exact hlive
  constructor
  case error_iff =>
    intro e
    rw [fst_spendOutput, Outpoint.answer_eq_error_iff]
  case true_iff => rw [fst_spendOutput, Outpoint.answer_eq_true_iff]
  case false_iff => rw [fst_spendOutput, Outpoint.answer_eq_false_iff]
  case unchanged => exact spendOutput_of_ne_true
  case others =>
    intro key hkey
    rw [get?_spendOutput, if_neg hkey]
  case removed =>
    -- The slot was the last live one, so nothing is stored of what remains.
    intro value r htrue hget hdec honly
    rw [get?_spendOutput, if_pos rfl, hget,
      Outpoint.remainder_of_live hdec (hlive htrue hget hdec), CoinRecord.stored?,
      if_pos (CoinRecord.isPruned_spent_iff.mpr honly)]
  case rewritten =>
    -- Another output is live, so the record goes on without the slot.
    intro value r htrue hget hdec hothers
    have hout := hlive htrue hget hdec
    rcases Option.isSome_iff_exists.mp hout with ⟨output, houtput⟩
    refine ⟨(r.spent o.vout).encode, r.spent o.vout, ?_, ?_, CoinRecord.loses_spent houtput⟩
    · rw [get?_spendOutput, if_pos rfl, hget, Outpoint.remainder_of_live hdec hout,
        CoinRecord.stored?, if_neg fun h => hothers (CoinRecord.isPruned_spent_iff.mp h)]
    · exact CoinRecord.decode_spent hdec o.vout

/-- A spend is answered with true exactly where a look-up finds the output live. -/
theorem isUnspent_iff (t : Table) (o : Outpoint) :
    t.source.isUnspent o = .ok true ↔ (t.spendOutput o).1 = .ok true := by
  have hcoin : t.source.coin o.txid = .ok (t.unspentCoin? o.txid) := rfl
  rw [fst_spendOutput, Source.isUnspent, hcoin]
  rcases hfound : t.unspentCoin? o.txid with _ | r
  · -- No record is found that has a live output, so this output is not live in any that is stored.
    refine iff_of_false (fun h => by cases h) fun htrue => ?_
    rcases Outpoint.answer_eq_true_iff.mp htrue with ⟨value, r, output, hget, hdec, hslot⟩
    have hpruned : r.isPruned = false := by
      simpa only [Bool.not_eq_true] using
        CoinRecord.not_isPruned_of_output? (CoinRecord.output?_eq_some_iff.mpr hslot)
    simp only [unspentCoin?, hget, live?_eq_some_iff.mpr ⟨hdec, hpruned⟩, reduceCtorEq] at hfound
  · -- The record that is found is the one under the key, and both ask for its slot.
    rcases getCoin_eq_some (unspentCoin?_eq_some_iff.mp hfound).1 with ⟨hget, htxid, hlimits⟩
    have hdec := CoinRecord.decode_encode hlimits
    rw [htxid] at hdec
    rw [hget, Outpoint.answer_eq_ok_iff]
    constructor
    · intro h
      exact ⟨r, hdec, Except.ok.inj h⟩
    · rintro ⟨r', hdec', hlive⟩
      rw [hdec] at hdec'
      cases hdec'
      exact congrArg Except.ok hlive

end Table

namespace Session

/-- A spend in an open batch is never refused, has its effect on the table that the batch has come
    to, and leaves what is committed as it is. As the first step of a batch it is answered with
    true exactly if the output is unspent in the committed table. -/
theorem spend_effect (committed t : Table) (o : Outpoint) :
    (∃ answer t', (Session.mk committed (some t)).spend o =
        .ok (answer, ⟨committed, some t'⟩) ∧ t.SpendEffect o answer t') ∧
      ∃ s₁ s₂ answer, (ofTable committed).start = .ok s₁ ∧ s₁.spend o = .ok (answer, s₂) ∧
        (answer = .ok true ↔ committed.source.isUnspent o = .ok true) :=
  ⟨⟨_, _, rfl, t.spendOutput_effect o⟩,
    ⟨_, _, _, rfl, rfl, (committed.isUnspent_iff o).symm⟩⟩

end Session

end CoinCommit
