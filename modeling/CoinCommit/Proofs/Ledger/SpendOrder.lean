import CoinCommit.Proofs.Ledger.Runs
import CoinCommit.Proofs.Ledger.SpendEffect

/-!
# The Order of Spends

Spends of different outputs do not see each other. Those of different
transactions look at different values. Two of the same transaction look at one
value, and the first of them may rewrite or remove what the second one comes to,
but it leaves the second output as live as it was: in a slot of its own, or
together with the whole record, which is only removed when no output of it is
live. So the answer to a spend is the one that it would have had at the start,
whatever was spent before it, and what is left in the end is the same for all
orders, down to the bytes.

It makes no difference either where a commit falls between two spends. A batch
goes on from the table that the one before it has committed.

## Main definitions

* `Table.spendAll`: A table after some spends.
* `Table.answers`: The answers that they have if none is made before another.
* `Session.spendEach`, `Session.spendBatch`, `Session.spendBatches`: Spends in
  the open batch, in a batch of their own, and in batches one after another.

## Theorems

* `Outpoint.answer_remainder`, `Outpoint.remainder_comm`: Two spends of one
  transaction.
* `Table.fst_spendOutput_after`, `Table.snd_spendOutput_comm`: Two spends.
* `Table.spendAll_perm`, `Table.fst_spendOutput_spendAll`: Any number of them.
* `Session.spendBatches_eq`: What batches of spends come to.
* `Session.spends_in_any_order`: Spends in batches, with their answers.
-/

namespace CoinCommit

theorem CoinRecord.spent_comm (r : CoinRecord) (vout vout' : UInt32) :
    (r.spent vout).spent vout' = (r.spent vout').spent vout := by
  by_cases h : vout = vout'
  · rw [h]
  · have hne : vout.toNat ≠ vout'.toNat := fun he => h (UInt32.toNat_inj.mp he)
    simp only [spent, List.set_comm _ _ hne]

namespace Outpoint

variable {o o' : Outpoint} {r : CoinRecord}

theorem vout_ne (h : o ≠ o') (htxid : o'.txid = o.txid) : o.vout ≠ o'.vout := by
  intro hvout
  rcases o
  rcases o'
  cases htxid
  cases hvout
  exact h rfl

-- A record that is not stored has no live output, so it makes no difference that it is not.
theorem answer_stored (htxid : r.txid = o.txid) (hlimits : r.WithinLimits) :
    o.answer r.stored? = .ok (r.output? o.vout).isSome := by
  have hdec : CoinRecord.decode o.txid r.encode = .ok r := htxid ▸ CoinRecord.decode_encode hlimits
  -- A record that is stored is read back as it is, and one that is pruned is gone.
  by_cases hpruned : r.isPruned = true
  · rcases hout : r.output? o.vout with _ | output
    · rw [CoinRecord.stored?, if_pos hpruned]
      rfl
    · exact absurd hpruned (CoinRecord.not_isPruned_of_output? hout)
  · rw [CoinRecord.stored?, if_neg hpruned, answer_eq_ok_iff]
    exact ⟨r, hdec, rfl⟩

theorem remainder_stored (htxid : r.txid = o.txid) (hlimits : r.WithinLimits) :
    o.remainder r.stored? =
      if (r.output? o.vout).isSome then (r.spent o.vout).stored? else r.stored? := by
  have hdec : CoinRecord.decode o.txid r.encode = .ok r := htxid ▸ CoinRecord.decode_encode hlimits
  by_cases hlive : (r.output? o.vout).isSome
  · rcases Option.isSome_iff_exists.mp hlive with ⟨output, hout⟩
    rw [if_pos hlive, ← remainder_of_live hdec hlive]
    nth_rewrite 1 [CoinRecord.stored?]
    rw [if_neg (CoinRecord.not_isPruned_of_output? hout)]
  · -- The slot is empty, so the spend is refused and leaves what is stored.
    rw [if_neg hlive]
    refine remainder_of_answer_ne_true ?_
    rw [answer_stored htxid hlimits]
    simpa only [ne_eq, Except.ok.injEq] using hlive

/-- A spend has the answer that it has without a spend of another output before it. -/
theorem answer_remainder (htxid : o'.txid = o.txid) (hvout : o.vout ≠ o'.vout)
    (stored : Option Bytes) : o.answer (o'.remainder stored) = o.answer stored := by
  by_cases htrue : o'.answer stored = .ok true
  · rcases answer_eq_true_iff.mp htrue with ⟨value, r, output, rfl, hdec, hslot⟩
    have hlive : (r.output? o'.vout).isSome := CoinRecord.isSome_output?_iff.mpr ⟨output, hslot⟩
    rcases CoinRecord.of_decode_eq_ok hdec with ⟨hr, hlimits, _⟩
    have hspent : (r.spent o'.vout).txid = o.txid := hr.trans htxid
    -- What is stored now is the record without one slot, and that slot is not the one asked for.
    rw [remainder_of_live hdec hlive, answer_stored hspent (hlimits.spent o'.vout),
      CoinRecord.output?_spent, if_neg hvout]
    exact (answer_eq_ok_iff.mpr ⟨r, htxid ▸ hdec, rfl⟩).symm
  · rw [remainder_of_answer_ne_true htrue]

-- A spend that leaves all as it is does so after another one, too.
theorem remainder_comm_of_answer_ne_true (htxid : o'.txid = o.txid) (hvout : o.vout ≠ o'.vout)
    {stored : Option Bytes} (h : o.answer stored ≠ .ok true) :
    o.remainder (o'.remainder stored) = o'.remainder (o.remainder stored) := by
  have hafter : o.answer (o'.remainder stored) ≠ .ok true := by
    rw [answer_remainder htxid hvout]
    exact h
  rw [remainder_of_answer_ne_true hafter, remainder_of_answer_ne_true h]

/-- Two spends of one transaction leave the same, whichever comes first. -/
theorem remainder_comm (htxid : o'.txid = o.txid) (hvout : o.vout ≠ o'.vout)
    (stored : Option Bytes) :
    o.remainder (o'.remainder stored) = o'.remainder (o.remainder stored) := by
  by_cases htrue : o.answer stored = .ok true
  · by_cases htrue' : o'.answer stored = .ok true
    · -- Both outputs are live in one record, and its slots can be emptied in either order.
      rcases answer_eq_true_iff.mp htrue with ⟨value, r, output, rfl, hdec, hslot⟩
      have hdec' : CoinRecord.decode o'.txid value = .ok r := htxid ▸ hdec
      have hlive : (r.output? o.vout).isSome := CoinRecord.isSome_output?_iff.mpr ⟨output, hslot⟩
      have hlive' : (r.output? o'.vout).isSome := by
        rcases answer_eq_ok_iff.mp htrue' with ⟨r', hr', hlive'⟩
        rw [hdec'] at hr'
        cases hr'
        exact hlive'
      rcases CoinRecord.of_decode_eq_ok hdec with ⟨hr, hlimits, _⟩
      -- Either spend leaves a record of the same transaction for the other to find.
      have hspent : (r.spent o.vout).txid = o'.txid := hr.trans htxid.symm
      have hspent' : (r.spent o'.vout).txid = o.txid := hr
      rw [remainder_of_live hdec hlive, remainder_of_live hdec' hlive',
        remainder_stored hspent (hlimits.spent o.vout),
        remainder_stored hspent' (hlimits.spent o'.vout), CoinRecord.output?_spent,
        CoinRecord.output?_spent, if_neg hvout, if_neg (Ne.symm hvout), if_pos hlive, if_pos hlive',
        CoinRecord.spent_comm]
    · exact (remainder_comm_of_answer_ne_true htxid.symm (Ne.symm hvout) htrue').symm
  · exact remainder_comm_of_answer_ne_true htxid hvout htrue

end Outpoint

namespace Table

variable {t : Table} {o o' : Outpoint}

theorem fst_spendOutput_after (h : o ≠ o') (t : Table) :
    ((t.spendOutput o').2.spendOutput o).1 = (t.spendOutput o).1 := by
  rw [fst_spendOutput, fst_spendOutput, get?_spendOutput]
  -- Spends under different keys do not meet. Under one key they are about two slots of one record.
  by_cases hkey : CoinKey.encode o.txid = CoinKey.encode o'.txid
  · have htxid : o'.txid = o.txid := (CoinKey.encode_injective hkey).symm
    rw [if_pos hkey, Outpoint.answer_remainder htxid (Outpoint.vout_ne h htxid)]
  · rw [if_neg hkey]

theorem snd_spendOutput_comm (t : Table) (o o' : Outpoint) :
    ((t.spendOutput o').2.spendOutput o).2 = ((t.spendOutput o).2.spendOutput o').2 := by
  by_cases h : o = o'
  · rw [h]
  -- Only under a key that both look at does the order matter at all.
  refine ext_get? fun key => ?_
  simp only [get?_spendOutput]
  by_cases hkey : key = CoinKey.encode o.txid
  · by_cases hkey' : key = CoinKey.encode o'.txid
    · have htxid : o'.txid = o.txid := CoinKey.encode_injective (hkey'.symm.trans hkey)
      rw [if_pos hkey, if_pos hkey', if_pos hkey', if_pos hkey,
        Outpoint.remainder_comm htxid (Outpoint.vout_ne h htxid)]
    · rw [if_pos hkey, if_neg hkey', if_neg hkey', if_pos hkey]
  · rw [if_neg hkey, if_neg hkey]

/-- The table after some outputs are spent, one after another. -/
def spendAll (t : Table) (outpoints : List Outpoint) : Table :=
  outpoints.foldl (fun t o => (t.spendOutput o).2) t

theorem spendAll_append (t : Table) (front rest : List Outpoint) :
    t.spendAll (front ++ rest) = (t.spendAll front).spendAll rest := List.foldl_append

/-- The table does not show the order in which outputs were spent. -/
theorem spendAll_perm (t : Table) {outpoints outpoints' : List Outpoint}
    (h : outpoints.Perm outpoints') : t.spendAll outpoints = t.spendAll outpoints' :=
  h.foldl_eq' (fun o _ o' _ t => t.snd_spendOutput_comm o' o) t

/-- A spend has the answer that it has without the spends of other outputs before it. -/
theorem fst_spendOutput_spendAll (t : Table) {outpoints : List Outpoint} (h : o ∉ outpoints) :
    ((t.spendAll outpoints).spendOutput o).1 = (t.spendOutput o).1 := by
  -- Along the spends, from the first: none of them is of this output.
  induction outpoints generalizing t with
  | nil => rfl
  | cons o' rest ih =>
      rw [List.mem_cons, not_or] at h
      exact (ih (t.spendOutput o').2 h.2).trans (fst_spendOutput_after h.1 t)

end Table

/-- Spends that are answered, each with the outpoint that it was of. -/
abbrev SpendAnswers := List (Outpoint × Except CoinError Bool)

namespace Session

/-- Spends in the open batch, one after another. One that fails does not keep the others from
    being made. -/
def spendEach (s : Session) : List Outpoint → Except SessionError (SpendAnswers × Session)
  | [] => .ok ([], s)
  | o :: rest => do
      let (answer, s) ← s.spend o
      let (answers, s) ← s.spendEach rest
      return ((o, answer) :: answers, s)

/-- Spends in a batch of their own, which is committed. -/
def spendBatch (s : Session) (outpoints : List Outpoint) :
    Except SessionError (SpendAnswers × Session) := do
  let s ← s.start
  let (answers, s) ← s.spendEach outpoints
  let s ← s.commit
  return (answers, s)

/-- Spends in batches that are committed one after another. -/
def spendBatches (s : Session) :
    List (List Outpoint) → Except SessionError (SpendAnswers × Session)
  | [] => .ok ([], s)
  | outpoints :: rest => do
      let (front, s) ← s.spendBatch outpoints
      let (answers, s) ← s.spendBatches rest
      return (front ++ answers, s)

end Session

namespace Table

/-- The answers that spends have at the start. -/
def answers (t : Table) (outpoints : List Outpoint) : SpendAnswers :=
  outpoints.map fun o => (o, (t.spendOutput o).1)

theorem answers_spendAll (t : Table) {outpoints rest : List Outpoint}
    (h : (outpoints ++ rest).Nodup) : (t.spendAll outpoints).answers rest = t.answers rest := by
  refine List.map_congr_left fun o ho => ?_
  have hout : o ∉ outpoints := fun ho' => (List.nodup_append.mp h).2.2 o ho' o ho rfl
  rw [fst_spendOutput_spendAll t hout]

end Table

namespace Session

/-- The open batch alone is worked on; its spends are answered as they were at the start. -/
theorem spendEach_eq (committed t : Table) {outpoints : List Outpoint} (h : outpoints.Nodup) :
    (Session.mk committed (some t)).spendEach outpoints =
      .ok (t.answers outpoints, ⟨committed, some (t.spendAll outpoints)⟩) := by
  induction outpoints generalizing t with
  | nil => rfl
  | cons o rest ih =>
      have hfirst : (Session.mk committed (some t)).spend o =
          .ok ((t.spendOutput o).1, ⟨committed, some (t.spendOutput o).2⟩) := rfl
      have hone : ([o] ++ rest).Nodup := h
      have hrest : (t.spendOutput o).2.answers rest = t.answers rest := t.answers_spendAll hone
      -- The others go on from the table without this output, but do not notice.
      have hcons := ih (t.spendOutput o).2 (List.nodup_cons.mp h).2
      rw [hrest] at hcons
      simp only [spendEach, hfirst, bind, Except.bind, hcons]
      rfl

theorem spendBatch_eq (t : Table) {outpoints : List Outpoint} (h : outpoints.Nodup) :
    (ofTable t).spendBatch outpoints =
      .ok (t.answers outpoints, ofTable (t.spendAll outpoints)) := by
  have hstart : (ofTable t).start = .ok ⟨t, some t⟩ := rfl
  simp only [spendBatch, hstart, bind, Except.bind, spendEach_eq t t h]
  rfl

/-- Batches come to what one table comes to that all outputs are spent in. -/
theorem spendBatches_eq (t : Table) {batches : List (List Outpoint)} (h : batches.flatten.Nodup) :
    (ofTable t).spendBatches batches =
      .ok (t.answers batches.flatten, ofTable (t.spendAll batches.flatten)) := by
  induction batches generalizing t with
  | nil => rfl
  | cons outpoints rest ih =>
      rw [List.flatten_cons] at h
      -- A batch leaves a table of its own, but the answers of those after it stay what they were.
      have hfront := spendBatch_eq t (List.nodup_append.mp h).1
      have hrest := ih (t.spendAll outpoints) (List.nodup_append.mp h).2.1
      rw [t.answers_spendAll h] at hrest
      simp only [spendBatches, hfront, bind, Except.bind, hrest, List.flatten_cons,
        Table.spendAll_append, Table.answers, List.map_append]
      rfl

/-- Spends of different outputs can be made in any order and in any batches: each of them has the
    answer that it has alone in a batch, and the table in the end is the same. -/
theorem spends_in_any_order (t : Table) (batches batches' : List (List Outpoint))
    (hdistinct : batches.flatten.Nodup) (horder : batches'.flatten.Perm batches.flatten) :
    ∃ t', (ofTable t).spendBatches batches =
        .ok (batches.flatten.map fun o => (o, (t.spendOutput o).1), ofTable t') ∧
      (ofTable t).spendBatches batches' =
        .ok (batches'.flatten.map fun o => (o, (t.spendOutput o).1), ofTable t') := by
  refine ⟨t.spendAll batches.flatten, spendBatches_eq t hdistinct, ?_⟩
  rw [← t.spendAll_perm horder]
  exact spendBatches_eq t (horder.nodup_iff.mpr hdistinct)

end Session

namespace TwoOutputs

/-- The second of the outputs. -/
def second : Outpoint := ⟨Bytes32.fill 1, 1⟩

/-- A slot that the record does not have. -/
def missing : Outpoint := ⟨Bytes32.fill 1, 2⟩

/-- An output of a transaction whose value cannot be read. -/
def unreadable : Outpoint := ⟨Bytes32.fill 9, 0⟩

/-- A table with the record, and with a value that has a byte too many. -/
def besideUnreadable : Table :=
  (Table.empty.putCoin record).insert (CoinKey.encode unreadable.txid) (record.encode ++ [0])

/-- All four spends, in two batches. -/
def twoBatches : List (List Outpoint) := [[first, missing], [unreadable, second]]

/-- The same spends in one batch and in another order. -/
def oneBatch : List (List Outpoint) := [[second, unreadable, first, missing]]

/-- Both outputs of the record are spent, which removes it. The slot that it does not have is asked
    for before that in the two batches, and after it in the one. -/
theorem spends_in_two_orders :
    twoBatches.flatten.Nodup ∧ oneBatch.flatten.Perm twoBatches.flatten ∧
      ∃ t', (Session.ofTable besideUnreadable).spendBatches twoBatches =
          .ok ([(first, .ok true), (missing, .ok false), (unreadable, .error (.trailing 1)),
            (second, .ok true)], Session.ofTable t') ∧
        (Session.ofTable besideUnreadable).spendBatches oneBatch =
          .ok ([(second, .ok true), (unreadable, .error (.trailing 1)), (first, .ok true),
            (missing, .ok false)], Session.ofTable t') := by
  have hdistinct : twoBatches.flatten.Nodup := by decide
  have horder : oneBatch.flatten.Perm twoBatches.flatten := by decide
  have htwo : (twoBatches.flatten.map fun o => (o, (besideUnreadable.spendOutput o).1)) =
      [(first, .ok true), (missing, .ok false), (unreadable, .error (.trailing 1)),
        (second, .ok true)] := by
    decide +kernel
  have hone : (oneBatch.flatten.map fun o => (o, (besideUnreadable.spendOutput o).1)) =
      [(second, .ok true), (unreadable, .error (.trailing 1)), (first, .ok true),
        (missing, .ok false)] := by
    decide +kernel
  -- The answers are those at the start, so they go with the outpoints into the other order.
  rcases Session.spends_in_any_order besideUnreadable _ _ hdistinct horder with ⟨t', hrun, hrun'⟩
  rw [htwo] at hrun
  rw [hone] at hrun'
  exact ⟨hdistinct, horder, t', hrun, hrun'⟩

end TwoOutputs

end CoinCommit
