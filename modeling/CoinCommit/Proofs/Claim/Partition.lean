import CoinCommit.Proofs.Claim.Signed
import CoinCommit.Proofs.Hash.Separated

/-!
# A List Cut in Two

A batch is made output by output: what the signer authorises is added to the
claims, all else to what is skipped, each with its reason. A failure in the
middle leaves no trace in the other outputs. So the claims are those of the
accepted outputs, in the order of the list, and what is skipped are the others,
in the same order; together they are the list, with nothing lost and nothing
twice.

That an output which holds nothing is not shown to the signer cannot be seen
from the batch alone, as a signer here is a function. `gather` makes the batch
with a signer that is asked in a monad. One that keeps a list of what it was
asked tells that it was asked for each output which holds something, once and in
order, and for no other.

## Main definitions

* `ClaimBatch.accepts`: An output that holds something and is signed for.
* `Claim.Fulfils`, `Skipped.Explains`: What becomes of an output, and why.
* `ClaimBatch.Partitions`: A batch that is a list cut in two.
* `ClaimBatch.gatherAll`: A batch made one output after another.
* `Signer.listed`: A signer that lists what it is asked.

## Theorems

* `ClaimBatch.attempt_cases`: What can become of one output.
* `ClaimBatch.partitions_ofUtxos`: What becomes of a list.
* `ClaimBatch.gather_listed`, `gatherAll_listed`: One output more, and a whole
  list, with what is asked.
* `ClaimBatch.ofUtxos_congr`: Nothing else of the signer matters.
* `ClaimBatch.cuts_in_two`: All of it.
-/

namespace CoinCommit

/-- The claim is what the signer makes of an output: it has the data of the output, its leaf, and
    the bytes that the signer gave for its spend. -/
structure Claim.Fulfils (c : Claim) (signer : Signer) (destination : Bytes) (u : Utxo) : Prop
    extends c.IsOf u where
  authorization : signer (Spend.ofUtxo u destination) = .ok c.authorization

/-- The output is skipped for the reason that is told of it: it holds nothing, or it holds something
    and the signer failed, whose text is the reason then. -/
structure Skipped.Explains (s : Skipped) (signer : Signer) (destination : Bytes) (u : Utxo) :
    Prop where
  outpoint : s.outpoint = u.outpoint
  unspendable : u.amount ≤ 0 → s.reason.message = "not spendable"
  refused : 0 < u.amount → ∃ e, signer (Spend.ofUtxo u destination) = .error e ∧
    s.reason.message = e.message

/-- The signer with a list of what it has been asked so far. -/
def Signer.listed (signer : Signer) (spend : Spend) :
    StateM (List Spend) (Except SignError Bytes) :=
  fun asked => (signer spend, asked ++ [spend])

namespace ClaimBatch

/-- Batches one after the other. -/
instance : Append ClaimBatch := ⟨fun a b => ⟨a.claims ++ b.claims, a.skipped ++ b.skipped⟩⟩

theorem append_eq (a b : ClaimBatch) :
    a ++ b = ⟨a.claims ++ b.claims, a.skipped ++ b.skipped⟩ := rfl

/-- Whether an output holds something and the signer authorises its spend. -/
def accepts (signer : Signer) (destination : Bytes) (u : Utxo) : Bool :=
  0 < u.amount && (signer (Spend.ofUtxo u destination)).isOk

/-- The batch is the list of outputs cut in two: one claim for each output that is accepted, one
    explanation for each other one, both in the order of the list. -/
structure Partitions (b : ClaimBatch) (signer : Signer) (destination : Bytes) (utxos : List Utxo) :
    Prop where
  claims : List.Forall₂ (fun u c => Claim.Fulfils c signer destination u)
    (utxos.filter fun u => accepts signer destination u) b.claims
  skipped : List.Forall₂ (fun u s => Skipped.Explains s signer destination u)
    (utxos.filter fun u => !accepts signer destination u) b.skipped

/-- The batch with one output more, where the signer is asked in a monad. -/
def gather {m : Type → Type} [Monad m] (ask : Spend → m (Except SignError Bytes))
    (destination : Bytes) (b : ClaimBatch) (u : Utxo) : m ClaimBatch :=
  if u.isSpendable then do
    let spend := Spend.ofUtxo u destination
    match ← ask spend with
    | .ok authorization =>
        let claim := ⟨u.txid, u.vout, u.script, u.amount, spend.leaf, authorization⟩
        return { b with claims := b.claims ++ [claim] }
    | .error e => return { b with skipped := b.skipped ++ [⟨u.outpoint, .notSigned e⟩] }
  else return { b with skipped := b.skipped ++ [⟨u.outpoint, .notSpendable⟩] }

/-- The batch of a list, made one output after another. -/
def gatherAll {m : Type → Type} [Monad m] (ask : Spend → m (Except SignError Bytes))
    (destination : Bytes) (utxos : List Utxo) : m ClaimBatch :=
  utxos.foldlM (gather ask destination) ⟨[], []⟩

variable {signer : Signer} {destination : Bytes}

/-- What can become of an output: it holds nothing, the signer fails, or it is claimed. -/
theorem attempt_cases (signer : Signer) (destination : Bytes) (u : Utxo) :
    (u.isSpendable = false ∧ attempt signer destination u = .error ⟨u.outpoint, .notSpendable⟩) ∨
      (∃ e, u.isSpendable = true ∧ signer (Spend.ofUtxo u destination) = .error e ∧
        attempt signer destination u = .error ⟨u.outpoint, .notSigned e⟩) ∨
      ∃ authorization, u.isSpendable = true ∧
        signer (Spend.ofUtxo u destination) = .ok authorization ∧
          attempt signer destination u = .ok ⟨u.txid, u.vout, u.script, u.amount,
            Leaf.hash u.txid u.script u.amount, authorization⟩ := by
  by_cases hu : u.isSpendable = true
  · -- The output holds something, so the signer decides.
    rcases hsigned : signer (Spend.ofUtxo u destination) with e | authorization
    · refine Or.inr (Or.inl ⟨e, hu, rfl, ?_⟩)
      rw [attempt, if_pos hu]
      simp only [hsigned]
    · refine Or.inr (Or.inr ⟨authorization, hu, rfl, ?_⟩)
      rw [attempt, if_pos hu]
      simp only [hsigned]
      rfl
  · exact Or.inl ⟨Bool.eq_false_iff.mpr hu, attempt_of_not_isSpendable hu⟩

theorem accepts_of_isSpendable {u : Utxo} (h : u.isSpendable = true) :
    accepts signer destination u = (signer (Spend.ofUtxo u destination)).isOk := by
  rw [accepts, show decide (0 < u.amount) = true from h, Bool.true_and]

theorem accepts_of_not_isSpendable {u : Utxo} (h : u.isSpendable = false) :
    accepts signer destination u = false := by
  rw [accepts, show decide (0 < u.amount) = false from h, Bool.false_and]

/-- Every output goes to one side of the cut, whatever becomes of those before and after it. -/
theorem partitions_ofUtxos (signer : Signer) (destination : Bytes) (utxos : List Utxo) :
    (ofUtxos signer destination utxos).Partitions signer destination utxos := by
  induction utxos with
  | nil => exact ⟨List.Forall₂.nil, List.Forall₂.nil⟩
  | cons u utxos ih =>
      -- An output that is not accepted comes with an explanation, and leaves the claims alone.
      have hskip : ∀ s, accepts signer destination u = false →
          Skipped.Explains s signer destination u →
          (cons (.error s) (ofUtxos signer destination utxos)).Partitions signer destination
            (u :: utxos) := by
        intro s hno hexplains
        constructor
        · rw [List.filter_cons_of_neg (by rw [hno]; exact Bool.false_ne_true)]
          exact ih.claims
        · rw [List.filter_cons_of_pos (by rw [hno]; rfl)]
          exact List.Forall₂.cons hexplains ih.skipped
      rw [ofUtxos_cons]
      rcases attempt_cases signer destination u with ⟨hu, hattempt⟩ | ⟨e, hu, hrefused, hattempt⟩ |
        ⟨authorization, hu, hsigned, hattempt⟩
      · rw [hattempt]
        -- It holds nothing, which no amount above zero does.
        refine hskip _ (accepts_of_not_isSpendable hu) ⟨rfl, fun _ => rfl, fun hpos => ?_⟩
        exact absurd hpos (of_decide_eq_false hu)
      · rw [hattempt]
        -- The signer refused it, and its text is the reason.
        refine hskip _ ?_ ⟨rfl, fun hle => ?_, fun _ => ⟨e, hrefused, rfl⟩⟩
        · rw [accepts_of_isSpendable hu, hrefused]
          rfl
        · exact absurd (of_decide_eq_true hu) (Int64.not_lt.mpr hle)
      · -- It is claimed, and the skipped ones are those of the rest.
        have hyes : accepts signer destination u = true := by
          rw [accepts_of_isSpendable hu, hsigned]
          rfl
        rw [hattempt]
        constructor
        · rw [List.filter_cons_of_pos hyes]
          exact List.Forall₂.cons ⟨⟨rfl, rfl, rfl, rfl, rfl⟩, hsigned⟩ ih.claims
        · rw [List.filter_cons_of_neg (by rw [hyes]; exact Bool.false_ne_true)]
          exact ih.skipped

/-- One output more: its own batch is added, and the signer is asked if the output holds
    something. -/
theorem gather_listed (signer : Signer) (destination : Bytes) (b : ClaimBatch) (u : Utxo)
    (asked : List Spend) :
    gather signer.listed destination b u asked =
      (b ++ ofUtxos signer destination [u],
        asked ++ ([u].filter Utxo.isSpendable).map fun u => Spend.ofUtxo u destination) := by
  have hone : ofUtxos signer destination [u] = cons (attempt signer destination u) ⟨[], []⟩ := rfl
  rw [hone, gather]
  rcases attempt_cases signer destination u with ⟨hu, hattempt⟩ | ⟨e, hu, hrefused, hattempt⟩ |
    ⟨authorization, hu, hsigned, hattempt⟩
  · -- Nothing is asked for an output that holds nothing.
    rw [hu, hattempt, List.filter_cons_of_neg (by rw [hu]; exact Bool.false_ne_true)]
    simp only [Bool.false_eq_true, if_false, cons, append_eq, List.append_nil, List.filter_nil,
      List.map_nil]
    rfl
  · -- The signer is asked once, whatever it answers.
    rw [hattempt, if_pos hu, List.filter_cons_of_pos hu]
    simp only [bind, StateT.bind, Signer.listed, hrefused, cons, append_eq, List.append_nil]
    rfl
  · rw [hattempt, if_pos hu, List.filter_cons_of_pos hu]
    simp only [bind, StateT.bind, Signer.listed, hsigned, cons, append_eq, List.append_nil]
    rfl

/-- A whole list: to what has been gathered and asked before, the batch of the list is added and the
    spends of the outputs in it that hold something. -/
theorem foldlM_gather_listed (signer : Signer) (destination : Bytes) (utxos : List Utxo)
    (b : ClaimBatch) (asked : List Spend) :
    utxos.foldlM (gather signer.listed destination) b asked =
      (b ++ ofUtxos signer destination utxos,
        asked ++ (utxos.filter Utxo.isSpendable).map fun u => Spend.ofUtxo u destination) := by
  induction utxos generalizing b asked with
  | nil =>
      rw [List.filter_nil, List.map_nil, List.append_nil]
      change (b, asked) = (b ++ ⟨[], []⟩, asked)
      rw [append_eq, List.append_nil, List.append_nil]
  | cons u utxos ih =>
      -- What is gathered of the first output is there when the second one comes.
      have hfirst := gather_listed signer destination b u asked
      have hrest := ih (b ++ ofUtxos signer destination [u])
        (asked ++ ([u].filter Utxo.isSpendable).map fun u => Spend.ofUtxo u destination)
      have hbatch : ofUtxos signer destination (u :: utxos) =
          ofUtxos signer destination [u] ++ ofUtxos signer destination utxos :=
        ofUtxos_append signer destination [u] utxos
      have hasked : (u :: utxos).filter Utxo.isSpendable =
          [u].filter Utxo.isSpendable ++ utxos.filter Utxo.isSpendable :=
        List.filter_append [u] utxos
      simp only [List.foldlM_cons, bind, StateT.bind, hfirst, hrest]
      rw [hbatch, hasked, List.map_append]
      simp only [append_eq, List.append_assoc]

theorem gatherAll_listed (signer : Signer) (destination : Bytes) (utxos : List Utxo) :
    gatherAll signer.listed destination utxos [] =
      (ofUtxos signer destination utxos,
        (utxos.filter Utxo.isSpendable).map fun u => Spend.ofUtxo u destination) := by
  rw [gatherAll, foldlM_gather_listed, append_eq, List.nil_append, List.nil_append,
    List.nil_append]

/-- Signers that agree on the outputs of a list which hold something make the same batch of it. -/
theorem ofUtxos_congr {other : Signer} {utxos : List Utxo}
    (h : ∀ u ∈ utxos, 0 < u.amount →
      other (Spend.ofUtxo u destination) = signer (Spend.ofUtxo u destination)) :
    ofUtxos other destination utxos = ofUtxos signer destination utxos := by
  induction utxos with
  | nil => rfl
  | cons u utxos ih =>
      -- The signers are asked the same of this output, or neither is asked.
      have hattempt : attempt other destination u = attempt signer destination u := by
        rw [attempt, attempt]
        by_cases hu : u.isSpendable = true
        · rw [if_pos hu, if_pos hu]
          simp only [h u List.mem_cons_self (of_decide_eq_true hu)]
        · rw [if_neg hu, if_neg hu]
      rw [ofUtxos_cons, ofUtxos_cons, hattempt, ih fun v hv => h v (List.mem_cons_of_mem u hv)]

/-- For every signer, destination and list of outputs: the batch is the list cut in two; made one
    output after another, it takes a question to the signer for each output that holds something
    and for no other, so that signers which agree on these make the same batch; and two lists in a
    row have their batches in a row. -/
theorem cuts_in_two (signer : Signer) (destination : Bytes) (utxos : List Utxo) :
    (ofUtxos signer destination utxos).Partitions signer destination utxos ∧
      gatherAll signer.listed destination utxos [] =
        (ofUtxos signer destination utxos,
          (utxos.filter fun u => 0 < u.amount).map fun u => Spend.ofUtxo u destination) ∧
      (∀ other : Signer, (∀ u ∈ utxos, 0 < u.amount →
          other (Spend.ofUtxo u destination) = signer (Spend.ofUtxo u destination)) →
        ofUtxos other destination utxos = ofUtxos signer destination utxos) ∧
      ∀ more, ofUtxos signer destination (utxos ++ more) =
        ofUtxos signer destination utxos ++ ofUtxos signer destination more :=
  ⟨partitions_ofUtxos signer destination utxos, gatherAll_listed signer destination utxos,
    fun _ h => ofUtxos_congr h, ofUtxos_append signer destination utxos⟩

end ClaimBatch

namespace Picky

/-- A signer for one script only, whose authorisation is the destination. -/
def signer : Signer := fun spend =>
  if spend.script = [1] then .ok spend.destination else .error .keyUnavailable

/-- The same signer, but for spends of outputs that hold nothing. -/
def otherSigner : Signer := fun spend =>
  if spend.amount ≤ 0 then .error (.failed "asked in vain") else signer spend

/-- The output of a number with a script of one byte. -/
def utxo (vout : UInt32) (script : UInt8) (amount : Int64) : Utxo :=
  ⟨Bytes32.fill 1, vout, [script], amount, 9⟩

/-- Two outputs that are claimed, and between them one without a key, one that holds nothing and
    one with a debt. -/
def utxos : List Utxo := [utxo 4 1 700, utxo 0 2 50, utxo 7 1 0, utxo 7 2 (-3), utxo 2 1 80]

end Picky

/-- The failure in the middle moves nothing else, and the other signer, which would fail with
    another text, is not asked in vain. -/
theorem ClaimBatch.cuts_picky_in_two :
    (∀ u ∈ Picky.utxos, 0 < u.amount →
        Picky.otherSigner (Spend.ofUtxo u [6]) = Picky.signer (Spend.ofUtxo u [6])) ∧
      ofUtxos Picky.otherSigner [6] Picky.utxos = ofUtxos Picky.signer [6] Picky.utxos ∧
        (ofUtxos Picky.signer [6] Picky.utxos).claims.map Claim.vout = [4, 2] ∧
          (ofUtxos Picky.signer [6] Picky.utxos).skipped =
            [⟨⟨Bytes32.fill 1, 0⟩, .notSigned .keyUnavailable⟩,
              ⟨⟨Bytes32.fill 1, 7⟩, .notSpendable⟩, ⟨⟨Bytes32.fill 1, 7⟩, .notSpendable⟩] := by
  have hagree : ∀ u ∈ Picky.utxos, 0 < u.amount →
      Picky.otherSigner (Spend.ofUtxo u [6]) = Picky.signer (Spend.ofUtxo u [6]) := by
    intro u _ hpos
    -- The other signer differs for spends that hold nothing only.
    exact if_neg (Int64.not_le.mpr hpos)
  have hcut := cuts_in_two Picky.signer [6] Picky.utxos
  exact ⟨hagree, hcut.2.2.1 Picky.otherSigner hagree, rfl, rfl⟩

end CoinCommit
