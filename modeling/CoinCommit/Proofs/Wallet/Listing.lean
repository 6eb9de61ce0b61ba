import CoinCommit.Proofs.Hash.Separated
import CoinCommit.Proofs.Ledger.Outputs
import CoinCommit.Proofs.Lists.Fallible
import CoinCommit.Proofs.Lists.Sorting
import CoinCommit.Wallet.Outputs

/-!
# What a Wallet Lists of Any Source

A source need not agree with itself. Its scan may come across a transaction
twice, and by the time an output is looked up it may be gone, or the look-up may
fail. Whatever the source does, there is one thing a wallet may answer.

It wants the outputs that the scan has come across within the window and under
its scripts. If one of them cannot be looked up, the first such look-up is the
fault; otherwise it lists those that are found live, in the order of their
outpoints, and where outpoints are the same in the order of the scan. What is
not wanted is not looked up, so that no fault comes from there.

## Main definitions

* `KeyRing.wanted`: The outputs of records that the wallet looks up.
* `Source.findsLive`: What a look-up says of an outpoint.
* `Source.Keeps`: The list of those outputs that look-ups find live.
* `KeyRing.Outcome`: What the wallet may answer.

## Theorems

* `Source.Keeps.eq_mergeSort`: There is one such list.
* `KeyRing.exists_outcome`, `KeyRing.Outcome.unspentOutputs_eq`: There is an
  answer, and the wallet gives no other one.
* `KeyRing.Outcome.congr`: It hangs on the look-ups of what is wanted.
* `KeyRing.unspentOutputs_outcome`: What a wallet answers, and when it fails.
-/

namespace CoinCommit

namespace Source

variable {source other : Source} {o : Outpoint} {us listed : List Utxo}

/-- Whether the look-up gives a record in which the output is live. -/
def findsLive (source : Source) (o : Outpoint) : Bool :=
  match source.coin o.txid with
  | .ok (some r) => (r.output? o.vout).isSome
  | _ => false

theorem isUnspent_of_ok {found : Option CoinRecord} (h : source.coin o.txid = .ok found) :
    source.isUnspent o = .ok (source.findsLive o) := by
  rw [isUnspent, findsLive, h]
  cases found <;> rfl

theorem isUnspent_of_error {e : Fault} (h : source.coin o.txid = .error e) :
    source.isUnspent o = .error e := by
  rw [isUnspent, h]
  rfl

theorem findsLive_congr (h : other.coin o.txid = source.coin o.txid) :
    other.findsLive o = source.findsLive o := by
  rw [findsLive, findsLive, h]

/-- The list has those of the outputs that a look-up finds live, each as often, in the order of
    their outpoints; where these are the same, in the order in which the outputs came. -/
structure Keeps (source : Source) (us listed : List Utxo) : Prop where
  perm : listed.Perm (us.filter fun u => source.findsLive u.outpoint)
  ascending : listed.Pairwise fun a b => a.outpoint < b.outpoint ∨ a.outpoint = b.outpoint
  stable : ∀ o, (listed.filter fun u => u.outpoint = o) =
    (us.filter fun u => source.findsLive u.outpoint).filter fun u => u.outpoint = o

theorem keeps_mergeSort (source : Source) (us : List Utxo) :
    source.Keeps us ((us.filter fun u => source.findsLive u.outpoint).mergeSort fun a b =>
      a.outpoint.before b.outpoint) where
  perm := List.mergeSort_perm _ _
  ascending := by
    -- A merge sort leaves its items in order if the order is total and transitive.
    refine List.Pairwise.imp (fun h => Outpoint.before_iff.mp h) (List.pairwise_mergeSort ?_ ?_ _)
    · exact fun _ _ _ => Outpoint.before_trans
    · exact fun _ _ => Outpoint.before_total _ _
  stable := filter_key_mergeSort Utxo.outpoint Outpoint.before
    (fun _ _ _ => Outpoint.before_trans) Outpoint.before_total _

/-- The order leaves no choice. -/
theorem Keeps.eq_mergeSort (h : source.Keeps us listed) :
    ((us.filter fun u => source.findsLive u.outpoint).mergeSort fun a b =>
      a.outpoint.before b.outpoint) = listed := by
  have hsort := keeps_mergeSort source us
  refine eq_of_pairwise_of_filter_key (fun _ _ => Outpoint.before_antisymm)
    (hsort.ascending.imp Outpoint.before_iff.mpr) (h.ascending.imp Outpoint.before_iff.mpr)
    fun o => ?_
  rw [hsort.stable, h.stable]

theorem Keeps.congr (h : source.Keeps us listed)
    (hsame : ∀ u ∈ us, other.coin u.txid = source.coin u.txid) : other.Keeps us listed := by
  -- Whether an output is live is asked of look-ups that the sources share.
  have hlive : (us.filter fun u => other.findsLive u.outpoint) =
      us.filter fun u => source.findsLive u.outpoint :=
    List.filter_congr fun u hu => findsLive_congr (hsame u hu)
  exact ⟨hlive ▸ h.perm, h.ascending, hlive ▸ h.stable⟩

end Source

namespace KeyRing

variable {scheme : SignatureScheme} {ring : KeyRing scheme} {w : Window} {source other : Source}
  {result : Except Fault (List Utxo)}

/-- The live outputs of records whose height lies in the window and whose script the ring owns. -/
def wanted (ring : KeyRing scheme) (w : Window) (records : List CoinRecord) : List Utxo :=
  (records.flatMap CoinRecord.utxos).filter fun u => w.contains u.height && ring.owns u.script

theorem ownedOutputs_eq_wanted (ring : KeyRing scheme) (w : Window) (records : List CoinRecord) :
    ring.ownedOutputs w records = ring.wanted w records := by
  rw [ownedOutputs]
  change (CoinRecord.outputsAt w.contains records).filter _ = _
  rw [CoinRecord.outputsAt_eq_filter, List.filter_filter, wanted]
  exact List.filter_congr fun u _ => Bool.and_comm _ _

/-- What a wallet may answer: the fault of the scan, the fault of the first look-up that fails, or
    the list. Faults are those of the wallet and name the fault of the source in their text. -/
inductive Outcome (ring : KeyRing scheme) (w : Window) (source : Source) :
    Except Fault (List Utxo) → Prop
  | scanFault {e : Fault} (h : source.scan = .error e) :
      Outcome ring w source (.error ⟨.wallet, e.display⟩)
  | lookupFault {scan : Scan} {before after : List Utxo} {u : Utxo} {e : Fault}
      (hscan : source.scan = .ok scan)
      (hwanted : ring.wanted w scan.records = before ++ u :: after)
      (hbefore : ∀ v ∈ before, ∃ found, source.coin v.txid = .ok found)
      (h : source.coin u.txid = .error e) :
      Outcome ring w source (.error ⟨.wallet, e.display⟩)
  | listed {scan : Scan} {listed : List Utxo} (hscan : source.scan = .ok scan)
      (hfound : ∀ u ∈ ring.wanted w scan.records, ∃ found, source.coin u.txid = .ok found)
      (h : source.Keeps (ring.wanted w scan.records) listed) :
      Outcome ring w source (.ok listed)

theorem exists_outcome (ring : KeyRing scheme) (w : Window) (source : Source) :
    ∃ result, ring.Outcome w source result := by
  rcases hscan : source.scan with e | scan
  · exact ⟨_, .scanFault hscan⟩
  -- The first look-up that fails decides, if any does.
  rcases exists_first_error (fun u : Utxo => source.coin u.txid) (ring.wanted w scan.records) with
    hfound | ⟨before, u, after, e, hwanted, hbefore, hu⟩
  · exact ⟨_, .listed hscan hfound (source.keeps_mergeSort _)⟩
  · exact ⟨_, .lookupFault hscan hwanted hbefore hu⟩

theorem unspentOutputs_of_scan {scan : Scan} (hscan : source.scan = .ok scan) :
    ring.unspentOutputs w source =
      ((ring.wanted w scan.records).filterM fun u =>
        (source.isUnspent u.outpoint).mapError Fault.ofWallet).map fun us =>
          us.mergeSort fun a b => a.outpoint.before b.outpoint := by
  rw [unspentOutputs, hscan]
  change List.filterM (m := Except Fault) _ (ring.ownedOutputs w scan.records) >>= _ = _
  rw [ownedOutputs_eq_wanted]
  cases List.filterM (m := Except Fault) _ (ring.wanted w scan.records) <;> rfl

/-- The wallet answers what it may. -/
theorem Outcome.unspentOutputs_eq (h : ring.Outcome w source result) :
    ring.unspentOutputs w source = result := by
  -- A look-up that gives a record tells whether the output is live.
  have hlooked : ∀ (u : Utxo), (∃ found, source.coin u.txid = .ok found) →
      (source.isUnspent u.outpoint).mapError Fault.ofWallet =
        .ok (source.findsLive u.outpoint) := by
    rintro u ⟨found, hfound⟩
    rw [Source.isUnspent_of_ok hfound]
    rfl
  cases h with
  | scanFault h =>
      rw [unspentOutputs, h]
      rfl
  -- The look-ups in front of the failing one succeed, and the test stops at it.
  | lookupFault hscan hwanted hbefore h =>
      rename_i u e
      have hu : (source.isUnspent u.outpoint).mapError Fault.ofWallet =
          .error ⟨.wallet, e.display⟩ := by
        rw [Source.isUnspent_of_error h]
        rfl
      rw [unspentOutputs_of_scan hscan, hwanted,
        filterM_of_error (fun v hv => ⟨_, hlooked v (hbefore v hv)⟩) hu]
      rfl
  | listed hscan hfound h =>
      rw [unspentOutputs_of_scan hscan, filterM_of_ok fun u hu => hlooked u (hfound u hu)]
      exact congrArg Except.ok h.eq_mergeSort

/-- Look-ups of other transactions do not matter, whether they fail or not. -/
theorem Outcome.congr (h : ring.Outcome w source result) (hscan : other.scan = source.scan)
    (hcoin : ∀ scan, source.scan = .ok scan → ∀ u ∈ ring.wanted w scan.records,
      other.coin u.txid = source.coin u.txid) : ring.Outcome w other result := by
  cases h with
  | scanFault h => exact .scanFault (hscan.trans h)
  -- Both sources want the same outputs, and look them up alike.
  | lookupFault h hwanted hbefore hu =>
      have hsame := hcoin _ h
      rw [hwanted] at hsame
      refine .lookupFault (hscan.trans h) hwanted (fun v hv => ?_)
        ((hsame _ (List.mem_append_right _ List.mem_cons_self)).trans hu)
      rw [hsame v (List.mem_append_left _ hv)]
      exact hbefore v hv
  | listed h hfound hkeeps =>
      refine .listed (hscan.trans h) (fun u hu => ?_) (hkeeps.congr (hcoin _ h))
      rw [hcoin _ h u hu]
      exact hfound u hu

/-- What a wallet answers of any source: it answers what it may and nothing else; it fails if the
    scan does, or the look-up of an output that is wanted; and other look-ups do not matter. -/
theorem unspentOutputs_outcome (ring : KeyRing scheme) (w : Window) (source : Source) :
    (∀ result, ring.unspentOutputs w source = result ↔ ring.Outcome w source result) ∧
      ((∃ e, ring.unspentOutputs w source = .error e) ↔
        (∃ e, source.scan = .error e) ∨
          ∃ scan, source.scan = .ok scan ∧
            ∃ u ∈ ring.wanted w scan.records, ∃ e, source.coin u.txid = .error e) ∧
      ∀ other : Source, other.scan = source.scan →
        (∀ scan, source.scan = .ok scan → ∀ u ∈ ring.wanted w scan.records,
          other.coin u.txid = source.coin u.txid) →
        ring.unspentOutputs w other = ring.unspentOutputs w source := by
  rcases exists_outcome ring w source with ⟨result, h⟩
  have hanswer := h.unspentOutputs_eq
  refine ⟨fun result' => ⟨?_, Outcome.unspentOutputs_eq⟩, ?_, fun other hscan hcoin => ?_⟩
  · rintro rfl
    rw [hanswer]
    exact h
  · rw [hanswer]
    -- Two of the three ways end in a fault.
    cases h with
    | scanFault h => exact iff_of_true ⟨_, rfl⟩ (Or.inl ⟨_, h⟩)
    | lookupFault hscan hwanted _ h =>
        refine iff_of_true ⟨_, rfl⟩ (Or.inr ⟨_, hscan, _, ?_, _, h⟩)
        rw [hwanted]
        exact List.mem_append_right _ List.mem_cons_self
    | listed hscan hfound _ =>
        refine iff_of_false (fun ⟨_, he⟩ => nomatch he) ?_
        -- Neither the scan nor a look-up that is made has failed.
        rintro (⟨e, he⟩ | ⟨scan, hscan', u, hu, e, he⟩)
        · cases hscan.symm.trans he
        · cases hscan.symm.trans hscan'
          rcases hfound u hu with ⟨found, hfound⟩
          cases hfound.symm.trans he
  · rw [(h.congr hscan hcoin).unspentOutputs_eq, hanswer]

end KeyRing

namespace Fickle

/-- A ring with one key. -/
def ring : KeyRing ed25519 := KeyRing.empty.insert (.fill 7)

/-- The script of that key. -/
def script : Bytes := KeyRing.scriptOf ed25519 (.fill 7)

/-- Records with outputs of the key and of others. A transaction comes twice. -/
def records : List CoinRecord :=
  [⟨.fill 2, 10, false, [some ⟨5, script⟩, some ⟨6, [0x6a]⟩, some ⟨7, script⟩]⟩,
    ⟨.fill 3, 10, false, [some ⟨8, [0x6a]⟩]⟩, ⟨.fill 1, 11, false, [some ⟨9, script⟩]⟩,
    ⟨.fill 2, 12, false, [some ⟨11, script⟩]⟩]

/-- A source whose look-ups give what is left after a spend, and which cannot look up the
    transaction without outputs of the key. -/
def source : Source where
  scan := .ok ⟨records, 0⟩
  coin txid :=
    if txid = .fill 3 then .error ⟨.store, "unreadable"⟩
    else if txid = .fill 2 then .ok (some ⟨txid, 10, false, [some ⟨5, script⟩]⟩)
    else .ok (some ⟨txid, 11, false, [some ⟨9, script⟩]⟩)

/-- The same source when it can look up nothing. -/
def failing : Source := { source with coin := fun _ => .error ⟨.store, "unreadable"⟩ }

/-- The outputs of the key in the order of the scan. -/
def wanted : List Utxo :=
  [⟨.fill 2, 0, script, 5, 10⟩, ⟨.fill 2, 2, script, 7, 10⟩, ⟨.fill 1, 0, script, 9, 11⟩,
    ⟨.fill 2, 0, script, 11, 12⟩]

/-- Those of them that are listed. -/
def listed : List Utxo :=
  [⟨.fill 1, 0, script, 9, 11⟩, ⟨.fill 2, 0, script, 5, 10⟩, ⟨.fill 2, 0, script, 11, 12⟩]

theorem owns_script : ring.owns script = true := by
  have hkey : KeyScript.decode? script = some (ed25519.publicKey (.fill 7)) :=
    KeyScript.decode?_eq_some_iff.mpr rfl
  rw [KeyRing.owns, hkey]
  change (ring.secret? _).isSome = true
  rw [ring, KeyRing.secret?_insert, if_pos rfl, Option.isSome_some]

theorem wanted_records : ring.wanted .all records = wanted := by
  -- One byte names no key.
  have hother : ring.owns [0x6a] = false := rfl
  have hall : records.flatMap CoinRecord.utxos =
      [⟨.fill 2, 0, script, 5, 10⟩, ⟨.fill 2, 1, [0x6a], 6, 10⟩, ⟨.fill 2, 2, script, 7, 10⟩,
        ⟨.fill 3, 0, [0x6a], 8, 10⟩, ⟨.fill 1, 0, script, 9, 11⟩,
        ⟨.fill 2, 0, script, 11, 12⟩] := rfl
  simp only [KeyRing.wanted, hall, List.filter_cons, List.filter_nil, Window.contains_all,
    owns_script, hother, Bool.and_self, Bool.and_false, Bool.false_eq_true, if_true, if_false,
    wanted]

theorem exists_coin_of_mem_wanted : ∀ u ∈ wanted, ∃ found, source.coin u.txid = .ok found := by
  simp only [wanted, List.forall_mem_cons]
  exact ⟨⟨_, rfl⟩, ⟨_, rfl⟩, ⟨_, rfl⟩, ⟨_, rfl⟩, fun _ h => nomatch h⟩

theorem keeps_wanted : source.Keeps wanted listed := by
  have hordered : listed.Pairwise fun a b => a.outpoint.before b.outpoint = true := by decide
  refine ⟨.swap _ _ _, hordered.imp Outpoint.before_iff.mp, fun o => ?_⟩
  have hlive : (wanted.filter fun u => source.findsLive u.outpoint) =
      [⟨.fill 2, 0, script, 5, 10⟩, ⟨.fill 1, 0, script, 9, 11⟩,
        ⟨.fill 2, 0, script, 11, 12⟩] := rfl
  rw [hlive, listed]
  by_cases hfirst : (⟨.fill 1, 0⟩ : Outpoint) = o
  · subst hfirst
    rfl
  · -- Without the output that is moved to the front the lists are the same.
    simp only [List.filter_cons, Utxo.outpoint, hfirst, decide_false, Bool.false_eq_true,
      if_false]

end Fickle

/-- The output that is gone is left out, the other two of its transaction come in the order of the
    scan, and the look-up that would fail is not made. -/
theorem KeyRing.unspentOutputs_outcome_of_fickle :
    Fickle.ring.unspentOutputs .all Fickle.source = .ok Fickle.listed ∧
      Fickle.ring.unspentOutputs .all Fickle.failing =
        .error ⟨.wallet, "SNAPSHOT_ERR_STORE: unreadable"⟩ := by
  constructor
  · refine ((unspentOutputs_outcome _ _ _).1 _).mpr (.listed rfl ?_ ?_)
    · rw [Fickle.wanted_records]
      exact Fickle.exists_coin_of_mem_wanted
    · rw [Fickle.wanted_records]
      exact Fickle.keeps_wanted
  · have hcoin : Fickle.failing.coin (.fill 2) = .error ⟨.store, "unreadable"⟩ := rfl
    have hwanted : Fickle.ring.wanted .all Fickle.records = [] ++ Fickle.wanted :=
      Fickle.wanted_records
    have hfault : Fickle.ring.Outcome .all Fickle.failing
        (.error ⟨.wallet, Fault.display ⟨.store, "unreadable"⟩⟩) :=
      .lookupFault rfl hwanted (fun _ h => nomatch h) hcoin
    exact ((unspentOutputs_outcome _ _ _).1 _).mpr hfault

end CoinCommit
