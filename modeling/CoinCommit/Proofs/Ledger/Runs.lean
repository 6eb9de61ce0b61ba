import CoinCommit.Proofs.Hash.Separated
import CoinCommit.Proofs.Ledger.Representation

/-!
# Histories of the Chain State

A session goes through batches one after another, each of which is committed or
dropped in the end. A `ChainView` goes through the same actions on maps of
coins: it has a committed map and, while a batch is open, a copy that the batch
works on. Nothing told apart by a map is lost in a table, so after every
history the two give the same reply to whatever comes next, and whatever is
read of the committed table is what the committed map says.

What a history says about one output can then be told on the maps. Once it is
spent it stays so, until a record of its transaction is put again or the batch
that spent it is dropped. Dropping a batch takes back its spends, so an output
can be spent any number of times in a row if all batches but the last are
dropped.

## Main definitions

* `Action`, `Reply`: What is done, and what is answered.
* `Session.perform`, `Session.after`: An action, and a history of actions.
* `ChainView`: A committed map, and the copy of an open batch.
* `Session.Represents`: A session that stands for such a view.
* `ChainView.Gone`, `ChainView.GoneFromBatch`: An output that is spent for
  good, and one that is spent as far as the batch goes.

## Theorems

* `Session.Represents.perform`, `Session.Represents.after`: A session goes on to
  stand for its view.
* `ChainView.exists_put_or_drop`: What must lie between two spends.
* `Session.refines`: A session is its view, after every history.
* `Session.spent_twice`: A spend that was dropped can be made again.
-/

namespace CoinCommit

/-- What can be done to the chain state. -/
inductive Action where
  | start
  | put (r : CoinRecord)
  | delete (txid : Bytes32)
  | setTip (height : UInt64)
  | spend (o : Outpoint)
  | commit
  | abandon

/-- A record that is put is one that can be read back. -/
def Action.WithinLimits : Action → Prop
  | .put r => r.WithinLimits
  | .start | .delete _ | .setTip _ | .spend _ | .commit | .abandon => True

/-- The batch that is open before a history is dropped in it, not committed. -/
def DropsBatch (history : List Action) : Prop :=
  ∃ front rest, history = front ++ .abandon :: rest ∧ .commit ∉ front

/-- The answer to an action. Only a spend tells anything. -/
inductive Reply where
  | refused (e : SessionError)
  | done
  | spent (answer : Except CoinError Bool)
deriving DecidableEq

namespace Session

/-- A step without an answer; a session is what it was if the step is refused. -/
def settle (s : Session) : Except SessionError Session → Reply × Session
  | .ok s' => (.done, s')
  | .error e => (.refused e, s)

/-- The reply to an action, and the session after it. -/
def perform (s : Session) : Action → Reply × Session
  | .start => s.settle s.start
  | .put r => s.settle (s.write (.putCoin r))
  | .delete txid => s.settle (s.write (.deleteCoin txid))
  | .setTip height => s.settle (s.write (.putTip height))
  | .spend o =>
      match s.spend o with
      | .ok (answer, s') => (.spent answer, s')
      | .error e => (.refused e, s)
  | .commit => s.settle s.commit
  | .abandon => (.done, s.abandon)

/-- The session after a history. -/
def after (s : Session) (history : List Action) : Session :=
  history.foldl (fun s a => (s.perform a).2) s

end Session

/-- A committed map of coins, and the copy that an open batch works on. -/
structure ChainView where
  committed : CoinMap
  batch : Option CoinMap

namespace ChainView

/-- No coins, and no batch open. -/
def empty : ChainView := ⟨CoinMap.empty, none⟩

/-- A change of the copy. -/
def change (v : ChainView) (f : CoinMap → CoinMap) : Reply × ChainView :=
  match v.batch with
  | some m => (.done, { v with batch := some (f m) })
  | none => (.refused .noBatch, v)

/-- The reply to an action, and the view after it. -/
def perform (v : ChainView) : Action → Reply × ChainView
  | .start =>
      match v.batch with
      | some _ => (.refused .batchOpen, v)
      | none => (.done, { v with batch := some v.committed })
  | .put r => v.change fun m => m.put r
  | .delete txid => v.change fun m => m.delete txid
  | .setTip height => v.change fun m => m.setTip height
  | .spend o =>
      match v.batch with
      | some m => (.spent (.ok (m.spend o).1), { v with batch := some (m.spend o).2 })
      | none => (.refused .noBatch, v)
  | .commit =>
      match v.batch with
      | some m => (.done, ⟨m, none⟩)
      | none => (.refused .noBatch, v)
  | .abandon => (.done, { v with batch := none })

/-- The view after a history. -/
def after (v : ChainView) (history : List Action) : ChainView :=
  history.foldl (fun v a => (v.perform a).2) v

end ChainView

namespace Session

/-- The committed table stands for the committed map, and an open batch for its copy. -/
structure Represents (s : Session) (v : ChainView) : Prop where
  committed : s.committed.Represents v.committed
  batch : Option.Rel Table.Represents s.batch v.batch

namespace Represents

variable {s : Session} {v : ChainView}

theorem reply_eq (h : s.Represents v) (a : Action) : (s.perform a).1 = (v.perform a).1 := by
  rcases s with ⟨t, batch⟩
  rcases v with ⟨m, batch'⟩
  rcases h with ⟨hcommitted, hbatch⟩
  cases hbatch with
  -- Without a batch both refuse the same actions for the same reason.
  | none => cases a <;> rfl
  | @some t' m' hcopy =>
      cases a with
      -- What a spend tells is decided by the copy alone.
      | spend o => exact congrArg Reply.spent (hcopy.spendOutput o).1
      | start | put | delete | setTip | commit | abandon => rfl

-- One action leads from a session and its view to a session and its view.
theorem perform (h : s.Represents v) {a : Action} (ha : a.WithinLimits) :
    (s.perform a).2.Represents (v.perform a).2 := by
  rcases s with ⟨t, batch⟩
  rcases v with ⟨m, batch'⟩
  rcases h with ⟨hcommitted, hbatch⟩
  cases hbatch with
  -- Whatever is refused leaves both as they were.
  | none =>
      cases a with
      | start => exact ⟨hcommitted, .some hcommitted⟩
      | put | delete | setTip | spend | commit | abandon => exact ⟨hcommitted, .none⟩
  | @some t' m' hcopy =>
      cases a with
      | start => exact ⟨hcommitted, .some hcopy⟩
      | put r => exact ⟨hcommitted, .some (hcopy.putCoin ha)⟩
      | delete txid => exact ⟨hcommitted, .some (hcopy.deleteCoin txid)⟩
      | setTip height => exact ⟨hcommitted, .some (hcopy.putTip height)⟩
      | spend o => exact ⟨hcommitted, .some (hcopy.spendOutput o).2⟩
      -- What is committed is the copy, and it is represented already.
      | commit => exact ⟨hcopy, .none⟩
      | abandon => exact ⟨hcommitted, .none⟩

-- So does every history, by induction along it.
theorem after (h : s.Represents v) {history : List Action}
    (hlimits : ∀ a ∈ history, a.WithinLimits) :
    (s.after history).Represents (v.after history) := by
  induction history generalizing s v with
  | nil => exact h
  | cons a rest ih =>
      -- One action more is one step from what is represented.
      have hfirst := h.perform (hlimits a List.mem_cons_self)
      exact ih hfirst fun a' ha' => hlimits a' (List.mem_cons_of_mem a ha')

end Represents

theorem represents_empty : (ofTable Table.empty).Represents ChainView.empty :=
  ⟨Table.represents_empty, .none⟩

end Session

namespace ChainView

variable {v : ChainView} {o : Outpoint}

/-- The output is not live, neither for the batch nor without it. -/
structure Gone (v : ChainView) (o : Outpoint) : Prop where
  committed : v.committed.isLive o = false
  batch : ∀ m, v.batch = some m → m.isLive o = false

/-- The output is not live as far as the open batch goes. -/
def GoneFromBatch (v : ChainView) (o : Outpoint) : Prop :=
  ∃ m, v.batch = some m ∧ m.isLive o = false

-- As long as the batch goes on, it has a copy in which the output is not live.
theorem exists_copy_of_perform {m : CoinMap} (hbatch : v.batch = some m)
    (hdead : m.isLive o = false) {a : Action} (hput : ∀ r, a = .put r → r.txid ≠ o.txid)
    (hcommit : a ≠ .commit) (habandon : a ≠ .abandon) :
    ∃ m', (v.perform a).2 = ⟨v.committed, some m'⟩ ∧ m'.isLive o = false := by
  rcases v with ⟨committed, batch⟩
  cases hbatch
  cases a with
  | start => exact ⟨m, rfl, hdead⟩
  -- No record of the transaction is put, so the output stays dead.
  | put r => exact ⟨_, rfl, CoinMap.not_isLive_put hdead (hput r rfl)⟩
  | delete txid => exact ⟨_, rfl, CoinMap.not_isLive_delete hdead txid⟩
  | setTip height => exact ⟨_, rfl, hdead⟩
  | spend o' => exact ⟨_, rfl, CoinMap.not_isLive_spend hdead o'⟩
  | commit => exact absurd rfl hcommit
  | abandon => exact absurd rfl habandon

theorem Gone.of_committed {m : CoinMap} (h : m.isLive o = false) : Gone ⟨m, none⟩ o := by
  refine ⟨h, fun _ hnone => ?_⟩
  cases hnone

theorem Gone.of_copy {m m' : CoinMap} (h : m.isLive o = false) (h' : m'.isLive o = false) :
    Gone ⟨m, some m'⟩ o := by
  refine ⟨h, fun _ hcopy => ?_⟩
  cases hcopy
  exact h'

theorem Gone.perform (h : v.Gone o) {a : Action}
    (hput : ∀ r, a = .put r → r.txid ≠ o.txid) : (v.perform a).2.Gone o := by
  rcases v with ⟨m, _ | m'⟩
  · -- Without a batch nothing changes, unless one is opened on what is committed.
    cases a with
    | start => exact .of_copy h.committed h.committed
    | put | delete | setTip | spend | commit | abandon => exact h
  · have hcopy : m'.isLive o = false := h.batch m' rfl
    by_cases hcommit : a = .commit
    · subst hcommit
      exact .of_committed hcopy
    · by_cases habandon : a = .abandon
      · subst habandon
        exact .of_committed h.committed
      · have hbatch : (ChainView.mk m (some m')).batch = some m' := rfl
        rcases exists_copy_of_perform hbatch hcopy hput hcommit habandon with ⟨m'', hnext, hdead⟩
        rw [hnext]
        exact .of_copy h.committed hdead

theorem Gone.after (h : v.Gone o) {history : List Action}
    (hput : ∀ r, .put r ∈ history → r.txid ≠ o.txid) : (v.after history).Gone o := by
  induction history generalizing v with
  | nil => exact h
  | cons a rest ih =>
      have hfirst : (v.perform a).2.Gone o :=
        h.perform fun r hr => hput r (hr ▸ List.mem_cons_self)
      exact ih hfirst fun r hr => hput r (List.mem_cons_of_mem a hr)

theorem GoneFromBatch.perform (h : v.GoneFromBatch o) {a : Action}
    (hput : ∀ r, a = .put r → r.txid ≠ o.txid) (hcommit : a ≠ .commit)
    (habandon : a ≠ .abandon) : (v.perform a).2.GoneFromBatch o := by
  rcases h with ⟨m, hbatch, hdead⟩
  rcases exists_copy_of_perform hbatch hdead hput hcommit habandon with ⟨m', hnext, hdead'⟩
  exact ⟨m', by rw [hnext], hdead'⟩

-- A commit is what makes it spent for good.
theorem GoneFromBatch.commit (h : v.GoneFromBatch o) : (v.perform .commit).2.Gone o := by
  rcases v with ⟨m, batch⟩
  rcases h with ⟨m', rfl, hdead⟩
  exact .of_committed hdead

theorem GoneFromBatch.after (h : v.GoneFromBatch o) {history : List Action}
    (hput : ∀ r, .put r ∈ history → r.txid ≠ o.txid) (hdrop : ¬ DropsBatch history) :
    ∀ m, (v.after history).batch = some m → m.isLive o = false := by
  induction history generalizing v with
  | nil =>
      -- Nothing was done since, so the batch is the one in which the output is dead.
      rcases h with ⟨m, hbatch, hcopy⟩
      intro m' hm'
      cases hbatch.symm.trans hm'
      exact hcopy
  | cons a rest ih =>
      have hrest : ∀ r, .put r ∈ rest → r.txid ≠ o.txid :=
        fun r hr => hput r (List.mem_cons_of_mem a hr)
      have hfirst : ∀ r, a = .put r → r.txid ≠ o.txid :=
        fun r hr => hput r (hr ▸ List.mem_cons_self)
      -- The first commit ends the batch; until then, the history must not drop it.
      by_cases hcommit : a = .commit
      · subst hcommit
        exact (h.commit.after hrest).batch
      · have habandon : a ≠ .abandon := by
          rintro rfl
          exact hdrop ⟨[], rest, rfl, List.not_mem_nil⟩
        refine ih (h.perform hfirst hcommit habandon) hrest ?_
        -- Were the batch dropped in the rest, it would be dropped in the whole.
        rintro ⟨front, rest', rfl, hfront⟩
        refine hdrop ⟨a :: front, rest', rfl, ?_⟩
        rw [List.mem_cons, not_or]
        exact ⟨Ne.symm hcommit, hfront⟩

theorem exists_copy_of_spent (h : (v.perform (.spend o)).1 = .spent (.ok true)) :
    ∃ m, v.batch = some m ∧ m.isLive o = true := by
  rcases v with ⟨committed, _ | m⟩
  · cases h
  · refine ⟨m, rfl, ?_⟩
    rw [← CoinMap.fst_spend]
    exact Except.ok.inj (Reply.spent.inj h)

/-- An output that is spent twice has been put again in between, or the batch that spent it first
    has been dropped. -/
theorem exists_put_or_drop {history : List Action}
    (hfirst : (v.perform (.spend o)).1 = .spent (.ok true))
    (hagain : (((v.perform (.spend o)).2.after history).perform (.spend o)).1 =
      .spent (.ok true)) :
    (∃ r, .put r ∈ history ∧ r.txid = o.txid) ∨ DropsBatch history := by
  -- With neither between them, the output would be dead when it is spent again.
  by_contra hnone
  rw [not_or, not_exists] at hnone
  have hput : ∀ r, .put r ∈ history → r.txid ≠ o.txid :=
    fun r hr htxid => hnone.1 r ⟨hr, htxid⟩
  rcases exists_copy_of_spent hfirst with ⟨m, hbatch, _⟩
  -- Right after the first spend it is dead in the batch, committed or not.
  have hgone : (v.perform (.spend o)).2.GoneFromBatch o := by
    rcases v with ⟨committed, batch⟩
    cases hbatch
    exact ⟨(m.spend o).2, rfl, by rw [CoinMap.isLive_spend, if_pos rfl]⟩
  rcases exists_copy_of_spent hagain with ⟨m', hbatch', hlive⟩
  rw [hgone.after hput hnone.2 m' hbatch'] at hlive
  cases hlive

end ChainView

namespace Session

/-- After every history from the empty chain state on, in which no record goes beyond the limits,
    what is read of the committed table is what the committed map says, and every action has the
    reply that it has on the maps. So an output that was spent cannot be spent again, unless it is
    put again or its batch is dropped. -/
theorem refines (history : List Action) (hlimits : ∀ a ∈ history, a.WithinLimits) :
    ((ofTable Table.empty).after history).committed.Answers
        (ChainView.empty.after history).committed ∧
      (∀ a : Action, (((ofTable Table.empty).after history).perform a).1 =
        ((ChainView.empty.after history).perform a).1) ∧
      ∀ (o : Outpoint) (front rest : List Action), history = front ++ .spend o :: rest →
        (((ofTable Table.empty).after front).perform (.spend o)).1 = .spent (.ok true) →
        (((ofTable Table.empty).after history).perform (.spend o)).1 = .spent (.ok true) →
          (∃ r, .put r ∈ rest ∧ r.txid = o.txid) ∨ DropsBatch rest := by
  have hafter := represents_empty.after hlimits
  refine ⟨hafter.committed.answers, hafter.reply_eq, ?_⟩
  -- The history is cut at the first spend, and the maps are asked on both sides of it.
  rintro o front rest rfl hfirst hagain
  have hfront : ∀ a ∈ front, a.WithinLimits :=
    fun a ha => hlimits a (List.mem_append_left _ ha)
  rw [(represents_empty.after hfront).reply_eq] at hfirst
  rw [hafter.reply_eq] at hagain
  refine ChainView.exists_put_or_drop hfirst ?_
  have hsplit : (ChainView.empty.after (front ++ .spend o :: rest)) =
      ((ChainView.empty.after front).perform (.spend o)).2.after rest := by
    rw [ChainView.after, List.foldl_append]
    rfl
  rw [← hsplit]
  exact hagain

end Session

namespace TwoOutputs

/-- A record with two outputs. -/
def record : CoinRecord :=
  ⟨Bytes32.fill 1, 9, false, [some ⟨5000, [1]⟩, some ⟨6000, [2]⟩]⟩

/-- The first of them. -/
def first : Outpoint := ⟨Bytes32.fill 1, 0⟩

/-- The record is put and committed, and another batch is opened. -/
def opened : List Action := [.start, .put record, .setTip 9, .commit, .start]

/-- The first output is spent in that batch, which is dropped, and yet another is opened. -/
def dropped : List Action := opened ++ .spend first :: [.abandon, .start]

theorem withinLimits : ∀ a ∈ dropped, a.WithinLimits := by
  have hrecord : record.WithinLimits := by
    constructor
    · decide
    · intro output houtput
      simp only [record, List.mem_cons, Option.some.injEq, List.not_mem_nil, or_false] at houtput
      rcases houtput with rfl | rfl
      · exact Nat.le_of_ble_eq_true rfl
      · exact Nat.le_of_ble_eq_true rfl
  simp only [dropped, opened, List.cons_append, List.nil_append, List.forall_mem_cons]
  exact ⟨trivial, hrecord, trivial, trivial, trivial, trivial, trivial, trivial,
    fun _ h => absurd h List.not_mem_nil⟩

end TwoOutputs

/-- The batch that was dropped has left no trace in what is read and answered. -/
theorem Session.refines_dropped :
    ((ofTable Table.empty).after TwoOutputs.dropped).committed.getCoin (Bytes32.fill 1) =
        .ok (some TwoOutputs.record) ∧
      ((ofTable Table.empty).after TwoOutputs.dropped).committed.tipHeight = .ok (some 9) ∧
      (((ofTable Table.empty).after TwoOutputs.dropped).perform (.spend TwoOutputs.first)).1 =
        .spent (.ok true) ∧
      ((∃ r, .put r ∈ [Action.abandon, .start] ∧ r.txid = TwoOutputs.first.txid) ∨
        DropsBatch [.abandon, .start]) := by
  rcases refines TwoOutputs.dropped TwoOutputs.withinLimits with ⟨hanswers, hreply, htwice⟩
  -- The first spend is in the batch that will be dropped, and the second in the one after it.
  have hopened : (((ofTable Table.empty).after TwoOutputs.opened).perform
      (.spend TwoOutputs.first)).1 = .spent (.ok true) := by
    decide +kernel
  have hagain : (((ofTable Table.empty).after TwoOutputs.dropped).perform
      (.spend TwoOutputs.first)).1 = .spent (.ok true) := by
    rw [hreply]
    decide +kernel
  refine ⟨?_, ?_, hagain, htwice TwoOutputs.first TwoOutputs.opened _ rfl hopened hagain⟩
  · rw [hanswers.getCoin]
    decide +kernel
  · rw [hanswers.tipHeight]
    decide +kernel

/-- A spend in a batch that is dropped can be made again, though nothing is put in between. -/
theorem Session.spent_twice :
    (((ofTable Table.empty).after TwoOutputs.opened).perform (.spend TwoOutputs.first)).1 =
        .spent (.ok true) ∧
      (((ofTable Table.empty).after
        (TwoOutputs.opened ++ .spend TwoOutputs.first :: [.abandon, .start])).perform
          (.spend TwoOutputs.first)).1 = .spent (.ok true) ∧
      ∀ r, Action.put r ∉ [Action.abandon, .start] := by
  refine ⟨by decide +kernel, by decide +kernel, ?_⟩
  intro r
  simp only [List.mem_cons, reduceCtorEq, List.not_mem_nil, or_false, not_false_eq_true]

end CoinCommit
