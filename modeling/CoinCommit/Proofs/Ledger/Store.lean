import CoinCommit.Ledger.Batch

/-!
# Stores of Entries

The chain state lies in a store of entries that is not this library's own work.
What is relied on is little: entries are walked in the order of their keys, one
batch is open at a time and works on a copy of its own, a commit publishes this
copy, and a batch that is dropped leaves no trace. `Store.Lawful` says this and
no more, of whatever a store may look like inside.

A session on a table is such a store, and there is no other as far as anyone can
tell: each state of a lawful store shows what some session shows, and goes on to
do so through every history. What is proved of sessions and tables is therefore
proved of every store that keeps the laws.

## Main definitions

* `Edit`, `StoreAction`: A change of one entry, and what can be done to a store.
* `Store`, `Store.Lawful`: A store, and the laws that are relied on.
* `Session.store`: The store that a session is.
* `Store.Shows`: A state in which the same is read as in a session.

## Theorems

* `Session.lawful_store`: A session keeps the laws.
* `Session.write_eq_edit`, `Table.spendOutput_eq_edit`: All changes of a session
  are edits.
* `Store.Lawful.exists_shows`, `Store.Shows.step`, `Store.Shows.after`: States of
  a lawful store are sessions and stay so.
* `Store.Lawful.agrees_with_session`: A lawful store is a session, after every history.
-/

namespace CoinCommit

/-- A change of one entry. -/
inductive Edit where
  | insert (key value : Bytes)
  | remove (key : Bytes)

/-- What lies under a key once it is edited, from what lay there before. -/
def Edit.lookup (get? : Bytes → Option Bytes) (key : Bytes) : Edit → Option Bytes
  | .insert key' value => if key = key' then some value else get? key
  | .remove key' => if key = key' then none else get? key

/-- What can be done to a store. -/
inductive StoreAction where
  | start
  | edit (e : Edit)
  | commit
  | abandon

/-- A store of entries. Readers view what is committed, and the batch, if one is open, what it
    works on. -/
structure Store where
  State : Type
  View : Type
  get? : View → Bytes → Option Bytes
  entries : View → List (Bytes × Bytes)
  committed : State → View
  batch : State → Option View
  start : State → Except SessionError State
  edit : State → Edit → Except SessionError State
  commit : State → Except SessionError State
  abandon : State → State

namespace Store

/-- The laws of a store. -/
structure Lawful (S : Store) : Prop where
  /-- A walk goes through the keys in their order. -/
  ascending : ∀ v, Ascending Prod.fst (S.entries v)
  mem_entries_iff : ∀ v key value, (key, value) ∈ S.entries v ↔ S.get? v key = some value
  /-- No batch is opened while another one is open. -/
  one_writer : ∀ s v, S.batch s = some v → S.start s = .error .batchOpen
  /-- A batch starts from what is committed. -/
  private_copy : ∀ s, S.batch s = none → ∃ s' v, S.start s = .ok s' ∧ S.batch s' = some v ∧
    S.get? v = S.get? (S.committed s) ∧ S.get? (S.committed s') = S.get? (S.committed s)
  /-- What a batch changes is seen by the batch at once and by no one else. -/
  edit_batch : ∀ s v e, S.batch s = some v → ∃ s' v', S.edit s e = .ok s' ∧ S.batch s' = some v' ∧
    (∀ key, S.get? v' key = e.lookup (S.get? v) key) ∧
      S.get? (S.committed s') = S.get? (S.committed s)
  /-- A commit publishes what the batch has worked on. -/
  publish : ∀ s v, S.batch s = some v → ∃ s', S.commit s = .ok s' ∧ S.batch s' = none ∧
    S.get? (S.committed s') = S.get? v
  edit_none : ∀ s e, S.batch s = none → S.edit s e = .error .noBatch
  commit_none : ∀ s, S.batch s = none → S.commit s = .error .noBatch
  /-- A batch that is dropped leaves no trace. -/
  abandoned : ∀ s, S.batch (S.abandon s) = none ∧
    S.get? (S.committed (S.abandon s)) = S.get? (S.committed s)

variable (S : Store)

/-- The state after an action, or why it is refused. -/
def step (s : S.State) : StoreAction → Except SessionError S.State
  | .start => S.start s
  | .edit e => S.edit s e
  | .commit => S.commit s
  | .abandon => .ok (S.abandon s)

/-- The state after a history; what is refused changes nothing. -/
def after (s : S.State) (history : List StoreAction) : S.State :=
  history.foldl (fun s a => (S.step s a).toOption.getD s) s

/-- Why an action is refused, if it is. -/
def refusal? (s : S.State) (a : StoreAction) : Option SessionError :=
  match S.step s a with
  | .ok _ => none
  | .error e => some e

end Store

/-- The table after an edit. -/
def Table.edit (t : Table) : Edit → Table
  | .insert key value => t.insert key value
  | .remove key => t.erase key

theorem Table.get?_edit (t : Table) (e : Edit) (key : Bytes) :
    (t.edit e).get? key = e.lookup t.get? key := by
  cases e with
  | insert key' value => exact t.get?_insert key' value key
  | remove key' => exact t.get?_erase key' key

namespace Session

/-- An edit in the batch. -/
def edit (s : Session) (e : Edit) : Except SessionError Session :=
  match s.batch with
  | some t => .ok { s with batch := some (t.edit e) }
  | none => .error .noBatch

/-- The store that a session is. -/
def store : Store where
  State := Session
  View := Table
  get? := Table.get?
  entries := Table.entries
  committed := Session.committed
  batch := Session.batch
  start := Session.start
  edit := edit
  commit := Session.commit
  abandon := Session.abandon

theorem lawful_store : store.Lawful where
  ascending t := t.sorted
  mem_entries_iff t key value := (t.get?_eq_some_iff key value).symm
  one_writer := by
    rintro ⟨committed, batch⟩ t rfl
    rfl
  private_copy := by
    rintro ⟨committed, batch⟩ rfl
    exact ⟨_, committed, rfl, rfl, rfl, rfl⟩
  edit_batch := by
    rintro ⟨committed, batch⟩ t e rfl
    exact ⟨_, t.edit e, rfl, rfl, t.get?_edit e, rfl⟩
  publish := by
    rintro ⟨committed, batch⟩ t rfl
    exact ⟨_, rfl, rfl, rfl⟩
  edit_none := by
    rintro ⟨committed, batch⟩ e rfl
    rfl
  commit_none := by
    rintro ⟨committed, batch⟩ rfl
    rfl
  abandoned _ := ⟨rfl, rfl⟩

end Session

/-- The edit that a write is. -/
def Write.edit : Write → Edit
  | .putCoin r => .insert (CoinKey.encode r.txid) r.encode
  | .deleteCoin txid => .remove (CoinKey.encode txid)
  | .putTip height => .insert Tip.key (Tip.encode height)
  | .putRaw key value => .insert key value

theorem Session.write_eq_edit (s : Session) (w : Write) : s.write w = s.edit w.edit := by
  rcases s with ⟨committed, _ | t⟩
  · rfl
  · cases w <;> rfl

/-- A spend is one edit of the table, or none. -/
theorem Table.spendOutput_eq_edit (t : Table) (o : Outpoint) :
    (t.spendOutput o).2 = t ∨ ∃ e, (t.spendOutput o).2 = t.edit e := by
  rw [spendOutput]
  rcases t.getCoin o.txid with e | _ | r
  · exact Or.inl rfl
  · exact Or.inl rfl
  · rcases hspend : r.spend? o.vout with _ | r'
    · simp only [hspend, true_or]
    · by_cases hpruned : r'.isPruned = true
      · simp only [hspend, if_pos hpruned]
        exact Or.inr ⟨.remove (CoinKey.encode o.txid), rfl⟩
      · simp only [hspend, if_neg hpruned]
        exact Or.inr ⟨.insert (CoinKey.encode r'.txid) r'.encode, rfl⟩

namespace Store

/-- The same is read in the state of a store as in a session. -/
structure Shows (S : Store) (s : S.State) (x : Session) : Prop where
  committed : S.get? (S.committed s) = x.committed.get?
  batch : Option.Rel (fun v t => S.get? v = Table.get? t) (S.batch s) x.batch

variable {S : Store} {s : S.State} {x : Session}

/-- Where look-ups are those of a table, the walk is that of the table. -/
theorem Lawful.entries_eq (h : S.Lawful) {v : S.View} {t : Table} (hget : S.get? v = t.get?) :
    S.entries v = t.entries := by
  refine (h.ascending v).eq_of_mem_iff t.sorted fun e => ?_
  rw [h.mem_entries_iff v e.1 e.2, hget, Table.get?_eq_some_iff]

/-- A view is a table: its entries are in their order already. -/
theorem Lawful.exists_table (h : S.Lawful) (v : S.View) : ∃ t : Table, S.get? v = t.get? := by
  refine ⟨⟨S.entries v, h.ascending v⟩, ?_⟩
  funext key
  apply Option.ext
  intro value
  rw [← h.mem_entries_iff, Table.get?_eq_some_iff]

/-- Each state of a lawful store shows what a session shows. -/
theorem Lawful.exists_shows (h : S.Lawful) (s : S.State) : ∃ x, S.Shows s x := by
  rcases h.exists_table (S.committed s) with ⟨t, ht⟩
  rcases hbatch : S.batch s with _ | v
  · exact ⟨⟨t, none⟩, ht, hbatch ▸ .none⟩
  · rcases h.exists_table v with ⟨t', ht'⟩
    exact ⟨⟨t, some t'⟩, ht, hbatch ▸ .some ht'⟩

/-- An action is refused on both sides for the same reason, or done on both sides with results that
    show the same. -/
theorem Shows.step (h : S.Lawful) (hs : S.Shows s x) (a : StoreAction) :
    (∃ e, S.step s a = .error e ∧ Session.store.step x a = .error e) ∨
      ∃ s' x', S.step s a = .ok s' ∧ Session.store.step x a = .ok x' ∧ S.Shows s' x' := by
  rcases x with ⟨t, batch⟩
  rcases hs with ⟨hcommitted, hrel⟩
  rcases hbatch : S.batch s with _ | v
  · -- No batch is open, so nothing can be edited or committed.
    rw [hbatch] at hrel
    cases hrel
    cases a with
    | start =>
        rcases h.private_copy s hbatch with ⟨s', v, hstart, hv, hcopy, hsame⟩
        exact Or.inr ⟨s', _, hstart, rfl, hsame.trans hcommitted,
          hv ▸ .some (hcopy.trans hcommitted)⟩
    | edit e => exact Or.inl ⟨.noBatch, h.edit_none s e hbatch, rfl⟩
    | commit => exact Or.inl ⟨.noBatch, h.commit_none s hbatch, rfl⟩
    | abandon =>
        rcases h.abandoned s with ⟨hnone, hsame⟩
        exact Or.inr ⟨_, _, rfl, rfl, hsame.trans hcommitted, hnone ▸ .none⟩
  · -- A batch is open on both sides, and its two copies have the same look-ups.
    rw [hbatch] at hrel
    cases hrel with
    | @some _ t' hcopy =>
        cases a with
        | start => exact Or.inl ⟨.batchOpen, h.one_writer s v hbatch, rfl⟩
        | edit e =>
            rcases h.edit_batch s v e hbatch with ⟨s', v', hedit, hv', hlookup, hsame⟩
            have hget : S.get? v' = (t'.edit e).get? := by
              funext key
              rw [hlookup key, Table.get?_edit, hcopy]
            exact Or.inr ⟨s', _, hedit, rfl, hsame.trans hcommitted, hv' ▸ .some hget⟩
        | commit =>
            rcases h.publish s v hbatch with ⟨s', hcommit, hnone, hsame⟩
            exact Or.inr ⟨s', _, hcommit, rfl, hsame.trans hcopy, hnone ▸ .none⟩
        | abandon =>
            rcases h.abandoned s with ⟨hnone, hsame⟩
            exact Or.inr ⟨_, _, rfl, rfl, hsame.trans hcommitted, hnone ▸ .none⟩

-- So does every history, by induction along it.
theorem Shows.after (h : S.Lawful) (hs : S.Shows s x) (history : List StoreAction) :
    S.Shows (S.after s history) (Session.store.after x history) := by
  induction history generalizing s x with
  | nil => exact hs
  | cons a rest ih =>
      -- What is refused is refused on both sides, and both stay where they are.
      rcases hs.step h a with ⟨e, hrefused, hrefused'⟩ | ⟨s', x', hdone, hdone', hnext⟩
      · have hsame : S.Shows ((S.step s a).toOption.getD s)
            ((Session.store.step x a).toOption.getD x) := by
          rw [hrefused, hrefused']
          exact hs
        exact ih hsame
      · have hgoes : S.Shows ((S.step s a).toOption.getD s)
            ((Session.store.step x a).toOption.getD x) := by
          rw [hdone, hdone']
          exact hnext
        exact ih hgoes

/-- A lawful store is a session as far as anyone can tell. Whatever is done to it, the same is then
    refused and for the same reason, readers and the batch look up the same, and a walk comes upon
    the same entries in the same order. -/
theorem Lawful.agrees_with_session (h : S.Lawful) (s : S.State) :
    ∃ x : Session, ∀ history : List StoreAction,
      (∀ a, S.refusal? (S.after s history) a =
        Session.store.refusal? (Session.store.after x history) a) ∧
      S.Shows (S.after s history) (Session.store.after x history) ∧
      S.entries (S.committed (S.after s history)) =
        (Session.store.after x history).committed.entries := by
  rcases h.exists_shows s with ⟨x, hs⟩
  refine ⟨x, fun history => ?_⟩
  have hend := hs.after h history
  refine ⟨fun a => ?_, hend, h.entries_eq hend.committed⟩
  rw [refusal?, refusal?]
  rcases hend.step h a with ⟨e, hrefused, hrefused'⟩ | ⟨s', x', hdone, hdone', _⟩
  · rw [hrefused, hrefused']
  · rw [hdone, hdone']

end Store

end CoinCommit
