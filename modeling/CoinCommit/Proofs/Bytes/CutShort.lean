import CoinCommit.Proofs.Bytes.Reads

/-!
# Forms That Are Cut Short

A reader takes its bytes from the front and looks at nothing behind them. If it
gives a value it gives the same value with more bytes behind, and leaves those
as well; if it refuses what it has seen it refuses it again. Only one kind of
failure can be mended by more bytes, and that is that there were too few.

This is a property of the reader alone, so it passes from the steps to what is
put together from them, without a look at what is read. Of a form that is cut
short it says all there is to say. With the rest behind, it is read to its end;
so the reader has not given a value before, as it would have left the rest, and
it has refused nothing. It has failed for want of bytes, wherever the cut is.

## Main definitions

* `Cursor.extend`: The cursor with more bytes behind.
* `Steady`: More bytes behind change nothing but a failure for want of them.
* `ReadError.IsShort`: There were too few bytes.

## Theorems

* `Steady.bind`, `Steady.mapM`: Steps one after another.
* `Steady.exists_error_of_cut`: What is read of a form that is cut short.
* `Cursor.steady_takeBytes`, `CompactSize.steady_read`: The plain reads, and
  numbers of variable width.
-/

namespace CoinCommit

/-- The cursor with more bytes behind. -/
def Cursor.extend (c : Cursor) (more : Bytes) : Cursor := ⟨c.offset, c.rest ++ more⟩

/-- More bytes behind change nothing, and are left as they are, unless the step has failed for want
    of bytes. -/
structure Steady {ε α : Type} (step : EStateM ε Cursor α) (wants : ε → Prop) : Prop where
  ok : ∀ c a c' more, step c = .ok a c' → step (c.extend more) = .ok a (c'.extend more)
  error : ∀ c e c' more, step c = .error e c' →
    wants e ∨ step (c.extend more) = .error e (c'.extend more)

/-- The read has failed because too few bytes were left. -/
def ReadError.IsShort (e : ReadError) : Prop := ∃ item, e = .endOfInput item

namespace Steady

variable {ε α β : Type} {wants : ε → Prop}

theorem pure (a : α) : Steady (Pure.pure a : EStateM ε Cursor α) wants where
  ok c b c' more h := by
    cases h
    rfl
  error c e c' more h := by cases h

theorem throw (e : ε) : Steady (MonadExcept.throw e : EStateM ε Cursor α) wants where
  ok c a c' more h := by cases h
  error c e' c' more h := by
    cases h
    exact Or.inr rfl

theorem ite {p : Prop} [Decidable p] {step other : EStateM ε Cursor α} (h : Steady step wants)
    (h' : Steady other wants) : Steady (if p then step else other) wants := by
  by_cases hp : p
  · rw [if_pos hp]
    exact h
  · rw [if_neg hp]
    exact h'

/-- One step after another. -/
theorem bind {step : EStateM ε Cursor α} {next : α → EStateM ε Cursor β} (hstep : Steady step wants)
    (hnext : ∀ a, Steady (next a) wants) : Steady (step >>= next) wants where
  ok c b c' more h := by
    simp only [Bind.bind, EStateM.bind] at h ⊢
    -- The first step has a value, with more bytes behind as without.
    rcases hfirst : step c with ⟨a, c₁⟩ | ⟨e, c₁⟩
    · rw [hfirst] at h
      rw [hstep.ok c a c₁ more hfirst]
      exact (hnext a).ok c₁ b c' more h
    · rw [hfirst] at h
      cases h
  error c e c' more h := by
    simp only [Bind.bind, EStateM.bind] at h ⊢
    rcases hfirst : step c with ⟨a, c₁⟩ | ⟨e', c₁⟩
    · rw [hfirst] at h
      rw [hstep.ok c a c₁ more hfirst]
      exact (hnext a).error c₁ e c' more h
    · rw [hfirst] at h
      cases h
      -- It has failed, and either misses bytes or fails again.
      refine (hstep.error c e c' more hfirst).imp_right fun hagain => ?_
      rw [hagain]

/-- What is made of a value takes no bytes. -/
theorem map {step : EStateM ε Cursor α} {f : α → β} (h : Steady step wants) :
    Steady (step >>= fun a => Pure.pure (f a)) wants :=
  h.bind fun a => pure (f a)

theorem mapM {ι : Type} {step : ι → EStateM ε Cursor α} (h : ∀ i, Steady (step i) wants)
    (entries : List ι) : Steady (entries.mapM step) wants := by
  induction entries with
  | nil =>
      rw [List.mapM_nil]
      exact pure []
  | cons i entries ih =>
      rw [List.mapM_cons]
      exact (h i).bind fun a => ih.map

/-- The failure is reported in other words. -/
theorem adaptExcept {ε' : Type} {f : ε → ε'} {wants' : ε' → Prop} {step : EStateM ε Cursor α}
    (h : Steady step wants) (hwants : ∀ e, wants e → wants' (f e)) :
    Steady (EStateM.adaptExcept f step) wants' where
  ok c a c' more hok := by
    rw [EStateM.adaptExcept] at hok ⊢
    rcases hfirst : step c with ⟨b, c₁⟩ | ⟨e, c₁⟩
    · rw [hfirst] at hok
      cases hok
      rw [h.ok c a c' more hfirst]
    · rw [hfirst] at hok
      cases hok
  error c e c' more herror := by
    rw [EStateM.adaptExcept] at herror ⊢
    rcases hfirst : step c with ⟨b, c₁⟩ | ⟨e', c₁⟩
    · rw [hfirst] at herror
      cases herror
    · rw [hfirst] at herror
      cases herror
      rcases h.error c e' c' more hfirst with hwant | hagain
      · exact Or.inl (hwants e' hwant)
      · rw [hagain]
        exact Or.inr rfl

/-- Of a form that is cut short nothing can be read, and what is missed is its rest. -/
theorem exists_error_of_cut {step : EStateM ε Cursor α} {form : α → Bytes} {valid : α → Prop}
    (h : Steady step wants) (hreads : Reads step form valid) {a : α} (ha : valid a) {cut : Bytes}
    (hcut : cut <+: form a) (hne : cut ≠ form a) (k : Nat) :
    ∃ e c, step ⟨k, cut⟩ = .error e c ∧ wants e := by
  rcases hcut with ⟨more, hmore⟩
  -- With the rest of the form behind, there is a value and nothing is left.
  have hwhole : step (Cursor.extend ⟨k, cut⟩ more) = .ok a ⟨k + (form a).length, []⟩ := by
    have hread := hreads.ok_of_append ha k []
    rw [List.append_nil, ← hmore] at hread
    rw [← hmore]
    exact hread
  rcases hstep : step ⟨k, cut⟩ with ⟨b, c⟩ | ⟨e, c⟩
  · have hagain := (h.ok _ b c more hstep).symm.trans hwhole
    rw [EStateM.Result.ok.injEq] at hagain
    -- What is left has the rest of the form in it, so there was no rest.
    have hrest : c.rest ++ more = [] := congrArg Cursor.rest hagain.2
    rw [(List.append_eq_nil_iff.mp hrest).2, List.append_nil] at hmore
    exact absurd hmore hne
  · -- The step has failed; had it not missed bytes, it would fail on the whole form.
    rcases h.error _ e c more hstep with hwant | hagain
    · exact ⟨e, c, rfl, hwant⟩
    · cases hagain.symm.trans hwhole

end Steady

namespace Cursor

theorem steady_takeBytes (item : Item) (n : Nat) :
    Steady (takeBytes item n) ReadError.IsShort where
  ok c bs c' more h := by
    rcases takeBytes_eq_ok h with ⟨hlen, hrest, hoff⟩
    -- The bytes taken are in front of whatever is behind them.
    subst hlen
    have hfront := takeBytes_append item c.offset bs (c'.rest ++ more)
    rw [extend, hrest, List.append_assoc, hfront, extend, hoff]
  error c e c' more h := by
    -- The only failure there is, is for want of bytes.
    rw [takeBytes] at h
    split at h
    · cases h
    · cases h
      exact Or.inl ⟨item, rfl⟩

theorem steady_bytes (n : Nat) : Steady (bytes n) ReadError.IsShort := steady_takeBytes .bytes n

theorem steady_u8 : Steady u8 ReadError.IsShort := (steady_takeBytes .u8 1).map

theorem steady_u64 : Steady u64 ReadError.IsShort := (steady_takeBytes .u64 8).map

theorem steady_i64 : Steady i64 ReadError.IsShort := (steady_takeBytes .i64 8).map

end Cursor

namespace CompactSize

theorem steady_payload (item : Item) (width : Nat) (least : UInt64) :
    Steady (payload item width least) ReadError.IsShort :=
  (Cursor.steady_takeBytes item width).bind fun _ => (Steady.throw _).ite (Steady.pure _)

theorem steady_read : Steady read ReadError.IsShort :=
  Cursor.steady_u8.bind fun _ => (Steady.pure _).ite
    ((steady_payload .u16 2 _).ite ((steady_payload .u32 4 _).ite (steady_payload .u64 8 _)))

end CompactSize

end CoinCommit
