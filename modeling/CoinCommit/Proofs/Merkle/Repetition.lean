import CoinCommit.Proofs.Merkle.Binding

/-!
# Folds That Differ by One Leaf

A fold does not show how many leaves it was made of. Where a level has odd
length the last hash is paired with itself, and a list that has that hash twice
at the end comes to the same next level. So a leaf can be dropped without a
trace if it stands at the end of a run of equal leaves that spells out what
self-pairing supplies. `RepeatsTail` is the exact shape of such lists: `2 ^ t`
copies and one more, behind leaves whose number is a multiple of `2 ^ (t + 1)`
and not zero. The copies fill a whole block of `t` rounds, and the one more is
alone in the next.

`eq_append_of_fold_eq` is the converse: if a list and one with one leaf less
fold into the same hash, this shape is the reason, or else the shorter list has
a whole power of two of leaves and is one round lower. Then the same strings
are hashed one round apart, and its first leaf is the first pair of the other.

The induction is on the shorter list, round by round. It branches on the parity
of its length: an odd length is where the two levels become equally long.

## Main definitions

* `Merkle.RepeatsTail`: A list whose last leaf its fold does not need.

## Theorems

* `fold_append_replicate`: One copy fewer folds into the same hash.
* `eq_append_of_fold_eq`: There is no other way, but for a shift by a round.
-/

namespace CoinCommit

namespace Merkle

/-- A list that ends in `2 ^ t + 1` copies of a hash, behind a positive multiple of `2 ^ (t + 1)`
    other places. -/
def RepeatsTail (leaves : List Bytes32) (x : Bytes32) : Prop :=
  ∃ t front, leaves = front ++ List.replicate (2 ^ t + 1) x ∧ front ≠ [] ∧
    2 ^ (t + 1) ∣ front.length

/-- The shortest list of this shape is two leaves and two copies of one. -/
theorem RepeatsTail.four_le_length {leaves : List Bytes32} {x : Bytes32}
    (h : RepeatsTail leaves x) : 4 ≤ leaves.length := by
  rcases h with ⟨t, front, rfl, hne, hdvd⟩
  have hpos : 0 < 2 ^ t := Nat.pow_pos (by decide)
  have hfront := Nat.le_of_dvd (List.length_pos_iff.mpr hne) hdvd
  rw [Nat.pow_succ'] at hfront
  rw [List.length_append, List.length_replicate]
  omega

theorem pairStrings_append (xs ys : List Bytes32) (h : 2 ∣ xs.length) :
    pairStrings (xs ++ ys) = pairStrings xs ++ pairStrings ys := by
  fun_induction pairStrings xs with
  | case1 a b rest ih =>
      -- A pair taken from the front leaves an even front.
      have hrest : 2 ∣ rest.length := by
        simp only [List.length_cons] at h
        omega
      rw [List.cons_append, List.cons_append, pairStrings, ih hrest, List.cons_append]
  | case2 a =>
      rw [List.length_singleton] at h
      omega
  | case3 => rfl

theorem parents_replicate_even (m : Nat) (x : Bytes32) :
    parents (List.replicate (2 * m) x) = List.replicate m (hashPair x x) := by
  induction m with
  | zero => rfl
  | succ m ih =>
      rw [show 2 * (m + 1) = 2 * m + 1 + 1 by omega, List.replicate_succ, List.replicate_succ,
        parents, ih, List.replicate_succ]

theorem parents_replicate_odd (m : Nat) (x : Bytes32) :
    parents (List.replicate (2 * m + 1) x) = List.replicate (m + 1) (hashPair x x) := by
  -- The pairs use up all copies but one, which is paired with itself.
  rw [List.replicate_succ', parents_append _ _ (by rw [List.length_replicate]; omega),
    parents_replicate_even, parents, List.replicate_succ']

theorem pairStrings_replicate_subset (m : Nat) (x : Bytes32) :
    pairStrings (List.replicate m x) ⊆ [pairString x x] := by
  induction m using Nat.strong_induction_on with
  | _ m ih =>
    match m with
    | 0 => exact List.nil_subset _
    | 1 => exact List.Subset.refl _
    | k + 2 =>
        rw [List.replicate_succ, List.replicate_succ, pairStrings]
        exact List.cons_subset.mpr ⟨List.mem_cons_self, ih k (by omega)⟩

theorem two_dvd_of_pow_dvd {t n : Nat} (h : 2 ^ (t + 1) ∣ n) : 2 ∣ n := by
  rw [Nat.pow_succ'] at h
  exact Nat.dvd_trans (Nat.dvd_mul_right 2 (2 ^ t)) h

/-- A run of `2 ^ t + 1` copies folds like one of `2 ^ t`, if it is not the whole list and starts
    where a block of `t + 1` rounds starts. -/
theorem fold_append_replicate (t : Nat) (x : Bytes32) (front : List Bytes32) (hne : front ≠ [])
    (hdvd : 2 ^ (t + 1) ∣ front.length) :
    fold (front ++ List.replicate (2 ^ t + 1) x) = fold (front ++ List.replicate (2 ^ t) x) := by
  have hfront : 0 < front.length := List.length_pos_iff.mpr hne
  have heven := two_dvd_of_pow_dvd hdvd
  have hlong : ∀ k, 1 < (front ++ List.replicate (k + 1) x).length := by
    intro k
    rw [List.length_append, List.length_replicate]
    omega
  induction t generalizing x front with
  | zero =>
      -- Two copies make the pair that one copy makes with itself.
      rw [Nat.pow_zero, fold_eq_fold_parents (hlong 1), fold_eq_fold_parents (hlong 0),
        parents_append _ _ heven, parents_append _ _ heven]
      rfl
  | succ t ih =>
      -- One round halves the front and the run, up to the odd copy.
      have hpow : 2 ^ (t + 1) = 2 * 2 ^ t := Nat.pow_succ'
      have hpos : 0 < 2 ^ t := Nat.pow_pos (by decide)
      have hhalf : 2 * (parents front).length = front.length := by
        rw [length_parents]
        omega
      have hdvd' : 2 ^ (t + 1) ∣ (parents front).length := by
        rw [Nat.pow_succ', ← hhalf] at hdvd
        exact Nat.dvd_of_mul_dvd_mul_left (by decide) hdvd
      have hne' : parents front ≠ [] := by
        apply List.ne_nil_of_length_pos
        omega
      have hlong' : 1 < (front ++ List.replicate (2 ^ (t + 1)) x).length := by
        rw [List.length_append, List.length_replicate]
        omega
      rw [fold_eq_fold_parents (hlong _), fold_eq_fold_parents hlong', parents_append _ _ heven,
        parents_append _ _ heven, hpow, parents_replicate_odd, parents_replicate_even]
      refine ih (hashPair x x) (parents front) hne' hdvd' (by omega) (two_dvd_of_pow_dvd hdvd') ?_
      intro k
      rw [List.length_append, List.length_replicate]
      omega

/-- If a level of even length and one of one hash less have the same next level, the longer one
    has the last hash of the shorter one twice. -/
theorem eq_append_of_parents_eq {strings : List Bytes} (hsep : Separated strings)
    (xs ys : List Bytes32) (hlen : xs.length = ys.length + 1) (hodd : ys.length % 2 = 1)
    (hxs : pairStrings xs ⊆ strings) (hys : pairStrings ys ⊆ strings)
    (h : parents xs = parents ys) :
    ∃ front x, 2 ∣ front.length ∧ xs = front ++ [x, x] ∧ ys = front ++ [x] := by
  -- The last place of the shorter level, and the last two of the longer one.
  rcases List.eq_nil_or_concat' ys with rfl | ⟨front, x, rfl⟩
  · exact absurd hodd (by decide)
  rcases List.eq_nil_or_concat' xs with rfl | ⟨rest, z, rfl⟩
  · exact absurd hlen (by simp only [List.length_nil]; omega)
  rcases List.eq_nil_or_concat' rest with rfl | ⟨front', y, rfl⟩
  · simp only [List.length_append, List.length_singleton, List.length_nil] at hlen hodd
    omega
  simp only [List.length_append, List.length_singleton] at hlen hodd
  have hfront : 2 ∣ front.length := by omega
  have hfront' : 2 ∣ front'.length := by omega
  rw [List.append_assoc, List.singleton_append] at h hxs ⊢
  rw [parents_append _ _ hfront, parents_append _ _ hfront', parents, parents, parents] at h
  rw [pairStrings_append _ _ hfront', List.append_subset] at hxs
  rw [pairStrings_append _ _ hfront, List.append_subset] at hys
  have hsame : (parents front').length = (parents front).length := by
    rw [length_parents, length_parents]
    omega
  -- The levels above are cut at the same place, and the pairs behind the cut are equal.
  rcases List.append_inj h hsame with ⟨hbefore, hlast⟩
  rw [List.cons.injEq] at hlast
  have hpair : pairString y z ∈ strings := hxs.2 List.mem_cons_self
  have hself : pairString x x ∈ strings := hys.2 List.mem_cons_self
  rcases hsep.hashPair_injective hpair hself hlast.1 with ⟨rfl, rfl⟩
  have hsplit := parents_injective hsep front' front (by omega) hxs.1 hys.1 hbefore
  exact ⟨front, z, hfront, by rw [hsplit], rfl⟩

/-- If a level of odd length has a next level that is longer by one than that of its first places,
    and that one ends in a run, then so does the level itself. -/
theorem repeatsTail_of_parents {strings : List Bytes} (hsep : Separated strings)
    (xs ys : List Bytes32) (hlen : xs.length = ys.length + 1) (heven : 2 ∣ ys.length)
    (hxs : pairStrings xs ⊆ strings) (hys : pairStrings ys ⊆ strings) (y : Bytes32)
    (h : parents xs = parents ys ++ [y]) (htail : RepeatsTail (parents xs) y) :
    ∃ x, xs = ys ++ [x] ∧ RepeatsTail xs x := by
  rcases List.eq_nil_or_concat' xs with rfl | ⟨ys', x, rfl⟩
  · exact absurd hlen (by simp only [List.length_nil]; omega)
  rw [List.length_append, List.length_singleton, Nat.add_right_cancel_iff] at hlen
  have heven' : 2 ∣ ys'.length := hlen ▸ heven
  rw [parents_append _ _ heven', parents] at h
  rw [pairStrings_append _ _ heven', List.append_subset] at hxs
  rcases List.append_inj h (by rw [length_parents, length_parents, hlen]) with ⟨hbefore, hlast⟩
  rw [List.cons.injEq] at hlast
  have hsame := parents_injective hsep ys' ys hlen hxs.1 hys hbefore
  subst hsame
  refine ⟨x, rfl, ?_⟩
  -- The run of the next level stands for twice as many copies of the last hash.
  rcases htail with ⟨t, front, hrun, hne, hdvd⟩
  rw [parents_append _ _ heven', parents, hlast.1, List.replicate_succ', ← List.append_assoc]
    at hrun
  have hups : parents ys' = front ++ List.replicate (2 ^ t) y := (List.append_inj' hrun rfl).1
  have hcount : (parents ys').length = front.length + 2 ^ t := by
    rw [hups, List.length_append, List.length_replicate]
  rw [length_parents] at hcount
  have hpow : 2 ^ (t + 1) = 2 * 2 ^ t := Nat.pow_succ'
  -- Below the run of the next level stand twice as many places, all equal.
  have hcut : (ys'.take (2 * front.length)).length = 2 * front.length := by
    rw [List.length_take]
    omega
  have hdrop : (ys'.drop (2 * front.length)).length = 2 * 2 ^ t := by
    rw [List.length_drop]
    omega
  have hsplit : ys' = ys'.take (2 * front.length) ++ ys'.drop (2 * front.length) :=
    (List.take_append_drop _ _).symm
  generalize ys'.take (2 * front.length) = low at hsplit hcut
  generalize ys'.drop (2 * front.length) = run at hsplit hdrop
  subst hsplit
  have hlow : 2 ∣ low.length := by omega
  rw [parents_append _ _ hlow] at hups
  rw [pairStrings_append _ _ hlow, List.append_subset] at hys
  have hsize : (parents low).length = front.length := by
    rw [length_parents]
    omega
  have hrunUp := (List.append_inj hups hsize).2
  have hself : pairStrings (List.replicate (2 * 2 ^ t) x) ⊆ strings := by
    refine List.Subset.trans (pairStrings_replicate_subset _ x) ?_
    exact hxs.2
  -- They make the same pairs as copies of the last hash, so they are such copies.
  have hrun := parents_injective hsep run (List.replicate (2 * 2 ^ t) x)
    (by rw [hdrop, List.length_replicate]) hys.2 hself
    (by rw [hrunUp, parents_replicate_even, hlast.1])
  refine ⟨t + 1, low, ?_, ?_, ?_⟩
  · rw [hrun, hpow, List.replicate_succ', List.append_assoc]
  · apply List.ne_nil_of_length_pos
    have hfront : 0 < front.length := List.length_pos_iff.mpr hne
    omega
  · rw [hcut, Nat.pow_succ']
    exact Nat.mul_dvd_mul_left 2 hdvd

/-- A shift by one round at the next level is one at this level. -/
theorem head?_of_head?_parents {strings : List Bytes} (hsep : Separated strings)
    (xs ys : List Bytes32) (hlen : xs.length = ys.length + 1) (hlong : 1 < ys.length)
    (hxs : pairStrings (parents xs) ⊆ strings) (hys : pairStrings ys ⊆ strings)
    (h : (parents (parents xs)).head? = (parents ys).head?) : (parents xs).head? = ys.head? := by
  match xs, ys, hlen, hlong, hxs, hys, h with
  | [], _, hlen, _, _, _, _ => exact absurd hlen (Nat.succ_ne_zero _).symm
  | [_], _, hlen, hlong, _, _, _ =>
      rw [List.length_singleton] at hlen
      omega
  | [_, _], _, hlen, hlong, _, _, _ =>
      rw [List.length_cons, List.length_singleton] at hlen
      omega
  | _ :: _ :: _ :: _, [_], _, hlong, _, _, _ => exact absurd hlong (Nat.lt_irrefl 1)
  -- Both levels above begin with the hash of their first pair.
  | a :: b :: c :: rest, d :: e :: rest', _, _, hxs, hys, h =>
      rcases hnext : parents (c :: rest) with _ | ⟨f, others⟩
      · have hzero := congrArg List.length hnext
        rw [length_parents, List.length_cons, List.length_nil] at hzero
        omega
      · simp only [parents, hnext, List.head?_cons, Option.some.injEq] at h
        simp only [parents, hnext] at hxs
        rcases hsep.hashPair_injective (hxs List.mem_cons_self) (hys List.mem_cons_self) h with
          ⟨hfirst, _⟩
        rw [parents, List.head?_cons, List.head?_cons, hfirst]

/-- If a list and one of one leaf less fold into the same hash, the shorter one is the longer one
    without a last leaf that it repeats, or the folds are the same but for a shift by one round. -/
theorem eq_append_of_fold_eq {strings : List Bytes} (hsep : Separated strings)
    (xs ys : List Bytes32) (hlen : xs.length = ys.length + 1) (hxs : foldStrings xs ⊆ strings)
    (hys : foldStrings ys ⊆ strings) (h : fold xs = fold ys) :
    (∃ x, xs = ys ++ [x] ∧ RepeatsTail xs x) ∨ (parents xs).head? = ys.head? := by
  fun_induction fold ys generalizing xs with
  -- Nothing folds into what a single leaf folds into.
  | case1 =>
      rcases List.length_eq_one_iff.mp hlen with ⟨a, rfl⟩
      rw [fold] at h
      cases h
  -- The shorter list is the root itself.
  | case2 b =>
      rcases List.length_eq_two.mp hlen with ⟨a, a', rfl⟩
      rw [fold_eq_fold_parents (show 1 < [a, a'].length from Nat.lt_succ_self 1), parents,
        parents, fold, Option.some.injEq] at h
      exact Or.inr (by rw [parents, List.head?_cons, List.head?_cons, h])
  | case3 b b' rest ih =>
      have hlong : 1 < (b :: b' :: rest).length := by
        simp only [List.length_cons]
        omega
      have hlong' : 1 < xs.length := by omega
      generalize b :: b' :: rest = ys at *
      rw [fold_eq_fold_parents hlong'] at h
      have hpairs := List.Subset.trans (pairStrings_subset hlong') hxs
      have hpairs' := List.Subset.trans (pairStrings_subset hlong) hys
      have hups := List.Subset.trans (foldStrings_parents_subset hlong') hxs
      have hups' := List.Subset.trans (foldStrings_parents_subset hlong) hys
      by_cases hodd : ys.length % 2 = 1
      · -- The next levels are equally long, so they are equal.
        have hsame : (parents xs).length = (parents ys).length := by
          rw [length_parents, length_parents]
          omega
        have hup := fold_injective hsep _ _ hsame hups hups' h
        rcases eq_append_of_parents_eq hsep xs ys hlen hodd hpairs hpairs' hup with
          ⟨front, x, heven, hx, hy⟩
        refine Or.inl ⟨x, by rw [hx, hy, List.append_assoc]; rfl, 0, front, hx, ?_, heven⟩
        apply List.ne_nil_of_length_pos
        rw [hy, List.length_append, List.length_singleton] at hlong
        omega
      · -- The next levels differ by one place again.
        have hnext : (parents xs).length = (parents ys).length + 1 := by
          rw [length_parents, length_parents]
          omega
        rcases ih (parents xs) hnext hups hups' h with ⟨y, hup, htail⟩ | hshift
        · exact Or.inl (repeatsTail_of_parents hsep xs ys hlen (by omega) hpairs hpairs' y hup
            htail)
        · -- The shift is one round further up, and is carried down.
          have hpairsUp : pairStrings (parents xs) ⊆ strings :=
            List.Subset.trans (pairStrings_subset (by rw [length_parents]; omega)) hups
          exact Or.inr (head?_of_head?_parents hsep xs ys hlen hlong hpairsUp hpairs' hshift)

end Merkle

end CoinCommit
