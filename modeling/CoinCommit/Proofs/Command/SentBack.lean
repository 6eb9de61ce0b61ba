import CoinCommit.Proofs.Command.Published
import CoinCommit.Proofs.Json.RoundTrip

/-!
# Proofs That Are Sent Back

A proof leaves the program as texts: the digits of the leaf and of the siblings,
and those of the root beside them. Whoever checks it sends these texts back.
Nothing is lost on the way, as what is printed of a path is read as that path.
The root is printed as 32 bytes even if there is none, but no path is accepted
under the root of no leaves; so an accepted proof comes back with its root, and
is answered with true.

## Main definitions

* `StepText.ofStep`: A step as it is printed.
* `Request.Checks`: A request to check what is printed.
* `Json.ProvesUnder`: A printed proof that is answered with true.

## Theorems

* `Answer.list?_pathJson`: What is read of a printed path.
* `Json.provesUnder_of_verifies`: An accepted path is printed as a proof.
-/

namespace CoinCommit

/-- A step as it is printed. -/
def StepText.ofStep (step : PathStep) : StepText :=
  ⟨Hex.encode step.sibling.bytes, step.siblingIsLeft⟩

theorem StepText.spells_ofStep (step : PathStep) : (ofStep step).Spells step :=
  ⟨Hex.decode32_encode step.sibling, rfl⟩

theorem StepText.forall₂_spells_ofStep (path : Path) :
    List.Forall₂ Spells (path.map ofStep) path :=
  List.forall₂_map_left_iff.mpr (List.forall₂_same.mpr fun step _ => spells_ofStep step)

/-- A path that is printed is read step by step. -/
theorem Answer.list?_pathJson (path : Path) :
    Json.list? Request.stepOfJson? (pathJson path) = some (path.map StepText.ofStep) :=
  Json.list?_map fun _ _ => rfl

/-- The request is to check the leaf and the proof that are printed in one object, under the root
    that is printed in another. -/
structure Request.Checks (v : Request) (proof root : Json) : Prop where
  op : v.op = "verify"
  leaf : proof.member? "leaf" = some (.text v.leaf)
  proof : (proof.member? "proof").bind (Json.list? stepOfJson?) = some v.proof
  root : root.member? "root" = some (.text v.root)

namespace Json

/-- The leaf and the proof that are printed in one object can be sent back with the root that is
    printed in another, and whoever does so is answered with true. -/
def ProvesUnder (proof root : Json) : Prop :=
  (∃ v : Request, v.Checks proof root) ∧
    ∀ v : Request, v.Checks proof root → v.AnsweredWith true

variable {proof printed : Json} {leaf : Bytes32} {path : Path} {root : Root}

/-- An accepted path is printed as a proof. -/
theorem provesUnder_of_verifies (hleaf : proof.member? "leaf" = some (Answer.hashJson leaf))
    (hproof : proof.member? "proof" = some (Answer.pathJson path))
    (hroot : printed.member? "root" = some (Answer.hashJson root.toBytes))
    (hverifies : path.verifies leaf root = true) : proof.ProvesUnder printed := by
  constructor
  · -- The request is made of the texts that are printed.
    refine ⟨{ Desk.blank with
      op := "verify"
      leaf := Hex.encode leaf.bytes
      proof := path.map StepText.ofStep
      root := Hex.encode root.toBytes.bytes }, rfl, hleaf, ?_, hroot⟩
    rw [hproof]
    exact Answer.list?_pathJson path
  · -- Any other request of this kind has the same texts.
    intro v hv
    have hsteps := hv.proof
    rw [hproof, Option.bind_some, Answer.list?_pathJson, Option.some.injEq] at hsteps
    have hleafText : Hex.decode32 v.leaf = .ok leaf := by
      have htext := hleaf.symm.trans hv.leaf
      rw [Answer.hashJson, Option.some.injEq, Json.text.injEq] at htext
      rw [← htext, Hex.decode32_encode]
    -- An accepted path has a root to lead to, and the text is that of its hash.
    have hrootText : Request.SpellsRoot v.root root := by
      have htext := hroot.symm.trans hv.root
      rw [Answer.hashJson, Option.some.injEq, Json.text.injEq] at htext
      cases root with
      | empty => cases hverifies
      | hash h =>
          rw [← htext]
          exact .hash (Hex.decode32_encode h)
    have hpath : List.Forall₂ StepText.Spells v.proof path := by
      rw [← hsteps]
      exact StepText.forall₂_spells_ofStep path
    have hanswered := Request.answeredWith_verifies hv.op hleafText hpath hrootText
    rw [hverifies] at hanswered
    exact hanswered

end Json

end CoinCommit
