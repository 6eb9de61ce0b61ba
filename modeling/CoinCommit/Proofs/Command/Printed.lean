import CoinCommit.Command.Run
import CoinCommit.Proofs.Json.RoundTrip

/-!
# Answers That Are Printed

An answer is printed on one line, and whoever reads the line has the answer
again, with every field and in their order. A value of which the reader has not
kept all could not be printed either, but there is no such value in an answer:
all of it has been made here, from numbers, digits and texts. The same goes for
an error, whose text may quote what the request said.

## Theorems

* `Answer.written_toJson`, `CommandError.written_toJson`: Answers and errors are
  written as they are.
* `Command.parse?_respond`: What is printed is read back.
-/

namespace CoinCommit

namespace Answer

theorem written_pathJson (path : Path) : (pathJson path).written = pathJson path :=
  Json.written_array_map fun _ _ => rfl

theorem written_claimJson (c : ProvenClaim) : (claimJson c).written = claimJson c := by
  refine Json.written_present fun m hm value hvalue => ?_
  simp only [List.mem_cons, List.not_mem_nil, or_false] at hm
  rcases hm with rfl | rfl | rfl | rfl | rfl | rfl | rfl
  -- The proof is the one member that may be left out, and the one that is a list.
  case inr.inr.inr.inr.inr.inr =>
    rcases Option.map_eq_some_iff.mp hvalue with ⟨path, _, rfl⟩
    exact written_pathJson path
  all_goals
    cases hvalue
    rfl

theorem written_recordJson (r : CoinRecord) : (recordJson r).written = recordJson r := by
  refine Json.written_fields fun m hm => ?_
  simp only [List.mem_cons, List.not_mem_nil, or_false] at hm
  -- The steps of the proof are a list, and the other fields are without parts.
  rcases hm with rfl | rfl | rfl | rfl
  case inr.inr.inr => exact Json.written_array_map fun _ _ => rfl
  all_goals rfl

theorem written_rootFields (root : Root) (count : Nat) :
    ∀ m ∈ rootFields root count, m.2.written = m.2 := by
  intro m hm
  simp only [rootFields, List.mem_cons, List.not_mem_nil, or_false] at hm
  rcases hm with rfl | rfl | rfl <;> rfl

/-- Each field of an answer is written as it is. -/
theorem written_of_mem_fields (answer : Answer) : ∀ m ∈ answer.fields, m.2.written = m.2 := by
  intro m hm
  cases answer with
  | leaf | verdict =>
      rw [List.mem_singleton.mp hm]
      rfl
  | root root count => exact written_rootFields root count m hm
  | snapshot s =>
      rcases List.mem_append.mp hm with hm | hm
      · exact written_rootFields _ _ m hm
      · simp only [List.mem_cons, List.not_mem_nil, or_false] at hm
        rcases hm with rfl | rfl | rfl <;> rfl
  | proof leaf index path root count =>
      rcases List.mem_append.mp hm with hm | hm
      · rcases List.mem_cons.mp hm with rfl | hm
        · rfl
        · exact written_rootFields _ _ m hm
      · simp only [List.mem_cons, List.not_mem_nil, or_false] at hm
        rcases hm with rfl | rfl
        · rfl
        · exact written_pathJson path
  | claims cs skipped root count =>
      rcases List.mem_append.mp hm with hm | hm
      · exact written_rootFields _ _ m hm
      · simp only [List.mem_cons, List.not_mem_nil, or_false] at hm
        rcases hm with rfl | rfl
        · exact Json.written_array_map fun c _ => written_claimJson c
        · exact Json.written_array_map fun _ _ => rfl
  | records rs total =>
      simp only [fields, List.mem_cons, List.not_mem_nil, or_false] at hm
      rcases hm with rfl | rfl
      · exact Json.written_array_map fun r _ => written_recordJson r
      · rfl

theorem written_toJson (answer : Answer) : answer.toJson.written = answer.toJson := by
  refine Json.written_fields fun m hm => ?_
  -- The first field says which operation was asked for.
  rcases List.mem_cons.mp hm with rfl | hm
  · rfl
  · exact written_of_mem_fields answer m hm

end Answer

theorem CommandError.written_toJson (e : CommandError) : e.toJson.written = e.toJson := rfl

namespace Command

/-- What is printed for a document, as a value. -/
def printed (scheme : SignatureScheme) (tag : String) (d : Disk) (document : Bytes) : Json :=
  match Request.ofBytes? document with
  | none => CommandError.badRequest.toJson
  | some r =>
      match r.run scheme tag d with
      | .ok answer _ => answer.toJson
      | .error e _ => e.toJson

/-- Whatever the document says, the line that is printed is read as the answer that was found, or
    as the error. -/
theorem parse?_respond (scheme : SignatureScheme) (tag : String) (d : Disk) (document : Bytes) :
    Json.parse? (Utf8.encode (respond scheme tag d document).2) =
      some (printed scheme tag d document) := by
  rw [respond, printed]
  -- The document is no request.
  rcases Request.ofBytes? document with _ | r
  · exact Json.parse?_print Json.isBlank_onOneLine CommandError.badRequest.toJson
  · rcases hrun : r.run scheme tag d with ⟨answer, d'⟩ | ⟨e, d'⟩
    · simp only [hrun]
      rw [Json.parse?_print Json.isBlank_onOneLine, answer.written_toJson]
    · simp only [hrun]
      rw [Json.parse?_print Json.isBlank_onOneLine, e.written_toJson]

end Command

end CoinCommit
