import Templating.Proofs.TakenValues
import Templating.SourceMap

namespace Templating.SourceMap

open Json (Reader Value)

/-- A content that may be missing is read back however it is turned into a value. -/
theorem takes_content {f : Option String → Value} (hnone : f none = .null)
    (hsome : ∀ content, f (some content) = .string content) (content : Option String) :
    Reader.string.optional.Takes (f content).compact content := by
  cases content with
  | none =>
    rw [hnone]
    exact Value.takes_null _
  | some content =>
    rw [hsome]
    exact Value.takes_some_string content

theorem takes_value (m : SourceMap) : reader.Takes m.value.compact m := by
  refine Value.takes_object (d := ⟨m.file, m.version, m.sourceRoot, m.sources, m.sourcesContent,
    m.mappings⟩) ?_ rfl
  refine .next rfl rfl (Value.takes_string m.file) ?_
  refine .next rfl rfl (Value.takes_word m.version) ?_
  refine .next rfl rfl (Value.takes_string m.sourceRoot) ?_
  refine .next rfl rfl (Value.takes_map Value.takes_string m.sources) ?_
  refine .next rfl rfl (Value.takes_map (takes_content rfl fun _ => rfl) m.sourcesContent) ?_
  refine .next rfl rfl (Value.takes_string m.mappings) ?_
  exact .nil

/-- The text of a map is taken for the map, also with blanks behind it. -/
theorem read_text_append (m : SourceMap) {blanks : List Char}
    (hb : ∀ c ∈ blanks, Json.isBlank c = true) :
    read (m.text ++ String.ofList blanks) = .ok m := by
  have hread := (takes_value m).read_eq hb
  rwa [String.ofList_append] at hread

theorem read_text (m : SourceMap) : read (m.text ++ "\n") = .ok m :=
  read_text_append m (List.forall_mem_singleton.mpr rfl)

/-- No text in a map, no list and no missing content is lost on the way through its JSON. -/
theorem reread_text (m : SourceMap) : read m.text = .ok m := by
  have hread := read_text_append m (List.forall_mem_nil _)
  rwa [String.ofList_nil, String.append_empty] at hread

end Templating.SourceMap
