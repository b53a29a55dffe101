import Mathlib.Data.List.Nodup
import Templating.Proofs.MapTexts
import Templating.Proofs.SpacedValues

namespace Templating.SourceMap

open Json (Digits ExponentText Gap Member RecordField Reader Spaced Value ValueText)
open Json.Reader (Adds Gathers TakesSpaced Trims)

/-- What the members hold that need not be given. -/
def defaults : List (String × Value) :=
  [("file", .string ""), ("sourceRoot", .string ""), ("sourcesContent", .array [])]

/-- Members of an object that give those of the map, each once, and others besides. -/
structure Describes (m : SourceMap) (ms : List Member) : Prop where
  given : ∀ key v, m.value.member? key = some v →
    (ms.map Member.key).count key = 1 ∨ key ∉ ms.map Member.key ∧ (key, v) ∈ defaults
  written : ∀ x ∈ ms, ∀ v, m.value.member? x.key = some v → Spaced v x.value
  others : ∀ x ∈ ms, m.value.member? x.key = none → ValueText x.value

/-- An object text that describes the map, with blanks around it. -/
def DescribedBy (m : SourceMap) (text : String) : Prop :=
  ∃ (lead trail : Gap) (ms : List Member), m.Describes ms ∧
    text.toList =
      lead.chars ++ '{' :: ([','].intercalate (ms.map Member.chars) ++ '}' :: trail.chars)

/-- The draft that holds those members of the map whose keys were read. -/
def Draft.after (m : SourceMap) (keys : List String) : Draft where
  file := if "file" ∈ keys then some m.file else none
  version := if "version" ∈ keys then some m.version else none
  sourceRoot := if "sourceRoot" ∈ keys then some m.sourceRoot else none
  sources := if "sources" ∈ keys then some m.sources else none
  sourcesContent := if "sourcesContent" ∈ keys then some m.sourcesContent else none
  mappings := if "mappings" ∈ keys then some m.mappings else none

/-- The keys of a map are those of the fields that it is read from. -/
theorem member?_eq_none_iff {m : SourceMap} {key : String} :
    m.value.member? key = none ↔ Draft.fields.find? (·.key == key) = none := by
  simp only [value, Value.member?, List.lookup_eq_none_iff, List.find?_eq_none, Draft.fields,
    List.forall_mem_cons, bne_iff_ne, beq_iff_eq, ne_comm, ne_eq]
  simp

theorem key_mem_of_member? {m : SourceMap} {key : String} {v : Value}
    (h : m.value.member? key = some v) : key ∈ Draft.fields.map RecordField.key := by
  by_contra hnone
  have hfind : Draft.fields.find? (·.key == key) = none := by simpa using hnone
  rw [member?_eq_none_iff.mpr hfind] at h
  cases h

/-- A member with another key leaves the draft as it is. -/
theorem after_other {m : SourceMap} {key : String} (h : m.value.member? key = none)
    (keys : List String) : Draft.after m (keys ++ [key]) = Draft.after m keys := by
  have hkeys : ∀ k ∈ Draft.fields.map RecordField.key, k ≠ key := by
    simpa using List.find?_eq_none.mp (member?_eq_none_iff.mp h)
  simp only [Draft.fields, List.map_cons, List.forall_mem_cons] at hkeys
  simp [Draft.after, hkeys]

/-- A member of the map goes into the draft if it was not read before. -/
theorem adds_written {m : SourceMap} {keys : List String} {x : Member} {v : Value}
    (hv : m.value.member? x.key = some v) (hs : Spaced v x.value) (hfresh : x.key ∉ keys) :
    Adds Draft.fields (Draft.after m keys) x (Draft.after m (keys ++ [x.key])) := by
  have hkey := key_mem_of_member? hv
  obtain ⟨key, lead, name, gap, before, text, after, spells⟩ := x
  dsimp only at hv hs hfresh hkey ⊢
  simp only [Draft.fields, List.map_cons, List.map_nil, List.mem_cons, List.not_mem_nil,
    or_false] at hkey
  rcases hkey with rfl | rfl | rfl | rfl | rfl | rfl
  all_goals obtain rfl := Option.some.inj hv
  · refine ((Value.takes_string m.file).spaced ?_).adds Reader.trims_string hs rfl ?_ ?_
    all_goals simp [Draft.after, hfresh]
  · refine ((Value.takes_word m.version).spaced ?_).adds Reader.trims_word hs rfl ?_ ?_
    all_goals simp [Draft.after, hfresh]
  · refine ((Value.takes_string m.sourceRoot).spaced ?_).adds Reader.trims_string hs rfl ?_ ?_
    all_goals simp [Draft.after, hfresh]
  · refine (Reader.takesSpaced_map Reader.trims_string Value.takes_string ?_
      m.sources).adds (Reader.trims_list _) hs rfl ?_ ?_
    all_goals simp [Draft.after, hfresh]
  · refine (Reader.takesSpaced_map (Reader.trims_optional _) (takes_content rfl fun _ => rfl) ?_
      m.sourcesContent).adds (Reader.trims_list _) hs rfl ?_ ?_
    · rintro (_ | content) <;> simp
    all_goals simp [Draft.after, hfresh]
  · refine ((Value.takes_string m.mappings).spaced ?_).adds Reader.trims_string hs rfl ?_ ?_
    all_goals simp [Draft.after, hfresh]

theorem getD_ite {p : Prop} [Decidable p] {a b : α} (h : p ∨ a = b) :
    (if p then some a else none).getD b = a := by
  rcases h with hp | rfl
  · rw [if_pos hp, Option.getD_some]
  · split <;> rfl

/-- The draft is finished as the map once it holds all members that are no defaults. -/
theorem finish_after {m : SourceMap} {keys : List String}
    (h : ∀ key v, m.value.member? key = some v → key ∈ keys ∨ (key, v) ∈ defaults) :
    (Draft.after m keys).finish = some m := by
  have hversion : "version" ∈ keys := by simpa [defaults] using h "version" _ rfl
  have hsources : "sources" ∈ keys := by simpa [defaults] using h "sources" _ rfl
  have hmappings : "mappings" ∈ keys := by simpa [defaults] using h "mappings" _ rfl
  have hfile : "file" ∈ keys ∨ m.file = "" := by simpa [defaults] using h "file" _ rfl
  have hroot : "sourceRoot" ∈ keys ∨ m.sourceRoot = "" := by
    simpa [defaults] using h "sourceRoot" _ rfl
  have hcontents : "sourcesContent" ∈ keys ∨ m.sourcesContent = [] := by
    simpa [defaults] using h "sourcesContent" _ rfl
  simp only [Draft.finish, Draft.after, if_pos hversion, if_pos hsources, if_pos hmappings,
    getD_ite hfile, getD_ite hroot, getD_ite hcontents]
  rfl

/-- Members are read in turn, and those of the map are collected. -/
theorem gathers_after {m : SourceMap} {ms : List Member}
    (hwritten : ∀ x ∈ ms, ∀ v, m.value.member? x.key = some v → Spaced v x.value)
    (hothers : ∀ x ∈ ms, m.value.member? x.key = none → ValueText x.value) (keys : List String)
    (honce : ∀ key v, m.value.member? key = some v → (keys ++ ms.map Member.key).count key ≤ 1) :
    Gathers Draft.fields (Draft.after m keys) ms (Draft.after m (keys ++ ms.map Member.key)) := by
  -- a key of the map stands once among those that were read and those that are still to come
  induction ms generalizing keys with
  | nil =>
    rw [List.map_nil, List.append_nil]
    exact .nil
  | cons x ms ih =>
    rw [List.map_cons, List.append_cons] at honce ⊢
    have hrest := ih (fun y hy => hwritten y (List.mem_cons_of_mem _ hy))
      (fun y hy => hothers y (List.mem_cons_of_mem _ hy)) (keys ++ [x.key]) honce
    refine .cons ?_ hrest
    cases hv : m.value.member? x.key with
    | none =>
      rw [after_other hv]
      exact .other (member?_eq_none_iff.mp hv) (hothers x List.mem_cons_self hv)
    | some v =>
      have hfresh : x.key ∉ keys := by
        have hcount := honce x.key v hv
        rw [List.count_append, List.count_append, List.count_singleton_self] at hcount
        exact List.count_eq_zero.mp (by omega)
      exact adds_written hv (hwritten x List.mem_cons_self v hv) hfresh

theorem describes_tightMembers (m : SourceMap) :
    m.Describes (Reader.tightMembers (m.value.members.map fun (key, v) => (key, v.compact))) where
  given key v hv := by
    have hnodup : (Draft.fields.map RecordField.key).Nodup := by decide
    exact .inl (List.count_eq_one_of_mem hnodup (key_mem_of_member? hv))
  written := by
    simp only [value, Value.members, Reader.tightMembers, List.map_cons, List.map_nil,
      List.forall_mem_cons]
    refine ⟨?_, ?_, ?_, ?_, ?_, ?_, List.forall_mem_nil _⟩
    all_goals
      intro v hv
      obtain rfl := Option.some.inj hv
    · exact .scalar (by simp)
    · exact .scalar (by simp)
    · exact .scalar (by simp)
    · exact Json.spaced_array (by simp)
    · refine Json.spaced_array (List.forall_mem_map.mpr ?_)
      rintro (_ | content) _
      all_goals simp
    · exact .scalar (by simp)
  others := by
    simp only [value, Value.members, Reader.tightMembers, List.map_cons, List.map_nil,
      List.forall_mem_cons]
    refine ⟨?_, ?_, ?_, ?_, ?_, ?_, List.forall_mem_nil _⟩
    all_goals
      intro hv
      cases hv

/-- What is written for a map describes it. -/
theorem describedBy_text (m : SourceMap) : m.DescribedBy m.text := by
  refine ⟨.empty, .empty, _, m.describes_tightMembers, ?_⟩
  rw [text, Value.text, String.toList_ofList, value, Value.compact_object]
  rfl

/-- The text of a map describes it, and the map is read from every object text that does. -/
theorem read_described (m : SourceMap) :
    m.DescribedBy m.text ∧ ∀ text, m.DescribedBy text → read text = .ok m := by
  refine ⟨m.describedBy_text, ?_⟩
  intro text h
  obtain ⟨lead, trail, ms, hd, htext⟩ := h
  have hgathers : Gathers Draft.fields {} ms (Draft.after m (ms.map Member.key)) := by
    refine gathers_after hd.written hd.others [] ?_
    intro key v hv
    rcases hd.given key v hv with hone | ⟨hnone, -⟩
    · exact Nat.le_of_eq hone
    · exact (List.count_eq_zero.mpr hnone).trans_le (Nat.zero_le 1)
  have hfinish : (Draft.after m (ms.map Member.key)).finish = some m := by
    refine finish_after fun key v hv => (hd.given key v hv).imp ?_ And.right
    intro hone
    exact List.count_pos_iff.mp (by omega)
  have hrun := Reader.record_run hgathers hfinish lead trail.chars
  have hdrop : Json.dropBlanks trail.chars = [] := List.dropWhile_eq_nil_iff.mpr trail.blank
  rw [read, Reader.read, htext, reader, hrun]
  exact if_pos hdrop

/-- A map without its defaults as another tool might write it. -/
def foreignText : String :=
  " \x7b\"names\":[[],1e9],\n\"mappings\":\"AAAA\",\"sources\":[ \"a\",\"b\"]," ++
    "\"names\":null,\"version\":3\x7d"

def foreignMap : SourceMap :=
  ⟨"", 3, "", ["a", "b"], [], "AAAA"⟩

def foreignMembers : List Member := [
  .tight "names" ['[', '[', ']', ',', '1', 'e', '9', ']'],
  { Member.tight "mappings" (Value.string "AAAA").compact with lead := Gap.single '\n' rfl },
  .tight "sources" ['[', ' ', '"', 'a', '"', ',', '"', 'b', '"', ']'],
  .tight "names" ['n', 'u', 'l', 'l'],
  .tight "version" (Value.number 3).compact]

theorem valueText_foreign : ValueText ['[', '[', ']', ',', '1', 'e', '9', ']'] := by
  have hempty : ValueText ['[', ']'] := .empty .list .empty
  have hone : Digits ['1'] := ⟨by decide, List.forall_mem_singleton.mpr rfl⟩
  have hnine : Digits ['9'] := ⟨by decide, List.forall_mem_singleton.mpr rfl⟩
  have hexponent : ExponentText ('e' :: ([] ++ ['9'])) := .digits (.inl rfl) (.inl rfl) hnine
  have hnumber : ValueText ([] ++ (['1'] ++ ([] ++ ('e' :: ([] ++ ['9']))))) :=
    .number (.parts (.inl rfl) hone (fun _ => rfl) .none hexponent)
  refine .items .list ⟨[], .empty, ['[', ']'], .empty⟩ [⟨[], .empty, ['1', 'e', '9'], .empty⟩] ?_ ?_
  · simp only [List.forall_mem_cons]
    exact ⟨.list, .list, List.forall_mem_nil _⟩
  · simp only [List.forall_mem_cons]
    exact ⟨hempty, hnumber, List.forall_mem_nil _⟩

theorem spaced_foreign : Spaced (.array [.string "a", .string "b"])
    ['[', ' ', '"', 'a', '"', ',', '"', 'b', '"', ']'] := by
  refine .items (.string "a", ⟨[], .single ' ' rfl, ['"', 'a', '"'], .empty⟩)
    [(.string "b", .tight (.string "b"))] ?_ ?_
  · simp only [List.forall_mem_cons]
    exact ⟨.list, .list, List.forall_mem_nil _⟩
  · simp only [List.forall_mem_cons]
    exact ⟨.scalar (by simp), .scalar (by simp), List.forall_mem_nil _⟩

theorem describes_foreignMembers : foreignMap.Describes foreignMembers where
  given key v hv := by
    have hkey := key_mem_of_member? hv
    simp only [Draft.fields, List.map_cons, List.map_nil, List.mem_cons, List.not_mem_nil,
      or_false] at hkey
    rcases hkey with rfl | rfl | rfl | rfl | rfl | rfl
    all_goals obtain rfl := Option.some.inj hv
    · exact .inr ⟨by decide, List.mem_cons_self⟩
    · exact .inl (by decide)
    · exact .inr ⟨by decide, by simp [defaults, foreignMap]⟩
    · exact .inl (by decide)
    · exact .inr ⟨by decide, by simp [defaults, foreignMap]⟩
    · exact .inl (by decide)
  written := by
    simp only [foreignMembers, List.forall_mem_cons]
    refine ⟨?_, ?_, ?_, ?_, ?_, List.forall_mem_nil _⟩
    all_goals intro v hv
    · cases hv
    · obtain rfl := Option.some.inj hv
      exact .scalar (by simp)
    · obtain rfl := Option.some.inj hv
      exact spaced_foreign
    · cases hv
    · obtain rfl := Option.some.inj hv
      exact .scalar (by simp)
  others := by
    simp only [foreignMembers, List.forall_mem_cons]
    refine ⟨?_, ?_, ?_, ?_, ?_, List.forall_mem_nil _⟩
    all_goals intro hv
    · exact valueText_foreign
    · cases hv
    · cases hv
    · exact .null
    · cases hv

theorem describedBy_foreign : foreignMap.DescribedBy foreignText :=
  ⟨.single ' ' rfl, .empty, foreignMembers, describes_foreignMembers, rfl⟩

theorem read_described_foreign :
    foreignMap.DescribedBy foreignText ∧ read foreignText = .ok foreignMap :=
  ⟨describedBy_foreign, (read_described foreignMap).2 foreignText describedBy_foreign⟩

end Templating.SourceMap
