import Templating.Proofs.MapTexts
import Templating.Proofs.PrintableTexts
import Templating.Proofs.RecordedRuns

namespace Templating

theorem isPrefixOf?_append [BEq α] [LawfulBEq α] (xs ys : List α) :
    xs.isPrefixOf? (xs ++ ys) = some ys := by
  induction xs with
  | nil => rfl
  | cons x xs ih => rw [List.cons_append, List.isPrefixOf?, if_pos (beq_self_eq_true x), ih]

theorem toList_loop_eq (bytes : ByteArray) (i : Nat) (front : List UInt8) :
    ByteArray.toList.loop bytes i front = front.reverse ++ bytes.data.toList.drop i := by
  induction i, front using ByteArray.toList.loop.induct bytes with
  | case1 i front hlt ih =>
    have hlength : i < bytes.data.toList.length := hlt
    have hget : bytes.get! i = bytes.data.toList[i] := getElem!_pos bytes.data i hlt
    rw [ByteArray.toList.loop, if_pos hlt, ih, List.drop_eq_getElem_cons hlength, hget]
    simp
  | case2 i front hge =>
    rw [ByteArray.toList.loop, if_neg hge, List.drop_of_length_le (Nat.not_lt.mp hge),
      List.append_nil]

/-- The bytes of a text are the bytes of no other one. -/
theorem fromUTF8?_toList_toUTF8 (s : String) :
    String.fromUTF8? s.toUTF8.toList.toByteArray = some s := by
  have hbytes : s.toUTF8.toList.toByteArray = s.toByteArray := by
    apply ByteArray.ext
    rw [ByteArray.toList, toList_loop_eq, List.data_toByteArray]
    simp
  rw [hbytes, String.fromUTF8?, dif_pos s.isValidUTF8]
  rfl

namespace Base64

/-- Digits in groups of four, where at most two `=` fill up the last group. -/
structure Padded (text : List Char) : Prop where
  groups : 4 ∣ text.length
  digits : ∃ (digits : List Char) (missing : Nat),
    text = digits ++ List.replicate missing '=' ∧ missing ≤ 2 ∧
    ∀ c ∈ digits, c.isAlphanum ∨ c = '+' ∨ c = '/'

theorem padded_encode (bytes : List UInt8) : Padded (encode bytes) := by
  have halphabet : ∀ n < 64, (digit n).isAlphanum ∨ digit n = '+' ∨ digit n = '/' := by decide
  obtain ⟨values, missing, he, hmissing, hgroups, hvalues⟩ := exists_digits bytes
  rw [he]
  refine ⟨by simpa using hgroups, values.map digit, missing, rfl, hmissing, ?_⟩
  intro c hc
  obtain ⟨n, hn, rfl⟩ := List.mem_map.mp hc
  exact halphabet n (hvalues n hn)

/-- Nothing but visible characters is written. -/
theorem visible_encode (bytes : List UInt8) : ∀ c ∈ encode bytes, ' ' ≤ c ∧ c ≤ '~' :=
  forall_mem_encode (by decide) (by decide) bytes

end Base64

namespace SourceMap

/-- The map that a comment holds. -/
def ofComment (comment : String) : Option SourceMap := do
  let digits ← commentMark.toList.isPrefixOf? comment.toList
  let bytes ← Base64.decode digits
  let text ← String.fromUTF8? bytes.toByteArray
  (read text).toOption

theorem toList_comment (m : SourceMap) :
    m.comment.toList = commentMark.toList ++ Base64.encode m.text.toUTF8.toList := by
  rw [comment, String.toList_append, String.toList_ofList]

theorem comment_ne_empty (m : SourceMap) : m.comment ≠ "" := by
  intro he
  have hempty := m.toList_comment
  rw [he] at hempty
  exact absurd (List.append_eq_nil_iff.mp hempty.symm).1 (by decide)

/-- A map is read back from its comment. -/
theorem ofComment_comment (m : SourceMap) : ofComment m.comment = some m := by
  have hread : read m.text = .ok m := by
    have hblank := m.read_text_append (List.forall_mem_nil _)
    rwa [String.ofList_nil, String.append_empty] at hblank
  simp only [ofComment, toList_comment, isPrefixOf?_append, Base64.decode_encode,
    fromUTF8?_toList_toUTF8, Option.bind_eq_bind, Option.bind_some, hread]
  rfl

theorem comment_injective : Function.Injective comment := by
  intro m m' he
  have hsame := m.ofComment_comment
  rw [he, ofComment_comment] at hsame
  exact (Option.some.inj hsame).symm

theorem visible_comment (m : SourceMap) : ∀ c ∈ m.comment.toList, ' ' ≤ c ∧ c ≤ '~' := by
  have hmark : commentMark.toList.all fun c => ' ' ≤ c ∧ c ≤ '~' := by decide
  intro c hc
  rw [toList_comment] at hc
  rcases List.mem_append.mp hc with hc | hc
  · exact of_decide_eq_true (List.all_eq_true.mp hmark c hc)
  · exact Base64.visible_encode _ c hc

end SourceMap

namespace Builder

/-- A run has mappings as soon as it has added one. -/
theorem hasMappings_run (file : Option String) (steps : List Step) :
    (({ file := file } : Builder).run steps).hasMappings = true ↔
      ({ file := file } : Builder).accepted 0 steps ≠ [] := by
  have hlength := (answers_run file steps).length_eq
  rw [run_hasMappings, List.ne_nil_iff_length_pos, List.ne_nil_iff_length_pos, hlength]

theorem comment_eq_empty_iff (b : Builder) : b.comment = "" ↔ b.hasMappings = false := by
  unfold comment map?
  cases b.hasMappings with
  | false => simp
  | true => simp [SourceMap.comment_ne_empty]

/-- A comment is the mark and the text of the map in padded digits, all of it visible. It is read
back as the map, so that no two maps share it. A builder gives the comment of its map, and none as
long as no mapping was added. -/
theorem commented_maps :
    (∀ m : SourceMap, ∃ digits, m.comment = SourceMap.commentMark ++ String.ofList digits ∧
      Base64.Padded digits ∧
      ∀ text, Base64.decode text = some m.text.toUTF8.toList ↔ text = digits) ∧
    (∀ m : SourceMap, SourceMap.ofComment m.comment = some m) ∧
    Function.Injective SourceMap.comment ∧
    (∀ m : SourceMap, ∀ c ∈ m.comment.toList, ' ' ≤ c ∧ c ≤ '~') ∧
    ∀ (file : Option String) (steps : List Step),
      (({ file := file } : Builder).run steps).comment =
        ((({ file := file } : Builder).run steps).map?.map SourceMap.comment).getD "" ∧
      ((({ file := file } : Builder).run steps).comment = "" ↔
        ({ file := file } : Builder).accepted 0 steps = []) := by
  refine ⟨?_, SourceMap.ofComment_comment, SourceMap.comment_injective,
    SourceMap.visible_comment, ?_⟩
  · intro m
    exact ⟨_, rfl, Base64.padded_encode _, fun _ => Base64.decode_eq_some_iff⟩
  · intro file steps
    have hadded := hasMappings_run file steps
    refine ⟨?_, ?_⟩
    · rw [comment]
      cases (({ file := file } : Builder).run steps).map? <;> rfl
    · rw [comment_eq_empty_iff, ← Bool.not_eq_true, hadded, not_not]

/-- A map with a line feed in a name and a letter beyond ASCII in a content. -/
def accentedMap : SourceMap :=
  ⟨"f.js", 3, "", ["a\"b\n"], [some "é"], "A"⟩

theorem commented_maps_accented :
    '\n' ∈ accentedMap.sources.flatMap String.toList ∧ '\n' ∉ accentedMap.comment.toList ∧
    SourceMap.ofComment accentedMap.comment = some accentedMap ∧
    (({} : Builder).run mixedSteps).comment ≠ "" ∧
    (({} : Builder).run [.mapping ⟨0, none, none, none⟩, .line]).comment = "" := by
  obtain ⟨-, hread, -, hvisible, hrun⟩ := commented_maps
  refine ⟨by decide, ?_, hread accentedMap, ?_, (hrun none _).2.mpr (by decide)⟩
  · intro hmem
    exact absurd (hvisible accentedMap '\n' hmem).1 (by decide)
  · rw [ne_eq, (hrun none mixedSteps).2]
    decide

end Builder

end Templating
