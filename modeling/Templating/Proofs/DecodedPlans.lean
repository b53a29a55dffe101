import Templating.CommandLine.Run
import Templating.Proofs.MapTexts
import Templating.Proofs.PlayedPlans

namespace Templating

theorem Mappings.segments_eq (m : Mappings) :
    m.segments = (placed m.toLists).map fun (number, s) => (UInt32.ofNat number, s) := by
  simp [segments, placed, List.map_flatMap, Function.comp_def]

namespace CommandLine

/-- A row tells of a mapping what the plan says of it. -/
structure Row.Tells (row : Row) (told : Nat × Mapping) : Prop where
  line : row.line.toNat = told.1
  column : row.column = told.2.column
  bare : told.2.url = none → row.origin = none
  origin : ∀ url, told.2.url = some url → ∃ line column, told.2.originLine = some line ∧
    told.2.originColumn = some column ∧ row.origin = some ⟨url, line, column⟩

/-- A segment as the row that the decoded map shows for it. -/
def Row.ofSegment (m : SourceMap) (found : Nat × Segment) : Row where
  line := UInt32.ofNat found.1
  column := found.2.column
  origin := found.2.origin.map fun o => ⟨m.sourceText o.source, o.line, o.column⟩

theorem Row.ofMap_eq (m : SourceMap) (decoded : Mappings) :
    Row.ofMap m decoded = (placed decoded.toLists).map (Row.ofSegment m) := by
  rw [ofMap, Mappings.segments_eq, List.map_map]
  rfl

open Builder (Answers)

theorem Row.tells_of_answers {m : SourceMap} {found : Nat × Segment} {told : Nat × Mapping}
    (h : Answers m.sources found told) (hlt : found.1 < UInt32.size) :
    (Row.ofSegment m found).Tells told := by
  refine ⟨?_, h.column, ?_, ?_⟩
  · rw [← h.line]
    exact (UInt32.toNat_ofNat' (n := found.1)).trans (Nat.mod_eq_of_lt hlt)
  · intro hnone
    rw [Row.ofSegment, h.bare hnone]
    rfl
  · intro url hurl
    obtain ⟨o, ho, hs, hl, hc⟩ := h.origin url hurl
    refine ⟨o.line, o.column, hl, hc, ?_⟩
    simp only [Row.ofSegment, ho, Option.map_some, SourceMap.sourceText, hs, Option.getD_some]

/-- The rows of a map tell what was asked of its builder. -/
theorem Row.ofMap_tells {m : SourceMap} {recorded : List (List Segment)}
    {told : List (Nat × Mapping)} (h : List.Forall₂ (Answers m.sources) (placed recorded) told)
    (hle : recorded.length ≤ UInt32.size) :
    List.Forall₂ Row.Tells (Row.ofMap m (.ofLists recorded)) told := by
  have hnumbers : ∀ found ∈ placed recorded, found.1 < UInt32.size := by
    intro found hf
    obtain ⟨ss, hnumber, -⟩ := mem_placed_iff.mp hf
    exact Nat.lt_of_lt_of_le (List.getElem?_eq_some_iff.mp hnumber).1 hle
  rw [Row.ofMap_eq, Mappings.toLists_ofLists, List.forall₂_map_left_iff]
  apply List.Forall₂.imp _ ((List.forall₂_and_left _ _).mpr ⟨hnumbers, h⟩)
  intro found asked hboth
  exact Row.tells_of_answers hboth.2 hboth.1

theorem encode_plan {files : Files} {config : Config} {path text : String} {p : Plan} {b : Builder}
    {m : SourceMap} (hfile : files path = .ok text) (hplan : Plan.read text = .ok p)
    (hreplay : p.replay config.file = .ok b) (hm : b.map? = some m) :
    (encode files config [path] false .human).result = .ok ⟨some m.text, []⟩ := by
  have hplay : p.play config.file = (b, none) := Plan.play_of_replay hreplay
  have hencoded : (encodePlan files config false path).1 = .ok ⟨path, some m, none⟩ := by
    simp [encodePlan, hfile, hplan, hplay, hm]
  simp [encode, hencoded, collect, Except.toOption, Encoded.print, Encoded.line, lines]

theorem decodeRows_text {files : Files} {path : String} {m : SourceMap} {d : Mappings}
    (hfile : files path = .ok (m.text ++ "\n")) (hd : m.decoded = .ok d) :
    decodeRows files path = .ok (Row.ofMap m d) := by
  simp only [decodeRows, hfile, SourceMap.read_text, hd]

/-- What encoding prints for a plan that was replayed is decoded to one row for each mapping of the
plan, in order. -/
theorem decoded_plan {files : Files} {config : Config} {path text : String} {p : Plan} {b : Builder}
    (hfile : files path = .ok text) (hplan : Plan.read text = .ok p)
    (hreplay : p.replay config.file = .ok b) (hsome : placed p.lines ≠ [])
    (hsources : p.sources.length < UInt32.size) (hlines : p.lines.length < UInt32.size) :
    ∃ outcome m d, (encode files config [path] false .human).result = .ok outcome ∧
      outcome.exitCode = 0 ∧ SourceMap.read outcome.standardOutput = .ok m ∧ m.decoded = .ok d ∧
      (∀ s ∈ d.segments, ∀ o, s.2.origin = some o → o.source < m.sources.length) ∧
      List.Forall₂ Row.Tells (Row.ofMap m d) (placed p.lines) ∧
      ∀ (files' : Files) (mapPath : String), files' mapPath = .ok outcome.standardOutput →
        decodeRows files' mapPath = .ok (Row.ofMap m d) ∧
        ∀ format, (decode files' mapPath format).result =
          .ok ⟨some (Row.print (Row.ofMap m d) format), []⟩ := by
  have hleft := Plan.replayed hreplay
  have hroom : b.urls.length ≤ UInt32.size :=
    Nat.le_trans hleft.sources (Nat.le_of_lt hsources)
  obtain ⟨m, hm, hd, hurls⟩ := Builder.decoded_map hleft.answers (hleft.marked.mpr hsome) hsome
    hroom
  have hanswers := hleft.answers
  rw [← hurls] at hanswers
  have hrows := Row.ofMap_tells hanswers (hleft.lines ▸ Nat.le_of_lt hlines)
  have hknown := Builder.source_lt_of_answers hanswers
  refine ⟨_, m, _, encode_plan hfile hplan hreplay hm, rfl, SourceMap.read_text m, hd, ?_, hrows,
    ?_⟩
  · intro s hs o ho
    rw [Mappings.segments_eq, Mappings.toLists_ofLists] at hs
    obtain ⟨⟨number, t⟩, ht, rfl⟩ := List.mem_map.mp hs
    obtain ⟨ss, hnumber, hmem⟩ := mem_placed_iff.mp ht
    exact hknown ss (List.mem_of_getElem? hnumber) t hmem o ho
  · intro files' mapPath hfile'
    have hdecoded := decodeRows_text hfile' hd
    refine ⟨hdecoded, ?_⟩
    intro format
    simp only [decode, hdecoded]
    rfl

open Json (Reader Value)

/-- A plan with a name to escape, a mapping without a source that still gives a line, and an empty
line. -/
def quotedPlan : Plan :=
  ⟨none, [⟨"a\"b\n", some "é"⟩],
    [[⟨0, none, some 5, none⟩], [], [⟨2, some "a\"b\n", some 1, some 3⟩]]⟩

def quotedValue : Value :=
  .object [
    ("sources", .array [.object [("url", .string "a\"b\n"), ("content", .string "é")]]),
    ("lines", .array [
      .array [.object [("col", .number 0), ("line", .number 5)]],
      .array [],
      .array [.object [("col", .number 2), ("source", .string "a\"b\n"), ("line", .number 1),
        ("column", .number 3)]]])]

theorem read_quotedValue : Plan.read quotedValue.text = .ok quotedPlan := by
  have hsource : Plan.sourceReader.Takes
      (Value.object [("url", .string "a\"b\n"), ("content", .string "é")]).compact
      ⟨"a\"b\n", some "é"⟩ :=
    Value.takes_object (.next rfl rfl (Value.takes_string _) (.next rfl rfl
      (Value.takes_some_string _) .nil)) rfl
  have hbare : Plan.mappingReader.Takes
      (Value.object [("col", .number 0), ("line", .number 5)]).compact ⟨0, none, some 5, none⟩ :=
    Value.takes_object (.next rfl rfl (Value.takes_word 0) (.next rfl rfl
      (Value.takes_some_word 5) .nil)) rfl
  have hplaced : Plan.mappingReader.Takes
      (Value.object [("col", .number 2), ("source", .string "a\"b\n"), ("line", .number 1),
        ("column", .number 3)]).compact ⟨2, some "a\"b\n", some 1, some 3⟩ :=
    Value.takes_object (.next rfl rfl (Value.takes_word 2) (.next rfl rfl
      (Value.takes_some_string _) (.next rfl rfl (Value.takes_some_word 1) (.next rfl rfl
      (Value.takes_some_word 3) .nil)))) rfl
  have hplan : Plan.reader.Takes quotedValue.compact quotedPlan :=
    Value.takes_object (.next rfl rfl (Value.takes_array (.cons hsource .nil)) (.next rfl rfl
      (Value.takes_array (.cons (Value.takes_array (.cons hbare .nil)) (.cons
        (Value.takes_array .nil) (.cons (Value.takes_array (.cons hplaced .nil)) .nil)))) .nil)) rfl
  have hread := hplan.read_eq (List.forall_mem_nil (Json.isBlank · = true))
  rwa [List.append_nil] at hread

theorem decoded_plan_quoted :
    Plan.read quotedValue.text = .ok quotedPlan ∧
    quotedPlan.replay (some "f.js") = .ok ⟨some "f.js", [⟨"a\"b\n", some "é"⟩],
      [[⟨2, some ⟨0, 1, 3⟩⟩], [], [⟨0, none⟩]], 2, true⟩ ∧
    placed quotedPlan.lines ≠ [] ∧ quotedPlan.sources.length < UInt32.size ∧
    quotedPlan.lines.length < UInt32.size ∧
    ∃ outcome m d, (encode (fun _ => .ok quotedValue.text) { file := some "f.js" } ["p.json"] false
        .human).result = .ok outcome ∧
      outcome.exitCode = 0 ∧ SourceMap.read outcome.standardOutput = .ok m ∧ m.decoded = .ok d ∧
      (∀ s ∈ d.segments, ∀ o, s.2.origin = some o → o.source < m.sources.length) ∧
      List.Forall₂ Row.Tells (Row.ofMap m d) (placed quotedPlan.lines) ∧
      ∀ (files' : Files) (mapPath : String), files' mapPath = .ok outcome.standardOutput →
        decodeRows files' mapPath = .ok (Row.ofMap m d) ∧
        ∀ format, (decode files' mapPath format).result =
          .ok ⟨some (Row.print (Row.ofMap m d) format), []⟩ := by
  have hreplay : quotedPlan.replay (some "f.js") = .ok ⟨some "f.js", [⟨"a\"b\n", some "é"⟩],
      [[⟨2, some ⟨0, 1, 3⟩⟩], [], [⟨0, none⟩]], 2, true⟩ := by rfl
  have hsome : placed quotedPlan.lines ≠ [] := by decide
  exact ⟨read_quotedValue, hreplay, hsome, by decide, by decide,
    decoded_plan rfl read_quotedValue hreplay hsome (by decide) (by decide)⟩

end CommandLine

end Templating
