import Templating.Proofs.DecodedPlans
import Templating.Proofs.JoinedEncodings
import Templating.Proofs.PrintableTexts
import Templating.Proofs.ReadValues

namespace Templating

theorem Builder.isSome_map? (b : Builder) : b.map?.isSome = b.hasMappings := by
  unfold map?
  cases b.hasMappings <;> rfl

open Json (Value)

theorem SourceMap.nestsWithin_value (m : SourceMap) (depth : Nat) :
    m.value.NestsWithin (depth + 2) := by
  intro member hm
  simp only [List.mem_cons, List.not_mem_nil, or_false] at hm
  rcases hm with rfl | rfl | rfl | rfl | rfl | rfl
  · simp
  · simp
  · simp
  · intro v hv
    obtain ⟨source, -, rfl⟩ := List.mem_map.mp hv
    simp
  · intro v hv
    obtain ⟨content, -, rfl⟩ := List.mem_map.mp hv
    cases content <;> simp
  · simp

namespace CommandLine

/-- The plan in a file. -/
def planAt (files : Files) (path : String) : Option Plan :=
  (files path).toOption.bind fun text => (Plan.read text).toOption

/-- The line for people, told from the members of an object: the comment, else the map, else that
there is none. -/
def told (v : Value) : String :=
  match v.member? "comment", v.member? "sourceMap", v.member? "plan" with
  | some (.string comment), _, _ => comment
  | none, some (.object members), _ => (Value.object members).text
  | none, some .null, some (.string plan) => plan ++ ": no mappings"
  | _, _, _ => ""

/-- What an object shows of an encoded plan. -/
structure Shown (comment : Bool) (p : Plan) (v : Value) (e : Encoded) : Prop where
  plan : v.member? "plan" = some (.string e.plan)
  bare : v.member? "sourceMap" = some .null ↔ placed p.lines = []
  mapped : placed p.lines ≠ [] → ∃ map m, v.member? "sourceMap" = some map ∧ e.map = some m ∧
    SourceMap.read map.text = .ok m
  commented : (v.member? "comment").isSome = true ↔ comment = true ∧ placed p.lines ≠ []
  payload : ∀ c, v.member? "comment" = some c → ∃ map digits, v.member? "sourceMap" = some map ∧
    c = .string (SourceMap.commentMark ++ String.ofList digits) ∧
    Base64.decode digits = some map.text.toUTF8.toList

namespace Encoded

theorem member?_plan (e : Encoded) : e.value.member? "plan" = some (.string e.plan) := rfl

theorem member?_sourceMap (e : Encoded) :
    e.value.member? "sourceMap" = some (match e.map with
      | none => .null
      | some m => m.value) := rfl

theorem member?_comment (e : Encoded) :
    e.value.member? "comment" = e.comment.map .string := by
  cases hc : e.comment with
  | none => rw [value, hc]; rfl
  | some c => rw [value, hc]; rfl

/-- The line for people is told from the object. -/
theorem told_value (e : Encoded) : told e.value = e.line := by
  rw [told, member?_comment, member?_sourceMap, member?_plan, line]
  cases e.comment with
  | some c => rfl
  | none => cases e.map <;> rfl

theorem nestsWithin_value (e : Encoded) (depth : Nat) : e.value.NestsWithin (depth + 3) := by
  intro member hm
  rcases List.mem_append.mp hm with hm | hm
  · simp only [List.mem_cons, List.not_mem_nil, or_false] at hm
    rcases hm with rfl | rfl
    · simp
    · cases e.map with
      | none => simp
      | some m => exact m.nestsWithin_value depth
  · obtain ⟨c, -, rfl⟩ := Option.map_eq_some_iff.mp (Option.mem_toList.mp hm)
    simp

/-- The JSON of encoded plans is read back as the list of their objects. -/
theorem read_print (es : List Encoded) :
    Value.read (print es .json) = .ok (.array (es.map value)) := by
  apply Value.read_pretty
  intro v hv
  obtain ⟨e, -, rfl⟩ := List.mem_map.mp hv
  exact e.nestsWithin_value 123

end Encoded

/-- The object shows a map and a comment exactly where there are any, and the comment holds the text
of the map. -/
theorem Encoded.shown_value {e : Encoded} {p : Plan} {comment : Bool}
    (hmap : e.map.isSome = true ↔ placed p.lines ≠ [])
    (hcomment : e.comment = (if comment then e.map else none).map SourceMap.comment) :
    Shown comment p e.value e := by
  refine ⟨e.member?_plan, ?_, ?_, ?_, ?_⟩
  · rw [member?_sourceMap, ← not_iff_not, ← ne_eq (placed p.lines), ← hmap]
    cases e.map with
    | none => simp
    | some m => simp [SourceMap.value]
  · intro hplaced
    obtain ⟨m, hm⟩ := Option.isSome_iff_exists.mp (hmap.mpr hplaced)
    refine ⟨m.value, m, by rw [member?_sourceMap, hm], hm, ?_⟩
    have hread := m.read_text_append (List.forall_mem_nil _)
    rwa [String.ofList_nil, String.append_empty] at hread
  · rw [member?_comment, Option.isSome_map, hcomment, Option.isSome_map, ← hmap]
    cases comment <;> simp
  · intro c hc
    rw [member?_comment, hcomment] at hc
    cases comment with
    | false => cases hc
    | true =>
      obtain ⟨text, htext, rfl⟩ := Option.map_eq_some_iff.mp hc
      obtain ⟨m, hm, rfl⟩ := Option.map_eq_some_iff.mp htext
      have hmap : e.map = some m := hm
      exact ⟨m.value, _, by rw [member?_sourceMap, hmap], rfl, Base64.decode_encode _⟩

variable {files : Files} {config : Config} {comment : Bool} {e : Encoded}

/-- The map of an encoded plan tells whether the plan has mappings, and the comment is that of the
map. -/
theorem exists_plan_of_result (h : (encodePlan files config comment e.plan).1 = .ok e) :
    ∃ p, planAt files e.plan = some p ∧ (e.map.isSome = true ↔ placed p.lines ≠ []) ∧
      e.comment = (if comment then e.map else none).map SourceMap.comment := by
  obtain ⟨text, p, b, htext, hp, hplay, he⟩ := encodePlan_ok_iff.mp h
  have hreplay : p.replay config.file = .ok b := by rw [Plan.replay, hplay]
  have hmap : e.map = b.map? := by rw [he]
  have hcomment : e.comment = (if comment then b.map? else none).map SourceMap.comment := by
    rw [he]
  refine ⟨p, ?_, ?_, by rw [hcomment, hmap]⟩
  · rw [planAt, htext]
    exact congrArg Except.toOption hp
  · rw [hmap, Builder.isSome_map?]
    exact (Plan.replayed hreplay).marked

/-- Only a path can bring a line feed into the line of an encoded plan. -/
theorem lineFeed_not_mem_line (h : (encodePlan files config comment e.plan).1 = .ok e)
    (hp : '\n' ∉ e.plan.toList) : '\n' ∉ e.line.toList := by
  obtain ⟨-, -, -, hcomment⟩ := exists_plan_of_result h
  rw [Encoded.line]
  cases hc : e.comment with
  | some c =>
    rw [hcomment] at hc
    obtain ⟨m, -, rfl⟩ := Option.map_eq_some_iff.mp hc
    exact m.printable_comment.lineFeed_not_mem
  | none =>
    cases e.map with
    | some m => exact m.printable_text.lineFeed_not_mem
    | none =>
      rw [String.toList_append, List.mem_append, not_or]
      exact ⟨hp, by decide⟩

/-- For encoded plans the JSON is read back as a list with an object for each of them, which shows
its map and its comment. The lines for people are told from these objects, one for each plan unless
a path breaks it. -/
theorem agreeing_formats {es : List Encoded} (hne : es ≠ [])
    (hes : ∀ e ∈ es, (encodePlan files config comment e.plan).1 = .ok e) :
    ∃ vs, Value.read (Encoded.print es .json) = .ok (.array vs) ∧
      List.Forall₂ (fun v e => ∃ p, planAt files e.plan = some p ∧ Shown comment p v e) vs es ∧
      Encoded.print es .human = "\n".intercalate (vs.map told) ∧
      ((∀ e ∈ es, '\n' ∉ e.plan.toList) →
        (Encoded.print es .human).toList.splitOn '\n' = vs.map fun v => (told v).toList) := by
  have htold : (es.map Encoded.value).map told = es.map Encoded.line := by
    rw [List.map_map]
    exact List.map_congr_left fun e _ => e.told_value
  have hhuman : Encoded.print es .human = "\n".intercalate ((es.map Encoded.value).map told) := by
    rw [htold]
    rfl
  refine ⟨es.map Encoded.value, Encoded.read_print es, ?_, hhuman, ?_⟩
  · rw [List.forall₂_map_left_iff, List.forall₂_same]
    intro e he
    obtain ⟨p, hp, hmap, hcomment⟩ := exists_plan_of_result (hes e he)
    exact ⟨p, hp, Encoded.shown_value hmap hcomment⟩
  · intro hpaths
    have hlines : ∀ l ∈ (es.map Encoded.line).map String.toList, '\n' ∉ l := by
      intro l hl
      obtain ⟨line, hline, rfl⟩ := List.mem_map.mp hl
      obtain ⟨e, he, rfl⟩ := List.mem_map.mp hline
      exact lineFeed_not_mem_line (hes e he) (hpaths e he)
    rw [hhuman, String.toList_intercalate, htold]
    refine (List.splitOn_intercalate '\n' hlines (by simpa using hne)).trans ?_
    rw [← htold, List.map_map]
    rfl

/-- What the plan with a name to escape is replayed to. -/
def quotedBuilder : Builder :=
  ⟨some "f.js", [⟨"a\"b\n", some "é"⟩], [[⟨2, some ⟨0, 1, 3⟩⟩], [], [⟨0, none⟩]], 2, true⟩

/-- A file with that plan beside files with a plan of no line. -/
def quotedFiles : Files := fun path =>
  .ok (if path = "a" then quotedValue.text else (Value.object [("lines", .array [])]).text)

def quotedEncodings : List Encoded :=
  [⟨"a", quotedBuilder.map?, quotedBuilder.map?.map SourceMap.comment⟩, ⟨"b", none, none⟩]

theorem read_emptyLines :
    Plan.read (Value.object [("lines", .array [])]).text = .ok ⟨none, [], []⟩ := by
  have hplan : Plan.reader.Takes (Value.object [("lines", .array [])]).compact ⟨none, [], []⟩ :=
    Value.takes_object (.next rfl rfl (Value.takes_array .nil) .nil) rfl
  have hread := hplan.read_eq (List.forall_mem_nil (Json.isBlank · = true))
  rwa [List.append_nil] at hread

theorem agreeing_formats_quoted :
    quotedEncodings ≠ [] ∧
    (∀ e ∈ quotedEncodings,
      (encodePlan quotedFiles { file := some "f.js" } true e.plan).1 = .ok e) ∧
    (∀ e ∈ quotedEncodings, '\n' ∉ e.plan.toList) ∧
    ∃ vs, Value.read (Encoded.print quotedEncodings .json) = .ok (.array vs) ∧
      List.Forall₂ (fun v e => ∃ p, planAt quotedFiles e.plan = some p ∧ Shown true p v e) vs
        quotedEncodings ∧
      Encoded.print quotedEncodings .human = "\n".intercalate (vs.map told) ∧
      (Encoded.print quotedEncodings .human).toList.splitOn '\n' =
        vs.map fun v => (told v).toList := by
  have hne : quotedEncodings ≠ [] := List.cons_ne_nil _ _
  have hes : ∀ e ∈ quotedEncodings,
      (encodePlan quotedFiles { file := some "f.js" } true e.plan).1 = .ok e := by
    intro e he
    rcases List.mem_cons.mp he with rfl | he
    · exact encodePlan_ok_iff.mpr ⟨_, quotedPlan, quotedBuilder, rfl, read_quotedValue, rfl, rfl⟩
    · obtain rfl := List.mem_singleton.mp he
      exact encodePlan_ok_iff.mpr ⟨_, ⟨none, [], []⟩, _, rfl, read_emptyLines, rfl, rfl⟩
  have hpaths : ∀ e ∈ quotedEncodings, '\n' ∉ e.plan.toList := by
    simp [quotedEncodings]
  obtain ⟨vs, hread, hshown, hhuman, hsplit⟩ := agreeing_formats hne hes
  exact ⟨hne, hes, hpaths, vs, hread, hshown, hhuman, hsplit hpaths⟩

end CommandLine

end Templating
