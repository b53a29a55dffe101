import Mathlib.Data.List.Forall2
import Templating.CommandLine.Run
import Templating.Proofs.TakenValues

namespace Templating.CommandLine

/-- Lines that are each ended by a line feed. -/
def endedLines (ls : List String) : String :=
  String.join (ls.map (· ++ "\n"))

theorem endedLines_append (ls ms : List String) :
    endedLines (ls ++ ms) = endedLines ls ++ endedLines ms := by
  rw [endedLines, List.map_append, String.join_append]
  rfl

/-- Joined lines are ended lines without the last line feed. -/
theorem lines_append_lineFeed {ls : List String} (h : ls ≠ []) :
    lines ls ++ "\n" = endedLines ls := by
  induction ls with
  | nil => exact absurd rfl h
  | cons l ls ih =>
    cases ls with
    | nil => simp [lines, endedLines]
    | cons m ls =>
      have hrest := ih (List.cons_ne_nil m ls)
      calc
        lines (l :: m :: ls) ++ "\n" = (l ++ "\n") ++ (lines (m :: ls) ++ "\n") := by
          rw [lines, String.intercalate_cons_cons, String.append_assoc]
          rfl
        _ = (l ++ "\n") ++ endedLines (m :: ls) := by rw [hrest]
        _ = endedLines (l :: m :: ls) := String.join_cons.symm

/-- The path that a failure is about. -/
def Failure.path : Failure → String
  | .unread path _ => path
  | .unparsed path _ => path
  | .unplayable path _ => path
  | .undecodable path _ => path

namespace Outcome

theorem standardError_eq (words : Wording) (o : Outcome) :
    o.standardError words = endedLines (o.failures.map (·.chain words)) := by
  rw [standardError, endedLines, List.map_map]
  rfl

theorem exitCode_eq (o : Outcome) : o.exitCode = if 0 < o.failures.length then 1 else 0 := by
  cases h : o.failures <;> simp [exitCode, h]

/-- The failures of two runs stand one after the other, and so do the texts that are told. -/
structure Joins (words : Wording) (o left right : Outcome) : Prop where
  failures : o.failures = left.failures ++ right.failures
  failed : o.failures.length = left.failures.length + right.failures.length
  standardError : o.standardError words = left.standardError words ++ right.standardError words

end Outcome

section

variable (words : Wording) (files : Files) (config : Config) (comment : Bool) (path : String)

/-- What the plan at a path comes to: it is read and replayed to its end, and encoded with the map
of its builder; or it is given up, and one chain of errors is told. -/
inductive ComesTo : Encoded ⊕ String → Prop
  | encoded {text : String} {p : Plan} {b : Builder} :
      files path = .ok text → Plan.read text = .ok p → p.play config.file = (b, none) →
      ComesTo (.inl ⟨path, b.map?, (if comment then b.map? else none).map SourceMap.comment⟩)
  | unread {e : ReadError} : files path = .error e →
      ComesTo (.inr ("Error: failed to read " ++ path ++ "\n  caused by: " ++ e.message))
  | unparsed {text : String} {f : Json.Fault} :
      files path = .ok text → Plan.read text = .error f →
      ComesTo (.inr ("Error: failed to parse " ++ path ++ "\n  caused by: " ++
        words ⟨.plan, text, f⟩))
  | unplayable {text : String} {p : Plan} {b : Builder} {e : Builder.Error} :
      files path = .ok text → Plan.read text = .ok p → p.play config.file = (b, some e) →
      ComesTo (.inr ("Error: " ++ path ++ ": " ++ e.message ++ "\n  caused by: " ++ e.message))

/-- What a run on one path comes to: the plan is printed and nothing told, or nothing is printed and
the chain of the one failure is told. -/
inductive Single (format : Format) : List Encoded → Outcome → Prop
  | encoded {e : Encoded} {o : Outcome} : ComesTo words files config comment path (.inl e) →
      e.plan = path → o.output = some (Encoded.print [e] format) → o.failures = [] →
      o.standardError words = "" → Single format [e] o
  | failed {f : Failure} {chain : String} {o : Outcome} :
      ComesTo words files config comment path (.inr chain) →
      chain = lines ["Error: " ++ f.message, "  caused by: " ++ f.cause words] →
      f.path = path → o.output = none → o.failures = [f] →
      o.standardError words = chain ++ "\n" → Single format [] o

end

variable {words : Wording} {files : Files} {config : Config} {comment : Bool} {path : String}

/-- An error stands on the first line of its chain, and every cause on a line of its own. -/
theorem errorChain_eq_lines (error : String) (causes : List String) :
    errorChain error causes =
      lines (("Error: " ++ error) :: causes.map ("  caused by: " ++ ·)) := by
  have hbreak (text : String) : "\n  caused by: " ++ text = "\n" ++ ("  caused by: " ++ text) := by
    rw [← String.append_assoc]
    rfl
  rw [errorChain]
  generalize "Error: " ++ error = out
  induction causes generalizing out with
  | nil => simp [lines]
  | cons cause causes ih =>
    rw [List.foldl_cons, ih]
    cases causes <;> simp [lines, String.append_assoc, hbreak]

/-- No path comes to two things. -/
theorem rightUnique_comesTo : Relator.RightUnique (ComesTo words files config comment) := by
  intro path x y hx hy
  cases hx <;> cases hy <;> simp_all

/-- An encoded plan was read and replayed to its end, and has the map of its builder. -/
theorem encodePlan_ok_iff {e : Encoded} :
    (encodePlan files config comment path).1 = .ok e ↔
      ∃ text p b, files path = .ok text ∧ Plan.read text = .ok p ∧
        p.play config.file = (b, none) ∧
        e = ⟨path, b.map?, (if comment then b.map? else none).map SourceMap.comment⟩ := by
  unfold encodePlan
  constructor
  · intro h
    split at h
    · cases h
    · rename_i text htext
      split at h
      · cases h
      · rename_i p hp
        split at h
        · cases h
        · rename_i b hb
          exact ⟨text, p, b, htext, hp, hb, (Except.ok.inj h).symm⟩
  · intro h
    rcases h with ⟨text, p, b, htext, hp, hb, rfl⟩
    simp only [htext, hp, hb]

theorem comesTo_of_ok {e : Encoded} (h : (encodePlan files config comment path).1 = .ok e) :
    e.plan = path ∧ ComesTo words files config comment path (.inl e) := by
  obtain ⟨text, p, b, htext, hp, hb, rfl⟩ := encodePlan_ok_iff.mp h
  exact ⟨rfl, .encoded htext hp hb⟩

/-- A failure is about its path, and its chain is what the path comes to. -/
theorem comesTo_of_error {f : Failure}
    (h : (encodePlan files config comment path).1 = .error f) :
    f.path = path ∧ ComesTo words files config comment path (.inr (f.chain words)) := by
  unfold encodePlan at h
  split at h
  · rename_i e he
    cases h
    exact ⟨rfl, .unread he⟩
  · rename_i text htext
    split at h
    · rename_i fault hfault
      cases h
      exact ⟨rfl, .unparsed htext hfault⟩
    · rename_i p hp
      split at h
      · rename_i b e hb
        cases h
        exact ⟨rfl, .unplayable htext hp hb⟩
      · cases h

variable (words files config comment)

/-- The plans at some paths that can be encoded, in the order of the paths. -/
def encodedPlans (paths : List String) : List Encoded :=
  paths.filterMap fun path => (encodePlan files config comment path).1.toOption

/-- What the plan at a path comes to, as it is found. -/
def part (path : String) : Encoded ⊕ String :=
  match (encodePlan files config comment path).1 with
  | .ok e => .inl e
  | .error f => .inr (f.chain words)

theorem comesTo_part (path : String) :
    ComesTo words files config comment path (part words files config comment path) := by
  unfold part
  split
  · rename_i e he
    exact (comesTo_of_ok he).2
  · rename_i f hf
    exact (comesTo_of_error hf).2

/-- What a run on the plans at some paths comes to. -/
def encodeOutcome (paths : List String) (format : Format) : Outcome :=
  collect (paths.map fun path => (encodePlan files config comment path).1) format

theorem encode_result (paths : List String) (format : Format) :
    (encode files config paths comment format).result =
      .ok (encodeOutcome files config comment paths format) := by
  simp only [encode, encodeOutcome, List.map_map]
  rfl

theorem encodedPlans_append (ps qs : List String) :
    encodedPlans files config comment (ps ++ qs) =
      encodedPlans files config comment ps ++ encodedPlans files config comment qs :=
  List.filterMap_append

theorem encodeOutcome_output (paths : List String) (format : Format) :
    (encodeOutcome files config comment paths format).output =
      if encodedPlans files config comment paths = [] then none
      else some (Encoded.print (encodedPlans files config comment paths) format) := by
  simp only [encodeOutcome, collect, List.filterMap_map, List.isEmpty_iff]
  rfl

theorem encodeOutcome_failures_append (ps qs : List String) (format : Format) :
    (encodeOutcome files config comment (ps ++ qs) format).failures =
      (encodeOutcome files config comment ps format).failures ++
        (encodeOutcome files config comment qs format).failures := by
  simp only [encodeOutcome, collect, List.map_append, List.filterMap_append]

/-- For people every encoded plan is printed on a line of its own, and nothing if there is none. -/
theorem standardOutput_human (paths : List String) :
    (encodeOutcome files config comment paths .human).standardOutput =
      endedLines ((encodedPlans files config comment paths).map Encoded.line) := by
  rw [Outcome.standardOutput, encodeOutcome_output]
  split
  · rename_i hnone
    split at hnone
    · rename_i hnil
      rw [hnil]
      rfl
    · cases hnone
  · rename_i text hsome
    split at hsome
    · cases hsome
    · rename_i hne
      obtain rfl := Option.some.inj hsome
      exact lines_append_lineFeed (mt List.map_eq_nil_iff.mp hne)

/-- Every path comes to an encoded plan or to a failure. -/
theorem length_encodedPlans_add (paths : List String) (format : Format) :
    (encodedPlans files config comment paths).length +
      (encodeOutcome files config comment paths format).failures.length = paths.length := by
  induction paths with
  | nil => rfl
  | cons path paths ih =>
    simp only [encodedPlans, encodeOutcome, collect] at ih ⊢
    cases hr : (encodePlan files config comment path).1 with
    | ok e =>
      simp [hr, Except.toOption] at ih ⊢
      omega
    | error f =>
      simp [hr, Except.toOption] at ih ⊢
      omega

theorem encodedPlans_eq (paths : List String) :
    encodedPlans files config comment paths =
      (paths.map (part words files config comment)).filterMap Sum.getLeft? := by
  rw [encodedPlans, List.filterMap_map]
  congr 1
  funext path
  rw [Function.comp_apply, part]
  cases (encodePlan files config comment path).1 <;> rfl

/-- The chains that are told, one for each path that is given up. -/
theorem chains_eq (paths : List String) (format : Format) :
    (encodeOutcome files config comment paths format).failures.map (·.chain words) =
      (paths.map (part words files config comment)).filterMap Sum.getRight? := by
  simp only [encodeOutcome, collect, List.filterMap_map, List.map_filterMap]
  congr 1
  funext path
  rw [Function.comp_apply, Function.comp_apply, part]
  cases (encodePlan files config comment path).1 <;> rfl

/-- One path is encoded and has no failure, or it fails and nothing is printed. -/
theorem single_of_path (path : String) (format : Format) :
    Single words files config comment path format (encodedPlans files config comment [path])
      (encodeOutcome files config comment [path] format) := by
  cases hr : (encodePlan files config comment path).1 with
  | ok e =>
    obtain ⟨hplan, hcomes⟩ := comesTo_of_ok hr
    simp only [encodedPlans, encodeOutcome, collect, List.map_singleton, List.filterMap_cons,
      List.filterMap_nil, hr, Except.toOption]
    exact .encoded hcomes hplan rfl rfl rfl
  | error f =>
    obtain ⟨hpath, hcomes⟩ := comesTo_of_error hr
    simp only [encodedPlans, encodeOutcome, collect, List.map_singleton, List.filterMap_cons,
      List.filterMap_nil, hr, Except.toOption]
    refine .failed hcomes (errorChain_eq_lines f.message [f.cause words]) hpath rfl rfl ?_
    simp [Outcome.standardError_eq, endedLines]

theorem joins_append (ps qs : List String) (format : Format) :
    (encodeOutcome files config comment (ps ++ qs) format).Joins words
      (encodeOutcome files config comment ps format)
      (encodeOutcome files config comment qs format) := by
  have hfailures := encodeOutcome_failures_append files config comment ps qs format
  refine ⟨hfailures, ?_, ?_⟩
  · rw [hfailures, List.length_append]
  · simp only [Outcome.standardError_eq, hfailures, List.map_append, endedLines_append]

/-- A run on two lists of paths is the run on the first and the run on the second one after the
other. Every path comes to one encoded plan or to one chain of errors; the plans are printed and the
chains are told in the order of the paths, and the exit code tells whether there is any chain. -/
theorem joined_encodings :
    (∀ paths format, (encode files config paths comment format).result =
      .ok (encodeOutcome files config comment paths format)) ∧
    (∀ ps qs, encodedPlans files config comment (ps ++ qs) =
      encodedPlans files config comment ps ++ encodedPlans files config comment qs) ∧
    (∀ ps qs format, (encodeOutcome files config comment (ps ++ qs) format).Joins words
      (encodeOutcome files config comment ps format)
      (encodeOutcome files config comment qs format)) ∧
    (∀ ps qs, (encodeOutcome files config comment (ps ++ qs) .human).standardOutput =
      (encodeOutcome files config comment ps .human).standardOutput ++
        (encodeOutcome files config comment qs .human).standardOutput) ∧
    (∀ path format, Single words files config comment path format
      (encodedPlans files config comment [path])
      (encodeOutcome files config comment [path] format)) ∧
    (∀ paths format, ∃ parts, List.Forall₂ (ComesTo words files config comment) paths parts ∧
      encodedPlans files config comment paths = parts.filterMap Sum.getLeft? ∧
      (encodeOutcome files config comment paths format).standardError words =
        endedLines (parts.filterMap Sum.getRight?) ∧
      (encodeOutcome files config comment paths format).failures.length =
        (parts.filterMap Sum.getRight?).length) ∧
    ∀ paths format,
      (encodeOutcome files config comment paths format).output =
        (if encodedPlans files config comment paths = [] then none
        else some (Encoded.print (encodedPlans files config comment paths) format)) ∧
      (encodedPlans files config comment paths).length +
        (encodeOutcome files config comment paths format).failures.length = paths.length ∧
      (encodeOutcome files config comment paths format).exitCode =
        if 0 < (encodeOutcome files config comment paths format).failures.length then 1 else 0 := by
  refine ⟨encode_result files config comment, encodedPlans_append files config comment,
    joins_append words files config comment, ?_, single_of_path words files config comment, ?_, ?_⟩
  · intro ps qs
    rw [standardOutput_human, encodedPlans_append, List.map_append, endedLines_append,
      standardOutput_human, standardOutput_human]
  · intro paths format
    have hchains := chains_eq words files config comment paths format
    refine ⟨paths.map (part words files config comment), ?_,
      encodedPlans_eq words files config comment paths, ?_, ?_⟩
    · rw [List.forall₂_map_right_iff, List.forall₂_same]
      exact fun path _ => comesTo_part words files config comment path
    · rw [Outcome.standardError_eq, hchains]
    · rw [← hchains, List.length_map]
  · intro paths format
    exact ⟨encodeOutcome_output files config comment paths format,
      length_encodedPlans_add files config comment paths format, Outcome.exitCode_eq _⟩

open Json (Value)

/-- A plan of one line with mappings at given columns, and the JSON of it. -/
def columnsPlan (columns : List UInt32) : Plan :=
  ⟨none, [], [columns.map fun column => ⟨column, none, none, none⟩]⟩

def columnsValue (columns : List UInt32) : Value :=
  .object [("lines", .array [
    .array (columns.map fun column => .object [("col", .number column.toNat)])])]

theorem read_columnsValue (columns : List UInt32) :
    Plan.read (columnsValue columns).text = .ok (columnsPlan columns) := by
  have hmapping (column : UInt32) : Plan.mappingReader.Takes
      (Value.object [("col", .number column.toNat)]).compact ⟨column, none, none, none⟩ :=
    Value.takes_object (.next rfl rfl (Value.takes_word column) .nil) rfl
  have hline : Plan.mappingReader.list.Takes
      (Value.array (columns.map fun column => .object [("col", .number column.toNat)])).compact
      (columns.map fun column => ⟨column, none, none, none⟩) := by
    apply Value.takes_array
    rw [List.forall₂_map_left_iff, List.forall₂_map_right_iff, List.forall₂_same]
    exact fun column _ => hmapping column
  have hplan : Plan.reader.Takes (columnsValue columns).compact (columnsPlan columns) :=
    Value.takes_object (.next rfl rfl (Value.takes_array (.cons hline .nil)) .nil) rfl
  have hread := hplan.read_eq (List.forall_mem_nil (Json.isBlank · = true))
  rwa [List.append_nil] at hread

/-- A file that is missing, one that is no JSON, one whose columns fall, and one that can be
encoded. -/
def mixedFiles : Files := fun path =>
  if path = "gone.json" then .error .missing
  else if path = "broken.json" then .ok "not json"
  else .ok (columnsValue (if path = "early.json" then [4, 3] else [3, 4])).text

def mixedWords : Wording := fun _ => "expected ident at line 1 column 2"

def mixedPaths : List String := ["gone.json", "good.json", "broken.json", "early.json"]

theorem joined_encodings_mixed :
    (encodeOutcome mixedFiles {} false (mixedPaths ++ mixedPaths) .human).Joins mixedWords
      (encodeOutcome mixedFiles {} false mixedPaths .human)
      (encodeOutcome mixedFiles {} false mixedPaths .human) ∧
    (encodeOutcome mixedFiles {} false mixedPaths .human).standardError mixedWords =
      "Error: failed to read gone.json\n" ++
      "  caused by: No such file or directory (os error 2)\n" ++
      "Error: failed to parse broken.json\n" ++
      "  caused by: expected ident at line 1 column 2\n" ++
      "Error: early.json: mapping added out of order at line 0: column 3 after column 4\n" ++
      "  caused by: mapping added out of order at line 0: column 3 after column 4\n" ∧
    (encodeOutcome mixedFiles {} false mixedPaths .human).failures.length = 3 ∧
    (encodeOutcome mixedFiles {} false mixedPaths .human).exitCode = 1 := by
  obtain ⟨-, -, hjoins, -, -, hparts, hruns⟩ := joined_encodings mixedWords mixedFiles {} false
  obtain ⟨parts, hcomes, -, herror, hfailed⟩ := hparts mixedPaths .human
  obtain ⟨-, -, hexit⟩ := hruns mixedPaths .human
  have hgone : mixedFiles "gone.json" = .error .missing := rfl
  have hgood : mixedFiles "good.json" = .ok (columnsValue [3, 4]).text := rfl
  have hbroken : mixedFiles "broken.json" = .ok "not json" := rfl
  have hearly : mixedFiles "early.json" = .ok (columnsValue [4, 3]).text := rfl
  have hrefused : Plan.read "not json" = .error .malformed := rfl
  have hplayed : (columnsPlan [3, 4]).play none =
      (⟨none, [], [[⟨4, none⟩, ⟨3, none⟩]], 4, true⟩, none) := rfl
  have hstopped : (columnsPlan [4, 3]).play none =
      (⟨none, [], [[⟨4, none⟩]], 4, true⟩, some (.outOfOrder 0 3 4)) := rfl
  have hexpected := List.right_unique_forall₂' rightUnique_comesTo hcomes
    (.cons (.unread hgone) <| .cons (.encoded hgood (read_columnsValue [3, 4]) hplayed) <|
      .cons (.unparsed hbroken hrefused) <|
      .cons (.unplayable hearly (read_columnsValue [4, 3]) hstopped) .nil)
  rw [hexpected] at herror hfailed
  rw [hfailed] at hexit
  refine ⟨hjoins _ _ _, ?_, hfailed, hexit⟩
  rw [herror]
  decide +kernel

end Templating.CommandLine
