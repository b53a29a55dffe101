import Templating.Proofs.FirstRegistrations
import Templating.Proofs.Refusals

namespace Templating

/-- The cursor behind whole lines and the front of one more. -/
def Cursor.behind (lines : List (List Segment)) (front : List Segment) : Cursor :=
  front.foldl Cursor.past (Mappings.pastLines {} lines).newLine

namespace Mappings

theorem intercalate_concat {sep l : List α} {ls : List (List α)} (h : ls ≠ []) :
    sep.intercalate (ls ++ [l]) = sep.intercalate ls ++ sep ++ l := by
  induction ls with
  | nil => exact absurd rfl h
  | cons first ls ih =>
    by_cases hls : ls = []
    · subst hls
      simp
    · rw [List.cons_append, List.intercalate_cons_of_ne_nil (by simp), ih hls,
        List.intercalate_cons_of_ne_nil hls]
      simp only [List.append_assoc]

theorem lineFields_append (c : Cursor) (ss ts : List Segment) :
    c.lineFields (ss ++ ts) = c.lineFields ss ++ (ss.foldl Cursor.past c).lineFields ts := by
  induction ss generalizing c with
  | nil => rfl
  | cons s ss ih => rw [List.cons_append, Cursor.lineFields, ih]; rfl

theorem allFields_append (c : Cursor) (xs ys : List (List Segment)) :
    c.allFields (xs ++ ys) = c.allFields xs ++ (pastLines c xs).allFields ys := by
  induction xs generalizing c with
  | nil => rfl
  | cons x xs ih => rw [List.cons_append, Cursor.allFields, ih]; rfl

/-- The last line is written from where the lines before it lead. -/
theorem allFields_concat (c : Cursor) (lines : List (List Segment)) (ss : List Segment) :
    c.allFields (lines ++ [ss]) =
      c.allFields lines ++ [(pastLines c lines).newLine.lineFields ss] := by
  rw [allFields_append]
  rfl

theorem writeLine_concat (segments : List (List Int64)) (fields : List Int64) :
    writeLine (segments ++ [fields]) =
      writeLine segments ++ (if segments = [] then [] else [',']) ++ writeSegment fields := by
  by_cases h : segments = []
  · subst h
    simp [writeLine]
  · rw [if_neg h, writeLine, List.map_append, List.map_singleton, intercalate_concat (by simpa),
      ← writeLine]

theorem writeLines_concat (rows : List (List (List Int64))) (row : List (List Int64)) :
    writeLines (rows ++ [row]) =
      writeLines rows ++ (if rows = [] then [] else [';']) ++ writeLine row := by
  by_cases h : rows = []
  · subst h
    simp [writeLines]
  · rw [if_neg h, writeLines, List.map_append, List.map_singleton, intercalate_concat (by simpa),
      ← writeLines]

theorem allFields_eq_nil_iff {c : Cursor} {lines : List (List Segment)} :
    c.allFields lines = [] ↔ lines = [] := by
  cases lines <;> simp [Cursor.allFields]

theorem lineFields_eq_nil_iff {c : Cursor} {ss : List Segment} :
    c.lineFields ss = [] ↔ ss = [] := by
  cases ss <;> simp [Cursor.lineFields]

/-- A segment is spelled by one value for each of its fields, the least value like zero. -/
theorem spelled_writeSegment (fields : List Int64) :
    Spelled (writeSegment fields) (fields.map fun v => Vlq.unfold (Vlq.fold v)) :=
  ⟨fields.map Vlq.encode, by rw [writeSegment, List.flatMap_def], Vlq.spells_map_encode fields⟩

theorem write_line {lines : List (List Segment)} (h : lines ≠ []) :
    write (lines ++ [[]]) = write lines ++ ";" := by
  have hrows : ({} : Cursor).allFields lines ≠ [] := allFields_eq_nil_iff.not.mpr h
  apply String.toList_inj.mp
  rw [write, write, String.toList_append, String.toList_ofList, String.toList_ofList,
    allFields_concat, writeLines_concat, if_neg hrows]
  exact List.append_nil _

/-- A segment at the end adds its differences, behind a comma if there is a segment before it. -/
theorem write_segment (lines : List (List Segment)) (ss : List Segment) (s : Segment) :
    write (lines ++ [ss ++ [s]]) =
      write (lines ++ [ss]) ++ (if ss = [] then "" else ",") ++
        String.ofList (writeSegment ((Cursor.behind lines ss).fields s)) := by
  apply String.toList_inj.mp
  simp only [write, String.toList_append, String.toList_ofList]
  rw [allFields_concat, allFields_concat, writeLines_concat, writeLines_concat, lineFields_append,
    Cursor.lineFields, Cursor.lineFields, writeLine_concat]
  simp only [lineFields_eq_nil_iff, List.append_assoc]
  congr 3
  split <;> rfl

end Mappings

/-- A map that another one is the beginning of. -/
structure SourceMap.Continues (m' m : SourceMap) : Prop where
  file : m'.file = m.file
  version : m'.version = m.version
  sourceRoot : m'.sourceRoot = m.sourceRoot
  sources : m.sources <+: m'.sources
  sourcesContent : m.sourcesContent <+: m'.sourcesContent
  mappings : m.mappings.toList <+: m'.mappings.toList

namespace Builder

/-- What a step adds to the text of the mappings: a line adds a semicolon, and a mapping that is not
refused its differences from the totals so far, one value, or four if it names a source. As many
values are read in what is added, and they are the differences while every source has an index of 32
bits. -/
inductive Adds (b : Builder) : Step → String → Prop
  | source (s : Source) : b.Adds (.source s) ""
  | line : b.Adds .line ";"
  | refused {m : Mapping} {e : Error} : (b.addMapping m).2 = .error e → b.Adds (.mapping m) ""
  | added {m : Mapping} {b' : Builder} {lines : List (List Segment)} {last : List Segment}
      {s : Segment} {values read : List Int64} {piece : List Char} : b.addMapping m = (b', .ok ()) →
      b.recorded = lines ++ [last] → b'.recorded = lines ++ [last ++ [s]] →
      values = (Cursor.behind lines last).fields s →
      (values.length = if m.url = none then 1 else 4) →
      piece = values.flatMap Vlq.encode →
      Mappings.Spelled piece read → read.length = values.length →
      (b.urls.length ≤ UInt32.size → read = values) →
      b.Adds (.mapping m) ((if last = [] then "" else ",") ++ String.ofList piece)

variable {b : Builder}

theorem Resolves.length_fields {urls : List String} {m : Mapping} {origin : Option Origin}
    (h : Resolves urls m origin) (c : Cursor) :
    (c.fields ⟨m.column, origin⟩).length = if m.url = none then 1 else 4 := by
  cases hu : m.url with
  | none =>
    simp only [Resolves, hu] at h
    rw [h]
    rfl
  | some url =>
    simp only [Resolves, hu] at h
    obtain ⟨_, _, _, _, _, _, rfl⟩ := h
    rfl

theorem WellFormed.indexed (h : WellFormed b) (hu : b.urls.length ≤ UInt32.size) :
    ∀ ss ∈ b.recorded, ∀ s ∈ ss, s.Indexed :=
  fun ss hss s hs o ho => Nat.lt_of_lt_of_le (h.known ss hss s hs o ho) hu

/-- The differences of a new segment are all spelled as they are. -/
theorem WellFormed.fields_ne_minValue {lines : List (List Segment)} {last : List Segment}
    {m : Mapping} {origin : Option Origin} (h : WellFormed b)
    (hrec : b.recorded = lines ++ [last]) (hr : Resolves b.urls m origin)
    (hu : b.urls.length ≤ UInt32.size) :
    Int64.minValue ∉ (Cursor.behind lines last).fields ⟨m.column, origin⟩ := by
  have hindexed := h.indexed hu
  rw [hrec] at hindexed
  have hlast : ∀ s ∈ last, s.Indexed :=
    hindexed last (List.mem_append_right _ List.mem_cons_self)
  have hwords : (Cursor.behind lines last).Words :=
    (Cursor.words_zero.pastLines fun ss hss =>
      hindexed ss (List.mem_append_left _ hss)).newLine.foldl_past hlast
  have hnew : Segment.Indexed ⟨m.column, origin⟩ := fun _ ho =>
    Nat.lt_of_lt_of_le (hr.source_lt ho) hu
  exact fun hmem => hwords.fields_ne_minValue hnew _ hmem rfl

theorem hasMappings_after (hm : b.hasMappings = true) (step : Step) :
    (b.after step).hasMappings = true := by
  cases step with
  | source s => rwa [after_source, addSource_hasMappings]
  | line => exact hm
  | mapping m =>
    rcases b.after_mapping_cases m with hadd | hadd
    · rwa [hadd]
    · exact addMapping_hasMappings hadd

/-- A step extends the text that is written after it. -/
theorem WellFormed.write_after (h : WellFormed b) (hm : b.hasMappings = true) (step : Step) :
    ∃ added, b.Adds step added ∧
      Mappings.write (b.after step).recorded = Mappings.write b.recorded ++ added := by
  cases step with
  | source s =>
    refine ⟨"", .source s, ?_⟩
    rw [after_source, recorded_addSource, String.append_empty]
  | line =>
    refine ⟨";", .line, ?_⟩
    rw [after_line, recorded_addLine, Mappings.write_line (h.recorded_ne_nil hm)]
  | mapping m =>
    rw [after_mapping]
    rcases b.addMapping_cases m with ⟨e, hadd⟩ | ⟨b', hadd⟩
    · have hrefused : (b.addMapping m).2 = .error e := by rw [hadd]
      refine ⟨"", .refused hrefused, ?_⟩
      rw [hadd, String.append_empty]
    · obtain ⟨lines, last, origin, hrec, hr, hrec'⟩ := addMapping_recorded hadd
      have hread := fun hu => Vlq.map_unfold_fold_eq_iff.mpr (h.fields_ne_minValue hrec hr hu)
      refine ⟨_, .added hadd hrec hrec' rfl (hr.length_fields _) rfl
        (Mappings.spelled_writeSegment _) (List.length_map _) hread, ?_⟩
      rw [hadd]
      dsimp only
      rw [hrec', hrec, Mappings.write_segment, String.append_assoc]
      rfl

theorem WellFormed.write_prefix_run (h : WellFormed b) (hm : b.hasMappings = true)
    (steps : List Step) :
    (b.run steps).hasMappings = true ∧
      (Mappings.write b.recorded).toList <+: (Mappings.write (b.run steps).recorded).toList := by
  induction steps generalizing b with
  | nil => exact ⟨hm, List.prefix_refl _⟩
  | cons step rest ih =>
    obtain ⟨added, -, hwrite⟩ := h.write_after hm step
    obtain ⟨hm', hrest⟩ := ih (h.after step) (hasMappings_after hm step)
    refine ⟨hm', List.IsPrefix.trans ?_ hrest⟩
    rw [hwrite, String.toList_append]
    exact List.prefix_append _ _

/-- Once there is a map, whatever is told to its builder only continues it, and each step adds to
the end of its mappings just what that step stands for. -/
theorem growing_maps (h : b.Reachable) (hm : b.hasMappings = true) :
    ∃ m, b.map? = some m ∧
      (∀ steps, ∃ m', (b.run steps).map? = some m' ∧ m'.Continues m) ∧
      ∀ step, ∃ m' added, (b.after step).map? = some m' ∧ b.Adds step added ∧
        m'.mappings = m.mappings ++ added := by
  rw [map?, if_pos hm]
  refine ⟨_, rfl, ?_, ?_⟩
  · intro steps
    obtain ⟨hm', hmappings⟩ := h.wellFormed.write_prefix_run hm steps
    have hsources := sources_prefix_run b steps
    rw [map?, if_pos hm']
    exact ⟨_, rfl, by rw [run_file], rfl, rfl, hsources.map _, hsources.map _, hmappings⟩
  · intro step
    obtain ⟨added, hadds, hwrite⟩ := h.wellFormed.write_after hm step
    rw [map?, if_pos (hasMappings_after hm step)]
    exact ⟨_, added, rfl, hadds, hwrite⟩

theorem growing_maps_placed :
    (({} : Builder).run placedSteps).Reachable ∧
    (({} : Builder).run placedSteps).hasMappings = true ∧
    ∃ m, (({} : Builder).run placedSteps).map? = some m ∧
      (∃ m', ((({} : Builder).run placedSteps).run mixedSteps).map? = some m' ∧ m'.Continues m) ∧
      ∃ m', ((({} : Builder).run placedSteps).after .line).map? = some m' ∧
        m'.mappings = m.mappings ++ ";" := by
  have hreachable : (({} : Builder).run placedSteps).Reachable := ⟨none, placedSteps, rfl⟩
  have hmarked : (({} : Builder).run placedSteps).hasMappings = true := by decide
  obtain ⟨m, hm, hruns, hsteps⟩ := growing_maps hreachable hmarked
  obtain ⟨m', added, hm', hadds, htext⟩ := hsteps .line
  cases hadds with
  | line => exact ⟨hreachable, hmarked, m, hm, hruns mixedSteps, m', hm', htext⟩

end Builder

end Templating
