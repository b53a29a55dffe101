import Mathlib.Data.List.Nodup
import Mathlib.Data.List.Pairwise
import Templating.Proofs.Additions

namespace Templating.Builder

/-- The column that the last line ends with, and zero without a segment on it or without a line. -/
def endColumn (lines : List (List Segment)) : UInt32 :=
  ((lines.getLastD []).getLast?.map Segment.column).getD 0

structure WellFormed (b : Builder) : Prop where
  sorted : ∀ ss ∈ b.recorded, ss.Pairwise fun s t => s.column ≤ t.column
  tracked : b.lastColumn = endColumn b.recorded
  marked : b.hasMappings = true ↔ ∃ ss ∈ b.recorded, ss ≠ []
  distinct : b.urls.Nodup
  known : ∀ ss ∈ b.recorded, ∀ s ∈ ss, ∀ o, s.origin = some o → o.source < b.urls.length

@[simp] theorem endColumn_append_nil (lines : List (List Segment)) :
    endColumn (lines ++ [[]]) = 0 := by
  simp [endColumn]

@[simp] theorem endColumn_append_concat (lines : List (List Segment)) (ss : List Segment)
    (s : Segment) : endColumn (lines ++ [ss ++ [s]]) = s.column := by
  simp [endColumn]

/-- Nothing on a sorted line starts behind its end. -/
theorem column_le_endColumn {ss : List Segment} (lines : List (List Segment))
    (hsorted : ss.Pairwise fun s t => s.column ≤ t.column) :
    ∀ s ∈ ss, s.column ≤ endColumn (lines ++ [ss]) := by
  intro s hs
  have hend : endColumn (lines ++ [ss]) = (ss.getLast (List.ne_nil_of_mem hs)).column := by
    simp [endColumn, List.getLast?_eq_some_getLast (List.ne_nil_of_mem hs)]
  rw [hend]
  exact hsorted.rel_getLast_of_rel_getLast_getLast hs (UInt32.le_refl _)

theorem sorted_concat {ss : List Segment} {s : Segment} (lines : List (List Segment))
    (hsorted : ss.Pairwise fun s t => s.column ≤ t.column)
    (hle : endColumn (lines ++ [ss]) ≤ s.column) :
    (ss ++ [s]).Pairwise fun s t => s.column ≤ t.column := by
  refine List.pairwise_append.mpr ⟨hsorted, List.pairwise_singleton _ _, ?_⟩
  intro t ht u hu
  obtain rfl := List.mem_singleton.mp hu
  exact UInt32.le_trans (column_le_endColumn lines hsorted t ht) hle

theorem Resolves.source_lt {urls : List String} {m : Mapping} {origin : Option Origin}
    (h : Resolves urls m origin) {o : Origin} (ho : origin = some o) : o.source < urls.length := by
  subst ho
  cases hu : m.url with
  | none => simp [Resolves, hu] at h
  | some url =>
    simp only [Resolves, hu] at h
    obtain ⟨index, line, column, hi, -, -, he⟩ := h
    obtain rfl := Option.some.inj he
    exact (List.idxOf?_eq_some_iff.mp hi).1

theorem WellFormed.recorded_ne_nil {b : Builder} (h : WellFormed b) (hm : b.hasMappings = true) :
    b.recorded ≠ [] := by
  obtain ⟨ss, hss, -⟩ := h.marked.mp hm
  exact List.ne_nil_of_mem hss

theorem wellFormed_start (file : Option String) : WellFormed { file := file } := by
  refine ⟨?_, rfl, ?_, List.nodup_nil, ?_⟩ <;> simp [recorded]

/-- A source is registered behind the others, so that the indices given out before stay good. -/
theorem WellFormed.addSource {b : Builder} (h : WellFormed b) (s : Source) :
    WellFormed (b.addSource s) := by
  refine ⟨?_, ?_, ?_, ?_, ?_⟩
  · rw [recorded_addSource]
    exact h.sorted
  · rw [recorded_addSource, addSource_lastColumn]
    exact h.tracked
  · rw [recorded_addSource, addSource_hasMappings]
    exact h.marked
  · rw [addSource_urls]
    split
    · exact h.distinct
    · rename_i hs
      rw [← List.concat_eq_append]
      exact h.distinct.concat hs
  · intro ss hss t ht o ho
    rw [recorded_addSource] at hss
    exact Nat.lt_of_lt_of_le (h.known ss hss t ht o ho) (urls_prefix_addSource b s).length_le

theorem WellFormed.addLine {b : Builder} (h : WellFormed b) : WellFormed b.addLine := by
  have hmem : ∀ ss ∈ b.addLine.recorded, ss ∈ b.recorded ∨ ss = [] := by
    intro ss hss
    rw [recorded_addLine] at hss
    exact (List.mem_append.mp hss).imp_right List.mem_singleton.mp
  refine ⟨?_, ?_, ?_, h.distinct, ?_⟩
  · intro ss hss
    rcases hmem ss hss with hss | rfl
    · exact h.sorted ss hss
    · exact .nil
  · rw [recorded_addLine, endColumn_append_nil]
    rfl
  · have hmarked : b.addLine.hasMappings = b.hasMappings := rfl
    rw [hmarked, h.marked, recorded_addLine]
    simp
  · intro ss hss s hs
    rcases hmem ss hss with hss | rfl
    · exact h.known ss hss s hs
    · cases hs

/-- A mapping is added where the last line ends, and starts no earlier. -/
theorem WellFormed.addMapping {b b' : Builder} {m : Mapping} (h : WellFormed b)
    (hm : b.addMapping m = (b', .ok ())) : WellFormed b' := by
  obtain ⟨lines, last, origin, hrec, hr, hrec'⟩ := addMapping_recorded hm
  obtain ⟨hle, hcolumn⟩ := addMapping_column hm
  have hurls := addMapping_urls hm
  rw [h.tracked, hrec] at hle
  have hold : ∀ ss ∈ lines ++ [last], ss ∈ b.recorded := fun ss hss => hrec ▸ hss
  have hlast := hold last (List.mem_append_right _ List.mem_cons_self)
  -- every line is an old one, but for the last, which was lengthened
  have hmem : ∀ ss ∈ b'.recorded, ss ∈ b.recorded ∨ ss = last ++ [⟨m.column, origin⟩] := by
    intro ss hss
    rw [hrec'] at hss
    rcases List.mem_append.mp hss with hss | hss
    · exact .inl (hold ss (List.mem_append_left _ hss))
    · exact .inr (List.mem_singleton.mp hss)
  refine ⟨?_, ?_, ?_, hurls ▸ h.distinct, ?_⟩
  · intro ss hss
    rcases hmem ss hss with hss | rfl
    · exact h.sorted ss hss
    · exact sorted_concat lines (h.sorted last hlast) hle
  · rw [hrec', endColumn_append_concat, hcolumn]
  · rw [addMapping_hasMappings hm, hrec']
    simp
  · intro ss hss s hs o ho
    rw [hurls]
    rcases hmem ss hss with hss | rfl
    · exact h.known ss hss s hs o ho
    · rcases List.mem_append.mp hs with hs | hs
      · exact h.known last hlast s hs o ho
      · obtain rfl := List.mem_singleton.mp hs
        exact hr.source_lt ho

theorem WellFormed.after {b : Builder} (h : WellFormed b) (step : Step) :
    WellFormed (b.after step) := by
  cases step with
  | source s => exact h.addSource s
  | line => exact h.addLine
  | mapping m =>
    rcases b.after_mapping_cases m with hm | hm
    · rwa [hm]
    · exact h.addMapping hm

theorem WellFormed.run {b : Builder} (h : WellFormed b) (steps : List Step) :
    WellFormed (b.run steps) := by
  induction steps generalizing b with
  | nil => exact h
  | cons step rest ih => exact ih (h.after step)

/-- Whatever a new builder was told, refusals included, it is well formed. -/
theorem wellFormed_run (file : Option String) (steps : List Step) :
    WellFormed (({ file := file } : Builder).run steps) :=
  (wellFormed_start file).run steps

end Templating.Builder
