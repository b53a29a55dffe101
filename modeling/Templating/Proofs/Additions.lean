import Mathlib.Data.List.Forall2
import Templating.Builder
import Templating.Proofs.Outcomes

namespace Templating

/-- The items of all lines in order, each with the number of its line. -/
def placed (lines : List (List α)) : List (Nat × α) :=
  lines.zipIdx.flatMap fun (items, number) => items.map (number, ·)

@[simp] theorem placed_append_nil (lines : List (List α)) :
    placed (lines ++ [[]]) = placed lines := by
  simp [placed, List.zipIdx_append]

theorem placed_append_singleton (lines : List (List α)) (items : List α) :
    placed (lines ++ [items]) = placed lines ++ items.map (lines.length, ·) := by
  simp [placed, List.zipIdx_append]

theorem mem_placed_iff {lines : List (List α)} {number : Nat} {a : α} :
    (number, a) ∈ placed lines ↔ ∃ items, lines[number]? = some items ∧ a ∈ items := by
  constructor
  · intro h
    obtain ⟨⟨items, n⟩, hitems, ha⟩ := List.mem_flatMap.mp h
    obtain ⟨b, hb, he⟩ := List.mem_map.mp ha
    cases he
    exact ⟨items, List.mk_mem_zipIdx_iff_getElem?.mp hitems, hb⟩
  · intro h
    rcases h with ⟨items, hitems, ha⟩
    apply List.mem_flatMap.mpr
    exact ⟨(items, number), List.mk_mem_zipIdx_iff_getElem?.mpr hitems,
      List.mem_map.mpr ⟨a, ha, rfl⟩⟩

theorem placed_ne_nil_iff {lines : List (List α)} :
    placed lines ≠ [] ↔ ∃ items ∈ lines, items ≠ [] := by
  constructor
  · intro h
    obtain ⟨⟨number, a⟩, hmem⟩ := List.exists_mem_of_ne_nil _ h
    obtain ⟨items, hitems, ha⟩ := mem_placed_iff.mp hmem
    exact ⟨items, List.mem_of_getElem? hitems, List.ne_nil_of_mem ha⟩
  · intro h
    rcases h with ⟨items, hitems, hne⟩
    obtain ⟨a, ha⟩ := List.exists_mem_of_ne_nil _ hne
    obtain ⟨number, hnumber⟩ := List.getElem?_of_mem hitems
    exact List.ne_nil_of_mem (mem_placed_iff.mpr ⟨items, hnumber, ha⟩)

namespace Builder

/-- The origin that a mapping asks for among the sources of a builder. -/
def Resolves (urls : List String) (m : Mapping) (origin : Option Origin) : Prop :=
  match m.url with
  | none => origin = none
  | some url => ∃ index line column, urls.idxOf? url = some index ∧ m.originLine = some line ∧
      m.originColumn = some column ∧ origin = some ⟨index, line, column⟩

theorem resolves_iff {b : Builder} {m : Mapping} {origin : Option Origin} :
    Resolves b.urls m origin ↔
      ∃ source, b.sourceOf m = .ok source ∧ originOf m source = .ok origin := by
  cases hu : m.url with
  | none => simp [Resolves, sourceOf, hu, originOf, eq_comm]
  | some url =>
    simp only [Resolves, sourceOf, hu]
    cases hi : b.urls.idxOf? url with
    | none => simp
    | some index =>
      cases hl : m.originLine <;> cases hc : m.originColumn <;>
        simp [originOf, hl, hc, eq_comm]

/-- The checks of a mapping one after another, and the origin it has if it passes them. -/
def check (b : Builder) (m : Mapping) : Except Error (Option Origin) := do
  let line ← b.currentLine
  let source ← b.sourceOf m
  if m.column < b.lastColumn then .error (.outOfOrder line m.column b.lastColumn)
  else originOf m source

/-- Every check is made before the first change, so that a mapping is refused without one. -/
theorem addMapping_eq (b : Builder) (m : Mapping) :
    b.addMapping m = match b.check m with
      | .error e => (b, .error e)
      | .ok origin => ({ b.push ⟨m.column, origin⟩ with
          lastColumn := m.column
          hasMappings := true }, .ok ()) := by
  simp only [addMapping, check, call_get_bind, call_lift_bind]
  cases b.currentLine with
  | error e => rfl
  | ok line =>
    cases b.sourceOf m with
    | error e => rfl
    | ok source =>
      by_cases hearly : m.column < b.lastColumn
      · simp only [if_pos hearly]
        rfl
      · simp only [if_neg hearly, call_lift_bind, call_modify_bind, call_modify]
        simp only [bind, Except.bind]
        cases originOf m source <;> rfl

theorem addMapping_error_iff {b b' : Builder} {m : Mapping} {e : Error} :
    b.addMapping m = (b', .error e) ↔ b' = b ∧ b.check m = .error e := by
  rw [addMapping_eq]
  cases b.check m <;> simp [eq_comm]

theorem refused_iff_check {b : Builder} {m : Mapping} {e : Error} :
    (b.addMapping m).2 = .error e ↔ b.check m = .error e := by
  rw [addMapping_eq]
  cases b.check m <;> simp

/-- A mapping is refused and nothing changes, or it is added. -/
theorem addMapping_cases (b : Builder) (m : Mapping) :
    (∃ e, b.addMapping m = (b, .error e)) ∨ ∃ b', b.addMapping m = (b', .ok ()) := by
  rw [addMapping_eq]
  cases b.check m with
  | error e => exact .inl ⟨e, rfl⟩
  | ok origin => exact .inr ⟨_, rfl⟩

/-- A mapping passes the checks if there is a line, if it does not start before the mapping that was
added last, and if it asks for an origin that there is. -/
theorem check_eq_ok_iff {b : Builder} {m : Mapping} {origin : Option Origin} :
    b.check m = .ok origin ↔ ∃ current earlier, b.lines = current :: earlier ∧
      Resolves b.urls m origin ∧ b.lastColumn ≤ m.column := by
  simp only [check, bind_eq_ok_iff]
  constructor
  · intro h
    rcases h with ⟨line, hl, source, hs, h⟩
    split at h
    · cases h
    · rename_i hle
      unfold currentLine at hl
      split at hl
      · cases hl
      · rename_i current earlier hlines
        exact ⟨current, earlier, hlines, resolves_iff.mpr ⟨source, hs, h⟩, UInt32.not_lt.mp hle⟩
  · intro h
    rcases h with ⟨current, earlier, hl, hr, hle⟩
    obtain ⟨source, hs, ho⟩ := resolves_iff.mp hr
    refine ⟨earlier.length, by rw [currentLine, hl], source, hs, ?_⟩
    rw [if_neg (UInt32.not_lt.mpr hle)]
    exact ho

/-- A mapping that passes the checks is put behind all others of the last line. -/
theorem addMapping_ok_iff {b b' : Builder} {m : Mapping} :
    b.addMapping m = (b', .ok ()) ↔ ∃ current earlier origin, b.lines = current :: earlier ∧
      Resolves b.urls m origin ∧ b.lastColumn ≤ m.column ∧
      b' = { b with
        lines := (⟨m.column, origin⟩ :: current) :: earlier
        lastColumn := m.column
        hasMappings := true } := by
  rw [addMapping_eq]
  constructor
  · intro h
    split at h
    · cases h
    · rename_i origin ho
      obtain ⟨current, earlier, hl, hr, hle⟩ := check_eq_ok_iff.mp ho
      cases h
      exact ⟨current, earlier, origin, hl, hr, hle, by simp [push, hl]⟩
  · intro h
    rcases h with ⟨current, earlier, origin, hl, hr, hle, rfl⟩
    rw [check_eq_ok_iff.mpr ⟨current, earlier, hl, hr, hle⟩]
    simp [push, hl]

/-- A mapping that is added becomes the last segment, and nothing else is recorded. -/
theorem addMapping_recorded {b b' : Builder} {m : Mapping} (h : b.addMapping m = (b', .ok ())) :
    ∃ lines last origin, b.recorded = lines ++ [last] ∧ Resolves b.urls m origin ∧
      b'.recorded = lines ++ [last ++ [⟨m.column, origin⟩]] := by
  obtain ⟨current, earlier, origin, hl, hr, -, rfl⟩ := addMapping_ok_iff.mp h
  exact ⟨(earlier.map List.reverse).reverse, current.reverse, origin,
    by simp [recorded, hl], hr, by simp [recorded]⟩

theorem addMapping_urls {b b' : Builder} {m : Mapping} (h : b.addMapping m = (b', .ok ())) :
    b'.urls = b.urls := by
  obtain ⟨_, _, _, _, _, _, rfl⟩ := addMapping_ok_iff.mp h
  rfl

theorem addMapping_lines {b b' : Builder} {m : Mapping} (h : b.addMapping m = (b', .ok ())) :
    b'.lines.length = b.lines.length := by
  obtain ⟨_, _, _, hl, _, _, rfl⟩ := addMapping_ok_iff.mp h
  simp [hl]

/-- A mapping that is added starts no earlier than the one before it and is the next to be
measured against. -/
theorem addMapping_column {b b' : Builder} {m : Mapping} (h : b.addMapping m = (b', .ok ())) :
    b.lastColumn ≤ m.column ∧ b'.lastColumn = m.column := by
  obtain ⟨_, _, _, _, _, hle, rfl⟩ := addMapping_ok_iff.mp h
  exact ⟨hle, rfl⟩

theorem addMapping_hasMappings {b b' : Builder} {m : Mapping} (h : b.addMapping m = (b', .ok ())) :
    b'.hasMappings = true := by
  obtain ⟨_, _, _, _, _, _, rfl⟩ := addMapping_ok_iff.mp h
  rfl

@[simp] theorem addSource_lines (b : Builder) (s : Source) : (b.addSource s).lines = b.lines := by
  unfold addSource
  split <;> rfl

@[simp] theorem addSource_lastColumn (b : Builder) (s : Source) :
    (b.addSource s).lastColumn = b.lastColumn := by
  unfold addSource
  split <;> rfl

@[simp] theorem addSource_hasMappings (b : Builder) (s : Source) :
    (b.addSource s).hasMappings = b.hasMappings := by
  unfold addSource
  split <;> rfl

@[simp] theorem addLine_urls (b : Builder) : b.addLine.urls = b.urls := rfl

theorem addSource_urls (b : Builder) (s : Source) :
    (b.addSource s).urls = if s.url ∈ b.urls then b.urls else b.urls ++ [s.url] := by
  unfold addSource
  split <;> simp [urls]

theorem urls_prefix_addSource (b : Builder) (s : Source) : b.urls <+: (b.addSource s).urls := by
  rw [addSource_urls]
  split
  · exact List.prefix_refl _
  · exact List.prefix_append _ _

theorem length_recorded (b : Builder) : b.recorded.length = b.lines.length := by
  simp [recorded]

theorem after_line (b : Builder) : b.after .line = b.addLine := rfl

theorem after_source (b : Builder) (s : Source) : b.after (.source s) = b.addSource s := rfl

theorem after_mapping (b : Builder) (m : Mapping) :
    b.after (.mapping m) = (b.addMapping m).1 := rfl

/-- Behind a mapping stands the builder as it was, or the one that the mapping was added to. -/
theorem after_mapping_cases (b : Builder) (m : Mapping) :
    b.after (.mapping m) = b ∨ b.addMapping m = (b.after (.mapping m), .ok ()) := by
  rw [after_mapping]
  rcases b.addMapping_cases m with ⟨e, hm⟩ | ⟨b', hm⟩
  · exact .inl (by rw [hm])
  · exact .inr (by rw [hm])

@[simp] theorem run_cons (b : Builder) (step : Step) (steps : List Step) :
    b.run (step :: steps) = (b.after step).run steps := rfl

end Builder

end Templating
