import Templating.Proofs.Additions
import Templating.Proofs.CanonicalTexts

namespace Templating

/-- The source of a segment is one of those listed. -/
def Segment.Listed (urls : List String) (s : Segment) : Prop :=
  ∀ o, s.origin = some o → o.source < urls.length

namespace Builder

/-- A segment as the mapping to ask for, under the URL of its source. -/
def mappingOf (urls : List String) (s : Segment) : Mapping :=
  match s.origin with
  | none => ⟨s.column, none, none, none⟩
  | some o => ⟨s.column, urls[o.source]?, some o.line, some o.column⟩

/-- The steps that start every line and add its segments. -/
def retelling (urls : List String) (lines : List (List Segment)) : List Step :=
  lines.flatMap fun ss => .line :: ss.map fun s => .mapping (mappingOf urls s)

theorem play_append {b b' : Builder} {xs : List Step} (ys : List Step)
    (h : b.play xs = (b', none)) : b.play (xs ++ ys) = b'.play ys := by
  induction xs generalizing b with
  | nil =>
    cases h
    rfl
  | cons step xs ih =>
    rw [play] at h
    rw [List.cons_append, play]
    split at h
    · exact ih h
    · cases h

@[simp] theorem mappingOf_column (urls : List String) (s : Segment) :
    (mappingOf urls s).column = s.column := by
  unfold mappingOf
  split <;> rfl

/-- Where every URL is listed once, a segment asks for the origin that it has. -/
theorem resolves_mappingOf {urls : List String} {s : Segment} (hurls : urls.Nodup)
    (hs : s.Listed urls) : Resolves urls (mappingOf urls s) s.origin := by
  cases ho : s.origin with
  | none => simp [Resolves, mappingOf, ho]
  | some o =>
    have hlt := hs o ho
    have hidx : urls.idxOf? urls[o.source] = some o.source := by
      rw [List.idxOf?_eq_some_iff]
      refine ⟨hlt, rfl, ?_⟩
      intro j hj heq
      have hne := List.pairwise_iff_getElem.mp hurls j o.source (by omega) hlt hj
      exact hne heq
    simp [Resolves, mappingOf, ho, List.getElem?_eq_getElem hlt, hidx]

theorem addMapping_mappingOf {b : Builder} {current : List Segment}
    {earlier : List (List Segment)} {s : Segment} (hl : b.lines = current :: earlier)
    (hurls : b.urls.Nodup) (hs : s.Listed b.urls) (hle : b.lastColumn ≤ s.column) :
    b.addMapping (mappingOf b.urls s) = ({ b with
      lines := (s :: current) :: earlier
      lastColumn := s.column
      hasMappings := true }, .ok ()) := by
  rw [addMapping_ok_iff]
  refine ⟨current, earlier, s.origin, hl, resolves_mappingOf hurls hs, ?_, ?_⟩
  · rwa [mappingOf_column]
  · rw [mappingOf_column]

/-- Segments in column order are all added to the last line. -/
theorem play_segments {b : Builder} {current : List Segment} {earlier : List (List Segment)}
    {ss : List Segment} (hl : b.lines = current :: earlier) (hurls : b.urls.Nodup)
    (hs : ∀ s ∈ ss, s.Listed b.urls) (hle : ∀ s ∈ ss, b.lastColumn ≤ s.column)
    (hsorted : ss.Pairwise fun s t => s.column ≤ t.column) :
    ∃ b', b.play (ss.map fun s => .mapping (mappingOf b.urls s)) = (b', none) ∧
      b'.urls = b.urls ∧ b'.lines = (ss.reverse ++ current) :: earlier ∧
      (b'.hasMappings = true ↔ b.hasMappings = true ∨ ss ≠ []) := by
  induction ss generalizing b current with
  | nil => exact ⟨b, rfl, rfl, hl, by simp⟩
  | cons s ss ih =>
    obtain ⟨hfirst, hrest⟩ := List.pairwise_cons.mp hsorted
    have hadd := addMapping_mappingOf hl hurls (hs s List.mem_cons_self) (hle s List.mem_cons_self)
    obtain ⟨b', hplay, hu, hlines, hm⟩ := ih (b := { b with
      lines := (s :: current) :: earlier
      lastColumn := s.column
      hasMappings := true }) rfl hurls (fun t ht => hs t (List.mem_cons_of_mem _ ht)) hfirst hrest
    refine ⟨b', ?_, hu, ?_, ?_⟩
    · rw [List.map_cons, play, apply, hadd]
      exact hplay
    · rw [hlines, List.reverse_cons, List.append_assoc, List.singleton_append]
    · simpa using hm

/-- A retelling is never refused and records just the lines that it tells. -/
theorem play_retelling {b : Builder} {lines : List (List Segment)} (hurls : b.urls.Nodup)
    (hs : ∀ ss ∈ lines, ∀ s ∈ ss, s.Listed b.urls)
    (hsorted : ∀ ss ∈ lines, ss.Pairwise fun s t => s.column ≤ t.column) :
    ∃ b', b.play (retelling b.urls lines) = (b', none) ∧ b'.urls = b.urls ∧
      b'.recorded = b.recorded ++ lines ∧
      (b'.hasMappings = true ↔ b.hasMappings = true ∨ ∃ ss ∈ lines, ss ≠ []) := by
  induction lines generalizing b with
  | nil => exact ⟨b, rfl, rfl, by simp, by simp⟩
  | cons ss lines ih =>
    obtain ⟨b₁, hplay₁, hu₁, hlines₁, hm₁⟩ := play_segments (b := b.addLine) rfl hurls
      (hs ss List.mem_cons_self) (fun s _ => UInt32.zero_le) (hsorted ss List.mem_cons_self)
    rw [addLine_urls] at hu₁ hplay₁
    have hrec₁ : b₁.recorded = b.recorded ++ [ss] := by simp [recorded, hlines₁]
    obtain ⟨b₂, hplay₂, hu₂, hrec₂, hm₂⟩ := ih (b := b₁) (hu₁ ▸ hurls)
      (fun rs hr => hu₁ ▸ hs rs (List.mem_cons_of_mem _ hr))
      (fun rs hr => hsorted rs (List.mem_cons_of_mem _ hr))
    refine ⟨b₂, ?_, hu₂.trans hu₁, ?_, ?_⟩
    · rw [retelling, List.flatMap_cons, List.cons_append, play, apply]
      change b.addLine.play (_ ++ retelling b.urls lines) = _
      rw [play_append _ hplay₁, ← hu₁, hplay₂]
    · rw [hrec₂, hrec₁, List.append_assoc, List.singleton_append]
    · rw [hm₂, hm₁]
      simp [addLine, or_assoc]

/-- What was read from a text and told to a builder in column order reads the same from its map; the
texts agree exactly if the first was canonical. -/
theorem retold_text {text : String} {d : Mappings} {b : Builder}
    (hread : Mappings.read text = .ok d) (hsome : ∃ ss ∈ d.toLists, ss ≠ [])
    (hsorted : ∀ ss ∈ d.toLists, ss.Pairwise fun s t => s.column ≤ t.column)
    (hlines : b.lines = []) (hurls : b.urls.Nodup)
    (hs : ∀ ss ∈ d.toLists, ∀ s ∈ ss, s.Listed b.urls) :
    ∃ b' m, b.play (retelling b.urls d.toLists) = (b', none) ∧ b'.map? = some m ∧
      Mappings.read m.mappings = .ok d ∧ (m.mappings = text ↔ Mappings.Canonical text) := by
  obtain ⟨b', hplay, -, hrec, hm⟩ := play_retelling hurls hs hsorted
  have hempty : b.recorded = [] := by simp [recorded, hlines]
  rw [hempty, List.nil_append] at hrec
  have hmarked := hm.mpr (.inr hsome)
  have hmap : b'.map? = some ⟨b'.file.getD "", 3, "", b'.urls,
      b'.sources.map fun s => s.content.filter (· ≠ ""), Mappings.write d.toLists⟩ := by
    rw [map?, if_pos hmarked, hrec]
  refine ⟨b', _, hplay, hmap, ?_, Mappings.write_eq_iff hread⟩
  rw [Mappings.read_write (Mappings.toLists_ne_nil_of_read hread) (Mappings.indexed_of_read hread),
    Mappings.ofLists_toLists]

def twoSources : Builder := { sources := [⟨"a", none⟩, ⟨"b", some "x"⟩] }

/-- What the text with names reads as. -/
def namedMappings : Mappings := .ofLists Mappings.namedLines

theorem retold_text_named :
    Mappings.read Mappings.namedText = .ok namedMappings ∧
    (∃ ss ∈ namedMappings.toLists, ss ≠ []) ∧
    (∀ ss ∈ namedMappings.toLists, ss.Pairwise fun s t => s.column ≤ t.column) ∧
    twoSources.lines = [] ∧ twoSources.urls.Nodup ∧
    (∀ ss ∈ namedMappings.toLists, ∀ s ∈ ss, s.Listed twoSources.urls) ∧
    ∃ b' m, twoSources.play (retelling twoSources.urls namedMappings.toLists) = (b', none) ∧
      b'.map? = some m ∧ Mappings.read m.mappings = .ok namedMappings ∧
      (m.mappings = Mappings.namedText ↔ Mappings.Canonical Mappings.namedText) := by
  have hread : Mappings.read Mappings.namedText = .ok namedMappings := Mappings.read_named
  have hsome : ∃ ss ∈ namedMappings.toLists, ss ≠ [] := by decide
  have hsorted : ∀ ss ∈ namedMappings.toLists, ss.Pairwise fun s t => s.column ≤ t.column := by
    decide
  have hs : ∀ ss ∈ namedMappings.toLists, ∀ s ∈ ss, s.Listed twoSources.urls := by
    simp [namedMappings, Mappings.namedLines, twoSources, Segment.Listed, urls]
  exact ⟨hread, hsome, hsorted, rfl, by decide, hs,
    retold_text hread hsome hsorted rfl (by decide) hs⟩

end Builder

end Templating
