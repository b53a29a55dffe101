import Templating.Mappings.Writer
import Templating.Proofs.ReadableTexts

namespace Templating

/-- A segment whose source has an index of 32 bits. -/
def Segment.Indexed (s : Segment) : Prop :=
  ∀ o, s.origin = some o → o.source < UInt32.size

/-- All four totals are words. -/
structure Cursor.Words (c : Cursor) : Prop where
  column : Mappings.IsWord c.column
  source : Mappings.IsWord c.source
  line : Mappings.IsWord c.line
  originColumn : Mappings.IsWord c.originColumn

namespace Mappings

theorem isWord_toNat (w : UInt32) : IsWord w.toNat :=
  isWord_iff.mpr ⟨w, rfl⟩

theorem isWord_natCast {n : Nat} (h : n < UInt32.size) : IsWord n :=
  ⟨Int.natCast_nonneg n, Int.ofNat_lt.mpr h⟩

/-- Words lie so close together that a difference of two always has room. -/
theorem toInt_difference {a b : Int} (ha : IsWord a) (hb : IsWord b) :
    (Int64.ofInt (a - b)).toInt = a - b := by
  obtain ⟨hal, hau⟩ := ha
  obtain ⟨hbl, hbu⟩ := hb
  simp only [UInt32.size] at hau hbu
  exact Int64.toInt_ofInt_of_le (by omega) (by omega)

theorem difference_ne_minValue {a b : Int} (ha : IsWord a) (hb : IsWord b) :
    Int64.ofInt (a - b) ≠ Int64.minValue := by
  intro h
  have hd := toInt_difference ha hb
  rw [h, Int64.toInt_minValue] at hd
  obtain ⟨hal, hau⟩ := ha
  obtain ⟨hbl, hbu⟩ := hb
  simp only [UInt32.size] at hau hbu
  omega

end Mappings

open Mappings

theorem Cursor.words_zero : Cursor.Words {} := by
  constructor <;> exact isWord_natCast (n := 0) (by decide)

theorem Cursor.Words.newLine {c : Cursor} (h : c.Words) : c.newLine.Words :=
  ⟨isWord_natCast (n := 0) (by decide), h.source, h.line, h.originColumn⟩

theorem Cursor.Words.past {c : Cursor} {s : Segment} (h : c.Words) (hs : s.Indexed) :
    (c.past s).Words := by
  cases ho : s.origin with
  | none =>
    simp only [Cursor.past, ho]
    exact ⟨isWord_toNat _, h.source, h.line, h.originColumn⟩
  | some o =>
    simp only [Cursor.past, ho]
    exact ⟨isWord_toNat _, isWord_natCast (hs o ho), isWord_toNat _, isWord_toNat _⟩

theorem Cursor.Words.foldl_past {c : Cursor} {ss : List Segment} (h : c.Words)
    (hs : ∀ s ∈ ss, s.Indexed) : (ss.foldl Cursor.past c).Words := by
  induction ss generalizing c with
  | nil => exact h
  | cons s ss ih =>
    exact ih (h.past (hs s List.mem_cons_self)) fun t ht => hs t (List.mem_cons_of_mem _ ht)

theorem Cursor.Words.pastLines {c : Cursor} {lines : List (List Segment)} (h : c.Words)
    (hs : ∀ ss ∈ lines, ∀ s ∈ ss, s.Indexed) : (Mappings.pastLines c lines).Words := by
  induction lines generalizing c with
  | nil => exact h
  | cons ss lines ih =>
    have hhead := hs ss List.mem_cons_self
    exact ih (h.newLine.foldl_past hhead) fun t ht => hs t (List.mem_cons_of_mem _ ht)

theorem Cursor.counted_fields (c : Cursor) (s : Segment) : Counted (c.fields s) := by
  cases ho : s.origin <;> simp [Cursor.fields, ho, Counted]

/-- Every field is a difference of two words. -/
theorem Cursor.Words.exists_difference {c : Cursor} {s : Segment} (h : c.Words) (hs : s.Indexed) :
    ∀ v ∈ c.fields s, ∃ a b, IsWord a ∧ IsWord b ∧ v = Int64.ofInt (a - b) := by
  intro v hv
  cases ho : s.origin with
  | none =>
    simp only [Cursor.fields, ho, List.mem_singleton] at hv
    exact ⟨_, _, isWord_toNat _, h.column, hv⟩
  | some o =>
    simp only [Cursor.fields, ho, List.mem_cons, List.not_mem_nil, or_false] at hv
    rcases hv with hv | hv | hv | hv
    · exact ⟨_, _, isWord_toNat _, h.column, hv⟩
    · exact ⟨_, _, isWord_natCast (hs o ho), h.source, hv⟩
    · exact ⟨_, _, isWord_toNat _, h.line, hv⟩
    · exact ⟨_, _, isWord_toNat _, h.originColumn, hv⟩

/-- No field is the one value that cannot be spelled. -/
theorem Cursor.Words.fields_ne_minValue {c : Cursor} {s : Segment} (h : c.Words) (hs : s.Indexed) :
    ∀ v ∈ c.fields s, v ≠ Int64.minValue := by
  intro v hv
  obtain ⟨a, b, ha, hb, rfl⟩ := h.exists_difference hs v hv
  exact difference_ne_minValue ha hb

theorem Cursor.Words.segmentFrom_fields {c : Cursor} {s : Segment} (h : c.Words) (hs : s.Indexed) :
    segmentFrom c (c.fields s) = .ok s := by
  cases ho : s.origin with
  | none =>
    simp only [Cursor.fields, ho]
    rw [segmentFrom_bare, toInt_difference (isWord_toNat _) h.column]
    exact ⟨by omega, ho⟩
  | some o =>
    simp only [Cursor.fields, ho]
    rw [segmentFrom_placed (by simp), toInt_difference (isWord_toNat _) h.column]
    refine ⟨by omega, o, ho, originFrom_ok.mpr ?_⟩
    rw [toInt_difference (isWord_natCast (hs o ho)) h.source,
      toInt_difference (isWord_toNat _) h.line, toInt_difference (isWord_toNat _) h.originColumn]
    exact ⟨by omega, hs o ho, by omega, by omega⟩

namespace Mappings

theorem spellsPiece_writeSegment {fields : List Int64} (hc : Counted fields)
    (hv : ∀ v ∈ fields, v ≠ Int64.minValue) : SpellsPiece (writeSegment fields) fields := by
  refine ⟨hc, fields.map Vlq.encode, by rw [writeSegment, List.flatMap_def], ?_⟩
  rw [List.forall₂_map_left_iff, List.forall₂_same]
  intro v hm
  exact Vlq.spells_encode (hv v hm)

theorem walk_lineFields {c : Cursor} {ss : List Segment} (h : c.Words)
    (hs : ∀ s ∈ ss, s.Indexed) :
    walk readPiece c ((c.lineFields ss).map writeSegment) = .ok ss := by
  induction ss generalizing c with
  | nil => rfl
  | cons s ss ih =>
    have hhead := hs s List.mem_cons_self
    have hp := spellsPiece_writeSegment (c.counted_fields s) (h.fields_ne_minValue hhead)
    refine walk_cons.mpr ⟨s, ss, ?_, ?_, rfl⟩
    · rw [Spelled.readPiece_eq hp.spelled, h.segmentFrom_fields hhead]
    · exact ih (h.past hhead) fun t ht => hs t (List.mem_cons_of_mem _ ht)

theorem walkLines_allFields {c : Cursor} {lines : List (List Segment)} (h : c.Words)
    (hs : ∀ ss ∈ lines, ∀ s ∈ ss, s.Indexed) :
    walkLines readPiece c ((c.allFields lines).map (·.map writeSegment)) = .ok lines := by
  induction lines generalizing c with
  | nil => rfl
  | cons ss lines ih =>
    have hhead := hs ss List.mem_cons_self
    refine walkLines_cons.mpr ⟨ss, lines, walk_lineFields h.newLine hhead, ?_, rfl⟩
    exact ih (h.newLine.foldl_past hhead) fun t ht => hs t (List.mem_cons_of_mem _ ht)

theorem value?_of_mem_writeSegment {fields : List Int64} {c : Char}
    (h : c ∈ writeSegment fields) : (Base64.value? c).isSome := by
  obtain ⟨v, -, hv⟩ := List.mem_flatMap.mp h
  exact Vlq.value?_of_mem_encode hv

theorem comma_not_mem_writeSegment (fields : List Int64) : ',' ∉ writeSegment fields := by
  intro h
  have := value?_of_mem_writeSegment h
  revert this; decide

theorem mem_of_mem_intercalate {sep : List α} {x : α} {ls : List (List α)}
    (h : x ∈ sep.intercalate ls) : x ∈ sep ∨ ∃ l ∈ ls, x ∈ l := by
  induction ls with
  | nil => cases h
  | cons l ls ih =>
    by_cases hne : ls = []
    · subst hne
      exact .inr ⟨l, List.mem_cons_self, by simpa using h⟩
    · rw [List.intercalate_cons_of_ne_nil hne, List.mem_append, List.mem_append] at h
      rcases h with (h | h) | h
      · exact .inr ⟨l, List.mem_cons_self, h⟩
      · exact .inl h
      · rcases ih h with hs | ⟨l', hl, hx⟩
        · exact .inl hs
        · exact .inr ⟨l', List.mem_cons_of_mem _ hl, hx⟩

theorem semicolon_not_mem_writeLine (segments : List (List Int64)) : ';' ∉ writeLine segments := by
  intro h
  rcases mem_of_mem_intercalate h with hs | ⟨piece, hp, hm⟩
  · simp at hs
  · obtain ⟨fields, -, rfl⟩ := List.mem_map.mp hp
    have := value?_of_mem_writeSegment hm
    revert this; decide

theorem writeSegment_ne_nil {fields : List Int64} (h : fields ≠ []) : writeSegment fields ≠ [] := by
  obtain ⟨v, vs, rfl⟩ := List.exists_cons_of_ne_nil h
  obtain ⟨d, ds, hd⟩ := List.exists_cons_of_ne_nil (Vlq.chain_groups (Vlq.fold v)).ne_nil
  simp [writeSegment, Vlq.encode, hd]

theorem splitOn_writeLine {segments : List (List Int64)} (hne : segments ≠ []) :
    (writeLine segments).splitOn ',' = segments.map writeSegment := by
  apply List.splitOn_intercalate ',' ?_ (by simpa)
  intro piece hp
  obtain ⟨fields, -, rfl⟩ := List.mem_map.mp hp
  exact comma_not_mem_writeSegment fields

theorem splitOn_writeLines {rows : List (List (List Int64))} (hne : rows ≠ []) :
    (writeLines rows).splitOn ';' = rows.map writeLine := by
  apply List.splitOn_intercalate ';' ?_ (by simpa)
  intro chars hc
  obtain ⟨row, -, rfl⟩ := List.mem_map.mp hc
  exact semicolon_not_mem_writeLine row

theorem pieces_writeLine {segments : List (List Int64)} (h : ∀ fields ∈ segments, fields ≠ []) :
    pieces (writeLine segments) = segments.map writeSegment := by
  by_cases hne : segments = []
  · subst hne
    rfl
  · rw [pieces, splitOn_writeLine hne]
    apply List.filter_eq_self.mpr
    intro piece hp
    obtain ⟨fields, hf, rfl⟩ := List.mem_map.mp hp
    simpa using writeSegment_ne_nil (h fields hf)

theorem linePieces_ofList_writeLines {rows : List (List (List Int64))} (hne : rows ≠ [])
    (h : ∀ row ∈ rows, ∀ fields ∈ row, fields ≠ []) :
    linePieces (String.ofList (writeLines rows)) = rows.map (·.map writeSegment) := by
  rw [linePieces, String.toList_ofList, splitOn_writeLines hne, List.map_map]
  exact List.map_congr_left fun row hr => pieces_writeLine (h row hr)

theorem lineFields_ne_nil (c : Cursor) (ss : List Segment) :
    ∀ fields ∈ c.lineFields ss, fields ≠ [] := by
  induction ss generalizing c with
  | nil => simp [Cursor.lineFields]
  | cons s ss ih =>
    intro fields hf
    rcases List.mem_cons.mp hf with rfl | hf
    · simp [Cursor.fields]
    · exact ih _ fields hf

theorem allFields_ne_nil (c : Cursor) (lines : List (List Segment)) :
    ∀ row ∈ c.allFields lines, ∀ fields ∈ row, fields ≠ [] := by
  induction lines generalizing c with
  | nil => simp [Cursor.allFields]
  | cons ss lines ih =>
    intro row hr
    rcases List.mem_cons.mp hr with rfl | hr
    · exact lineFields_ne_nil _ ss
    · exact ih _ row hr

theorem linePieces_write {lines : List (List Segment)} (hne : lines ≠ []) :
    linePieces (write lines) = (({} : Cursor).allFields lines).map (·.map writeSegment) := by
  refine linePieces_ofList_writeLines ?_ (allFields_ne_nil _ lines)
  obtain ⟨ss, rest, rfl⟩ := List.exists_cons_of_ne_nil hne
  simp [Cursor.allFields]

/-- Mappings of at least one line are read back from their text. -/
theorem read_write {lines : List (List Segment)} (hne : lines ≠ [])
    (h : ∀ ss ∈ lines, ∀ s ∈ ss, s.Indexed) : read (write lines) = .ok (ofLists lines) := by
  rw [read_eq, linePieces_write hne, walkLines_allFields Cursor.words_zero h]
  rfl

end Mappings

end Templating
