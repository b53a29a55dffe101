import Templating.Proofs.Spellings
import Templating.Proofs.Totals

namespace Templating.Mappings

/-- A piece that its fields are spelled in, one after another and with nothing else. -/
def Spelled (piece : List Char) (fields : List Int64) : Prop :=
  ∃ spellings, piece = spellings.flatten ∧ List.Forall₂ Vlq.Spells spellings fields

/-- A piece and its fields, which are spelled one after another and nothing else. -/
structure SpellsPiece (piece : List Char) (fields : List Int64) : Prop where
  counted : Counted fields
  spelled : Spelled piece fields

/-- The fields of all pieces of a text, line by line. -/
def SpellsText (text : String) (rows : List (List (List Int64))) : Prop :=
  List.Forall₂ (List.Forall₂ SpellsPiece) (linePieces text) rows

/-- After every piece the totals that it moves are words. -/
def InRange (rows : List (List (List Int64))) : Prop :=
  ∀ i row j fields, rows[i]? = some row → row[j]? = some fields →
    Within (totals (rows.take i) (row.take (j + 1))) fields

/-- One segment for each piece, at the totals after it. -/
structure Shown (rows : List (List (List Int64))) (lines : List (List Segment)) : Prop where
  shape : lines.map List.length = rows.map List.length
  stands : ∀ i row j fields, rows[i]? = some row → row[j]? = some fields →
    ∃ segments s, lines[i]? = some segments ∧ segments[j]? = some s ∧
      Stands (totals (rows.take i) (row.take (j + 1))) fields s

theorem readFields_ok_iff {piece : List Char} {fields : List Int64} :
    readFields piece = .ok fields ↔ Spelled piece fields := by
  unfold readFields
  constructor
  · intro h
    split at h
    · rename_i values rest hd
      cases h
      exact Vlq.spells_of_decodeAll hd
    · cases h
  · intro h
    rcases h with ⟨spellings, rfl, hs⟩
    rw [Vlq.decodeAll_flatten hs]

theorem Spelled.readPiece_eq {piece : List Char} {fields : List Int64} (h : Spelled piece fields)
    (c : Cursor) : readPiece c piece = segmentFrom c fields := by
  rw [readPiece, readFields_ok_iff.mpr h]
  rfl

/-- Walking along pieces is walking along the fields that they are spelled by. -/
theorem walk_of_spelled {ps : List (List Char)} {row : List (List Int64)}
    (h : List.Forall₂ Spelled ps row) (c : Cursor) : walk readPiece c ps = walk segmentFrom c row :=
  walk_congr (h.imp fun _ _ hp => hp.readPiece_eq) c

theorem walkLines_of_spelled {pss : List (List (List Char))} {rows : List (List (List Int64))}
    (h : List.Forall₂ (List.Forall₂ Spelled) pss rows) (c : Cursor) :
    walkLines readPiece c pss = walkLines segmentFrom c rows :=
  walkLines_congr (h.imp fun _ _ hl => hl.imp fun _ _ hp => hp.readPiece_eq) c

theorem spelled_of_spells {pss : List (List (List Char))} {rows : List (List (List Int64))}
    (h : List.Forall₂ (List.Forall₂ SpellsPiece) pss rows) :
    List.Forall₂ (List.Forall₂ Spelled) pss rows :=
  h.imp fun _ _ hl => hl.imp fun _ _ hp => hp.spelled

theorem SpellsText.walkLines_eq {text : String} {rows : List (List (List Int64))}
    (h : SpellsText text rows) :
    walkLines readPiece {} (linePieces text) = walkLines segmentFrom {} rows :=
  walkLines_of_spelled (spelled_of_spells h) {}

theorem exists_spellsPiece {c : Cursor} {piece : List Char} {s : Segment}
    (h : readPiece c piece = .ok s) : ∃ fields, SpellsPiece piece fields := by
  obtain ⟨fields, hf, hs⟩ := bind_eq_ok_iff.mp h
  exact ⟨fields, counted_of_segmentFrom hs, readFields_ok_iff.mp hf⟩

theorem exists_spells_of_walk {c : Cursor} {ps : List (List Char)} {ss : List Segment}
    (h : walk readPiece c ps = .ok ss) : ∃ row, List.Forall₂ SpellsPiece ps row := by
  induction ps generalizing c ss with
  | nil => exact ⟨[], .nil⟩
  | cons p ps ih =>
    obtain ⟨s, tail, hs, ht, rfl⟩ := walk_cons.mp h
    obtain ⟨fields, hf⟩ := exists_spellsPiece hs
    obtain ⟨row, hrow⟩ := ih ht
    exact ⟨fields :: row, .cons hf hrow⟩

theorem exists_spells_of_walkLines {c : Cursor} {pss : List (List (List Char))}
    {sss : List (List Segment)} (h : walkLines readPiece c pss = .ok sss) :
    ∃ rows, List.Forall₂ (List.Forall₂ SpellsPiece) pss rows := by
  induction pss generalizing c sss with
  | nil => exact ⟨[], .nil⟩
  | cons ps pss ih =>
    obtain ⟨ss, tail, hs, ht, rfl⟩ := walkLines_cons.mp h
    obtain ⟨row, hrow⟩ := exists_spells_of_walk hs
    obtain ⟨rows, hrows⟩ := ih ht
    exact ⟨row :: rows, .cons hrow hrows⟩

theorem read_ok_iff {text : String} {m : Mappings} :
    read text = .ok m ↔ walkLines readPiece {} (linePieces text) = .ok m.toLists := by
  rw [read_eq, map_eq_ok_iff]
  constructor
  · intro h
    rcases h with ⟨sss, hs, rfl⟩
    rw [toLists_ofLists, hs]
  · intro h
    exact ⟨m.toLists, h, ofLists_toLists m⟩

theorem counted_of_spells {pss : List (List (List Char))} {rows : List (List (List Int64))}
    (h : List.Forall₂ (List.Forall₂ SpellsPiece) pss rows) :
    ∀ row ∈ rows, ∀ fields ∈ row, Counted fields := by
  intro row hr fields hf
  obtain ⟨ps, -, hps⟩ := related_of_mem h row hr
  obtain ⟨piece, -, hp⟩ := related_of_mem hps fields hf
  exact hp.counted

/-- Counted fields are walked along exactly where all totals stay in range. -/
theorem exists_walkLines_iff {rows : List (List (List Int64))}
    (hc : ∀ row ∈ rows, ∀ fields ∈ row, Counted fields) :
    (∃ sss, walkLines segmentFrom {} rows = .ok sss) ↔ InRange rows := by
  constructor
  · intro h
    rcases h with ⟨sss, hs⟩
    intro i row j fields hi hj
    rw [totals_eq]
    exact ((walkLines_stands hs).2 i row j fields hi hj).1
  · intro hr
    refine walkLines_of_within hc ?_
    intro i row j fields hi hj
    rw [← totals_eq]
    exact hr i row j fields hi hj

theorem SpellsText.exists_read_iff {text : String} {rows : List (List (List Int64))}
    (h : SpellsText text rows) : (∃ m, read text = .ok m) ↔ InRange rows := by
  simp only [read_ok_iff, h.walkLines_eq, ← exists_walkLines_iff (counted_of_spells h)]
  constructor
  · intro h
    rcases h with ⟨m, hm⟩
    exact ⟨m.toLists, hm⟩
  · intro h
    rcases h with ⟨sss, hs⟩
    exact ⟨ofLists sss, by rw [toLists_ofLists, hs]⟩

theorem SpellsText.shown {text : String} {rows : List (List (List Int64))} {m : Mappings}
    (h : SpellsText text rows) (hm : read text = .ok m) : Shown rows m.toLists := by
  rw [read_ok_iff, h.walkLines_eq] at hm
  obtain ⟨hshape, hall⟩ := walkLines_stands hm
  refine ⟨hshape, ?_⟩
  intro i row j fields hi hj
  rw [totals_eq]
  exact (hall i row j fields hi hj).2

theorem segmentFrom_take {fields : List Int64} (hc : Counted fields) (c : Cursor) :
    segmentFrom c (fields.take 4) = segmentFrom c fields := by
  obtain ⟨column, rfl⟩ | ⟨column, source, line, originColumn, names, rfl, hn⟩ := hc.shape
  · rfl
  · match names, hn with
    | [], _ => rfl
    | [_], _ => rfl

theorem walkLines_take {rows : List (List (List Int64))}
    (hc : ∀ row ∈ rows, ∀ fields ∈ row, Counted fields) (c : Cursor) :
    walkLines segmentFrom c (rows.map (·.map (·.take 4))) = walkLines segmentFrom c rows := by
  apply walkLines_congr
  rw [List.forall₂_map_left_iff, List.forall₂_same]
  intro row hr
  rw [List.forall₂_map_left_iff, List.forall₂_same]
  intro fields hf c
  exact segmentFrom_take (hc row hr fields hf) c

/-- A fifth field changes nothing, not even the error. -/
theorem read_eq_of_take {text other : String} {rows rows' : List (List (List Int64))}
    (h : SpellsText text rows) (h' : SpellsText other rows')
    (heq : rows.map (·.map (·.take 4)) = rows'.map (·.map (·.take 4))) :
    read text = read other := by
  rw [read_eq, read_eq, h.walkLines_eq, h'.walkLines_eq, ← walkLines_take (counted_of_spells h),
    ← walkLines_take (counted_of_spells h'), heq]

theorem length_splitOn [BEq α] (a : α) (xs : List α) : (xs.splitOn a).length = xs.count a + 1 := by
  induction xs with
  | nil => rfl
  | cons x xs ih =>
    rw [List.splitOn_cons_eq_if_modifyHead, List.count_cons]
    split <;> simp [ih]

theorem length_linePieces (text : String) :
    (linePieces text).length = text.toList.count ';' + 1 := by
  rw [linePieces, List.length_map, length_splitOn]

/-- A piece that is no empty text holds at least one field. -/
theorem readFields_ne_nil {piece : List Char} (hp : piece ≠ []) : readFields piece ≠ .ok [] := by
  intro h
  obtain ⟨spellings, rfl, hs⟩ := readFields_ok_iff.mp h
  cases hs
  exact hp rfl

theorem ne_nil_of_mem_pieces {piece chars : List Char} (h : piece ∈ pieces chars) :
    piece ≠ [] := by
  simpa using (List.mem_filter.mp h).2

/-- Exactly the texts spelled by counted fields whose totals stay in range are read; the segments
stand at the totals, one for each piece, and names have no say in it. -/
theorem read_by_totals (text : String) :
    ((∃ m, read text = .ok m) ↔ ∃ rows, SpellsText text rows ∧ InRange rows) ∧
    (∀ m rows, read text = .ok m → SpellsText text rows →
      m.toLists.length = text.toList.count ';' + 1 ∧ Shown rows m.toLists) ∧
    (∀ other rows rows', SpellsText text rows → SpellsText other rows' →
      rows.map (·.map (·.take 4)) = rows'.map (·.map (·.take 4)) → read text = read other) ∧
    ∀ ps ∈ linePieces text, ∀ piece ∈ ps, readFields piece ≠ .ok [] := by
  refine ⟨?_, ?_, ?_, ?_⟩
  · constructor
    · intro h
      rcases h with ⟨m, hm⟩
      obtain ⟨rows, hrows⟩ := exists_spells_of_walkLines (read_ok_iff.mp hm)
      exact ⟨rows, hrows, SpellsText.exists_read_iff hrows |>.mp ⟨m, hm⟩⟩
    · intro h
      rcases h with ⟨rows, hrows, hr⟩
      exact hrows.exists_read_iff.mpr hr
  · intro m rows hm hrows
    have hshown := hrows.shown hm
    refine ⟨?_, hshown⟩
    rw [← length_linePieces, ← List.length_map, hshown.shape, List.length_map]
    exact (List.Forall₂.length_eq hrows).symm
  · intro other rows rows' h h' heq
    exact read_eq_of_take h h' heq
  · intro ps hps piece hp
    obtain ⟨chars, -, rfl⟩ := List.mem_map.mp hps
    exact readFields_ne_nil (ne_nil_of_mem_pieces hp)

/-- Two pieces with names, a separator too many and an empty line. -/
def namedText : String := "AACAA,,gBADgBC;;C"

def namedRows : List (List (List Int64)) := [[[0, 0, 1, 0, 0], [16, 0, -1, 16, 1]], [], [[1]]]

def namedLines : List (List Segment) :=
  [[⟨0, some ⟨0, 1, 0⟩⟩, ⟨16, some ⟨0, 0, 16⟩⟩], [], [⟨1, none⟩]]

theorem spellsText_named : SpellsText namedText namedRows := by
  have hfirst : SpellsPiece "AACAA".toList [0, 0, 1, 0, 0] :=
    ⟨by simp [Counted], [['A'], ['A'], ['C'], ['A'], ['A']], rfl,
      .cons rfl (.cons rfl (.cons rfl (.cons rfl (.cons rfl .nil))))⟩
  have hsecond : SpellsPiece "gBADgBC".toList [16, 0, -1, 16, 1] :=
    ⟨by simp [Counted], [['g', 'B'], ['A'], ['D'], ['g', 'B'], ['C']], rfl,
      .cons rfl (.cons rfl (.cons rfl (.cons rfl (.cons rfl .nil))))⟩
  have hlast : SpellsPiece "C".toList [1] := ⟨by simp [Counted], [['C']], rfl, .cons rfl .nil⟩
  exact .cons (.cons hfirst (.cons hsecond .nil)) (.cons .nil (.cons (.cons hlast .nil) .nil))

theorem read_named : read namedText = .ok (ofLists namedLines) := by
  rw [read_ok_iff, spellsText_named.walkLines_eq, toLists_ofLists]
  rfl

theorem read_by_totals_named :
    SpellsText namedText namedRows ∧ InRange namedRows ∧ ∃ m, read namedText = .ok m ∧
      m.toLists.length = namedText.toList.count ';' + 1 ∧ Shown namedRows m.toLists := by
  obtain ⟨-, hshown, -, -⟩ := read_by_totals namedText
  exact ⟨spellsText_named, spellsText_named.exists_read_iff.mp ⟨_, read_named⟩, _, read_named,
    hshown _ _ read_named spellsText_named⟩

end Templating.Mappings
