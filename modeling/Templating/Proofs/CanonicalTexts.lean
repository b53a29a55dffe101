import Templating.Proofs.WrittenTexts

namespace Templating.Mappings

/-- One or four fields, each in its minimal spelling. -/
def CanonicalPiece (piece : List Char) : Prop :=
  ∃ spellings fields, piece = spellings.flatten ∧ List.Forall₂ Vlq.Spells spellings fields ∧
    (spellings.length = 1 ∨ spellings.length = 4) ∧ ∀ spelling ∈ spellings, Vlq.Minimal spelling

/-- A line that is empty or has no empty piece. -/
def CanonicalLine (line : List Char) : Prop :=
  line = [] ∨ [] ∉ line.splitOn ',' ∧ ∀ piece ∈ line.splitOn ',', CanonicalPiece piece

def Canonical (text : String) : Prop :=
  ∀ line ∈ text.toList.splitOn ';', CanonicalLine line

/-- The differences to the segment that fields lead to are these fields, up to the name. -/
theorem fields_of_segmentFrom {c : Cursor} {fields : List Int64} {s : Segment}
    (h : segmentFrom c fields = .ok s) : c.fields s = fields.take 4 := by
  have hback : ∀ {v : Int64} {n t : Int}, n = t + v.toInt → Int64.ofInt (n - t) = v := by
    intro v n t hn
    rw [hn, show t + v.toInt - t = v.toInt by omega, Int64.ofInt_toInt]
  rcases (counted_of_segmentFrom h).shape with
    ⟨column, rfl⟩ | ⟨column, source, line, originColumn, names, rfl, hn⟩
  · obtain ⟨hcol, ho⟩ := segmentFrom_bare.mp h
    simp only [Cursor.fields, ho, hback hcol, List.take_succ_cons, List.take_nil]
  · obtain ⟨hcol, o, ho, hfrom⟩ := (segmentFrom_placed hn).mp h
    obtain ⟨hsrc, -, hline, hocol⟩ := originFrom_ok.mp hfrom
    simp only [Cursor.fields, ho, hback hcol, hback hsrc, hback hline, hback hocol,
      List.take_succ_cons, List.take_zero]

/-- Fields are written as they were spelled exactly if they were spelled minimally. -/
theorem writeSegment_of_minimal {spellings : List (List Char)} {fields : List Int64}
    (h : List.Forall₂ Vlq.Spells spellings fields)
    (hm : ∀ spelling ∈ spellings, Vlq.Minimal spelling) :
    writeSegment fields = spellings.flatten := by
  induction h with
  | nil => rfl
  | cons hs _ ih =>
    have hhead := hs.encode_eq_iff.mpr (hm _ List.mem_cons_self)
    have htail := ih fun spelling hmem => hm spelling (List.mem_cons_of_mem _ hmem)
    rw [writeSegment, List.flatMap_cons, hhead, ← writeSegment, htail, List.flatten_cons]

theorem CanonicalPiece.writeSegment_eq {c : Cursor} {piece : List Char} {s : Segment}
    (h : CanonicalPiece piece) (hs : readPiece c piece = .ok s) :
    writeSegment (c.fields s) = piece := by
  obtain ⟨spellings, fields, rfl, hsp, hlen, hmin⟩ := h
  rw [readPiece, readFields_ok_iff.mpr ⟨spellings, rfl, hsp⟩] at hs
  have hle : fields.length ≤ 4 := by
    rw [← hsp.length_eq]
    omega
  rw [fields_of_segmentFrom hs, List.take_of_length_le hle, writeSegment_of_minimal hsp hmin]

theorem canonicalPiece_writeSegment {c : Cursor} {s : Segment} (hc : c.Words) (hs : s.Indexed) :
    CanonicalPiece (writeSegment (c.fields s)) := by
  have hv := hc.fields_ne_minValue hs
  refine ⟨(c.fields s).map Vlq.encode, c.fields s, by rw [writeSegment, List.flatMap_def], ?_, ?_,
    ?_⟩
  · rw [List.forall₂_map_left_iff, List.forall₂_same]
    intro v hm
    exact Vlq.spells_encode (hv v hm)
  · cases ho : s.origin <;> simp [Cursor.fields, ho]
  · intro spelling hm
    obtain ⟨v, hmem, rfl⟩ := List.mem_map.mp hm
    exact Vlq.minimal_encode (hv v hmem)

theorem walk_lineFields_of_canonical {c : Cursor} {ps : List (List Char)} {ss : List Segment}
    (hp : ∀ piece ∈ ps, CanonicalPiece piece) (hw : walk readPiece c ps = .ok ss) :
    (c.lineFields ss).map writeSegment = ps := by
  induction ps generalizing c ss with
  | nil =>
    cases hw
    rfl
  | cons piece ps ih =>
    obtain ⟨s, tail, hs, ht, rfl⟩ := walk_cons.mp hw
    have htail := ih (fun q hq => hp q (List.mem_cons_of_mem _ hq)) ht
    rw [Cursor.lineFields, List.map_cons, (hp piece List.mem_cons_self).writeSegment_eq hs, htail]

/-- A canonical line is written again as it was. -/
theorem CanonicalLine.writeLine_eq {c : Cursor} {chars : List Char} {ss : List Segment}
    (h : CanonicalLine chars) (hw : walk readPiece c (pieces chars) = .ok ss) :
    writeLine (c.lineFields ss) = chars := by
  rcases h with rfl | ⟨hne, hp⟩
  · cases hw
    rfl
  · have hpieces : pieces chars = chars.splitOn ',' := by
      apply List.filter_eq_self.mpr
      intro piece hm
      have hpiece : piece ≠ [] := fun hnil => hne (hnil ▸ hm)
      simpa using hpiece
    rw [hpieces] at hw
    rw [writeLine, walk_lineFields_of_canonical hp hw, List.intercalate_splitOn]

theorem walkLines_writeLine_of_canonical {c : Cursor} {chars : List (List Char)}
    {lines : List (List Segment)} (h : ∀ line ∈ chars, CanonicalLine line)
    (hw : walkLines readPiece c (chars.map pieces) = .ok lines) :
    (c.allFields lines).map writeLine = chars := by
  induction chars generalizing c lines with
  | nil =>
    cases hw
    rfl
  | cons line chars ih =>
    obtain ⟨ss, tail, hs, ht, rfl⟩ := walkLines_cons.mp hw
    have htail := ih (fun l hl => h l (List.mem_cons_of_mem _ hl)) ht
    rw [Cursor.allFields, List.map_cons, (h line List.mem_cons_self).writeLine_eq hs, htail]

theorem canonicalPiece_of_mem_lineFields {c : Cursor} {ss : List Segment} (hc : c.Words)
    (hs : ∀ s ∈ ss, s.Indexed) :
    ∀ fields ∈ c.lineFields ss, CanonicalPiece (writeSegment fields) := by
  induction ss generalizing c with
  | nil => simp [Cursor.lineFields]
  | cons s ss ih =>
    intro fields hf
    have hhead := hs s List.mem_cons_self
    rcases List.mem_cons.mp hf with rfl | hf
    · exact canonicalPiece_writeSegment hc hhead
    · exact ih (hc.past hhead) (fun t ht => hs t (List.mem_cons_of_mem _ ht)) fields hf

theorem canonicalPiece_of_mem_allFields {c : Cursor} {lines : List (List Segment)} (hc : c.Words)
    (hs : ∀ ss ∈ lines, ∀ s ∈ ss, s.Indexed) :
    ∀ row ∈ c.allFields lines, ∀ fields ∈ row, CanonicalPiece (writeSegment fields) := by
  induction lines generalizing c with
  | nil => simp [Cursor.allFields]
  | cons ss lines ih =>
    intro row hr
    have hhead := hs ss List.mem_cons_self
    rcases List.mem_cons.mp hr with rfl | hr
    · exact canonicalPiece_of_mem_lineFields hc.newLine hhead
    · exact ih (hc.newLine.foldl_past hhead) (fun t ht => hs t (List.mem_cons_of_mem _ ht)) row hr

theorem CanonicalPiece.ne_nil {piece : List Char} (h : CanonicalPiece piece) : piece ≠ [] := by
  obtain ⟨spellings, fields, rfl, hsp, hlen, -⟩ := h
  cases hsp with
  | nil => simp at hlen
  | cons hs _ => simp [hs.ne_nil]

theorem canonicalLine_writeLine {segments : List (List Int64)}
    (h : ∀ fields ∈ segments, CanonicalPiece (writeSegment fields)) :
    CanonicalLine (writeLine segments) := by
  by_cases hne : segments = []
  · left
    subst hne
    rfl
  · right
    have hpieces : ∀ piece ∈ (writeLine segments).splitOn ',', CanonicalPiece piece := by
      rw [splitOn_writeLine hne]
      intro piece hp
      obtain ⟨fields, hf, rfl⟩ := List.mem_map.mp hp
      exact h fields hf
    exact ⟨fun hnil => (hpieces [] hnil).ne_nil rfl, hpieces⟩

/-- What is written is canonical. -/
theorem canonical_write {lines : List (List Segment)}
    (hs : ∀ ss ∈ lines, ∀ s ∈ ss, s.Indexed) : Canonical (write lines) := by
  intro line hl
  have hcanon := canonicalPiece_of_mem_allFields Cursor.words_zero hs
  rw [write, String.toList_ofList] at hl
  by_cases hne : ({} : Cursor).allFields lines = []
  · left
    rw [hne] at hl
    simpa [writeLines] using hl
  · rw [splitOn_writeLines hne] at hl
    obtain ⟨row, hr, rfl⟩ := List.mem_map.mp hl
    exact canonicalLine_writeLine (hcanon row hr)

theorem exists_of_mem_walk {step : Cursor → α → Except Error Segment} {c : Cursor} {as : List α}
    {ss : List Segment} (h : walk step c as = .ok ss) :
    ∀ s ∈ ss, ∃ c' a, step c' a = .ok s := by
  induction as generalizing c ss with
  | nil =>
    cases h
    simp
  | cons a as ih =>
    obtain ⟨s, tail, hs, ht, rfl⟩ := walk_cons.mp h
    intro t htm
    rcases List.mem_cons.mp htm with rfl | htm
    · exact ⟨c, a, hs⟩
    · exact ih ht t htm

theorem exists_of_mem_walkLines {step : Cursor → α → Except Error Segment} {c : Cursor}
    {ass : List (List α)} {sss : List (List Segment)} (h : walkLines step c ass = .ok sss) :
    ∀ ss ∈ sss, ∀ s ∈ ss, ∃ c' a, step c' a = .ok s := by
  induction ass generalizing c sss with
  | nil =>
    cases h
    simp
  | cons as ass ih =>
    obtain ⟨ss, tail, hs, ht, rfl⟩ := walkLines_cons.mp h
    intro rs hr
    rcases List.mem_cons.mp hr with rfl | hr
    · exact exists_of_mem_walk hs
    · exact ih ht rs hr

theorem indexed_of_readPiece {c : Cursor} {piece : List Char} {s : Segment}
    (h : readPiece c piece = .ok s) : s.Indexed := by
  intro o ho
  obtain ⟨fields, -, hs⟩ := bind_eq_ok_iff.mp h
  rcases (counted_of_segmentFrom hs).shape with
    ⟨column, rfl⟩ | ⟨column, source, line, originColumn, names, rfl, hn⟩
  · rw [(segmentFrom_bare.mp hs).2] at ho
    cases ho
  · obtain ⟨-, o', ho', hfrom⟩ := (segmentFrom_placed hn).mp hs
    obtain rfl := Option.some.inj (ho.symm.trans ho')
    exact (originFrom_ok.mp hfrom).2.1

theorem indexed_of_read {text : String} {m : Mappings} (h : read text = .ok m) :
    ∀ ss ∈ m.toLists, ∀ s ∈ ss, s.Indexed := by
  intro ss hss s hs
  obtain ⟨c, piece, hp⟩ := exists_of_mem_walkLines (read_ok_iff.mp h) ss hss s hs
  exact indexed_of_readPiece hp

/-- Of all texts that are read as the same mappings, the canonical one is what is written. -/
theorem write_eq_iff {text : String} {m : Mappings} (h : read text = .ok m) :
    write m.toLists = text ↔ Canonical text := by
  constructor
  · intro heq
    exact heq ▸ canonical_write (indexed_of_read h)
  · intro hc
    rw [write, writeLines, walkLines_writeLine_of_canonical hc (read_ok_iff.mp h),
      List.intercalate_splitOn, String.ofList_toList]

theorem toLists_ne_nil_of_read {text : String} {m : Mappings} (h : read text = .ok m) :
    m.toLists ≠ [] := by
  intro hnil
  have hw := read_ok_iff.mp h
  rw [hnil, linePieces] at hw
  obtain ⟨line, rest, hl⟩ := List.exists_cons_of_ne_nil (List.splitOn_ne_nil ';' text.toList)
  rw [hl, List.map_cons] at hw
  obtain ⟨ss, tail, -, -, hcons⟩ := walkLines_cons.mp hw
  cases hcons

end Templating.Mappings
