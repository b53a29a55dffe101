import Templating.Proofs.GrowingMaps
import Templating.Proofs.Positions

namespace Templating

/-- The four totals in registers of 64 bits. -/
structure Registers where
  column : Int64 := 0
  source : Int64 := 0
  line : Int64 := 0
  originColumn : Int64 := 0
  deriving Repr, DecidableEq

namespace Registers

/-- A number in a register, if it has room there. -/
def load (n : Nat) : Option Int64 :=
  if (Int64.ofNat n).toInt = n then some (Int64.ofNat n) else none

/-- The difference of two registers, if it has room in one. -/
def subtract (a b : Int64) : Option Int64 :=
  if (a - b).toInt = a.toInt - b.toInt then some (a - b) else none

def newLine (r : Registers) : Registers :=
  { r with column := 0 }

/-- The differences that lead to a segment, and the registers behind it. -/
def segment? (r : Registers) (s : Segment) : Option (List Int64 × Registers) := do
  let column ← load s.column.toNat
  let start ← subtract column r.column
  match s.origin with
  | none => return ([start], { r with column := column })
  | some o =>
    let source ← load o.source
    let line ← load o.line.toNat
    let originColumn ← load o.column.toNat
    let sourceStep ← subtract source r.source
    let lineStep ← subtract line r.line
    let columnStep ← subtract originColumn r.originColumn
    return ([start, sourceStep, lineStep, columnStep], ⟨column, source, line, originColumn⟩)

def line? (r : Registers) : List Segment → Option (List (List Int64) × Registers)
  | [] => some ([], r)
  | s :: rest => do
    let (fields, r) ← r.segment? s
    let (row, r) ← r.line? rest
    return (fields :: row, r)

/-- The differences of all lines, if none of them and no number that they are taken from was too
large for a register. -/
def lines? (r : Registers) : List (List Segment) → Option (List (List (List Int64)))
  | [] => some []
  | ss :: rest => do
    let (row, r) ← r.newLine.line? ss
    let rows ← r.lines? rest
    return row :: rows

end Registers

open Mappings

/-- The registers that hold the totals of a cursor. -/
def Cursor.registers (c : Cursor) : Registers where
  column := Int64.ofInt c.column
  source := Int64.ofInt c.source
  line := Int64.ofInt c.line
  originColumn := Int64.ofInt c.originColumn

namespace Mappings

theorem toInt_ofInt_word {n : Int} (h : IsWord n) : (Int64.ofInt n).toInt = n := by
  obtain ⟨hl, hu⟩ := h
  simp only [UInt32.size] at hu
  exact Int64.toInt_ofInt_of_le (by omega) (by omega)

/-- A difference of words is no larger than a word on either side of zero. -/
theorem natAbs_difference_lt {a b : Int} (ha : IsWord a) (hb : IsWord b) :
    (Int64.ofInt (a - b)).toInt.natAbs < UInt32.size := by
  rw [toInt_difference ha hb]
  obtain ⟨hal, hau⟩ := ha
  obtain ⟨hbl, hbu⟩ := hb
  simp only [UInt32.size] at hau hbu ⊢
  omega

theorem load_word {n : Nat} (h : IsWord n) : Registers.load n = some (Int64.ofInt n) :=
  if_pos (toInt_ofInt_word h)

theorem subtract_words {a b : Int} (ha : IsWord a) (hb : IsWord b) :
    Registers.subtract (Int64.ofInt a) (Int64.ofInt b) = some (Int64.ofInt (a - b)) := by
  have hexact : (Int64.ofInt (a - b)).toInt = (Int64.ofInt a).toInt - (Int64.ofInt b).toInt := by
    rw [toInt_difference ha hb, toInt_ofInt_word ha, toInt_ofInt_word hb]
  rw [Int64.ofInt_sub] at hexact ⊢
  exact if_pos hexact

end Mappings

namespace Cursor.Words

variable {c : Cursor} {s : Segment} {ss : List Segment} {lines : List (List Segment)}

/-- The registers take the same differences as the cursor and none has to be given up. -/
theorem segment?_registers (h : c.Words) (hs : s.Indexed) :
    c.registers.segment? s = some (c.fields s, (c.past s).registers) := by
  have hcolumn := isWord_toNat s.column
  cases ho : s.origin with
  | none =>
    simp only [Registers.segment?, Cursor.registers, Cursor.fields, Cursor.past, ho,
      load_word hcolumn, Option.bind_eq_bind, Option.bind_some, subtract_words hcolumn h.column]
    rfl
  | some o =>
    have hsource := isWord_natCast (hs o ho)
    have hline := isWord_toNat o.line
    have horigin := isWord_toNat o.column
    simp only [Registers.segment?, Cursor.registers, Cursor.fields, Cursor.past, ho,
      load_word hcolumn, load_word hsource, load_word hline, load_word horigin,
      Option.bind_eq_bind, Option.bind_some, subtract_words hcolumn h.column,
      subtract_words hsource h.source, subtract_words hline h.line,
      subtract_words horigin h.originColumn]
    rfl

theorem line?_registers (h : c.Words) (hs : ∀ s ∈ ss, s.Indexed) :
    c.registers.line? ss = some (c.lineFields ss, (ss.foldl Cursor.past c).registers) := by
  induction ss generalizing c with
  | nil => rfl
  | cons s ss ih =>
    have hhead := hs s List.mem_cons_self
    have htail := ih (h.past hhead) fun t ht => hs t (List.mem_cons_of_mem _ ht)
    rw [Registers.line?, h.segment?_registers hhead]
    simp only [Option.bind_eq_bind, Option.bind_some, htail]
    rfl

theorem lines?_registers (h : c.Words) (hs : ∀ ss ∈ lines, ∀ s ∈ ss, s.Indexed) :
    c.registers.lines? lines = some (c.allFields lines) := by
  induction lines generalizing c with
  | nil => rfl
  | cons ss lines ih =>
    have hhead := hs ss List.mem_cons_self
    have hline := h.newLine.line?_registers hhead
    have htail := ih (h.newLine.foldl_past hhead) fun t ht => hs t (List.mem_cons_of_mem _ ht)
    have hnew : c.registers.newLine = c.newLine.registers := rfl
    rw [Registers.lines?, hnew, hline]
    simp only [Option.bind_eq_bind, Option.bind_some, htail]
    rfl

/-- Adding a segment's fields up leads where the segment stands. -/
theorem plus_fields (h : c.Words) (hs : s.Indexed) : plus c [c.fields s] = c.past s := by
  have hcounted := c.counted_fields s
  obtain ⟨-, hstands⟩ := (segmentFrom_ok_iff hcounted).mp (h.segmentFrom_fields hs)
  exact (hstands.past_eq hcounted).symm

theorem plus_lineFields (h : c.Words) (hs : ∀ s ∈ ss, s.Indexed) :
    plus c (c.lineFields ss) = ss.foldl Cursor.past c := by
  induction ss generalizing c with
  | nil => exact plus_nil c
  | cons s ss ih =>
    have hhead := hs s List.mem_cons_self
    rw [Cursor.lineFields, plus_cons, h.plus_fields hhead, List.foldl_cons]
    exact ih (h.past hhead) fun t ht => hs t (List.mem_cons_of_mem _ ht)

/-- Behind whole lines all totals but the column have gone on, and the column starts again. -/
theorem newLine_plus_allFields (h : c.Words) (hs : ∀ ss ∈ lines, ∀ s ∈ ss, s.Indexed) :
    (plus c (c.allFields lines).flatten).newLine = (Mappings.pastLines c lines).newLine := by
  induction lines generalizing c with
  | nil => rw [Cursor.allFields, List.flatten_nil, plus_nil]; rfl
  | cons ss lines ih =>
    have hhead := hs ss List.mem_cons_self
    rw [Cursor.allFields, List.flatten_cons, ← newLine_plus_newLine,
      h.newLine.plus_lineFields hhead]
    exact ih (h.newLine.foldl_past hhead) fun t ht => hs t (List.mem_cons_of_mem _ ht)

/-- Along a sorted line the column never goes back. -/
theorem head_lineFields_nonneg (h : c.Words) (hs : ∀ s ∈ ss, s.Indexed)
    (hsorted : ss.Pairwise fun s t => s.column ≤ t.column)
    (hfront : ∀ s ∈ ss, c.column ≤ s.column.toNat) :
    ∀ fields ∈ c.lineFields ss, ∀ v ∈ fields.head?, 0 ≤ v.toInt := by
  induction ss generalizing c with
  | nil => exact List.forall_mem_nil _
  | cons s ss ih =>
    obtain ⟨hnext, hsorted⟩ := List.pairwise_cons.mp hsorted
    have hhead := hs s List.mem_cons_self
    rw [Cursor.lineFields]
    refine List.forall_mem_cons.mpr ⟨?_, ?_⟩
    · intro v hv
      obtain rfl := Option.some.inj hv
      rw [toInt_difference (isWord_toNat _) h.column]
      have := hfront s List.mem_cons_self
      omega
    · apply ih (h.past hhead) (fun t ht => hs t (List.mem_cons_of_mem _ ht)) hsorted
      intro t ht
      rw [past_column]
      exact Int.ofNat_le.mpr (UInt32.le_iff_toNat_le.mp (hnext t ht))

end Cursor.Words

namespace Vlq

/-- A number below 32 to the power of `k + 1` needs no more than `k + 1` groups. -/
theorem length_groups_le {n k : Nat} (h : n < 32 * Nat.pow 32 k) : (groups n).length ≤ k + 1 := by
  fun_induction groups n generalizing k with
  | case1 n hn => simp
  | case2 n hn ih =>
    cases k with
    | zero => exact absurd h hn
    | succ k =>
      have hpow : Nat.pow 32 (k + 1) = Nat.pow 32 k * 32 := rfl
      rw [hpow] at h
      have hdiv := ih (k := k) (by omega)
      rw [List.length_cons]
      omega

/-- Seven digits have room for every number of 32 bits and its sign. -/
theorem length_encode_le_seven {v : Int64} (hv : v.toInt.natAbs < UInt32.size) :
    (encode v).length ≤ 7 := by
  have hleast : v ≠ Int64.minValue := by
    rintro rfl
    exact absurd hv (by decide)
  have hfold : fold v < 32 * Nat.pow 32 6 := by
    rw [fold_eq hleast]
    have hpow : 32 * Nat.pow 32 6 = 34359738368 := rfl
    simp only [UInt32.size] at hv
    split <;> omega
  rw [encode, List.length_map]
  exact length_groups_le hfold

end Vlq

namespace Mappings

theorem lineFields_take (c : Cursor) (ss : List Segment) (j : Nat) :
    (c.lineFields ss).take j = c.lineFields (ss.take j) := by
  induction ss generalizing c j with
  | nil => simp [Cursor.lineFields]
  | cons s ss ih =>
    cases j with
    | zero => rfl
    | succ j => rw [Cursor.lineFields, List.take_succ_cons, ih]; rfl

theorem allFields_take (c : Cursor) (lines : List (List Segment)) (i : Nat) :
    (c.allFields lines).take i = c.allFields (lines.take i) := by
  induction lines generalizing c i with
  | nil => simp [Cursor.allFields]
  | cons ss lines ih =>
    cases i with
    | zero => rfl
    | succ i => rw [Cursor.allFields, List.take_succ_cons, ih]; rfl

/-- A line is written from where the lines in front of it lead. -/
theorem exists_of_allFields_getElem? {c : Cursor} {lines : List (List Segment)} {i : Nat}
    {row : List (List Int64)} (h : (c.allFields lines)[i]? = some row) :
    ∃ ss ∈ lines, row = (pastLines c (lines.take i)).newLine.lineFields ss := by
  induction lines generalizing c i with
  | nil => simp [Cursor.allFields] at h
  | cons ss lines ih =>
    cases i with
    | zero => exact ⟨ss, List.mem_cons_self, (Option.some.inj h).symm⟩
    | succ i =>
      rw [Cursor.allFields, List.getElem?_cons_succ] at h
      obtain ⟨ts, hts, rfl⟩ := ih h
      exact ⟨ts, List.mem_cons_of_mem _ hts, rfl⟩

end Mappings

/-- A difference that leaves room in a register and is written in seven digits at most. -/
structure Bounded (v : Int64) : Prop where
  bound : v.toInt.natAbs < UInt32.size
  spelled : v ≠ Int64.minValue
  length : (Vlq.encode v).length ≤ 7

theorem bounded_of_natAbs_lt {v : Int64} (h : v.toInt.natAbs < UInt32.size) : Bounded v := by
  refine ⟨h, ?_, Vlq.length_encode_le_seven h⟩
  rintro rfl
  exact absurd h (by decide)

section Lines

variable {lines : List (List Segment)}

/-- Every line is written with words for totals. -/
theorem exists_line_of_mem_allFields (hs : ∀ ss ∈ lines, ∀ s ∈ ss, s.Indexed)
    {row : List (List Int64)} (hrow : row ∈ ({} : Cursor).allFields lines) :
    ∃ c ss, Cursor.Words c ∧ ss ∈ lines ∧ row = c.newLine.lineFields ss := by
  obtain ⟨i, hi⟩ := List.getElem?_of_mem hrow
  obtain ⟨ss, hss, rfl⟩ := exists_of_allFields_getElem? hi
  have hfront : ∀ ts ∈ lines.take i, ∀ s ∈ ts, s.Indexed :=
    fun ts hts => hs ts (List.mem_of_mem_take hts)
  exact ⟨_, ss, Cursor.words_zero.pastLines hfront, hss, rfl⟩

/-- The fields of a line are taken from words. -/
theorem exists_fields_of_mem_lineFields {c : Cursor} {ss : List Segment} (h : c.Words)
    (hs : ∀ s ∈ ss, s.Indexed) {fields : List Int64} (hf : fields ∈ c.lineFields ss) :
    ∃ c' s, Cursor.Words c' ∧ s.Indexed ∧ fields = c'.fields s := by
  induction ss generalizing c with
  | nil => cases hf
  | cons s ss ih =>
    have hhead := hs s List.mem_cons_self
    rcases List.mem_cons.mp hf with rfl | hf
    · exact ⟨c, s, h, hhead, rfl⟩
    · exact ih (h.past hhead) (fun t ht => hs t (List.mem_cons_of_mem _ ht)) hf

theorem bounded_of_mem_allFields (hs : ∀ ss ∈ lines, ∀ s ∈ ss, s.Indexed) :
    ∀ row ∈ ({} : Cursor).allFields lines, ∀ fields ∈ row,
      Counted fields ∧ ∀ v ∈ fields, Bounded v := by
  intro row hrow fields hf
  obtain ⟨c, ss, hc, hss, rfl⟩ := exists_line_of_mem_allFields hs hrow
  obtain ⟨c', s, hc', hindexed, rfl⟩ := exists_fields_of_mem_lineFields hc.newLine (hs ss hss) hf
  refine ⟨c'.counted_fields s, ?_⟩
  intro v hv
  obtain ⟨a, b, ha, hb, rfl⟩ := hc'.exists_difference hindexed v hv
  exact bounded_of_natAbs_lt (natAbs_difference_lt ha hb)

theorem head_allFields_nonneg (hs : ∀ ss ∈ lines, ∀ s ∈ ss, s.Indexed)
    (hsorted : ∀ ss ∈ lines, ss.Pairwise fun s t => s.column ≤ t.column) :
    ∀ row ∈ ({} : Cursor).allFields lines, ∀ fields ∈ row, ∀ v ∈ fields.head?, 0 ≤ v.toInt := by
  intro row hrow
  obtain ⟨c, ss, hc, hss, rfl⟩ := exists_line_of_mem_allFields hs hrow
  exact hc.newLine.head_lineFields_nonneg (hs ss hss) (hsorted ss hss)
    fun s _ => Int.natCast_nonneg _

/-- Added up again, the fields meet nothing but words: after every piece all four totals are. -/
theorem words_totals_allFields (hs : ∀ ss ∈ lines, ∀ s ∈ ss, s.Indexed) {i : Nat}
    {row : List (List Int64)} (hi : (({} : Cursor).allFields lines)[i]? = some row) (j : Nat) :
    (totals ((({} : Cursor).allFields lines).take i) (row.take j)).Words := by
  obtain ⟨ss, hss, rfl⟩ := exists_of_allFields_getElem? hi
  have hfront : ∀ ts ∈ lines.take i, ∀ s ∈ ts, s.Indexed :=
    fun ts hts => hs ts (List.mem_of_mem_take hts)
  have hline : ∀ s ∈ ss.take j, s.Indexed := fun s hm => hs ss hss s (List.mem_of_mem_take hm)
  have hstart := (Cursor.words_zero.pastLines hfront).newLine
  rw [totals_eq, allFields_take, Cursor.words_zero.newLine_plus_allFields hfront, lineFields_take,
    hstart.plus_lineFields hline]
  exact hstart.foldl_past hline

theorem spellsText_write (hne : lines ≠ []) (hs : ∀ ss ∈ lines, ∀ s ∈ ss, s.Indexed) :
    SpellsText (write lines) (({} : Cursor).allFields lines) := by
  rw [SpellsText, linePieces_write hne, List.forall₂_map_left_iff, List.forall₂_same]
  intro row hrow
  rw [List.forall₂_map_left_iff, List.forall₂_same]
  intro fields hf
  obtain ⟨hcounted, hbounded⟩ := bounded_of_mem_allFields hs row hrow fields hf
  exact spellsPiece_writeSegment hcounted fun v hv => (hbounded v hv).spelled

end Lines

namespace Builder

variable {b : Builder}

/-- While a map is written, all differences are taken in registers of 64 bits and none is lost. Each
is smaller than a word, the first of a segment is not negative, and seven digits are enough. When
the text is read they are added up again, and all four totals are words after every piece. -/
theorem bounded_differences (h : b.Reachable) (hu : b.urls.length ≤ UInt32.size) :
    ∃ rows, ({} : Registers).lines? b.recorded = some rows ∧
      (∀ row ∈ rows, ∀ fields ∈ row,
        (∀ v ∈ fields, Bounded v) ∧ ∀ v ∈ fields.head?, 0 ≤ v.toInt) ∧
      (∀ m, b.map? = some m → m.mappings = String.ofList (writeLines rows) ∧
        SpellsText m.mappings rows ∧ m.decoded = .ok (.ofLists b.recorded)) ∧
      ∀ i row j, rows[i]? = some row → (totals (rows.take i) (row.take j)).Words := by
  have hwell := h.wellFormed
  have hs := hwell.indexed hu
  refine ⟨_, Cursor.words_zero.lines?_registers hs, ?_, ?_,
    fun i row j hi => words_totals_allFields hs hi j⟩
  · intro row hrow fields hf
    exact ⟨(bounded_of_mem_allFields hs row hrow fields hf).2,
      head_allFields_nonneg hs hwell.sorted row hrow fields hf⟩
  · intro m hm
    unfold map? at hm
    split at hm
    · rename_i hmarked
      have hne := hwell.recorded_ne_nil hmarked
      obtain rfl := Option.some.inj hm
      exact ⟨rfl, spellsText_write hne hs, read_write hne hs⟩
    · cases hm

/-- The largest steps there are: from the first place to the last of another source and back. -/
def farSteps : List Step := [
  .source ⟨"a", none⟩, .source ⟨"b", none⟩, .line,
  .mapping ⟨0, some "b", some 4294967295, some 4294967295⟩, .line,
  .mapping ⟨4294967295, some "a", some 0, some 0⟩]

theorem bounded_differences_far :
    (({} : Builder).run farSteps).Reachable ∧
    (({} : Builder).run farSteps).urls.length ≤ UInt32.size ∧
    (({} : Builder).run farSteps).hasMappings = true ∧
    ∃ rows, ({} : Registers).lines? (({} : Builder).run farSteps).recorded = some rows ∧
      rows = [[[0, 1, 4294967295, 4294967295]], [[4294967295, -1, -4294967295, -4294967295]]] ∧
      ∀ row ∈ rows, ∀ fields ∈ row,
        (∀ v ∈ fields, Bounded v) ∧ ∀ v ∈ fields.head?, 0 ≤ v.toInt := by
  have hreachable : (({} : Builder).run farSteps).Reachable := ⟨none, farSteps, rfl⟩
  have hurls : (({} : Builder).run farSteps).urls.length ≤ UInt32.size := by decide
  obtain ⟨rows, hrows, hbounded, -, -⟩ := bounded_differences hreachable hurls
  have hvalues : ({} : Registers).lines? (({} : Builder).run farSteps).recorded =
      some [[[0, 1, 4294967295, 4294967295]], [[4294967295, -1, -4294967295, -4294967295]]] := by
    decide
  exact ⟨hreachable, hurls, by decide, rows, hrows, Option.some.inj (hrows.symm.trans hvalues),
    hbounded⟩

end Builder

end Templating
