import Mathlib.Data.List.Forall2
import Templating.Mappings.Reader
import Templating.Proofs.Outcomes

namespace Templating

theorem related_of_mem {R : α → β → Prop} {as : List α} {bs : List β} (h : List.Forall₂ R as bs) :
    ∀ b ∈ bs, ∃ a ∈ as, R a b := by
  induction h with
  | nil => simp
  | cons hr _ ih =>
    intro b hb
    rcases List.mem_cons.mp hb with rfl | hb
    · exact ⟨_, List.mem_cons_self, hr⟩
    · obtain ⟨a, ha, hab⟩ := ih b hb
      exact ⟨a, List.mem_cons_of_mem _ ha, hab⟩

namespace Mappings

/-- The segments of one line. -/
def walk (step : Cursor → α → Except Error Segment) (c : Cursor) :
    List α → Except Error (List Segment)
  | [] => .ok []
  | a :: rest => do
    let s ← step c a
    let ss ← walk step (c.past s) rest
    return s :: ss

/-- The segments of all lines. -/
def walkLines (step : Cursor → α → Except Error Segment) (c : Cursor) :
    List (List α) → Except Error (List (List Segment))
  | [] => .ok []
  | as :: rest => do
    let ss ← walk step c.newLine as
    let sss ← walkLines step (ss.foldl Cursor.past c.newLine) rest
    return ss :: sss

/-- The pieces of a text, line by line. -/
def linePieces (text : String) : List (List (List Char)) :=
  (text.toList.splitOn ';').map pieces

variable {step : Cursor → α → Except Error Segment}

theorem walk_cons {c : Cursor} {a : α} {as : List α} {ss : List Segment} :
    walk step c (a :: as) = .ok ss ↔
      ∃ s tail, step c a = .ok s ∧ walk step (c.past s) as = .ok tail ∧ ss = s :: tail := by
  simp only [walk, bind_eq_ok_iff, pure, Except.pure, Except.ok.injEq]
  constructor
  · intro h
    rcases h with ⟨s, hs, tail, ht, rfl⟩
    exact ⟨s, tail, hs, ht, rfl⟩
  · intro h
    rcases h with ⟨s, tail, hs, ht, rfl⟩
    exact ⟨s, hs, tail, ht, rfl⟩

theorem walkLines_cons {c : Cursor} {as : List α} {rest : List (List α)}
    {sss : List (List Segment)} :
    walkLines step c (as :: rest) = .ok sss ↔
      ∃ ss tail, walk step c.newLine as = .ok ss ∧
        walkLines step (ss.foldl Cursor.past c.newLine) rest = .ok tail ∧ sss = ss :: tail := by
  simp only [walkLines, bind_eq_ok_iff, pure, Except.pure, Except.ok.injEq]
  constructor
  · intro h
    rcases h with ⟨ss, hs, tail, ht, rfl⟩
    exact ⟨ss, tail, hs, ht, rfl⟩
  · intro h
    rcases h with ⟨ss, tail, hs, ht, rfl⟩
    exact ⟨ss, hs, tail, ht, rfl⟩

/-- Two walks whose steps agree item by item are one walk. -/
theorem walk_congr {other : Cursor → β → Except Error Segment} {as : List α} {bs : List β}
    (h : List.Forall₂ (fun a b => ∀ c, step c a = other c b) as bs) (c : Cursor) :
    walk step c as = walk other c bs := by
  induction h generalizing c with
  | nil => rfl
  | cons hs _ ih => simp only [walk, hs, ih]

theorem walkLines_congr {other : Cursor → β → Except Error Segment} {ass : List (List α)}
    {bss : List (List β)}
    (h : List.Forall₂ (List.Forall₂ (fun a b => ∀ c, step c a = other c b)) ass bss) (c : Cursor) :
    walkLines step c ass = walkLines other c bss := by
  induction h generalizing c with
  | nil => rfl
  | cons hs _ ih => simp only [walkLines, walk_congr hs, ih]

/-- The cursor behind all lines. -/
def pastLines (c : Cursor) (lines : List (List Segment)) : Cursor :=
  lines.foldl (fun c ss => ss.foldl Cursor.past c.newLine) c

/-- A walk along a line ends at the first step that fails, behind the segments before it. -/
theorem walk_error_iff {c : Cursor} {as : List α} {e : Error} :
    walk step c as = .error e ↔ ∃ front a rest ss, as = front ++ a :: rest ∧
      walk step c front = .ok ss ∧ step (ss.foldl Cursor.past c) a = .error e := by
  induction as generalizing c with
  | nil => simp [walk]
  | cons a as ih =>
    rw [walk]
    constructor
    · intro h
      rcases bind_eq_error_iff.mp h with hs | ⟨s, hs, h⟩
      · exact ⟨[], a, as, [], rfl, rfl, hs⟩
      · rcases bind_eq_error_iff.mp h with ht | ⟨ss, -, h⟩
        · obtain ⟨front, b, rest, ss, rfl, hw, he⟩ := ih.mp ht
          exact ⟨a :: front, b, rest, s :: ss, rfl, walk_cons.mpr ⟨s, ss, hs, hw, rfl⟩, he⟩
        · cases h
    · intro h
      obtain ⟨front, b, rest, ss, heq, hw, he⟩ := h
      cases front with
      | nil =>
        obtain ⟨rfl, rfl⟩ := List.cons.inj heq
        cases hw
        exact bind_eq_error_iff.mpr (.inl he)
      | cons b' front =>
        obtain ⟨rfl, rfl⟩ := List.cons.inj heq
        obtain ⟨s, tail, hs, ht, rfl⟩ := walk_cons.mp hw
        have htail := ih.mpr ⟨front, b, rest, tail, rfl, ht, he⟩
        exact bind_eq_error_iff.mpr (.inr ⟨s, hs, bind_eq_error_iff.mpr (.inl htail)⟩)

theorem walkLines_error_iff {c : Cursor} {ass : List (List α)} {e : Error} :
    walkLines step c ass = .error e ↔ ∃ lines as others sss, ass = lines ++ as :: others ∧
      walkLines step c lines = .ok sss ∧ walk step (pastLines c sss).newLine as = .error e := by
  induction ass generalizing c with
  | nil => simp [walkLines]
  | cons as ass ih =>
    rw [walkLines]
    constructor
    · intro h
      rcases bind_eq_error_iff.mp h with hs | ⟨ss, hs, h⟩
      · exact ⟨[], as, ass, [], rfl, rfl, hs⟩
      · rcases bind_eq_error_iff.mp h with ht | ⟨sss, -, h⟩
        · obtain ⟨lines, bs, others, sss, rfl, hw, he⟩ := ih.mp ht
          exact ⟨as :: lines, bs, others, ss :: sss, rfl,
            walkLines_cons.mpr ⟨ss, sss, hs, hw, rfl⟩, he⟩
        · cases h
    · intro h
      obtain ⟨lines, bs, others, sss, heq, hw, he⟩ := h
      cases lines with
      | nil =>
        obtain ⟨rfl, rfl⟩ := List.cons.inj heq
        cases hw
        exact bind_eq_error_iff.mpr (.inl he)
      | cons bs' lines =>
        obtain ⟨rfl, rfl⟩ := List.cons.inj heq
        obtain ⟨ss, tail, hs, ht, rfl⟩ := walkLines_cons.mp hw
        have htail := ih.mpr ⟨lines, bs, others, tail, rfl, ht, he⟩
        exact bind_eq_error_iff.mpr (.inr ⟨ss, hs, bind_eq_error_iff.mpr (.inl htail)⟩)

theorem walkLines_concat {c : Cursor} {lines : List (List α)} {as : List α}
    {done : List (List Segment)} :
    walkLines step c (lines ++ [as]) = .ok done ↔ ∃ sss ss, walkLines step c lines = .ok sss ∧
      walk step (pastLines c sss).newLine as = .ok ss ∧ done = sss ++ [ss] := by
  induction lines generalizing c done with
  | nil =>
    constructor
    · intro h
      obtain ⟨ss, tail, hs, ht, rfl⟩ := walkLines_cons.mp h
      cases ht
      exact ⟨[], ss, rfl, hs, rfl⟩
    · intro h
      obtain ⟨sss, ss, hsss, hs, rfl⟩ := h
      cases hsss
      exact walkLines_cons.mpr ⟨ss, [], hs, rfl, rfl⟩
  | cons first lines ih =>
    rw [List.cons_append, walkLines_cons]
    constructor
    · intro h
      obtain ⟨ss, tail, hs, ht, rfl⟩ := h
      obtain ⟨sss, last, hsss, hlast, rfl⟩ := ih.mp ht
      exact ⟨ss :: sss, last, walkLines_cons.mpr ⟨ss, sss, hs, hsss, rfl⟩, hlast, rfl⟩
    · intro h
      obtain ⟨sss, last, hsss, hlast, rfl⟩ := h
      obtain ⟨ss, tail, hs, ht, rfl⟩ := walkLines_cons.mp hsss
      exact ⟨ss, tail ++ [last], hs, ih.mpr ⟨tail, last, ht, hlast, rfl⟩, rfl⟩

private theorem readLine_loop (c : Cursor) (done : Array Segment) (ps : List (List Char)) :
    ps.foldlM (fun (c, segments) piece => do
      let segment ← readPiece c piece
      return (c.past segment, segments.push segment)) (c, done) =
    (walk readPiece c ps).map fun ss => (ss.foldl Cursor.past c, done ++ ss.toArray) := by
  induction ps generalizing c done with
  | nil => simp [walk, Except.map, pure, Except.pure]
  | cons p ps ih =>
    simp only [List.foldlM_cons, walk]
    cases hp : readPiece c p with
    | error e => rfl
    | ok s =>
      change List.foldlM _ (c.past s, done.push s) ps = _
      rw [ih]
      cases hw : walk readPiece (c.past s) ps with
      | error e => simp [hw, Except.map, bind, Except.bind]
      | ok ss => simp [hw, Except.map, bind, Except.bind, pure, Except.pure]

theorem readLine_eq (c : Cursor) (chars : List Char) :
    readLine c chars = (walk readPiece c.newLine (pieces chars)).map
      fun ss => (ss.foldl Cursor.past c.newLine, ss.toArray) := by
  refine (readLine_loop c.newLine #[] (pieces chars)).trans ?_
  simp

private theorem readLines_loop (c : Cursor) (done : Array (Array Segment))
    (lines : List (List Char)) :
    lines.foldlM (fun ((c, done) : Cursor × Array (Array Segment)) line => do
      let (c, segments) ← readLine c line
      return (c, done.push segments)) (c, done) =
    (walkLines readPiece c (lines.map pieces)).map fun sss =>
      (pastLines c sss, done ++ (sss.map List.toArray).toArray) := by
  induction lines generalizing c done with
  | nil => simp [walkLines, Except.map, pure, Except.pure, pastLines]
  | cons l ls ih =>
    simp only [List.foldlM_cons, List.map_cons, walkLines]
    rw [readLine_eq c l]
    cases hl : walk readPiece c.newLine (pieces l) with
    | error e => rfl
    | ok ss =>
      change List.foldlM _ (ss.foldl Cursor.past c.newLine, done.push ss.toArray) ls = _
      rw [ih]
      cases hw : walkLines readPiece (ss.foldl Cursor.past c.newLine) (ls.map pieces) with
      | error e => simp [hw, Except.map, bind, Except.bind]
      | ok sss => simp [hw, Except.map, bind, Except.bind, pure, Except.pure, pastLines]

/-- Reading a text is walking along its pieces. -/
theorem read_eq (text : String) :
    read text = (walkLines readPiece {} (linePieces text)).map ofLists := by
  have hl := readLines_loop {} #[] (text.toList.splitOn ';')
  unfold read readLines
  rw [hl, ← linePieces]
  cases walkLines readPiece {} (linePieces text) with
  | error e => rfl
  | ok sss => simp [Except.map, bind, Except.bind, pure, Except.pure, ofLists]

end Mappings

end Templating
