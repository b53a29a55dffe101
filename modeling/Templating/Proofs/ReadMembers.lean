import Templating.Json.Record
import Templating.Proofs.SkippedValues

namespace Templating.Json

/-- A member of an object as it is written, its key in one of its spellings. -/
structure Member where
  key : String
  lead : Gap
  name : List Char
  gap : Gap
  before : Gap
  value : List Char
  after : Gap
  spells : Spells name key.toList

/-- The member behind the quote that opens its key. -/
def Member.opened (m : Member) : List Char :=
  m.name ++ '"' :: (m.gap.chars ++ ':' :: (m.before.chars ++ (m.value ++ m.after.chars)))

def Member.chars (m : Member) : List Char :=
  m.lead.chars ++ '"' :: m.opened

/-- A member as it is written without blanks. -/
def Member.tight (key : String) (value : List Char) : Member :=
  ⟨key, .empty, key.toList.flatMap escape, .empty, .empty, value, .empty, spells_escape key.toList⟩

theorem Member.chars_tight (key : String) (value : List Char) :
    (tight key value).chars = quote key ++ ':' :: value := by
  simp [tight, chars, opened, Gap.empty, quote]

namespace Reader

/-- A member puts its value into the draft if its key is that of a field which was not read before,
and leaves the draft as it is if its key is no field's. -/
inductive Adds (fields : List (RecordField Draft)) (draft : Draft) (m : Member) : Draft → Prop
  | field {field : RecordField Draft} {put : Draft → Draft} :
      fields.find? (·.key == m.key) = some field → field.isRead draft = false →
      field.value.Yields (m.before.chars ++ m.value) put → Adds fields draft m (put draft)
  | other : fields.find? (·.key == m.key) = none → ValueText m.value → Adds fields draft m draft

/-- The draft after members that were read in turn. -/
inductive Gathers (fields : List (RecordField Draft)) : Draft → List Member → Draft → Prop
  | nil {draft : Draft} : Gathers fields draft [] draft
  | cons {draft next d : Draft} {m : Member} {ms : List Member} :
      Adds fields draft m next → Gathers fields next ms d → Gathers fields draft (m :: ms) d

variable {fields : List (RecordField Draft)} {draft d : Draft}

theorem member_append {m : Member} (h : Adds fields draft m d) {s : List Char} (hs : Stops s) :
    member fields draft (m.opened ++ s) = .ok (d, m.after.chars ++ s) := by
  have hkey := m.spells.unquote_append []
    (m.gap.chars ++ ':' :: (m.before.chars ++ (m.value ++ (m.after.chars ++ s))))
  have hcolon (t : List Char) : expect [':'] (dropBlanks (m.gap.chars ++ ':' :: t)) = .ok t := by
    rw [m.gap.dropBlanks_append, dropBlanks_cons rfl]
    rfl
  have hstops := m.after.stops_append hs
  simp only [member, Member.opened, List.append_assoc, List.cons_append, hkey, List.reverse_nil,
    List.nil_append, String.ofList_toList, bind, Except.bind]
  cases h with
  | @field field put hfind hopen hvalue =>
    have hrun := hvalue _ hstops
    rw [List.append_assoc] at hrun
    simp only [hfind, hopen, hcolon, hrun]
    rfl
  | other hfind hvalue =>
    simp only [hfind, hcolon, hvalue.skip_append m.before hstops]
    rfl

theorem members_eq (fields : List (RecordField Draft)) (draft : Draft) (s : List Char) :
    members fields draft s =
      match member fields draft s with
      | .error e => .error e
      | .ok (d, rest) =>
        match dropBlanks rest with
        | [] => .error .truncated
        | c :: rest =>
          if c = '}' then .ok (d, rest)
          else if c = ',' then expect ['"'] (dropBlanks rest) >>= members fields d
          else .error .malformed := by
  rw [members]
  split
  · rename_i hm
    rw [hm]
  · rename_i d rest hm
    simp only [hm]
    split
    · rename_i hd
      rw [hd]
    · rename_i c rest' hd
      simp only [hd]
      split
      · rfl
      split
      · split <;> rename_i hq <;> rw [hq] <;> rfl
      · rfl

/-- The quote that opens the key of a member is found behind blanks. -/
theorem expect_member (m : Member) (s : List Char) :
    expect ['"'] (dropBlanks (m.chars ++ s)) = .ok (m.opened ++ s) := by
  rw [Member.chars, List.append_assoc, m.lead.dropBlanks_append]
  rfl

/-- The members of an object are read in turn up to its closing bracket. -/
theorem members_append {m : Member} {ms : List Member} (h : Gathers fields draft (m :: ms) d)
    (rest : List Char) :
    (expect ['"'] (dropBlanks ([','].intercalate ((m :: ms).map Member.chars) ++ '}' :: rest)) >>=
      members fields draft) = .ok (d, rest) := by
  induction ms generalizing m draft with
  | nil =>
    cases h with
    | cons hadds hrest =>
      cases hrest
      have hmember := member_append hadds (stops_cons (c := '}') (s := rest) (by decide))
      rw [List.map_singleton, List.intercalate_singleton, expect_member]
      change members fields draft (m.opened ++ '}' :: rest) = _
      rw [members_eq, hmember]
      simp only [m.after.dropBlanks_append, dropBlanks_cons (c := '}') rfl, if_true]
  | cons n ms ih =>
    cases h with
    | @cons _ next _ _ _ hadds hrest =>
      have hmember := member_append hadds (stops_cons (c := ',')
        (s := [','].intercalate ((n :: ms).map Member.chars) ++ '}' :: rest) (by decide))
      rw [List.map_cons, List.map_cons, List.intercalate_cons_cons, ← List.map_cons,
        List.append_assoc, List.append_assoc, List.singleton_append, expect_member]
      change members fields draft (m.opened ++ ',' :: _) = _
      rw [members_eq, hmember]
      simp only [m.after.dropBlanks_append, dropBlanks_cons (c := ',') rfl]
      exact ih hrest

theorem collect_append {empty : Draft} {ms : List Member} (h : Gathers fields empty ms d)
    (rest : List Char) :
    collect fields empty '{' ([','].intercalate (ms.map Member.chars) ++ '}' :: rest) =
      .ok (d, rest) := by
  rw [collect, if_pos rfl]
  cases ms with
  | nil =>
    cases h
    rfl
  | cons m ms =>
    have hmembers := members_append h rest
    have hopens : Opens '}' m.chars := by
      rw [Opens, Member.chars, m.lead.dropBlanks_append]
      exact ⟨'"', _, dropBlanks_cons rfl, by decide⟩
    obtain ⟨c, tail, hdrop, hc⟩ := (hopens.intercalate (ms.map Member.chars)).append ('}' :: rest)
    rw [List.map_cons] at hmembers ⊢
    rw [hdrop] at hmembers ⊢
    split
    · rename_i hcons
      exact absurd (List.cons.inj hcons).1 hc
    · exact hmembers

/-- A record is read from an object whose members make up its draft. -/
theorem record_run {empty : Draft} {finish : Draft → Option α} {ms : List Member} {a : α}
    (h : Gathers fields empty ms d) (hf : finish d = some a) (w : Gap) (rest : List Char) :
    (record fields empty finish).run
      (w.chars ++ '{' :: ([','].intercalate (ms.map Member.chars) ++ '}' :: rest)) =
      .ok (a, rest) := by
  simp only [record, ofFirst, w.dropBlanks_append, dropBlanks_cons (c := '{') rfl,
    collect_append h, hf, bind, Except.bind]

end Reader

end Templating.Json
