import Templating.Proofs.PaddedGroups
import Templating.Proofs.TakenValues
import Templating.SourceMap

namespace Templating

/-- No character is a control character below the blank. -/
def Printable (chars : List Char) : Prop :=
  ∀ c ∈ chars, 32 ≤ c.toNat

instance (chars : List Char) : Decidable (Printable chars) :=
  decidable_of_iff (chars.all fun c => 32 ≤ c.toNat) (by simp [Printable])

theorem Printable.append {xs ys : List Char} (hx : Printable xs) (hy : Printable ys) :
    Printable (xs ++ ys) := by
  intro c hc
  exact (List.mem_append.mp hc).elim (hx c) (hy c)

theorem Printable.cons {c : Char} {cs : List Char} (hc : 32 ≤ c.toNat) (h : Printable cs) :
    Printable (c :: cs) :=
  List.forall_mem_cons.mpr ⟨hc, h⟩

theorem Printable.flatMap {f : α → List Char} {as : List α} (h : ∀ a ∈ as, Printable (f a)) :
    Printable (as.flatMap f) := by
  intro c hc
  obtain ⟨a, ha, hc⟩ := List.mem_flatMap.mp hc
  exact h a ha c hc

theorem Printable.intercalate {texts : List (List Char)} (h : ∀ t ∈ texts, Printable t) :
    Printable ([','].intercalate texts) := by
  induction texts with
  | nil => exact List.forall_mem_nil _
  | cons t texts ih =>
    obtain ⟨ht, hrest⟩ := List.forall_mem_cons.mp h
    cases texts with
    | nil => rwa [List.intercalate_singleton]
    | cons u texts =>
      rw [List.intercalate_cons_cons]
      exact (ht.append (.cons (by decide) (List.forall_mem_nil _))).append (ih hrest)

theorem Printable.lineFeed_not_mem {chars : List Char} (h : Printable chars) : '\n' ∉ chars := by
  intro hmem
  exact absurd (h '\n' hmem) (by decide)

theorem printable_digits (n : Nat) : Printable (Nat.toDigits 10 n) := by
  intro c hc
  have hdigit := Json.Literal.isDigit_of_mem_digits (n := n) c hc
  simp only [Char.isDigit, Bool.and_eq_true, decide_eq_true_eq, UInt32.le_iff_toNat_le] at hdigit
  exact Nat.le_trans (by decide) hdigit.1

namespace Base64

theorem printable_encode (bytes : List UInt8) : Printable (encode bytes) :=
  forall_mem_encode (by decide) (by decide) bytes

end Base64

namespace Json

theorem printable_escape (c : Char) : Printable (escape c) := by
  unfold escape
  split
  · decide
  · decide
  · decide
  · decide
  · decide
  · decide
  · decide
  · split
    · rename_i hcontrol
      have hhex : ∀ n < 32,
          Printable ['\\', 'u', '0', '0', hexDigit (n / 16), hexDigit (n % 16)] := by
        decide
      exact hhex _ hcontrol
    · rename_i hcontrol
      exact .cons (Nat.not_lt.mp hcontrol) (List.forall_mem_nil _)

theorem printable_quote (s : String) : Printable (quote s) := by
  have hchars : Printable (s.toList.flatMap escape) := .flatMap fun c _ => printable_escape c
  exact .cons (by decide) (hchars.append (by decide))

namespace Value

mutual

theorem printable_compact (v : Value) : Printable v.compact := by
  match v with
  | .null => rw [compact]; decide
  | .bool b => rw [compact]; revert b; decide
  | .number n => rw [compact]; exact printable_digits n
  | .string s => rw [compact]; exact printable_quote s
  | .array items =>
    rw [compact]
    exact .cons (by decide) ((Printable.intercalate (printable_items items)).append (by decide))
  | .object members =>
    rw [compact]
    exact .cons (by decide) ((Printable.intercalate (printable_members members)).append (by decide))

theorem printable_items (vs : List Value) : ∀ t ∈ compactItems vs, Printable t := by
  match vs with
  | [] => exact List.forall_mem_nil _
  | v :: vs =>
    rw [compactItems]
    exact List.forall_mem_cons.mpr ⟨printable_compact v, printable_items vs⟩

theorem printable_members (ms : List (String × Value)) :
    ∀ t ∈ compactMembers ms, Printable t := by
  match ms with
  | [] => exact List.forall_mem_nil _
  | (key, v) :: ms =>
    rw [compactMembers]
    exact List.forall_mem_cons.mpr
      ⟨(printable_quote key).append (.cons (by decide) (printable_compact v)),
        printable_members ms⟩

end

end Value

end Json

namespace SourceMap

theorem printable_text (m : SourceMap) : Printable m.text.toList := by
  rw [text, Json.Value.text, String.toList_ofList]
  exact Json.Value.printable_compact m.value

theorem printable_comment (m : SourceMap) : Printable m.comment.toList := by
  rw [comment, String.toList_append, String.toList_ofList]
  exact Printable.append (by decide) (Base64.printable_encode _)

end SourceMap

end Templating
