import Templating.Text.Lowercase
import Templating.Text.Uppercase

namespace Templating.Text

/-- Characters of ASCII that folding leaves alone. -/
def Folded (chars : List Char) : Prop :=
  ∀ c ∈ chars, c.toNat < 128 ∧ c.toLower = c

instance (chars : List Char) : Decidable (Folded chars) :=
  List.decidableBAll _ chars

theorem lowerFrom_eq_of_folded {before chars : List Char} (h : Folded chars) :
    lowerFrom before chars = chars := by
  induction chars generalizing before with
  | nil => rfl
  | cons c rest ih =>
    obtain ⟨⟨hascii, hlower⟩, hrest⟩ := List.forall_mem_cons.mp h
    have hsigma : c ≠ 'Σ' := by
      rintro rfl
      exact absurd hascii (by decide)
    rw [lowerFrom, if_neg hsigma, lowerChar, if_pos hascii, hlower, ih hrest]
    rfl

theorem lower_eq_of_folded {s : String} (h : Folded s.toList) : lower s = s := by
  rw [lower, lowerFrom_eq_of_folded h, String.ofList_toList]

theorem toNat_ofNat {n : Nat} (h : n.isValidChar) : (Char.ofNat n).toNat = n := by
  rw [Char.ofNat, dif_pos h]
  rfl

/-- Every lowercase is a character, and but for that of the Kelvin sign none is in ASCII. -/
theorem shifted_bounds : ∀ s ∈ loweringShifts,
    (128 ≤ s.first + s.distance ∨ s.first = 0x212A ∧ s.last = 0x212A) ∧ 0 ≤ s.first + s.distance ∧
      (s.last + s.distance < 0xD800 ∨
        0xDFFF < s.first + s.distance ∧ s.last + s.distance < 0x110000) := by
  decide +kernel

theorem toNat_shifted {s : Shift} (hs : s ∈ loweringShifts) {c : Char} (hc : s.has c = true) :
    ((Char.ofNat (c.toNat + s.distance).toNat).toNat : Int) = c.toNat + s.distance := by
  obtain ⟨-, hlow, hvalid⟩ := shifted_bounds s hs
  simp only [Range.has, Bool.and_eq_true, decide_eq_true_eq] at hc
  obtain ⟨⟨hfirst, hlast⟩, -⟩ := hc
  have hchar : (c.toNat + s.distance).toNat.isValidChar := by
    unfold Nat.isValidChar
    omega
  rw [toNat_ofNat hchar]
  omega

theorem isUppercase_of_ascii {c : Char} (hlow : 65 ≤ c.toNat) (hhigh : c.toNat ≤ 90) :
    isUppercase c = true := by
  apply List.any_eq_true.mpr
  refine ⟨⟨0x41, 0x5A, 1⟩, List.mem_cons_self, ?_⟩
  simp [Range.has, hlow, hhigh, Nat.mod_one]

theorem toLower_eq_self {c : Char} (h : isUppercase c = false) : c.toLower = c := by
  refine dif_neg ?_
  rintro ⟨hlow, hhigh⟩
  rw [isUppercase_of_ascii (UInt32.le_iff_toNat_le.mp hlow) (UInt32.le_iff_toNat_le.mp hhigh)] at h
  cases h

/-- A character that is not uppercase comes into ASCII only as itself. -/
theorem folded_of_lowerChar {c : Char} (hu : isUppercase c = false)
    (ha : ∀ d ∈ lowerChar c, d.toNat < 128) : Folded [c] := by
  unfold lowerChar at ha
  split at ha
  · rename_i hascii
    exact List.forall_mem_singleton.mpr ⟨hascii, toLower_eq_self hu⟩
  split at ha
  · exact absurd (ha '\u0307' (List.mem_cons_of_mem _ List.mem_cons_self)) (by decide)
  split at ha
  · rename_i s hfind
    have hs := List.mem_of_find?_eq_some hfind
    have hc := List.find?_some hfind
    have hd := List.forall_mem_singleton.mp ha
    have hshifted := toNat_shifted hs hc
    obtain ⟨hbound, -, -⟩ := shifted_bounds s hs
    simp only [Range.has, Bool.and_eq_true, decide_eq_true_eq] at hc
    have hkelvin : c.toNat = 0x212A := by omega
    rw [Char.toNat_inj.mp (show c.toNat = '\u212A'.toNat from hkelvin)] at hu
    exact absurd hu (by decide)
  · rename_i hascii _ _ _
    exact absurd (List.forall_mem_singleton.mp ha) hascii

theorem folded_of_lowerFrom {before chars : List Char} (hu : ∀ c ∈ chars, isUppercase c = false)
    (ha : ∀ d ∈ lowerFrom before chars, d.toNat < 128) : Folded chars := by
  induction chars generalizing before with
  | nil => exact List.forall_mem_nil _
  | cons c rest ih =>
    obtain ⟨huc, hurest⟩ := List.forall_mem_cons.mp hu
    have hsigma : c ≠ 'Σ' := by
      rintro rfl
      exact absurd huc (by decide)
    rw [lowerFrom, if_neg hsigma, List.forall_mem_append] at ha
    have hc := List.forall_mem_singleton.mp (folded_of_lowerChar huc ha.1)
    exact List.forall_mem_cons.mpr ⟨hc, ih hurest ha.2⟩

/-- Without uppercase letters a text has its lowercase in ASCII only if it is its own lowercase. -/
theorem folded_of_lower {s : String} (hu : ∀ c ∈ s.toList, isUppercase c = false)
    (ha : Folded (lower s).toList) : Folded s.toList := by
  rw [lower, String.toList_ofList] at ha
  exact folded_of_lowerFrom hu fun d hd => (ha d hd).1

end Templating.Text
