namespace Templating

theorem bind_eq_ok_iff {x : Except ε α} {f : α → Except ε β} {b : β} :
    x >>= f = .ok b ↔ ∃ a, x = .ok a ∧ f a = .ok b := by
  cases x with
  | error e => simp [bind, Except.bind]
  | ok a => simp [bind, Except.bind]

theorem bind_eq_error_iff {x : Except ε α} {f : α → Except ε β} {e : ε} :
    x >>= f = .error e ↔ x = .error e ∨ ∃ a, x = .ok a ∧ f a = .error e := by
  cases x with
  | error e => simp [bind, Except.bind]
  | ok a => simp [bind, Except.bind]

theorem map_eq_ok_iff {x : Except ε α} {f : α → β} {b : β} :
    x.map f = .ok b ↔ ∃ a, x = .ok a ∧ f a = b := by
  cases x <;> simp [Except.map]

theorem map_eq_error_iff {x : Except ε α} {f : α → β} {e : ε} :
    x.map f = .error e ↔ x = .error e := by
  cases x <;> simp [Except.map]

/-- A fault that holds where none does that ranks before it: of several at once the one to tell. -/
structure Foremost (rank : ε → Nat) (P : ε → Prop) (e : ε) : Prop where
  holds : P e
  first : ∀ e', P e' → rank e ≤ rank e'

/-- Where faults are told apart by their ranks, one of them is foremost. -/
theorem Foremost.unique {rank : ε → Nat} {P : ε → Prop} {e e' : ε}
    (hrank : ∀ e e', P e → P e' → rank e = rank e' → e = e')
    (h : Foremost rank P e) (h' : Foremost rank P e') : e = e' :=
  hrank e e' h.holds h'.holds (Nat.le_antisymm (h.first e' h'.holds) (h'.first e h.holds))

end Templating
