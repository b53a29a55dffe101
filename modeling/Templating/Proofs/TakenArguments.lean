import Templating.CommandLine.Arguments
import Templating.Proofs.Outcomes

namespace Templating.CommandLine

/-- A plain argument, a flag, or an option with its value. -/
inductive Item where
  | option (key : Key) (value : String)
  | comment
  | plain (argument : String)
  deriving Repr, DecidableEq

/-- The items that arguments behind a command's name fall into. -/
inductive Items (command : CommandName) : List String → List Item → Prop
  | nil : Items command [] []
  | joined {argument value : String} {name : List Char} {key : Key} {rest : List String}
      {items : List Item} : Word.of argument = .long name (some value) →
      optionNamed (some command) name = some (.inl key) → Items command rest items →
      Items command (argument :: rest) (.option key value :: items)
  | apart {argument value : String} {name : List Char} {key : Key} {rest : List String}
      {items : List Item} : Word.of argument = .long name none →
      optionNamed (some command) name = some (.inl key) → Word.of value = .plain →
      Items command rest items →
      Items command (argument :: value :: rest) (.option key value :: items)
  | comment {argument : String} {name : List Char} {rest : List String} {items : List Item} :
      Word.of argument = .long name none →
      optionNamed (some command) name = some (.inr .comment) → Items command rest items →
      Items command (argument :: rest) (.comment :: items)
  | plain {argument : String} {rest : List String} {items : List Item} :
      Word.of argument = .plain → Items command rest items →
      Items command (argument :: rest) (.plain argument :: items)
  | escape {argument : String} {rest : List String} : Word.of argument = .escape →
      Items command (argument :: rest) (rest.map .plain)

namespace Given

variable {command : CommandName} {g g' h : Given}

/-- Takes in an item at once. -/
def take (command : CommandName) (g : Given) : Item → Except Refusal Given
  | .option key value => g.assign key value
  | .comment => g.raise .comment
  | .plain argument => g.takePlain command argument

def takeItems (command : CommandName) (g : Given) (items : List Item) : Except Refusal Given :=
  items.foldlM (take command) g

theorem settle_of_settled (hg : g.pending = none) : g.settle = .ok g := by
  rw [settle, hg]

theorem waiting?_of_settled (hg : g.pending = none) : g.waiting? = none := by
  rw [waiting?, hg]

theorem assign_ok_iff {key : Key} {value : String} : g.assign key value = .ok h ↔
    g.isSet key = false ∧
      (key = .workspace ∧ h = { g with workspace := some value } ∨
        key = .space ∧ h = { g with space := some value } ∨
        ∃ format, key = .output ∧ Format.ofText? value = some format ∧
          h = { g with output := some format }) := by
  unfold assign
  cases g.isSet key with
  | true => simp
  | false =>
    cases key with
    | workspace => simp [eq_comm]
    | space => simp [eq_comm]
    | output => cases Format.ofText? value <;> simp [eq_comm]

/-- Giving an option its value touches nothing but options. -/
theorem assign_frame {key : Key} {value : String} (ha : g.assign key value = .ok h) :
    h.pending = g.pending ∧ h.plain = g.plain ∧ h.comment = g.comment := by
  obtain ⟨-, ⟨-, rfl⟩ | ⟨-, rfl⟩ | ⟨_, -, -, rfl⟩⟩ := assign_ok_iff.mp ha <;> exact ⟨rfl, rfl, rfl⟩

theorem settle_frame (hs : g.settle = .ok g') : g'.pending = none ∧ g'.plain = g.plain := by
  unfold settle at hs
  split at hs
  · rename_i hg
    cases hs
    exact ⟨hg, rfl⟩
  · cases hs
  · obtain ⟨hpending, hplain, -⟩ := assign_frame hs
    exact ⟨hpending, hplain⟩

theorem settle_settle (hs : g.settle = .ok g') : g'.settle = .ok g' :=
  settle_of_settled (settle_frame hs).1

/-- An option that waits for its value cannot be settled. -/
theorem not_waiting_of_settle (hs : g.settle = .ok g') : g.waiting? = none := by
  unfold settle at hs
  unfold waiting?
  split at hs
  · rename_i hg; rw [hg]
  · cases hs
  · rename_i hg; rw [hg]

theorem settle_waiting {key : Key} (hw : g.pending = some (key, none)) :
    g.settle = .error .badValue := by
  rw [settle, hw]

theorem takeLong_of_settle (hs : g.settle = .ok g') (among : Option CommandName)
    (name : List Char) (value : Option String) :
    g.takeLong among name value = g'.takeLong among name value := by
  unfold takeLong
  rw [hs, settle_settle hs]

theorem takeShort_of_settle (hs : g.settle = .ok g') (among : Option CommandName) (letter : Char) :
    g.takeShort among letter = g'.takeShort among letter := by
  unfold takeShort
  rw [hs, settle_settle hs]

theorem takePlain_of_settle (hs : g.settle = .ok g') (argument : String) :
    g.takePlain command argument = g'.takePlain command argument := by
  unfold takePlain
  rw [hs, settle_settle hs, (settle_frame hs).2]

/-- What is held for an option may as well be settled before any more is taken in. -/
theorem takeAll_of_settle (hs : g.settle = .ok g') (arguments : List String) :
    g.takeAll command arguments = g'.takeAll command arguments := by
  cases arguments with
  | nil => rw [takeAll, takeAll, hs, settle_settle hs]
  | cons argument rest =>
    rw [takeAll, takeAll]
    split
    · cases rest with
      | nil => simp only [List.foldlM_nil, pure_bind, hs, settle_settle hs]
      | cons next rest => simp only [List.foldlM_cons, takePlain_of_settle hs]
    · rw [takeLong_of_settle hs]
    · rw [takeShort_of_settle hs]
    · rw [not_waiting_of_settle hs, not_waiting_of_settle (settle_settle hs),
        takePlain_of_settle hs]

theorem settles_of_takeLong {among : Option CommandName} {name : List Char} {value : Option String}
    (ht : g.takeLong among name value = .ok h) : ∃ g', g.settle = .ok g' := by
  unfold takeLong at ht
  split at ht
  · cases ht
  · cases ht
  · obtain ⟨g', hs, -⟩ := bind_eq_ok_iff.mp ht; exact ⟨g', hs⟩
  · obtain ⟨g', hs, -⟩ := bind_eq_ok_iff.mp ht; exact ⟨g', hs⟩
  · obtain ⟨g', hs, -⟩ := bind_eq_ok_iff.mp ht; exact ⟨g', hs⟩

theorem takePlain_ok_iff {argument : String} : g.takePlain command argument = .ok h ↔
    ¬ (command = .decode ∧ g.plain ≠ []) ∧
      ∃ g', g.settle = .ok g' ∧ h = { g' with plain := argument :: g'.plain } := by
  unfold takePlain
  split
  · rename_i hfull
    simp [hfull]
  · rename_i hroom
    simp only [hroom, not_false_iff, true_and, bind_eq_ok_iff]
    constructor
    · rintro ⟨g', hs, ht⟩
      cases ht
      exact ⟨g', hs, rfl⟩
    · rintro ⟨g', hs, rfl⟩
      exact ⟨g', hs, rfl⟩

/-- A letter asks for help or for the version, or it is unknown: no command is run behind it. -/
theorem takeShort_ne_ok {among : Option CommandName} {letter : Char} :
    g.takeShort among letter ≠ .ok h := by
  intro ht
  unfold takeShort at ht
  split at ht
  · cases ht
  · rename_i flag hflag
    obtain ⟨g', -, hr⟩ := bind_eq_ok_iff.mp ht
    unfold flagLettered at hflag
    split at hflag
    · cases hflag; cases hr
    · cases hflag; cases hr
    · cases hflag

/-- Where arguments are accepted and no option waits, what is held is settled. -/
theorem settles_of_takeAll {arguments : List String} (hw : g.waiting? = none)
    (ht : g.takeAll command arguments = .ok h) : ∃ g', g.settle = .ok g' := by
  cases arguments with
  | nil => exact ⟨h, ht⟩
  | cons argument rest =>
    rw [takeAll] at ht
    split at ht
    · obtain ⟨k, hf, hs⟩ := bind_eq_ok_iff.mp ht
      cases rest with
      | nil =>
        cases hf
        exact ⟨h, hs⟩
      | cons next rest =>
        obtain ⟨_, hp, -⟩ := bind_eq_ok_iff.mp hf
        obtain ⟨-, g', hs, -⟩ := takePlain_ok_iff.mp hp
        exact ⟨g', hs⟩
    · obtain ⟨_, hl, -⟩ := bind_eq_ok_iff.mp ht
      exact settles_of_takeLong hl
    · obtain ⟨_, hl, -⟩ := bind_eq_ok_iff.mp ht
      exact absurd hl takeShort_ne_ok
    · rw [hw] at ht
      obtain ⟨_, hp, -⟩ := bind_eq_ok_iff.mp ht
      obtain ⟨-, g', hs, -⟩ := takePlain_ok_iff.mp hp
      exact ⟨g', hs⟩

/-- Behind an option that waits for its value a plain argument has to follow. -/
theorem takeAll_waiting {key : Key} {arguments : List String} (hw : g.pending = some (key, none)) :
    g.takeAll command arguments = .ok h ↔ ∃ value rest, arguments = value :: rest ∧
      Word.of value = .plain ∧
      { g with pending := some (key, some value) }.takeAll command rest = .ok h := by
  have hwaiting : g.waiting? = some key := by rw [waiting?, hw]
  have hunsettled : ∀ g', g.settle ≠ .ok g' := by simp [settle_waiting hw]
  constructor
  · intro ht
    cases arguments with
    | nil => exact absurd ht (hunsettled h)
    | cons argument rest =>
      rw [takeAll] at ht
      split at ht
      · obtain ⟨k, hf, hs⟩ := bind_eq_ok_iff.mp ht
        cases rest with
        | nil =>
          cases hf
          exact absurd hs (hunsettled h)
        | cons next rest =>
          obtain ⟨_, hp, -⟩ := bind_eq_ok_iff.mp hf
          obtain ⟨-, g', hs, -⟩ := takePlain_ok_iff.mp hp
          exact absurd hs (hunsettled g')
      · obtain ⟨_, hl, -⟩ := bind_eq_ok_iff.mp ht
        obtain ⟨g', hs⟩ := settles_of_takeLong hl
        exact absurd hs (hunsettled g')
      · obtain ⟨_, hl, -⟩ := bind_eq_ok_iff.mp ht
        exact absurd hl takeShort_ne_ok
      · rename_i hplain
        rw [hwaiting] at ht
        exact ⟨argument, rest, rfl, hplain, ht⟩
  · rintro ⟨value, rest, rfl, hplain, ht⟩
    rw [takeAll, hplain, hwaiting]
    exact ht

section Settled

variable (hg : g.pending = none)

include hg

theorem settle_held (key : Key) (value : String) :
    { g with pending := some (key, some value) }.settle = g.assign key value := by
  have hsame : { g with pending := none } = g := by rw [← hg]
  exact congrArg (assign · key value) hsame

/-- What an option or a flag comes to behind a command's name. -/
theorem takeLong_ok {name : List Char} {value : Option String}
    (ht : g.takeLong (some command) name value = .ok h) :
    (∃ key v, value = some v ∧ optionNamed (some command) name = some (.inl key) ∧
      g.assign key v = .ok h) ∨
    (∃ key, value = none ∧ optionNamed (some command) name = some (.inl key) ∧
      h = { g with pending := some (key, none) }) ∨
    value = none ∧ optionNamed (some command) name = some (.inr .comment) ∧
      g.raise .comment = .ok h := by
  unfold takeLong at ht
  rw [settle_of_settled hg] at ht
  split at ht
  · cases ht
  · cases ht
  · rename_i flag hflag
    replace ht : g.raise flag = .ok h := ht
    cases flag with
    | help => cases ht
    | version => cases ht
    | comment => exact .inr (.inr ⟨rfl, hflag, ht⟩)
  · rename_i key v hkey
    exact .inl ⟨key, v, rfl, hkey, ht⟩
  · rename_i key hkey
    exact .inr (.inl ⟨key, rfl, hkey, (Except.ok.inj ht).symm⟩)

theorem takeLong_joined {among : Option CommandName} {name : List Char} {key : Key}
    (hn : optionNamed among name = some (.inl key)) (value : String) :
    g.takeLong among name (some value) = g.assign key value := by
  simp only [takeLong, hn, settle_of_settled hg]
  rfl

theorem takeLong_apart {among : Option CommandName} {name : List Char} {key : Key}
    (hn : optionNamed among name = some (.inl key)) :
    g.takeLong among name none = .ok { g with pending := some (key, none) } := by
  simp only [takeLong, hn, settle_of_settled hg]
  rfl

theorem takeLong_comment {name : List Char}
    (hn : optionNamed (some command) name = some (.inr .comment)) :
    g.takeLong (some command) name none = g.raise .comment := by
  simp only [takeLong, hn, settle_of_settled hg]
  rfl

theorem settled_of_raise (hr : g.raise .comment = .ok h) : h.pending = none := by
  simp only [raise] at hr
  split at hr
  · cases hr
  · cases hr
    exact hg

theorem settled_of_take {item : Item} (ht : g.take command item = .ok h) : h.pending = none := by
  cases item with
  | option key value => rw [(assign_frame ht).1, hg]
  | comment => exact settled_of_raise hg ht
  | plain argument =>
    obtain ⟨-, g', hs, rfl⟩ := takePlain_ok_iff.mp ht
    exact (settle_frame hs).1

omit hg in
theorem takeItems_nil : g.takeItems command [] = .ok g :=
  rfl

omit hg in
theorem takeItems_cons {item : Item} {items : List Item} :
    g.takeItems command (item :: items) = .ok h ↔
      ∃ k, g.take command item = .ok k ∧ k.takeItems command items = .ok h := by
  rw [takeItems, List.foldlM_cons, bind_eq_ok_iff]
  rfl

omit hg in
theorem takeItems_append {items others : List Item} :
    g.takeItems command (items ++ others) = .ok h ↔
      ∃ k, g.takeItems command items = .ok k ∧ k.takeItems command others = .ok h := by
  rw [takeItems, List.foldlM_append, bind_eq_ok_iff]
  rfl

theorem settled_of_takeItems {items : List Item} (ht : g.takeItems command items = .ok h) :
    h.pending = none := by
  induction items generalizing g with
  | nil =>
    cases ht
    exact hg
  | cons item items ih =>
    obtain ⟨k, hk, ht⟩ := takeItems_cons.mp ht
    exact ih (settled_of_take hg hk) ht

omit hg in
theorem takeItems_plain (arguments : List String) :
    g.takeItems command (arguments.map .plain) = arguments.foldlM (takePlain · command ·) g :=
  List.foldlM_map

/-- Arguments that are accepted fall into items, which are taken in one after another. -/
theorem exists_items {arguments : List String} (ht : g.takeAll command arguments = .ok h) :
    ∃ items, Items command arguments items ∧ g.takeItems command items = .ok h := by
  -- an option takes its value with it, so the arguments get shorter by one or by two
  induction hn : arguments.length using Nat.strongRecOn generalizing g arguments with
  | ind n ih =>
    subst hn
    cases arguments with
    | nil =>
      rw [takeAll, settle_of_settled hg] at ht
      exact ⟨[], .nil, ht⟩
    | cons argument rest =>
      rw [takeAll] at ht
      split at ht
      · rename_i hword
        obtain ⟨k, hf, hs⟩ := bind_eq_ok_iff.mp ht
        rw [← takeItems_plain] at hf
        rw [settle_of_settled (settled_of_takeItems hg hf)] at hs
        exact ⟨_, .escape hword, hf.trans hs⟩
      · rename_i name value hword
        obtain ⟨k, hl, hrest⟩ := bind_eq_ok_iff.mp ht
        obtain ⟨key, v, rfl, hkey, ha⟩ | ⟨key, rfl, hkey, rfl⟩ | ⟨rfl, hflag, hr⟩ :=
          takeLong_ok hg hl
        · have hk : k.pending = none := (assign_frame ha).1.trans hg
          obtain ⟨items, hitems, htake⟩ := ih rest.length (by simp) hk hrest rfl
          exact ⟨_, .joined hword hkey hitems, takeItems_cons.mpr ⟨k, ha, htake⟩⟩
        · obtain ⟨v, others, rfl, hplain, hothers⟩ := (takeAll_waiting rfl).mp hrest
          obtain ⟨k, hs⟩ := settles_of_takeAll rfl hothers
          rw [takeAll_of_settle hs] at hothers
          have hshorter : others.length < (argument :: v :: others).length := by
            rw [List.length_cons, List.length_cons]
            omega
          obtain ⟨items, hitems, htake⟩ :=
            ih others.length hshorter (settle_frame hs).1 hothers rfl
          rw [settle_held hg] at hs
          exact ⟨_, .apart hword hkey hplain hitems, takeItems_cons.mpr ⟨k, hs, htake⟩⟩
        · obtain ⟨items, hitems, htake⟩ :=
            ih rest.length (by simp) (settled_of_raise hg hr) hrest rfl
          exact ⟨_, .comment hword hflag hitems, takeItems_cons.mpr ⟨k, hr, htake⟩⟩
      · obtain ⟨_, hl, -⟩ := bind_eq_ok_iff.mp ht
        exact absurd hl takeShort_ne_ok
      · rename_i hword
        rw [waiting?_of_settled hg] at ht
        obtain ⟨k, hp, ht⟩ := bind_eq_ok_iff.mp ht
        replace hp : g.take command (.plain argument) = .ok k := hp
        have hk := settled_of_take hg hp
        obtain ⟨items, hitems, ht⟩ := ih rest.length (by simp) hk ht rfl
        exact ⟨_, .plain hword hitems, takeItems_cons.mpr ⟨k, hp, ht⟩⟩

/-- Items that can be taken in one after another are accepted as arguments. -/
theorem takeAll_of_items {arguments : List String} {items : List Item}
    (hi : Items command arguments items) (ht : g.takeItems command items = .ok h) :
    g.takeAll command arguments = .ok h := by
  induction hi generalizing g with
  | nil =>
    cases ht
    exact settle_of_settled hg
  | joined hword hkey _ ih =>
    obtain ⟨k, hk, ht⟩ := takeItems_cons.mp ht
    rw [takeAll, hword]
    exact bind_eq_ok_iff.mpr ⟨k, (takeLong_joined hg hkey _).trans hk,
      ih (settled_of_take hg hk) ht⟩
  | @apart argument value name key rest items hword hkey hplain _ ih =>
    obtain ⟨k, hk, ht⟩ := takeItems_cons.mp ht
    rw [takeAll, hword]
    refine bind_eq_ok_iff.mpr ⟨_, takeLong_apart hg hkey, ?_⟩
    refine (takeAll_waiting rfl).mpr ⟨value, rest, rfl, hplain, ?_⟩
    rw [takeAll_of_settle ((settle_held hg key value).trans hk)]
    exact ih (settled_of_take hg hk) ht
  | comment hword hflag _ ih =>
    obtain ⟨k, hk, ht⟩ := takeItems_cons.mp ht
    rw [takeAll, hword]
    exact bind_eq_ok_iff.mpr ⟨k, (takeLong_comment hg hflag).trans hk,
      ih (settled_of_take hg hk) ht⟩
  | plain hword _ ih =>
    obtain ⟨k, hk, ht⟩ := takeItems_cons.mp ht
    rw [takeAll, hword, waiting?_of_settled hg]
    exact bind_eq_ok_iff.mpr ⟨k, hk, ih (settled_of_take hg hk) ht⟩
  | escape hword =>
    have hsettled := settle_of_settled (settled_of_takeItems hg ht)
    rw [takeItems_plain] at ht
    rw [takeAll, hword]
    exact bind_eq_ok_iff.mpr ⟨h, ht, hsettled⟩

theorem takeAll_ok_iff {arguments : List String} : g.takeAll command arguments = .ok h ↔
    ∃ items, Items command arguments items ∧ g.takeItems command items = .ok h := by
  constructor
  · exact exists_items hg
  · rintro ⟨items, hi, ht⟩
    exact takeAll_of_items hg hi ht

end Settled

end Given

end Templating.CommandLine
