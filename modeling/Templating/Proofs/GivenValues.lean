import Mathlib.Data.List.Infix
import Mathlib.Data.List.TakeWhile
import Templating.Proofs.TakenArguments

namespace Templating.CommandLine

/-- The name of an option as it is written. -/
def Key.text : Key → String
  | .workspace => "workspace"
  | .output => "output"
  | .space => "ns"

def Format.text : Format → String
  | .human => "human"
  | .json => "json"

/-- The value an option is given in front of `--`. -/
def valueIn? (key : Key) : List String → Option String
  | [] => none
  | argument :: rest =>
    if argument = "--" then none
    else if argument = "--" ++ key.text then rest.head?
    else
      match ("--" ++ key.text ++ "=").toList.isPrefixOf? argument.toList with
      | some value => some (String.ofList value)
      | none => valueIn? key rest

/-- The value an option is given by an item. -/
def Item.value? (key : Key) : Item → Option String
  | .option key' value => if key' = key then some value else none
  | _ => none

def Item.argument? : Item → Option String
  | .plain argument => some argument
  | _ => none

theorem Key.equals_not_mem (key : Key) : '=' ∉ key.text.toList := by
  cases key <;> decide

theorem Key.text_ne_nil (key : Key) : key.text.toList ≠ [] := by
  cases key <;> decide

theorem Key.text_eq_iff {a b : Key} : a.text.toList = b.text.toList ↔ a = b := by
  cases a <;> cases b <;> decide

theorem Format.text_injective : Function.Injective Format.text := by
  intro a b h
  cases a <;> cases b <;> simp_all [Format.text]

theorem Format.ofText?_text {text : String} {format : Format}
    (h : Format.ofText? text = some format) : format.text = text := by
  unfold Format.ofText? at h
  split at h <;> cases h <;> rfl

namespace Word

variable {argument value : String} {name chars : List Char}

theorem name_ends (hn : '=' ∉ name) : ∀ c ∈ name, (c != '=') = true := by
  intro c hc
  exact bne_iff_ne.mpr (fun he => hn (he ▸ hc))

theorem of_joined (h : argument.toList = '-' :: '-' :: (name ++ '=' :: chars)) (hn : '=' ∉ name) :
    Word.of argument = .long name (some (String.ofList chars)) := by
  have hname := name_ends hn
  cases name with
  | nil => simp [Word.of, h]
  | cons c name =>
    simp only [Word.of, h, List.cons_append]
    rw [← List.cons_append, List.dropWhile_append_of_pos hname, List.takeWhile_append_of_pos hname]
    simp

theorem of_apart (h : argument.toList = '-' :: '-' :: name) (hn : '=' ∉ name) (hne : name ≠ []) :
    Word.of argument = .long name none := by
  cases name with
  | nil => exact absurd rfl hne
  | cons c name =>
    simp only [Word.of, h]
    rw [List.dropWhile_eq_nil_iff.mpr (name_ends hn)]

theorem dashes_of_long {value : Option String} (h : Word.of argument = .long name value) :
    ∃ rest, rest ≠ [] ∧ argument.toList = '-' :: '-' :: rest := by
  unfold Word.of at h
  split at h
  · cases h
  · rename_i rest hrest hchars
    exact ⟨rest, hrest, hchars⟩
  · cases h
  · cases h

/-- What a long option looks like. -/
theorem chars_of_long {value : Option String} (h : Word.of argument = .long name value) :
    '=' ∉ name ∧ (value = none ∧ name ≠ [] ∧ argument.toList = '-' :: '-' :: name ∨
      ∃ v, value = some v ∧ argument.toList = '-' :: '-' :: (name ++ '=' :: v.toList)) := by
  obtain ⟨rest, hrest, hchars⟩ := dashes_of_long h
  by_cases heq : '=' ∈ rest
  · obtain ⟨front, back, rfl, hfront⟩ := List.eq_append_cons_of_mem heq
    rw [of_joined hchars hfront] at h
    cases h
    exact ⟨hfront, .inr ⟨_, rfl, by rw [hchars, String.toList_ofList]⟩⟩
  · rw [of_apart hchars heq hrest] at h
    cases h
    exact ⟨heq, .inl ⟨rfl, hrest, hchars⟩⟩

theorem of_eq_escape_iff : Word.of argument = .escape ↔ argument = "--" := by
  constructor
  · intro h
    unfold Word.of at h
    split at h
    · rename_i hchars
      exact String.toList_inj.mp hchars
    · split at h <;> cases h
    · cases h
    · cases h
  · rintro rfl
    rfl

end Word

/-- An option has one name in all places. -/
theorem optionNamed_key {command : Option CommandName} {name : List Char} {key : Key}
    (h : optionNamed command name = some (.inl key)) : name = key.text.toList := by
  unfold optionNamed at h
  split at h
  -- an option's name and what it stands for are read off the same alternative
  all_goals cases h
  all_goals
    rename_i htext
    rw [Key.text, ← htext, String.toList_ofList]

theorem optionNamed_text (command : Option CommandName) {key : Key} (hk : key ≠ .space) :
    optionNamed command key.text.toList = some (.inl key) := by
  cases key with
  | workspace => rfl
  | output => rfl
  | space => exact absurd rfl hk

theorem optionNamed_not_flag (command : Option CommandName) (key : Key) (flag : Flag) :
    optionNamed command key.text.toList ≠ some (.inr flag) := by
  rcases command with - | - | - | - <;> cases key <;> simp [optionNamed, Key.text]

namespace Key

theorem apart_iff {key : Key} {argument : String} :
    argument = "--" ++ key.text ↔ argument.toList = '-' :: '-' :: key.text.toList := by
  rw [← String.toList_inj, String.toList_append]
  rfl

theorem joined_iff {key : Key} {argument : String} {chars : List Char} :
    ("--" ++ key.text ++ "=").toList.isPrefixOf? argument.toList = some chars ↔
      argument.toList = '-' :: '-' :: (key.text.toList ++ '=' :: chars) := by
  rw [List.isPrefixOf?_eq_some_iff_append_eq, eq_comm]
  simp [String.toList_append]

theorem of_apart (key : Key) : Word.of ("--" ++ key.text) = .long key.text.toList none :=
  Word.of_apart (apart_iff.mp rfl) key.equals_not_mem key.text_ne_nil

theorem of_joined (key : Key) (value : String) :
    Word.of ("--" ++ key.text ++ "=" ++ value) = .long key.text.toList (some value) := by
  have hchars : ("--" ++ key.text ++ "=" ++ value).toList =
      '-' :: '-' :: (key.text.toList ++ '=' :: value.toList) := by
    simp [String.toList_append]
  rw [Word.of_joined hchars key.equals_not_mem, String.ofList_toList]

end Key

section Find

variable {key : Key} {argument : String} {name : List Char} {rest : List String}

theorem valueIn?_escape (key : Key) (rest : List String) : valueIn? key ("--" :: rest) = none := by
  simp [valueIn?]

/-- An argument that does not name the option is passed over. -/
theorem valueIn?_other (hescape : Word.of argument ≠ .escape)
    (hlong : ∀ value, Word.of argument ≠ .long key.text.toList value) :
    valueIn? key (argument :: rest) = valueIn? key rest := by
  have hapart : argument ≠ "--" ++ key.text := by
    rintro rfl
    exact hlong none key.of_apart
  have hjoined : ("--" ++ key.text ++ "=").toList.isPrefixOf? argument.toList = none := by
    refine Option.eq_none_iff_forall_ne_some.mpr fun chars h => ?_
    exact hlong _ (Word.of_joined (Key.joined_iff.mp h) key.equals_not_mem)
  rw [valueIn?, if_neg (fun h => hescape (Word.of_eq_escape_iff.mpr h)), if_neg hapart, hjoined]

theorem valueIn?_plain (h : Word.of argument = .plain) :
    valueIn? key (argument :: rest) = valueIn? key rest := by
  apply valueIn?_other <;> simp [h]

theorem valueIn?_joined {value : String} (h : Word.of argument = .long name (some value)) :
    valueIn? key (argument :: rest) =
      if name = key.text.toList then some value else valueIn? key rest := by
  split_ifs with hname
  · obtain ⟨-, ⟨hv, -⟩ | ⟨v, hv, hchars⟩⟩ := Word.chars_of_long h
    · cases hv
    cases hv
    rw [hname] at h hchars
    have hescape : argument ≠ "--" := by
      rintro rfl
      cases h
    have hapart : argument ≠ "--" ++ key.text := by
      rintro rfl
      cases key.of_apart.symm.trans h
    rw [valueIn?, if_neg hescape, if_neg hapart, Key.joined_iff.mpr hchars]
    exact congrArg some String.ofList_toList
  · apply valueIn?_other <;> simp [h, hname]

theorem valueIn?_apart (h : Word.of argument = .long name none) :
    valueIn? key (argument :: rest) =
      if name = key.text.toList then rest.head? else valueIn? key rest := by
  split_ifs with hname
  · obtain ⟨-, ⟨-, -, hchars⟩ | ⟨v, hv, -⟩⟩ := Word.chars_of_long h
    · rw [hname] at hchars
      have hescape : argument ≠ "--" := by
        rintro rfl
        cases h
      rw [valueIn?, if_neg hescape, if_pos (Key.apart_iff.mpr hchars)]
    · cases hv
  · apply valueIn?_other <;> simp [h, hname]

/-- What stands behind `--` gives no option its value. -/
theorem valueIn?_behind_escape (before after others : List String) :
    valueIn? key (before ++ "--" :: after) = valueIn? key (before ++ "--" :: others) := by
  induction before with
  | nil => rw [List.nil_append, List.nil_append, valueIn?_escape, valueIn?_escape]
  | cons first before ih =>
    have hhead : (before ++ "--" :: after).head? = (before ++ "--" :: others).head? := by
      cases before <;> rfl
    rw [List.cons_append, List.cons_append, valueIn?, valueIn?, hhead, ih]

end Find

/-- Where arguments fall into items, an option is found by its name alone. -/
theorem valueIn?_items {command : CommandName} {arguments : List String} {items : List Item}
    (h : Items command arguments items) (key : Key) :
    valueIn? key arguments = items.findSome? (Item.value? key) := by
  induction h with
  | nil => rfl
  | joined hword hkey _ ih =>
    rw [valueIn?_joined hword, optionNamed_key hkey, ih, List.findSome?_cons, Item.value?]
    simp only [Key.text_eq_iff]
    split_ifs <;> rfl
  | apart hword hkey hplain _ ih =>
    rw [valueIn?_apart hword, optionNamed_key hkey, valueIn?_plain hplain, ih,
      List.findSome?_cons, Item.value?]
    simp only [Key.text_eq_iff]
    split_ifs <;> rfl
  | @comment argument name rest items hword hflag _ ih =>
    have hname : name ≠ key.text.toList := by
      rintro rfl
      exact optionNamed_not_flag _ key _ hflag
    rw [valueIn?_apart hword, if_neg hname, ih]
    rfl
  | plain hword _ ih =>
    rw [valueIn?_plain hword, ih]
    rfl
  | escape hword =>
    rw [Word.of_eq_escape_iff.mp hword, valueIn?_escape]
    symm
    simp [List.findSome?_eq_none_iff, Item.value?]

namespace Given

variable {command : CommandName} {g g' h : Given} {key : Key} {value : String}

/-- The value an option has. -/
def value? (g : Given) : Key → Option String
  | .workspace => g.workspace
  | .output => g.output.map Format.text
  | .space => g.space

theorem isSet_eq (g : Given) (key : Key) : g.isSet key = (g.value? key).isSome := by
  cases key with
  | workspace => rfl
  | output => exact (Option.isSome_map ..).symm
  | space => rfl

theorem raise_comment_iff : g.raise .comment = .ok h ↔
    g.comment = false ∧ h = { g with comment := true } := by
  unfold raise
  cases g.comment <;> simp [eq_comm]

/-- Options do not look at what else is given. -/
theorem assign_beside (g : Given) (key : Key) (value : String) (comment : Bool)
    (plain : List String) : { g with comment := comment, plain := plain }.assign key value =
      (g.assign key value).map fun k => { k with comment := comment, plain := plain } := by
  have hset : { g with comment := comment, plain := plain }.isSet key = g.isSet key := by
    cases key <;> rfl
  unfold assign
  rw [hset]
  cases g.isSet key with
  | true => rfl
  | false =>
    cases key with
    | workspace => rfl
    | space => rfl
    | output => cases Format.ofText? value <;> rfl

/-- What is done to all but the options may be done before or after one is given. -/
theorem beside_swap (P : Bool → List String → Prop) (c : Bool → Bool)
    (p : List String → List String) :
    (∃ k, (P g.comment g.plain ∧ k = { g with comment := c g.comment, plain := p g.plain }) ∧
      k.assign key value = .ok h) ↔
    ∃ k, g.assign key value = .ok k ∧ P k.comment k.plain ∧
      h = { k with comment := c k.comment, plain := p k.plain } := by
  constructor
  · rintro ⟨_, ⟨hP, rfl⟩, hh⟩
    rw [assign_beside, map_eq_ok_iff] at hh
    obtain ⟨k, hk, rfl⟩ := hh
    obtain ⟨-, hplain, hcomment⟩ := assign_frame hk
    rw [← hplain, ← hcomment] at hP ⊢
    exact ⟨k, hk, hP, rfl⟩
  · rintro ⟨k, hk, hP, rfl⟩
    obtain ⟨-, hplain, hcomment⟩ := assign_frame hk
    rw [hplain, hcomment] at hP ⊢
    refine ⟨_, ⟨hP, rfl⟩, ?_⟩
    rw [assign_beside, hk]
    rfl

/-- What is a value for an option once is one wherever the option is not set. -/
theorem exists_assign (ha : g.assign key value = .ok h) (hset : g'.isSet key = false) :
    ∃ k, g'.assign key value = .ok k := by
  obtain ⟨-, ⟨rfl, -⟩ | ⟨rfl, -⟩ | ⟨format, rfl, hformat, -⟩⟩ := assign_ok_iff.mp ha
  · exact ⟨_, assign_ok_iff.mpr ⟨hset, .inl ⟨rfl, rfl⟩⟩⟩
  · exact ⟨_, assign_ok_iff.mpr ⟨hset, .inr (.inl ⟨rfl, rfl⟩)⟩⟩
  · exact ⟨_, assign_ok_iff.mpr ⟨hset, .inr (.inr ⟨format, rfl, hformat, rfl⟩)⟩⟩

/-- Two options may be given in either order. -/
theorem assign_swap {a b : Key} {v w : String} (ha : g.assign a v = .ok g')
    (hb : g'.assign b w = .ok h) : ∃ k, g.assign b w = .ok k ∧ k.assign a v = .ok h := by
  obtain ⟨hga, ⟨rfl, rfl⟩ | ⟨rfl, rfl⟩ | ⟨format, rfl, hformat, rfl⟩⟩ := assign_ok_iff.mp ha <;>
  obtain ⟨hgb, ⟨rfl, rfl⟩ | ⟨rfl, rfl⟩ | ⟨format', rfl, hformat', rfl⟩⟩ := assign_ok_iff.mp hb <;>
  simp_all [assign_ok_iff, isSet]

section Settled

variable (hg : g.pending = none)

include hg

theorem takePlain_settled {argument : String} : g.takePlain command argument = .ok h ↔
    ¬ (command = .decode ∧ g.plain ≠ []) ∧ h = { g with plain := argument :: g.plain } := by
  simp [takePlain_ok_iff, settle_of_settled hg]

/-- An option may be given behind an item or in front of it. -/
theorem take_swap {item : Item} :
    (∃ k, g.take command item = .ok k ∧ k.assign key value = .ok h) ↔
      ∃ k, g.assign key value = .ok k ∧ k.take command item = .ok h := by
  cases item with
  | option key' value' =>
    constructor
    · rintro ⟨k, hk, hh⟩
      exact assign_swap hk hh
    · rintro ⟨k, hk, hh⟩
      exact assign_swap hk hh
  | comment =>
    simp only [take, raise_comment_iff]
    exact beside_swap (fun comment _ => comment = false) (fun _ => true) id
  | plain argument =>
    simp only [take, takePlain_settled hg]
    refine (beside_swap (fun _ plain => ¬ (command = .decode ∧ plain ≠ [])) id
      (argument :: ·)).trans ?_
    refine exists_congr fun k => and_congr_right fun hk => ?_
    exact (takePlain_settled ((assign_frame hk).1.trans hg)).symm

theorem takeItems_swap {items : List Item} :
    (∃ k, g.takeItems command items = .ok k ∧ k.assign key value = .ok h) ↔
      ∃ k, g.assign key value = .ok k ∧ k.takeItems command items = .ok h := by
  induction items generalizing g with
  | nil => simp [takeItems_nil]
  | cons item items ih =>
    simp only [takeItems_cons]
    constructor
    · rintro ⟨k, ⟨k', hk', hk⟩, hh⟩
      obtain ⟨j, hj, hh⟩ := (ih (settled_of_take hg hk')).mp ⟨k, hk, hh⟩
      obtain ⟨j', hj', hj⟩ := (take_swap hg).mp ⟨k', hk', hj⟩
      exact ⟨j', hj', j, hj, hh⟩
    · rintro ⟨j', hj', j, hj, hh⟩
      obtain ⟨k', hk', hj⟩ := (take_swap hg).mpr ⟨j', hj', hj⟩
      obtain ⟨k, hk, hh⟩ := (ih (settled_of_take hg hk')).mpr ⟨j, hj, hh⟩
      exact ⟨k, ⟨k', hk', hk⟩, hh⟩

theorem take_value? {item : Item} (ht : g.take command item = .ok h) (key : Key) :
    h.value? key = (g.value? key).or (item.value? key) := by
  cases item with
  | option key' value =>
    obtain ⟨hset, ⟨rfl, rfl⟩ | ⟨rfl, rfl⟩ | ⟨format, rfl, hformat, rfl⟩⟩ := assign_ok_iff.mp ht
    · cases key <;> simp_all [value?, Item.value?, isSet]
    · cases key <;> simp_all [value?, Item.value?, isSet]
    · rw [← Format.ofText?_text hformat]
      cases key <;> simp_all [value?, Item.value?, isSet]
  | comment =>
    obtain ⟨-, rfl⟩ := raise_comment_iff.mp ht
    cases key <;> simp [value?, Item.value?]
  | plain argument =>
    obtain ⟨-, rfl⟩ := (takePlain_settled hg).mp ht
    cases key <;> simp [value?, Item.value?]

theorem takeItems_value? {items : List Item} (ht : g.takeItems command items = .ok h) (key : Key) :
    h.value? key = (g.value? key).or (items.findSome? (Item.value? key)) := by
  induction items generalizing g with
  | nil =>
    cases ht
    simp
  | cons item items ih =>
    obtain ⟨k, hk, ht⟩ := takeItems_cons.mp ht
    rw [ih (settled_of_take hg hk) ht, take_value? hg hk, Option.or_assoc, List.findSome?_cons]
    cases item.value? key <;> rfl

theorem take_arguments {item : Item} (ht : g.take command item = .ok h) :
    h.plain = item.argument?.toList ++ g.plain ∧
      (command = .decode → g.plain.length ≤ 1 → h.plain.length ≤ 1) := by
  cases item with
  | option key value =>
    rw [(assign_frame ht).2.1]
    exact ⟨rfl, fun _ => id⟩
  | comment =>
    obtain ⟨-, rfl⟩ := raise_comment_iff.mp ht
    exact ⟨rfl, fun _ => id⟩
  | plain argument =>
    obtain ⟨hroom, rfl⟩ := (takePlain_settled hg).mp ht
    refine ⟨rfl, fun hc _ => ?_⟩
    have hempty : g.plain = [] := by_contra fun hne => hroom ⟨hc, hne⟩
    rw [hempty]
    rfl

theorem takeItems_arguments {items : List Item} (ht : g.takeItems command items = .ok h) :
    h.plain = (items.filterMap Item.argument?).reverse ++ g.plain ∧
      (command = .decode → g.plain.length ≤ 1 → h.plain.length ≤ 1) := by
  induction items generalizing g with
  | nil =>
    cases ht
    exact ⟨rfl, fun _ => id⟩
  | cons item items ih =>
    obtain ⟨k, hk, ht⟩ := takeItems_cons.mp ht
    obtain ⟨hplain, hroom⟩ := take_arguments hg hk
    obtain ⟨hplains, hrooms⟩ := ih (settled_of_take hg hk) ht
    refine ⟨?_, fun hc hroom' => hrooms hc (hroom hc hroom')⟩
    rw [hplains, hplain, List.filterMap_cons]
    cases item.argument? <;> simp

/-- Plain arguments are taken in whatever they look like, as long as there is room for them. -/
theorem takeItems_map_plain {arguments : List String}
    (hroom : command = .decode → (arguments.reverse ++ g.plain).length ≤ 1) :
    g.takeItems command (arguments.map .plain) =
      .ok { g with plain := arguments.reverse ++ g.plain } := by
  induction arguments generalizing g with
  | nil => rfl
  | cons argument rest ih =>
    have htake : g.takePlain command argument = .ok { g with plain := argument :: g.plain } := by
      refine (takePlain_settled hg).mpr ⟨?_, rfl⟩
      rintro ⟨hc, hne⟩
      have hlength := hroom hc
      have hplain := List.length_pos_of_ne_nil hne
      rw [List.length_append, List.length_reverse, List.length_cons] at hlength
      omega
    rw [List.reverse_cons, List.append_assoc, List.singleton_append] at hroom ⊢
    exact takeItems_cons.mpr ⟨_, htake, ih hg hroom⟩

end Settled

end Given

end Templating.CommandLine
