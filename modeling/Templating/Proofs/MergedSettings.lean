import Templating.Proofs.GivenValues

namespace Templating.CommandLine

def CommandName.text : CommandName → String
  | .tag => "tag"
  | .encode => "encode"
  | .decode => "decode"

/-- All plain arguments of a command. -/
def Command.arguments : Command → List String
  | .tag names _ => names
  | .encode plans _ => plans
  | .decode map => [map]

/-- A command has at least one plain argument, and `decode` has one only. -/
def CommandName.Takes (name : CommandName) (arguments : List String) : Prop :=
  arguments ≠ [] ∧ (name = .decode → arguments.length ≤ 1)

/-- An option that all commands have in common, with its value, which is joined to it or follows
it. -/
structure Setting where
  key : Key
  value : String
  joined : Bool
  common : key ≠ .space
  deriving DecidableEq

namespace Setting

def arguments (s : Setting) : List String :=
  if s.joined then ["--" ++ s.key.text ++ "=" ++ s.value] else ["--" ++ s.key.text, s.value]

def item (s : Setting) : Item :=
  .option s.key s.value

/-- A value that follows its option must not look like an option itself. -/
def Readable (s : Setting) : Prop :=
  s.joined = false → Word.of s.value = .plain

/-- A readable setting is an option with its value, before a name and behind it. -/
theorem Readable.items {s : Setting} (hs : s.Readable) {command : CommandName} {rest : List String}
    {items : List Item} (h : Items command rest items) :
    Items command (s.arguments ++ rest) (s.item :: items) := by
  obtain ⟨key, value, joined, hkey⟩ := s
  have hname := optionNamed_text (some command) hkey
  cases joined with
  | true => exact .joined (key.of_joined value) hname h
  | false => exact .apart key.of_apart hname (hs rfl) h

end Setting

section Front

variable {g g' : Given} {i : Invocation}

theorem CommandName.ofText?_text (name : CommandName) : ofText? name.text = some name := by
  cases name <;> rfl

theorem CommandName.plain_of_ofText? {argument : String} {name : CommandName}
    (h : ofText? argument = some name) : Word.of argument = .plain := by
  unfold ofText? at h
  split at h <;> first | rfl | cases h

theorem parseFrom_of_settle (hs : g.settle = .ok g') (arguments : List String) :
    parseFrom g arguments = parseFrom g' arguments := by
  have hsettled := Given.settle_settle hs
  have hw := Given.not_waiting_of_settle hs
  have hw' := Given.not_waiting_of_settle hsettled
  have hescaped : ∀ rest, escaped g rest = escaped g' rest := by
    intro rest
    cases rest with
    | nil => simp only [escaped, Given.withoutCommand, hs, hsettled]
    | cons argument rest => rfl
  cases arguments with
  | nil => simp only [parseFrom, Given.withoutCommand, hs, hsettled]
  | cons argument rest =>
    simp only [parseFrom, hw, hw', hs, hsettled, hescaped, Given.takeLong_of_settle hs,
      Given.takeShort_of_settle hs]
    cases CommandName.ofText? argument with
    | some name => rfl
    | none =>
      by_cases hhelp : argument = helpName
      · simp [hhelp]
      · cases Word.of argument <;> simp [hhelp]

/-- An option in front of the command's name. -/
theorem parseFrom_long {argument : String} {name : List Char} {value : Option String}
    (h : Word.of argument = .long name value) (rest : List String) :
    parseFrom g (argument :: rest) = g.takeLong none name value >>= (parseFrom · rest) := by
  have hcommand : CommandName.ofText? argument = none := by
    refine Option.eq_none_iff_forall_ne_some.mpr fun name' hname => ?_
    rw [CommandName.plain_of_ofText? hname] at h
    cases h
  have hhelp : argument ≠ helpName := by
    rintro rfl
    cases h
  rw [parseFrom, hcommand, h]
  cases g.waiting? <;> simp [hhelp]

theorem settles_of_parseFrom {arguments : List String} (hw : g.waiting? = none)
    (h : parseFrom g arguments = .ok i) : ∃ g', g.settle = .ok g' := by
  cases arguments with
  | nil => cases h
  | cons argument rest =>
    rw [parseFrom, hw] at h
    cases hcommand : CommandName.ofText? argument with
    | some name =>
      rw [hcommand] at h
      obtain ⟨_, -, h⟩ := bind_eq_ok_iff.mp h
      obtain ⟨_, -, h⟩ := bind_eq_ok_iff.mp h
      obtain ⟨g', hs, -⟩ := bind_eq_ok_iff.mp h
      exact ⟨g', hs⟩
    | none =>
      simp only [hcommand] at h
      split at h
      · cases h
      · split at h
        · cases h
        · obtain ⟨_, hl, -⟩ := bind_eq_ok_iff.mp h
          exact Given.settles_of_takeLong hl
        · obtain ⟨_, hl, -⟩ := bind_eq_ok_iff.mp h
          exact absurd hl Given.takeShort_ne_ok
        · rename_i hkey
          cases hkey
        · cases h

theorem parseFrom_waiting {key : Key} {argument : String} {rest : List String}
    (hw : g.pending = some (key, none)) :
    parseFrom g (argument :: rest) = .ok i ↔ Word.of argument = .plain ∧
      parseFrom { g with pending := some (key, some argument) } rest = .ok i := by
  have hwaiting : g.waiting? = some key := by rw [Given.waiting?, hw]
  have hunsettled : ∀ g', g.settle ≠ .ok g' := by simp [Given.settle_waiting hw]
  rw [parseFrom, hwaiting]
  simp only [reduceCtorEq, false_and, if_false]
  cases hword : Word.of argument with
  | escape => simp
  | long name value =>
    simp only [reduceCtorEq, false_and, iff_false, bind_eq_ok_iff, not_exists, not_and]
    intro k hl
    obtain ⟨g', hs⟩ := Given.settles_of_takeLong hl
    exact absurd hs (hunsettled g')
  | short letter =>
    simp only [reduceCtorEq, false_and, iff_false, bind_eq_ok_iff, not_exists, not_and]
    intro k hl
    exact absurd hl Given.takeShort_ne_ok
  | plain => simp

theorem parseFrom_name (hg : g.pending = none) {name : CommandName} {post : List String} :
    parseFrom g (name.text :: post) = .ok i ↔ ∃ behind command,
      ({} : Given).takeAll name post = .ok behind ∧ behind.commandNamed name = .ok command ∧
        i = g.invocation behind command := by
  rw [parseFrom, Given.waiting?_of_settled hg, name.ofText?_text, Given.settle_of_settled hg]
  simp only [bind_eq_ok_iff]
  constructor
  · rintro ⟨behind, hb, command, hc, front, hf, h⟩
    cases hf
    cases h
    exact ⟨behind, command, hb, hc, rfl⟩
  · rintro ⟨behind, command, hb, hc, rfl⟩
    exact ⟨behind, hb, command, hc, g, rfl, rfl⟩

/-- What is held for an option may as well be given to it at once. -/
theorem parseFrom_held (hg : g.pending = none) {key : Key} {value : String} {rest : List String} :
    parseFrom { g with pending := some (key, some value) } rest = .ok i ↔
      ∃ k, g.assign key value = .ok k ∧ parseFrom k rest = .ok i := by
  rw [← Given.settle_held hg]
  constructor
  · intro h
    obtain ⟨k, hk⟩ := settles_of_parseFrom rfl h
    exact ⟨k, hk, parseFrom_of_settle hk rest ▸ h⟩
  · rintro ⟨k, hk, h⟩
    exact (parseFrom_of_settle hk rest).trans h

theorem parseFrom_setting (hg : g.pending = none) {s : Setting} {rest : List String} :
    parseFrom g (s.arguments ++ rest) = .ok i ↔
      s.Readable ∧ ∃ k, g.assign s.key s.value = .ok k ∧ parseFrom k rest = .ok i := by
  obtain ⟨key, value, joined, hkey⟩ := s
  have hname := optionNamed_text none hkey
  cases joined with
  | true =>
    change parseFrom g (("--" ++ key.text ++ "=" ++ value) :: rest) = _ ↔ _
    rw [parseFrom_long (key.of_joined value), Given.takeLong_joined hg hname, bind_eq_ok_iff]
    simp [Setting.Readable]
  | false =>
    change parseFrom g (("--" ++ key.text) :: value :: rest) = _ ↔ _
    rw [parseFrom_long key.of_apart, Given.takeLong_apart hg hname]
    change parseFrom { g with pending := some (key, none) } (value :: rest) = _ ↔ _
    rw [parseFrom_waiting rfl, ← parseFrom_held hg]
    simp [Setting.Readable]

theorem parseFrom_settings (hg : g.pending = none) (command : CommandName)
    {settings : List Setting} {rest : List String} :
    parseFrom g (settings.flatMap Setting.arguments ++ rest) = .ok i ↔
      (∀ s ∈ settings, s.Readable) ∧ ∃ front,
        g.takeItems command (settings.map Setting.item) = .ok front ∧
          parseFrom front rest = .ok i := by
  induction settings generalizing g with
  | nil => simp [Given.takeItems_nil]
  | cons s settings ih =>
    rw [List.flatMap_cons, List.append_assoc, parseFrom_setting hg, List.map_cons]
    simp only [Given.takeItems_cons, List.forall_mem_cons]
    constructor
    · rintro ⟨hs, k, hk, h⟩
      obtain ⟨hsettings, front, hf, h⟩ := (ih ((Given.assign_frame hk).1.trans hg)).mp h
      exact ⟨⟨hs, hsettings⟩, front, ⟨k, hk, hf⟩, h⟩
    · rintro ⟨⟨hs, hsettings⟩, front, ⟨k, hk, hf⟩, h⟩
      have hk' := (Given.assign_frame hk).1.trans hg
      exact ⟨hs, k, hk, (ih hk').mpr ⟨hsettings, front, hf, h⟩⟩

/-- Settings, a command's name and what follows it are accepted exactly if both places can be read
for themselves and the command gets its arguments. -/
theorem parse_ok_iff {settings : List Setting} {name : CommandName} {post : List String} :
    parse (settings.flatMap Setting.arguments ++ name.text :: post) = .ok i ↔
      (∀ s ∈ settings, s.Readable) ∧ ∃ front items behind command,
        ({} : Given).takeItems name (settings.map Setting.item) = .ok front ∧
          Items name post items ∧ ({} : Given).takeItems name items = .ok behind ∧
            behind.commandNamed name = .ok command ∧ i = front.invocation behind command := by
  rw [parse, parseFrom_settings rfl name]
  refine and_congr_right fun _ => exists_congr fun front => ?_
  constructor
  · rintro ⟨hf, h⟩
    obtain ⟨behind, command, hb, hc, rfl⟩ :=
      (parseFrom_name (Given.settled_of_takeItems rfl hf)).mp h
    obtain ⟨items, hi, ht⟩ := (Given.takeAll_ok_iff rfl).mp hb
    exact ⟨items, behind, command, hf, hi, ht, hc, rfl⟩
  · rintro ⟨items, behind, command, hf, hi, ht, hc, rfl⟩
    refine ⟨hf, (parseFrom_name (Given.settled_of_takeItems rfl hf)).mpr ?_⟩
    exact ⟨behind, command, (Given.takeAll_ok_iff rfl).mpr ⟨items, hi, ht⟩, hc, rfl⟩

end Front

namespace Items

variable {command : CommandName} {arguments : List String} {items items' : List Item}

/-- Arguments fall into items in one way only. -/
theorem unique (h : Items command arguments items) (h' : Items command arguments items') :
    items = items' := by
  induction h generalizing items' with
  | nil =>
    cases h'
    rfl
  | joined hword hkey _ ih =>
    cases h' with
    | joined hword' hkey' h' =>
      cases hword.symm.trans hword'
      cases hkey.symm.trans hkey'
      rw [ih h']
    | apart hword' | comment hword' | plain hword' | escape hword' =>
      cases hword.symm.trans hword'
  | apart hword hkey hplain _ ih =>
    cases h' with
    | apart hword' hkey' hplain' h' =>
      cases hword.symm.trans hword'
      cases hkey.symm.trans hkey'
      rw [ih h']
    | comment hword' hflag =>
      cases hword.symm.trans hword'
      cases hkey.symm.trans hflag
    | joined hword' | plain hword' | escape hword' => cases hword.symm.trans hword'
  | comment hword hflag _ ih =>
    cases h' with
    | comment hword' hflag' h' => rw [ih h']
    | apart hword' hkey =>
      cases hword.symm.trans hword'
      cases hflag.symm.trans hkey
    | joined hword' | plain hword' | escape hword' => cases hword.symm.trans hword'
  | plain hword _ ih =>
    cases h' with
    | plain hword' h' => rw [ih h']
    | joined hword' | apart hword' | comment hword' | escape hword' =>
      cases hword.symm.trans hword'
  | escape hword =>
    cases h' with
    | escape => rfl
    | joined hword' | apart hword' | comment hword' | plain hword' =>
      cases hword.symm.trans hword'

/-- What is no `--` itself stands in front of it. -/
theorem exists_before {before after rest : List String} {argument : String}
    (ha : before ++ "--" :: after = argument :: rest) (hword : Word.of argument ≠ .escape) :
    ∃ others, before = argument :: others ∧ others ++ "--" :: after = rest := by
  cases before with
  | nil =>
    cases ha
    exact absurd rfl hword
  | cons first before =>
    cases ha
    exact ⟨before, rfl, rfl⟩

/-- Behind the first `--` there are plain arguments only, and what is in front of it does not depend
on them. -/
theorem split {before after : List String} (h : Items command (before ++ "--" :: after) items)
    (hb : "--" ∉ before) : ∃ front, items = front ++ after.map .plain ∧
      ∀ others, Items command (before ++ "--" :: others) (front ++ others.map .plain) := by
  generalize ha : before ++ "--" :: after = arguments at h
  induction h generalizing before with
  | nil => simp at ha
  | joined hword hkey _ ih =>
    obtain ⟨before, rfl, rfl⟩ := exists_before ha (by simp [hword])
    obtain ⟨front, rfl, hfront⟩ := ih (List.not_mem_of_not_mem_cons hb) rfl
    exact ⟨_ :: front, rfl, fun others => .joined hword hkey (hfront others)⟩
  | apart hword hkey hplain _ ih =>
    obtain ⟨before, rfl, hvalue⟩ := exists_before ha (by simp [hword])
    obtain ⟨before, rfl, rfl⟩ := exists_before hvalue (by simp [hplain])
    have hb' := List.not_mem_of_not_mem_cons (List.not_mem_of_not_mem_cons hb)
    obtain ⟨front, rfl, hfront⟩ := ih hb' rfl
    exact ⟨_ :: front, rfl, fun others => .apart hword hkey hplain (hfront others)⟩
  | comment hword hflag _ ih =>
    obtain ⟨before, rfl, rfl⟩ := exists_before ha (by simp [hword])
    obtain ⟨front, rfl, hfront⟩ := ih (List.not_mem_of_not_mem_cons hb) rfl
    exact ⟨_ :: front, rfl, fun others => .comment hword hflag (hfront others)⟩
  | plain hword _ ih =>
    obtain ⟨before, rfl, rfl⟩ := exists_before ha (by simp [hword])
    obtain ⟨front, rfl, hfront⟩ := ih (List.not_mem_of_not_mem_cons hb) rfl
    exact ⟨_ :: front, rfl, fun others => .plain hword (hfront others)⟩
  | escape hword =>
    cases before with
    | nil =>
      cases ha
      exact ⟨[], rfl, fun others => .escape hword⟩
    | cons first before =>
      cases ha
      exact absurd (Word.of_eq_escape_iff.mp hword ▸ List.mem_cons_self) hb

end Items

namespace Given

variable {g h front front' behind behind' : Given}

theorem commandNamed_assign {key : Key} {value : String} (ha : g.assign key value = .ok h)
    (hkey : key ≠ .space) (name : CommandName) : h.commandNamed name = g.commandNamed name := by
  obtain ⟨-, ⟨-, rfl⟩ | ⟨rfl, -⟩ | ⟨_, -, -, rfl⟩⟩ := assign_ok_iff.mp ha
  · rfl
  · exact absurd rfl hkey
  · rfl

/-- A setting counts alike in both places. -/
theorem invocation_assign {key : Key} {value : String} (hf : front.assign key value = .ok front')
    (hb : behind.assign key value = .ok behind') (hkey : key ≠ .space) (command : Command) :
    front'.invocation behind command = front.invocation behind' command := by
  obtain ⟨hset, ⟨rfl, rfl⟩ | ⟨rfl, -⟩ | ⟨_, rfl, hformat, rfl⟩⟩ := assign_ok_iff.mp hf
  all_goals obtain ⟨hset', hcases⟩ := assign_ok_iff.mp hb
  · simp_all [invocation, isSet]
  · exact absurd rfl hkey
  · simp_all [invocation, isSet]

theorem exists_commandNamed_iff {name : CommandName} :
    (∃ command, g.commandNamed name = .ok command) ↔ g.plain ≠ [] := by
  rw [← List.reverse_ne_nil_iff, commandNamed.eq_def]
  cases name <;> cases g.plain.reverse <;> simp

theorem arguments_of_commandNamed {name : CommandName} {command : Command}
    (h : g.commandNamed name = .ok command) (hroom : name = .decode → g.plain.length ≤ 1) :
    command.arguments = g.plain.reverse := by
  unfold commandNamed at h
  split at h
  · cases h
  · cases h
    rfl
  · cases h
    rfl
  · rename_i map rest hplain
    cases h
    have hlength := hroom rfl
    rw [← List.length_reverse, hplain] at hlength
    have hrest : rest = [] := by simpa using hlength
    rw [hplain, hrest]
    rfl

end Given

section Merged

variable {settings : List Setting} {name : CommandName} {post : List String} {i : Invocation}

theorem items_settings (hs : ∀ s ∈ settings, s.Readable) (command : CommandName) :
    Items command (settings.flatMap Setting.arguments) (settings.map Setting.item) := by
  induction settings with
  | nil => exact .nil
  | cons s settings ih =>
    rw [List.forall_mem_cons] at hs
    exact hs.1.items (ih hs.2)

/-- An option has the value that is found by its name. -/
theorem value?_of_items {command : CommandName} {arguments : List String} {items : List Item}
    {g : Given} (hi : Items command arguments items)
    (ht : ({} : Given).takeItems command items = .ok g) (key : Key) :
    g.value? key = valueIn? key arguments := by
  have hempty : ({} : Given).value? key = none := by cases key <;> rfl
  rw [Given.takeItems_value? rfl ht, hempty, Option.none_or, valueIn?_items hi]

/-- A setting behind the command's name counts before one in front of it. -/
theorem values_merged
    (h : parse (settings.flatMap Setting.arguments ++ name.text :: post) = .ok i) :
    i.workspace = ((valueIn? .workspace post).or
      (valueIn? .workspace (settings.flatMap Setting.arguments))).getD "." ∧
    i.format.text = ((valueIn? .output post).or
      (valueIn? .output (settings.flatMap Setting.arguments))).getD "human" := by
  obtain ⟨hs, front, items, behind, command, hf, hi, hb, -, rfl⟩ := parse_ok_iff.mp h
  have hfront := value?_of_items (items_settings hs name) hf
  have hbehind := value?_of_items hi hb
  simp only [← hfront, ← hbehind]
  constructor
  · simp [Given.invocation, Given.value?]
  · simp only [Given.invocation, Given.value?]
    cases behind.output <;> cases front.output <;> rfl

theorem setting_moved {front back : List Setting} {s : Setting}
    (h : parse ((front ++ s :: back).flatMap Setting.arguments ++ name.text :: post) = .ok i)
    (hpost : valueIn? s.key post = none) :
    parse ((front ++ back).flatMap Setting.arguments ++ name.text :: (s.arguments ++ post)) =
      .ok i := by
  obtain ⟨hs, given, items, behind, command, hf, hi, hb, hc, rfl⟩ := parse_ok_iff.mp h
  rw [List.forall_mem_append, List.forall_mem_cons] at hs
  obtain ⟨hfront, hreadable, hback⟩ := hs
  rw [List.map_append, List.map_cons] at hf
  obtain ⟨k, hk, hf⟩ := Given.takeItems_append.mp hf
  obtain ⟨k', hassign, hf⟩ := Given.takeItems_cons.mp hf
  -- without the setting, and then with it behind all others
  obtain ⟨given', hgiven', hlast⟩ :=
    (Given.takeItems_swap (Given.settled_of_takeItems rfl hk)).mpr ⟨k', hassign, hf⟩
  have hset : behind.isSet s.key = false := by
    rw [Given.isSet_eq, value?_of_items hi hb, hpost]
    rfl
  obtain ⟨behind', hbehind'⟩ := Given.exists_assign hassign hset
  obtain ⟨k'', hfirst, hrest⟩ := (Given.takeItems_swap rfl).mp ⟨behind, hb, hbehind'⟩
  refine parse_ok_iff.mpr ⟨?_, given', s.item :: items, behind', command, ?_, hreadable.items hi,
    ?_, ?_, ?_⟩
  · rw [List.forall_mem_append]
    exact ⟨hfront, hback⟩
  · rw [List.map_append]
    exact Given.takeItems_append.mpr ⟨k, hk, hgiven'⟩
  · exact Given.takeItems_cons.mpr ⟨k'', hfirst, hrest⟩
  · rw [Given.commandNamed_assign hbehind' s.common, hc]
  · exact Given.invocation_assign hlast hbehind' s.common command

theorem exists_items_of_parse
    (h : parse (settings.flatMap Setting.arguments ++ name.text :: post) = .ok i) :
    ∃ items, Items name post items ∧ i.command.arguments = items.filterMap Item.argument? ∧
      name.Takes i.command.arguments := by
  obtain ⟨-, front, items, behind, command, -, hi, hb, hc, rfl⟩ := parse_ok_iff.mp h
  obtain ⟨hplain, hroom⟩ := Given.takeItems_arguments rfl hb
  have hlength : name = .decode → behind.plain.length ≤ 1 := fun hn => hroom hn (Nat.zero_le 1)
  have hsome := Given.exists_commandNamed_iff.mp ⟨command, hc⟩
  have hcommand : (front.invocation behind command).command.arguments = behind.plain.reverse :=
    Given.arguments_of_commandNamed hc hlength
  refine ⟨items, hi, by simp [hcommand, hplain], ?_⟩
  rw [hcommand]
  refine ⟨List.reverse_ne_nil_iff.mpr hsome, fun hn => ?_⟩
  rw [List.length_reverse]
  exact hlength hn

/-- Other plain arguments behind the same items are accepted if the command takes them. -/
theorem parse_of_items {post' others : List String} {front : List Item} {after : List String}
    (h : parse (settings.flatMap Setting.arguments ++ name.text :: post) = .ok i)
    (hi : Items name post (front ++ after.map .plain))
    (hi' : Items name post' (front ++ others.map .plain))
    (htakes : name.Takes (front.filterMap Item.argument? ++ others)) :
    ∃ i', parse (settings.flatMap Setting.arguments ++ name.text :: post') = .ok i' := by
  obtain ⟨hs, given, items, behind, command, hf, hitems, hb, -, -⟩ := parse_ok_iff.mp h
  rw [hitems.unique hi] at hb
  obtain ⟨k, hk, -⟩ := Given.takeItems_append.mp hb
  obtain ⟨hplain, -⟩ := Given.takeItems_arguments rfl hk
  have hall : others.reverse ++ k.plain =
      (front.filterMap Item.argument? ++ others).reverse := by
    simp [hplain]
  obtain ⟨hsome, hroom⟩ := htakes
  have hroom' : name = .decode → (others.reverse ++ k.plain).length ≤ 1 := by
    rw [hall, List.length_reverse]
    exact hroom
  have hothers := Given.takeItems_map_plain (Given.settled_of_takeItems rfl hk) hroom'
  have hsome' : { k with plain := others.reverse ++ k.plain }.plain ≠ [] := by
    rw [hall]
    exact List.reverse_ne_nil_iff.mpr hsome
  obtain ⟨command', hc⟩ := Given.exists_commandNamed_iff.mpr hsome'
  exact ⟨_, parse_ok_iff.mpr ⟨hs, given, _, _, command', hf, hi',
    Given.takeItems_append.mpr ⟨k, hk, hothers⟩, hc, rfl⟩⟩

/-- What stands behind `--` is taken as it is and sets nothing. -/
theorem arguments_behind_escape {before after : List String}
    (h : parse (settings.flatMap Setting.arguments ++ name.text :: (before ++ "--" :: after)) =
      .ok i) (hb : "--" ∉ before) : ∃ plain, i.command.arguments = plain ++ after ∧ ∀ others,
      ((∃ i', parse (settings.flatMap Setting.arguments ++
        name.text :: (before ++ "--" :: others)) = .ok i') ↔ name.Takes (plain ++ others)) ∧
      ∀ i', parse (settings.flatMap Setting.arguments ++
        name.text :: (before ++ "--" :: others)) = .ok i' →
        i'.command.arguments = plain ++ others ∧ i'.workspace = i.workspace ∧
          i'.format = i.format := by
  obtain ⟨items, hi, harguments, -⟩ := exists_items_of_parse h
  obtain ⟨front, rfl, hfront⟩ := hi.split hb
  have hplain : ∀ others : List String, (front ++ others.map Item.plain).filterMap Item.argument? =
      front.filterMap Item.argument? ++ others := by
    simp [Item.argument?, Function.comp_def]
  rw [hplain] at harguments
  refine ⟨front.filterMap Item.argument?, harguments, fun others => ?_⟩
  have hothers : ∀ i', parse (settings.flatMap Setting.arguments ++
      name.text :: (before ++ "--" :: others)) = .ok i' →
      i'.command.arguments = front.filterMap Item.argument? ++ others ∧
        name.Takes i'.command.arguments := by
    intro i' h'
    obtain ⟨items', hi', harguments', htakes⟩ := exists_items_of_parse h'
    rw [hi'.unique (hfront others), hplain] at harguments'
    exact ⟨harguments', htakes⟩
  refine ⟨⟨?_, parse_of_items h hi (hfront others)⟩, fun i' h' => ?_⟩
  · rintro ⟨i', h'⟩
    obtain ⟨harguments', htakes⟩ := hothers i' h'
    rwa [harguments'] at htakes
  · obtain ⟨hworkspace, hformat⟩ := values_merged h
    obtain ⟨hworkspace', hformat'⟩ := values_merged h'
    rw [valueIn?_behind_escape before others after] at hworkspace' hformat'
    exact ⟨(hothers i' h').1, hworkspace'.trans hworkspace.symm,
      Format.text_injective (hformat'.trans hformat.symm)⟩

/-- The workspace and the output format are what is given behind the command's name in front of
`--`, else what is given in front of the name, else the defaults. A setting that is not given behind
the name may be moved there, and what stands behind `--` is taken as it is and sets nothing. -/
theorem merged_settings
    (h : parse (settings.flatMap Setting.arguments ++ name.text :: post) = .ok i) :
    i.workspace = ((valueIn? .workspace post).or
      (valueIn? .workspace (settings.flatMap Setting.arguments))).getD "." ∧
    i.format.text = ((valueIn? .output post).or
      (valueIn? .output (settings.flatMap Setting.arguments))).getD "human" ∧
    (∀ front s back, settings = front ++ s :: back → valueIn? s.key post = none →
      parse ((front ++ back).flatMap Setting.arguments ++ name.text :: (s.arguments ++ post)) =
        .ok i) ∧
    ∀ before after, post = before ++ "--" :: after → "--" ∉ before →
      ∃ plain, i.command.arguments = plain ++ after ∧ ∀ others,
        ((∃ i', parse (settings.flatMap Setting.arguments ++
          name.text :: (before ++ "--" :: others)) = .ok i') ↔ name.Takes (plain ++ others)) ∧
        ∀ i', parse (settings.flatMap Setting.arguments ++
          name.text :: (before ++ "--" :: others)) = .ok i' →
          i'.command.arguments = plain ++ others ∧ i'.workspace = i.workspace ∧
            i'.format = i.format := by
  obtain ⟨hworkspace, hformat⟩ := values_merged h
  refine ⟨hworkspace, hformat, ?_, ?_⟩
  · rintro front s back rfl hpost
    exact setting_moved h hpost
  · rintro before after rfl hb
    exact arguments_behind_escape h hb

/-- A workspace named like a command, a format that is given twice, and options behind `--`. -/
theorem merged_settings_interleaved :
    parse (["--workspace", "tag", "--output=json"] ++ "encode" ::
      (["a.json", "--output", "human", "--comment"] ++ "--" :: ["--output", "xml"])) =
      .ok ⟨"tag", .human, .encode ["a.json", "--output", "xml"] true⟩ ∧
    parse (["--output=json"] ++ "encode" :: (["--workspace", "tag"] ++
      (["a.json", "--output", "human", "--comment"] ++ "--" :: ["--output", "xml"]))) =
      .ok ⟨"tag", .human, .encode ["a.json", "--output", "xml"] true⟩ ∧
    ∃ plain, ["a.json", "--output", "xml"] = plain ++ ["--output", "xml"] ∧ ∃ i',
      parse (["--workspace", "tag", "--output=json"] ++ "encode" ::
        (["a.json", "--output", "human", "--comment"] ++ "--" :: ["--version"])) = .ok i' ∧
      i'.command.arguments = plain ++ ["--version"] ∧ i'.workspace = "tag" ∧
        i'.format = .human := by
  let directory : Setting := ⟨.workspace, "tag", false, by decide⟩
  let output : Setting := ⟨.output, "json", true, by decide⟩
  have haccepted : parse ([directory, output].flatMap Setting.arguments ++
      CommandName.encode.text :: (["a.json", "--output", "human", "--comment"] ++
        "--" :: ["--output", "xml"])) =
      .ok ⟨"tag", .human, .encode ["a.json", "--output", "xml"] true⟩ := by
    decide
  obtain ⟨-, -, hmoved, hescaped⟩ := merged_settings haccepted
  obtain ⟨plain, hplain, hothers⟩ := hescaped _ _ rfl (by decide)
  obtain ⟨htakes, hkept⟩ := hothers ["--version"]
  obtain ⟨i', h'⟩ := htakes.mpr ⟨by simp, fun hn => by cases hn⟩
  exact ⟨haccepted, hmoved [] directory [output] rfl (by decide), plain, hplain, i', h',
    hkept i' h'⟩

end Merged

end Templating.CommandLine
