import Mathlib.Data.List.Forall2
import Mathlib.Data.List.Induction
import Mathlib.Data.List.Perm.Basic
import Mathlib.Tactic.Common
import Chip8.Command.Arguments
import Chip8.Proofs.Numerals

/-!
The grammar of the arguments, and the parser that accepts exactly it.

The options of a run come in groups: the word of an option and, for all options but one, the
argument that is its value. A group that is well formed says one setting, and a run gets from its
groups what the last one of each option says. Arguments without such a reading have a first group
from the left that is not well formed, and it is the one that is reported.

* `Setting.Tells`: the groups, and what they say;
* `RunOptions.ofSettings`: what settings amount to, option by option;
* `Malformed`, `Rejected`: the arguments that make no request, and the error that each of them is;
* `Request.parse_accepts_grammar`: requests and errors, reordering, and rendering.
-/

namespace Chip8

open Numeral (Denotes)

/-! ### Settings and groups -/

/-- What a group of arguments says about a run. -/
inductive Setting where
  | frames (n : Nat)
  | key (k : Key)
  | seed (s : UInt64)
  | fast
  deriving DecidableEq, Repr

namespace Setting

/-- The word that a group with this setting starts with. -/
def word : Setting → String
  | frames _ => "--frames"
  | key _ => "--key"
  | seed _ => "--seed"
  | fast => "--fast"

/-- The frame count that a setting gives. -/
def frames? : Setting → Option Nat
  | frames n => some n
  | _ => none

/-- The key that a setting holds down. -/
def key? : Setting → Option Key
  | key k => some k
  | _ => none

/-- The seed that a setting gives. -/
def seed? : Setting → Option UInt64
  | seed s => some s
  | _ => none

/-- A well-formed group of arguments says a setting: a frame count or a seed as a decimal numeral of
a value below 2⁶⁴, a key as a hexadecimal numeral of a value below sixteen. -/
def Tells (group : List String) : Setting → Prop
  | frames n => ∃ text, group = ["--frames", text] ∧ Denotes 10 text n ∧ n < 2 ^ 64
  | key k => ∃ text, group = ["--key", text] ∧ Denotes 16 text k.code.val
  | seed s => ∃ text, group = ["--seed", text] ∧ Denotes 10 text s.toNat
  | fast => group = ["--fast"]

/-- Sets what a setting is about. -/
def apply (options : RunOptions) : Setting → RunOptions
  | frames n => { options with frames := n }
  | key k => { options with key := some k }
  | seed s => { options with seed := some s }
  | fast => { options with fast := true }

/-- A plain way to write a setting. -/
def words : Setting → List String
  | frames n => ["--frames", toString n]
  | key k => ["--key", String.ofList (Nat.toDigits 16 k.code.val)]
  | seed s => ["--seed", toString s.toNat]
  | fast => ["--fast"]

lemma Tells.head {group : List String} {s : Setting} (h : Tells group s) :
    group.head? = some s.word := by
  cases s with
  | fast => rw [show group = ["--fast"] from h]; rfl
  | _ => obtain ⟨text, rfl, -⟩ := h; rfl

lemma tells_words {s : Setting} (h : ∀ n, s = frames n → n < 2 ^ 64) : Tells s.words s := by
  cases s with
  | frames n => exact ⟨_, rfl, Numeral.denotes_toString n, h n rfl⟩
  | key k => exact ⟨_, rfl, Numeral.denotes_toDigits (by decide) k.code.val⟩
  | seed s => exact ⟨_, rfl, Numeral.denotes_toString s.toNat⟩
  | fast => rfl

end Setting

open Setting (Tells)

namespace RunOptions

/-- The options that settings amount to: each option is what its last setting says, and as it is by
default where there is none. -/
def ofSettings (settings : List Setting) : RunOptions where
  frames := (settings.filterMap Setting.frames?).getLast?.getD 600
  key := (settings.filterMap Setting.key?).getLast?
  seed := (settings.filterMap Setting.seed?).getLast?
  fast := decide (.fast ∈ settings)

/-- Setting one after the other leaves the last setting of each option. -/
lemma foldl_apply (settings : List Setting) :
    settings.foldl Setting.apply {} = ofSettings settings := by
  induction settings using List.reverseRecOn with
  | nil => rfl
  | append_singleton settings last ih =>
    rw [List.foldl_append, ih]
    cases last <;>
      simp [Setting.apply, ofSettings, Setting.frames?, Setting.key?, Setting.seed?]

/-- What is picked from settings is picked from those with the word that it comes with. -/
lemma filterMap_eq_of_word {α : Type} {pick : Setting → Option α} {word : String}
    (hword : ∀ s, pick s ≠ none → s.word = word) (settings : List Setting) :
    settings.filterMap pick = (settings.filter (·.word = word)).filterMap pick := by
  rw [List.filterMap_filter]
  refine List.filterMap_congr fun s _ => ?_
  by_cases hs : s.word = word
  · simp [hs]
  · have hnone : pick s = none := not_not.1 fun hsome => hs (hword s hsome)
    simp [hs, hnone]

/-- Only the settings with its word count for an option. -/
lemma ofSettings_congr {settings settings' : List Setting}
    (h : ∀ word, settings.filter (·.word = word) = settings'.filter (·.word = word)) :
    ofSettings settings = ofSettings settings' := by
  have hpick {α : Type} {pick : Setting → Option α} {word : String}
      (hword : ∀ s, pick s ≠ none → s.word = word) :
      settings.filterMap pick = settings'.filterMap pick := by
    rw [filterMap_eq_of_word hword, h, ← filterMap_eq_of_word hword]
  have hframes : ∀ s, Setting.frames? s ≠ none → s.word = "--frames" := fun s hs => by
    cases s <;> first | rfl | exact absurd rfl hs
  have hkey : ∀ s, Setting.key? s ≠ none → s.word = "--key" := fun s hs => by
    cases s <;> first | rfl | exact absurd rfl hs
  have hseed : ∀ s, Setting.seed? s ≠ none → s.word = "--seed" := fun s hs => by
    cases s <;> first | rfl | exact absurd rfl hs
  have hfast (settings : List Setting) :
      .fast ∈ settings ↔ Setting.fast ∈ settings.filter (·.word = "--fast") := by
    simp [Setting.word]
  simp only [ofSettings, hpick hframes, hpick hkey, hpick hseed, hfast settings, hfast settings',
    h]

/-- The settings of the options other than the frame count. -/
def flags (o : RunOptions) : List Setting :=
  o.key.toList.map .key ++ o.seed.toList.map .seed ++ if o.fast then [.fast] else []

/-- One setting for everything that options say. -/
def settings (o : RunOptions) : List Setting :=
  .frames o.frames :: o.flags

lemma filterMap_flags (o : RunOptions) :
    o.flags.filterMap Setting.frames? = [] ∧ o.flags.filterMap Setting.key? = o.key.toList ∧
      o.flags.filterMap Setting.seed? = o.seed.toList ∧ (.fast ∈ o.flags ↔ o.fast = true) := by
  obtain ⟨frames, key, seed, fast⟩ := o
  cases key <;> cases seed <;> cases fast <;>
    exact ⟨rfl, rfl, rfl, by simp [flags]⟩

lemma getLast?_of_perm {α : Type} {l : List α} {said : Option α} (h : l.Perm said.toList) :
    l.getLast? = said := by
  cases said with
  | none => rw [List.perm_nil.1 h]; rfl
  | some v => rw [List.perm_singleton.1 h]; rfl

/-- The settings of options amount to them, in any order, and a frame count that is the default may
be left out. -/
lemma ofSettings_of_perm {o : RunOptions} {settings : List Setting}
    (h : settings.Perm o.settings ∨ o.frames = 600 ∧ settings.Perm o.flags) :
    ofSettings settings = o := by
  obtain ⟨hframes, hkey, hseed, hfast⟩ := o.filterMap_flags
  have hperm {α : Type} (pick : Setting → Option α) (hskip : pick (.frames o.frames) = none) :
      (settings.filterMap pick).Perm (o.flags.filterMap pick) := by
    rcases h with h | ⟨-, h⟩
    · have := h.filterMap pick
      rwa [RunOptions.settings, List.filterMap_cons_none hskip] at this
    · exact h.filterMap pick
  -- the number of frames may be left unsaid only where it is the default
  have hcount : (settings.filterMap Setting.frames?).getLast?.getD 600 = o.frames := by
    rcases h with h | ⟨hdefault, h⟩
    · have hsaid : (settings.filterMap Setting.frames?).Perm (some o.frames).toList := by
        simpa [RunOptions.settings, Setting.frames?, hframes] using h.filterMap Setting.frames?
      rw [getLast?_of_perm hsaid, Option.getD_some]
    · have hsaid : (settings.filterMap Setting.frames?).Perm (none : Option Nat).toList :=
        by simpa [hframes] using h.filterMap Setting.frames?
      rw [getLast?_of_perm hsaid, hdefault, Option.getD_none]
  have hmem : .fast ∈ settings ↔ o.fast = true := by
    rcases h with h | ⟨-, h⟩
    · rw [h.mem_iff, RunOptions.settings, List.mem_cons, ← hfast]
      simp
    · rw [h.mem_iff, hfast]
  rw [ofSettings, hcount, getLast?_of_perm (hkey ▸ hperm Setting.key? rfl),
    getLast?_of_perm (hseed ▸ hperm Setting.seed? rfl)]
  simp only [hmem, Bool.decide_eq_true]

end RunOptions

/-! ### Values -/

namespace ValueOption

/-- The base of the numerals of an option. -/
def base : ValueOption → Nat
  | key => 16
  | _ => 10

/-- The numbers that an option takes stay below this one. -/
def limit : ValueOption → Nat
  | key => 16
  | _ => 2 ^ 64

/-- What an option says with a number. -/
def setting (n : Nat) : ValueOption → Setting
  | frames => .frames n
  | key => .key ⟨n % 16, Nat.mod_lt n (Nat.succ_pos 15)⟩
  | seed => .seed (UInt64.ofNat n)

/-- The error that a value of an option is when it is not one. -/
def invalid (value : String) : ValueOption → UsageError
  | frames => .invalidFrames value
  | key => .invalidKey value
  | seed => .invalidSeed value

lemma base_le (option : ValueOption) : option.base ≤ 16 := by
  cases option <;> decide

/-- The groups of an option are those whose value is a numeral that it takes. -/
lemma tells_iff (option : ValueOption) {value : String} {s : Setting} :
    Tells [option.name, value] s ↔
      ∃ n < option.limit, Denotes option.base value n ∧ s = option.setting n := by
  constructor
  · intro h
    have hword : option.name = s.word := Option.some.inj h.head
    -- the first word decides which option it is, so three of the pairs are left
    cases option <;> cases s <;> simp [name, Setting.word] at hword
    case frames.frames n =>
      obtain ⟨text, heq, hn, hlt⟩ := h
      cases heq
      exact ⟨n, hlt, hn, rfl⟩
    case key.key k =>
      obtain ⟨text, heq, hk⟩ := h
      cases heq
      have hcode : k.code.val % 16 = k.code.val := Nat.mod_eq_of_lt k.code.isLt
      exact ⟨k.code.val, k.code.isLt, hk, congrArg _ (congrArg Key.mk (Fin.ext hcode.symm))⟩
    case seed.seed s =>
      obtain ⟨text, heq, hs⟩ := h
      cases heq
      exact ⟨s.toNat, s.toNat_lt, hs, congrArg _ UInt64.ofNat_toNat.symm⟩
  · rintro ⟨n, hlt, hn, rfl⟩
    cases option with
    | frames => exact ⟨value, rfl, hn, hlt⟩
    | key =>
      refine ⟨value, rfl, ?_⟩
      show Denotes 16 value (n % 16)
      rwa [show n % 16 = n from Nat.mod_eq_of_lt hlt]
    | seed => exact ⟨value, rfl, by rwa [UInt64.toNat_ofNat_of_lt' hlt]⟩

/-- A group of an option says what its value is read as. -/
lemma tells_iff_read (option : ValueOption) {value : String} {s : Setting} :
    Tells [option.name, value] s ↔
      ∃ n, Numeral.parse? option.base option.limit value = some n ∧ s = option.setting n := by
  rw [tells_iff]
  refine exists_congr fun n => ?_
  rw [Numeral.parse?_eq_some_iff option.base_le]
  tauto

lemma apply_eq (option : ValueOption) (o : RunOptions) (value : String) :
    option.apply o value = (Numeral.parse? option.base option.limit value).elim
      (.error (option.invalid value)) fun n => .ok ((option.setting n).apply o) := by
  cases option with
  | frames =>
    show (readFrames value).map _ = _
    rw [readFrames]
    show _ = (Numeral.parse? 10 countLimit value).elim _ _
    cases Numeral.parse? 10 countLimit value <;> rfl
  | key =>
    show (readKey value).map _ = _
    rw [readKey]
    show _ = (Numeral.parse? 16 16 value).elim _ _
    cases hread : Numeral.parse? 16 16 value with
    | none => rfl
    | some n =>
      have hlt : n < 16 := ((Numeral.parse?_eq_some_iff (by decide)).1 hread).2
      -- the parser of keys goes through a byte, which a numeral below 16 survives
      have hcode : UInt8.ofNat n = Key.toByte ⟨n % 16, Nat.mod_lt n (Nat.succ_pos 15)⟩ :=
        congrArg UInt8.ofNat (Nat.mod_eq_of_lt hlt).symm
      rw [Option.elim_some, Option.elim_some, hcode, Key.ofCode_toByte]
      rfl
  | seed =>
    show (readSeed value).map _ = _
    rw [readSeed]
    show _ = (Numeral.parse? 10 countLimit value).elim _ _
    cases Numeral.parse? 10 countLimit value <;> rfl

lemma apply_of_tells {option : ValueOption} {value : String} {s : Setting}
    (h : Tells [option.name, value] s) (o : RunOptions) :
    option.apply o value = .ok (s.apply o) := by
  obtain ⟨n, hn, rfl⟩ := option.tells_iff_read.1 h
  rw [apply_eq, hn, Option.elim_some]

lemma apply_of_not_tells {option : ValueOption} {value : String}
    (h : ¬ ∃ s, Tells [option.name, value] s) (o : RunOptions) :
    option.apply o value = .error (option.invalid value) := by
  have hnone : Numeral.parse? option.base option.limit value = none :=
    Option.eq_none_iff_forall_ne_some.2 fun n hn => h ⟨_, option.tells_iff_read.2 ⟨n, hn, rfl⟩⟩
  rw [apply_eq, hnone, Option.elim_none]

lemma ofName?_name (option : ValueOption) : ofName? option.name = some option := by
  cases option <;> decide

lemma name_of_ofName? {word : String} {option : ValueOption} (h : ofName? word = some option) :
    option.name = word := by
  have := List.find?_some h
  simpa using this

lemma name_ne_fastName (option : ValueOption) : option.name ≠ fastName := by
  cases option <;> decide

end ValueOption

/-- A well-formed group is the one without a value or that of an option with one. -/
lemma Setting.Tells.shape {group : List String} {s : Setting} (h : Tells group s) :
    (group = [fastName] ∧ s = .fast) ∨ ∃ (option : ValueOption) (value : String),
      group = [option.name, value] := by
  cases s with
  | frames n => obtain ⟨text, rfl, -⟩ := h; exact .inr ⟨.frames, text, rfl⟩
  | key k => obtain ⟨text, rfl, -⟩ := h; exact .inr ⟨.key, text, rfl⟩
  | seed s => obtain ⟨text, rfl, -⟩ := h; exact .inr ⟨.seed, text, rfl⟩
  | fast => exact .inl ⟨h, rfl⟩

lemma Setting.Tells.unique {group : List String} {s s' : Setting} (h : Tells group s)
    (h' : Tells group s') : s = s' := by
  rcases h.shape with ⟨rfl, rfl⟩ | ⟨option, value, rfl⟩
  · rcases h'.shape with ⟨-, rfl⟩ | ⟨option, value, hgroup⟩
    · rfl
    · simp at hgroup
  · obtain ⟨n, hn, rfl⟩ := option.tells_iff_read.1 h
    obtain ⟨n', hn', rfl⟩ := option.tells_iff_read.1 h'
    rw [Option.some.inj (hn.symm.trans hn')]

/-! ### Options -/

/-- The first group of the arguments is not well formed, whatever follows it, and this is the error
that it is. -/
inductive Malformed : List String → UsageError → Prop where
  | unknownOption {word : String} {rest : List String} :
      word ∉ ["--frames", "--key", "--seed", "--fast"] →
      Malformed (word :: rest) (.unknownOption word)
  | missingValue (option : ValueOption) : Malformed [option.name] (.missingValue option.name)
  | invalidValue {option : ValueOption} {value : String} {rest : List String} :
      (¬ ∃ s, Tells [option.name, value] s) →
      Malformed (option.name :: value :: rest) (option.invalid value)

namespace RunOptions

lemma parse_unknown {word : String} (hfast : word ≠ fastName)
    (hnone : ValueOption.ofName? word = none) (o : RunOptions) (rest : List String) :
    o.parse (word :: rest) = .error (.unknownOption word) := by
  rw [parse, if_neg hfast, hnone]

lemma parse_value (option : ValueOption) (o : RunOptions) (value : String) (rest : List String) :
    o.parse (option.name :: value :: rest) =
      (option.apply o value).bind fun options => options.parse rest := by
  rw [parse, if_neg option.name_ne_fastName, option.ofName?_name]
  cases hvalue : option.apply o value <;> simp only [hvalue] <;> rfl

lemma parse_group {group : List String} {s : Setting} (h : Tells group s) (o : RunOptions)
    (rest : List String) : o.parse (group ++ rest) = (s.apply o).parse rest := by
  rcases h.shape with ⟨rfl, rfl⟩ | ⟨option, value, rfl⟩
  · show o.parse (fastName :: rest) = _
    rw [parse, if_pos rfl]
    rfl
  · show o.parse (option.name :: value :: rest) = _
    rw [parse_value, ValueOption.apply_of_tells h]
    rfl

/-- **Well-formed groups are read from the left**, before whatever follows them. -/
theorem parse_groups {groups : List (List String)} {settings : List Setting}
    (h : List.Forall₂ Tells groups settings) (o : RunOptions) (rest : List String) :
    o.parse (groups.flatten ++ rest) = (settings.foldl Setting.apply o).parse rest := by
  induction h generalizing o with
  | nil => rfl
  | cons hgroup _ ih =>
    rw [List.flatten_cons, List.append_assoc, parse_group hgroup, ih, List.foldl_cons]

lemma parse_malformed {arguments : List String} {e : UsageError} (h : Malformed arguments e)
    (o : RunOptions) : o.parse arguments = .error e := by
  cases h with
  | unknownOption hword =>
    refine parse_unknown (fun hfast => hword (by simp [hfast, fastName])) ?_ o _
    refine Option.eq_none_iff_forall_ne_some.2 fun option hoption => hword ?_
    rw [← ValueOption.name_of_ofName? hoption]
    cases option <;> decide
  | missingValue option =>
    rw [parse, if_neg option.name_ne_fastName, option.ofName?_name]
  | invalidValue hvalue =>
    rw [parse_value, ValueOption.apply_of_not_tells hvalue]
    rfl

/-- Arguments start with a well-formed group or with one that is not. -/
lemma exists_group (word : String) (arguments : List String) :
    (∃ group s rest, Tells group s ∧ word :: arguments = group ++ rest ∧
      rest.length ≤ arguments.length) ∨ ∃ e, Malformed (word :: arguments) e := by
  by_cases hfast : word = "--fast"
  · exact .inl ⟨["--fast"], .fast, arguments, rfl, by rw [hfast]; rfl, le_rfl⟩
  by_cases hword : ∃ option : ValueOption, word = option.name
  · obtain ⟨option, rfl⟩ := hword
    cases arguments with
    | nil => exact .inr ⟨_, .missingValue option⟩
    | cons value rest =>
      by_cases hvalue : ∃ s, Tells [option.name, value] s
      · obtain ⟨s, hs⟩ := hvalue
        exact .inl ⟨_, s, rest, hs, rfl, Nat.le_succ _⟩
      · exact .inr ⟨_, .invalidValue hvalue⟩
  · refine .inr ⟨_, .unknownOption fun hmem => ?_⟩
    simp only [List.mem_cons, List.not_mem_nil, or_false, hfast] at hmem
    rcases hmem with rfl | rfl | rfl
    · exact hword ⟨.frames, rfl⟩
    · exact hword ⟨.key, rfl⟩
    · exact hword ⟨.seed, rfl⟩

/-- **Arguments are well-formed groups up to the first one that is not.** -/
theorem exists_groups (arguments : List String) :
    ∃ groups settings rest, List.Forall₂ Tells groups settings ∧
      arguments = groups.flatten ++ rest ∧ (rest = [] ∨ ∃ e, Malformed rest e) := by
  induction hlength : arguments.length using Nat.strong_induction_on generalizing arguments with
  | _ n ih =>
    subst hlength
    cases arguments with
    | nil => exact ⟨[], [], [], .nil, rfl, .inl rfl⟩
    | cons word arguments =>
      rcases exists_group word arguments with ⟨group, s, rest, hs, heq, hle⟩ | hmalformed
      · obtain ⟨groups, settings, tail, hgroups, rfl, htail⟩ :=
          ih rest.length (Nat.lt_succ_of_le hle) rest rfl
        refine ⟨group :: groups, s :: settings, tail, .cons hs hgroups, ?_, htail⟩
        rw [heq, List.flatten_cons, List.append_assoc]
      · exact ⟨[], [], _, .nil, rfl, .inr hmalformed⟩

/-- Arguments that are well-formed groups are read as what their settings amount to. -/
lemma parse_flatten {groups : List (List String)} {settings : List Setting}
    (h : List.Forall₂ Tells groups settings) :
    parse {} groups.flatten = .ok (ofSettings settings) := by
  have := parse_groups h {} []
  rwa [List.append_nil, foldl_apply] at this

/-- Arguments are refused for their first group that is not well formed. -/
lemma parse_flatten_malformed {groups : List (List String)} {settings : List Setting}
    (h : List.Forall₂ Tells groups settings) {rest : List String} {e : UsageError}
    (hrest : Malformed rest e) : parse {} (groups.flatten ++ rest) = .error e := by
  rw [parse_groups h, parse_malformed hrest]

end RunOptions

/-! ### Reordering -/

lemma exists_settings {groups : List (List String)} (h : ∀ group ∈ groups, ∃ s, Tells group s) :
    ∃ settings, List.Forall₂ Tells groups settings := by
  induction groups with
  | nil => exact ⟨[], .nil⟩
  | cons group groups ih =>
    obtain ⟨s, hs⟩ := h group List.mem_cons_self
    obtain ⟨settings, hsettings⟩ := ih fun g hg => h g (List.mem_cons_of_mem group hg)
    exact ⟨s :: settings, .cons hs hsettings⟩

/-- The groups that start with a word say the settings of this word. -/
lemma forall₂_filter {groups : List (List String)} {settings : List Setting}
    (h : List.Forall₂ Tells groups settings) (word : String) :
    List.Forall₂ Tells (groups.filter (·.head? = some word))
      (settings.filter (·.word = word)) :=
  List.rel_filter (fun _ _ hs => by simp [hs.head]) h

/-- Groups that agree, option by option, have settings that amount to the same. -/
lemma ofSettings_eq_of_filter {groups groups' : List (List String)}
    {settings settings' : List Setting} (h : List.Forall₂ Tells groups settings)
    (h' : List.Forall₂ Tells groups' settings')
    (hwords : ∀ word,
      groups.filter (·.head? = some word) = groups'.filter (·.head? = some word)) :
    RunOptions.ofSettings settings = RunOptions.ofSettings settings' := by
  refine RunOptions.ofSettings_congr fun word => ?_
  have hleft := forall₂_filter h word
  rw [hwords word] at hleft
  exact List.right_unique_forall₂' (fun _ _ _ hs hs' => hs.unique hs') hleft
    (forall₂_filter h' word)

namespace Request

/-! ### Requests -/

/-- The arguments make no request, and this is the error that they are. -/
inductive Rejected : List String → UsageError → Prop where
  | missingCommand : Rejected [] .missingCommand
  | unknownCommand {command : String} {rest : List String} :
      command ≠ "run" → command ≠ "dis" → Rejected (command :: rest) (.unknownCommand command)
  | missingFile {command : String} :
      command = "run" ∨ command = "dis" → Rejected [command] (.missingValue "FILE")
  | malformed {file : String} {groups : List (List String)} {settings : List Setting}
      {rest : List String} {e : UsageError} :
      List.Forall₂ Tells groups settings → Malformed rest e →
      Rejected ("run" :: file :: (groups.flatten ++ rest)) e

lemma parse_run (file : String) (arguments : List String) :
    Request.parse ("run" :: file :: arguments) =
      (RunOptions.parse {} arguments).map (.run file) := by
  rw [Request.parse, if_pos rfl]

lemma parse_dis (file : String) (arguments : List String) :
    Request.parse ("dis" :: file :: arguments) = .ok (.list file) := by
  rw [Request.parse, if_neg (by decide), if_pos rfl]

lemma parse_rejected {arguments : List String} {e : UsageError} (h : Rejected arguments e) :
    Request.parse arguments = .error e := by
  cases h with
  | missingCommand => rfl
  | unknownCommand hrun hdis => simp only [Request.parse, if_neg hrun, if_neg hdis]
  | missingFile hcommand =>
    rcases hcommand with rfl | rfl
    · rw [Request.parse, if_pos rfl]
    · rw [Request.parse, if_neg (by decide), if_pos rfl]
  | malformed hgroups hrest =>
    rw [parse_run, RunOptions.parse_flatten_malformed hgroups hrest]
    rfl

lemma parse_run_flatten (file : String) {groups : List (List String)} {settings : List Setting}
    (h : List.Forall₂ Tells groups settings) :
    Request.parse ("run" :: file :: groups.flatten) = .ok (.run file (.ofSettings settings)) := by
  rw [parse_run, RunOptions.parse_flatten h]
  rfl

/-- **Arguments are rejected, ask for a run or ask for a listing.** -/
theorem rejected_or_reading (arguments : List String) :
    (∃ e, Rejected arguments e) ∨
      (∃ file groups settings, List.Forall₂ Tells groups settings ∧
        arguments = "run" :: file :: groups.flatten) ∨
      ∃ file rest, arguments = "dis" :: file :: rest := by
  -- along the arguments, as far as the parser looks at them
  cases arguments with
  | nil => exact .inl ⟨_, .missingCommand⟩
  | cons command arguments =>
    by_cases hcommand : command = "run" ∨ command = "dis"
    · cases arguments with
      | nil => exact .inl ⟨_, .missingFile hcommand⟩
      | cons file arguments =>
        rcases hcommand with rfl | rfl
        · obtain ⟨groups, settings, rest, hgroups, rfl, rfl | ⟨e, he⟩⟩ :=
            RunOptions.exists_groups arguments
          · rw [List.append_nil]
            exact .inr (.inl ⟨file, groups, settings, hgroups, rfl⟩)
          · exact .inl ⟨e, .malformed hgroups he⟩
        · exact .inr (.inr ⟨file, arguments, rfl⟩)
    · rw [not_or] at hcommand
      exact .inl ⟨_, .unknownCommand hcommand.1 hcommand.2⟩

/-- **The arguments that ask for a run.** -/
theorem parse_eq_run_iff {arguments : List String} {file : String} {o : RunOptions} :
    Request.parse arguments = .ok (.run file o) ↔
      ∃ groups settings, List.Forall₂ Tells groups settings ∧
        arguments = "run" :: file :: groups.flatten ∧ o = .ofSettings settings := by
  constructor
  · intro h
    rcases rejected_or_reading arguments with ⟨e, he⟩ | ⟨_, groups, settings, hgroups, rfl⟩ |
      ⟨_, rest, rfl⟩
    · rw [parse_rejected he] at h
      cases h
    · rw [parse_run_flatten _ hgroups] at h
      cases h
      exact ⟨groups, settings, hgroups, rfl, rfl⟩
    · rw [parse_dis] at h
      cases h
  · rintro ⟨groups, settings, hgroups, rfl, rfl⟩
    exact parse_run_flatten file hgroups

/-- **The arguments that ask for a listing.** -/
theorem parse_eq_list_iff {arguments : List String} {file : String} :
    Request.parse arguments = .ok (.list file) ↔ ∃ rest, arguments = "dis" :: file :: rest := by
  constructor
  · intro h
    rcases rejected_or_reading arguments with ⟨e, he⟩ | ⟨_, groups, settings, hgroups, rfl⟩ |
      ⟨_, rest, rfl⟩
    · rw [parse_rejected he] at h
      cases h
    · rw [parse_run_flatten _ hgroups] at h
      cases h
    · rw [parse_dis] at h
      cases h
      exact ⟨rest, rfl⟩
  · rintro ⟨rest, rfl⟩
    exact parse_dis file rest

/-- **The arguments that ask for nothing, and their errors.** -/
theorem parse_eq_error_iff {arguments : List String} {e : UsageError} :
    Request.parse arguments = .error e ↔ Rejected arguments e := by
  constructor
  · intro h
    rcases rejected_or_reading arguments with ⟨e', he⟩ | ⟨_, groups, settings, hgroups, rfl⟩ |
      ⟨_, rest, rfl⟩
    · rw [parse_rejected he] at h
      cases h
      exact he
    · rw [parse_run_flatten _ hgroups] at h
      cases h
    · rw [parse_dis] at h
      cases h
  · exact parse_rejected

/-- Groups that agree, option by option, are read alike, whatever follows them. -/
lemma parse_reordered (file : String) {groups groups' : List (List String)}
    (hgroups : ∀ group ∈ groups, ∃ s, Tells group s) (hperm : groups.Perm groups')
    (hwords : ∀ word,
      groups.filter (·.head? = some word) = groups'.filter (·.head? = some word))
    (rest : List String) :
    Request.parse ("run" :: file :: (groups.flatten ++ rest)) =
      Request.parse ("run" :: file :: (groups'.flatten ++ rest)) := by
  -- the last setting of every word decides, so only the order among equal words counts
  obtain ⟨settings, hsettings⟩ := exists_settings hgroups
  obtain ⟨settings', hsettings'⟩ :=
    exists_settings fun group hgroup => hgroups group (hperm.mem_iff.2 hgroup)
  rw [parse_run, parse_run, RunOptions.parse_groups hsettings, RunOptions.parse_groups hsettings',
    RunOptions.foldl_apply, RunOptions.foldl_apply,
    ofSettings_eq_of_filter hsettings hsettings' hwords]

lemma tells_settings {o : RunOptions} (h : o.frames < 2 ^ 64) :
    List.Forall₂ Tells (o.settings.map Setting.words) o.settings := by
  rw [List.forall₂_map_left_iff, List.forall₂_same]
  intro s hs
  refine Setting.tells_words fun n hn => ?_
  subst hn
  rcases List.mem_cons.1 hs with hframes | hflag
  · cases hframes
    exact h
  · have hpick : n ∈ o.flags.filterMap Setting.frames? :=
      List.mem_filterMap.2 ⟨_, hflag, rfl⟩
    rw [o.filterMap_flags.1] at hpick
    exact absurd hpick List.not_mem_nil

/-- **The parser accepts exactly its grammar.** Arguments ask for a run exactly if they are `run`, a
file and well-formed groups, and the run has what the last group of each option says; they ask for a
listing exactly if they start with `dis` and a file; all others are rejected for the first thing
that is wrong with them. Groups of different options may change places, and options that are
written as groups, in any order, are read as these options. -/
theorem parse_accepts_grammar :
    (∀ arguments file o, Request.parse arguments = .ok (.run file o) ↔
      ∃ groups settings, List.Forall₂ Tells groups settings ∧
        arguments = "run" :: file :: groups.flatten ∧ o = .ofSettings settings) ∧
    (∀ arguments file, Request.parse arguments = .ok (.list file) ↔
      ∃ rest, arguments = "dis" :: file :: rest) ∧
    (∀ arguments e, Request.parse arguments = .error e ↔ Rejected arguments e) ∧
    (∀ file (groups groups' : List (List String)) rest,
      (∀ group ∈ groups, ∃ s, Tells group s) → groups.Perm groups' →
      (∀ word, groups.filter (·.head? = some word) = groups'.filter (·.head? = some word)) →
      Request.parse ("run" :: file :: (groups.flatten ++ rest)) =
        Request.parse ("run" :: file :: (groups'.flatten ++ rest))) ∧
    (∀ o : RunOptions, o.frames < 2 ^ 64 →
      List.Forall₂ Tells (o.settings.map Setting.words) o.settings) ∧
    ∀ file (o : RunOptions) groups settings, List.Forall₂ Tells groups settings →
      (settings.Perm o.settings ∨ o.frames = 600 ∧ settings.Perm o.flags) →
      Request.parse ("run" :: file :: groups.flatten) = .ok (.run file o) := by
  refine ⟨fun _ _ _ => parse_eq_run_iff, fun _ _ => parse_eq_list_iff,
    fun _ _ => parse_eq_error_iff, ?reordering, fun _ => tells_settings, ?rendering⟩
  case reordering =>
    intro file groups groups' rest hgroups hperm hwords
    exact parse_reordered file hgroups hperm hwords rest
  case rendering =>
    intro file o groups settings hgroups hsettings
    exact parse_eq_run_iff.2
      ⟨groups, settings, hgroups, rfl, (RunOptions.ofSettings_of_perm hsettings).symm⟩

/-- A repeated option, an option in the place of a value, groups in either order, and options that
leave out their frame count. -/
theorem parse_accepts_grammar_repeated :
    Request.parse ["run", "maze.ch8", "--frames", "+007", "--key", "0C", "--frames", "12"] =
      .ok (.run "maze.ch8" { frames := 12, key := some ⟨12, by decide⟩ }) ∧
    Request.parse ["dis", "maze.ch8", "--fast"] = .ok (.list "maze.ch8") ∧
    Request.parse ["run", "maze.ch8", "--fast", "--frames", "--fast", "--turbo"] =
      .error (.invalidFrames "--fast") ∧
    Request.parse ["run", "maze.ch8", "--frames", "12", "--fast", "--turbo"] =
      Request.parse ["run", "maze.ch8", "--fast", "--frames", "12", "--turbo"] ∧
    Request.parse ["run", "maze.ch8", "--fast", "--seed", "12"] =
      .ok (.run "maze.ch8" { seed := some 12, fast := true }) ∧
    List.Forall₂ Tells [["--frames", "600"], ["--fast"]] [.frames 600, .fast] := by
  obtain ⟨hrun, hlist, herror, hreorder, hwrite, hrender⟩ := parse_accepts_grammar
  have hseven : Tells ["--frames", "+007"] (.frames 7) :=
    (ValueOption.tells_iff_read .frames).2 ⟨7, by decide, rfl⟩
  have hkey : Tells ["--key", "0C"] (.key ⟨12, by decide⟩) :=
    (ValueOption.tells_iff_read .key).2 ⟨12, by decide, rfl⟩
  have htwelve : Tells ["--frames", "12"] (.frames 12) :=
    (ValueOption.tells_iff_read .frames).2 ⟨12, by decide, rfl⟩
  have hseed : Tells ["--seed", "12"] (.seed 12) :=
    (ValueOption.tells_iff_read .seed).2 ⟨12, by decide, rfl⟩
  have hfast : Tells ["--fast"] .fast := rfl
  have hinvalid : ¬ ∃ s, Tells ["--frames", "--fast"] s := by
    rintro ⟨s, hs⟩
    obtain ⟨n, hn, -⟩ := (ValueOption.tells_iff_read .frames).1 hs
    exact absurd hn (by rw [show Numeral.parse? _ _ "--fast" = none by decide]; simp)
  refine ⟨?repeated, (hlist _ _).2 ⟨["--fast"], rfl⟩, ?taken, ?swapped, ?rendered, ?written⟩
  case repeated =>
    exact (hrun _ _ _).2 ⟨[["--frames", "+007"], ["--key", "0C"], ["--frames", "12"]], _,
      .cons hseven (.cons hkey (.cons htwelve .nil)), rfl, by decide⟩
  case taken =>
    have hrest : Malformed ["--frames", "--fast", "--turbo"] (.invalidFrames "--fast") :=
      @Malformed.invalidValue .frames _ _ hinvalid
    exact (herror _ _).2
      (@Rejected.malformed "maze.ch8" [["--fast"]] _ _ _ (.cons hfast .nil) hrest)
  case swapped =>
    refine hreorder "maze.ch8" [["--frames", "12"], ["--fast"]] [["--fast"], ["--frames", "12"]]
      ["--turbo"] (by simpa using ⟨⟨_, htwelve⟩, ⟨_, hfast⟩⟩) (.swap _ _ _) fun word => ?_
    by_cases hword : "--fast" = word
    · subst hword; decide
    · simp [List.filter_cons, hword]
  case rendered =>
    exact hrender "maze.ch8" _ [["--fast"], ["--seed", "12"]] _ (.cons hfast (.cons hseed .nil))
      (.inr ⟨rfl, .swap _ _ _⟩)
  case written => exact hwrite { fast := true } (by decide)

end Request

end Chip8
