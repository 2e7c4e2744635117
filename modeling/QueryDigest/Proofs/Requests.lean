import Mathlib.Data.List.Infix
import QueryDigest.CommandLine.Arguments

/-!
# QueryDigest.Proofs.Requests

What a list of arguments asks for. Each argument is read by itself, and there is one way to say each
thing, help apart (`Argument.read_eq_ok_iff`). The first argument that asks for help or is refused
decides for the whole list (`Command.read_append`). Without one, what is asked for can be told from
the list at once (`Requests`): which words are in it, which argument names the input, which values
are the last ones. One more argument keeps that true (`Requests.take`), so it is true of every list
(`requests_of_read`).

Nothing in that depends on the order of the arguments but the last values, hence the order does not
matter where those stay (`read_arguments`).
-/

namespace QueryDigest
namespace CommandLine

/-- The word of the flag. -/
def Flag.word : Flag → String
  | ansi => "--ansi"
  | keepWhitespace => "--keep-whitespace"
  | quoteStrings => "--quote-strings"
  | reduceEnums => "--reduce-enums"
  | noThrow => "--no-throw"
  | quiet => "--quiet"

/-- The input that the argument names. -/
def Input.named (text : String) : Input :=
  if text = "-" then .stdin else .file text

/-- Does the argument name an input? -/
def isPositional (text : String) : Bool :=
  text == "-" || text.toList.head? != some '-'

/-! ## One argument -/

/-- The argument `text` says `a`. -/
inductive Says : String → Argument → Prop where
  | shortHelp : Says "-h" .help
  | help : Says "--help" .help
  | flag (f : Flag) : Says f.word (.flag f)
  | lines : Says "--lines" .lines
  | count : Says "--count" .count
  | config {path : String} : path ≠ "" → Says ("--config" ++ "=" ++ path) (.config path)
  | delimiter (c : Char) :
      Says ("--identifier-delimiter" ++ "=" ++ String.singleton c) (.delimiter c)
  | input {text : String} : isPositional text = true → Says text (.input (.named text))

namespace Argument

section One

variable {option text value : String} {a : Argument}

theorem valueFor?_eq_some_iff : valueFor? option text = some value ↔
    text = option ++ "=" ++ value := by
  rw [valueFor?, Option.map_eq_some_iff]
  constructor
  · rintro ⟨cs, hcs, rfl⟩
    rw [List.isPrefixOf?_eq_some_iff_append_eq] at hcs
    rw [← String.toList_inj, String.toList_append, String.toList_ofList, hcs]
  · rintro rfl
    refine ⟨value.toList, ?_, String.ofList_toList⟩
    rw [List.isPrefixOf?_eq_some_iff_append_eq, ← String.toList_append]

theorem valueFor?_append (option value : String) :
    valueFor? option (option ++ "=" ++ value) = some value :=
  valueFor?_eq_some_iff.2 rfl

/-- A word of its own has no value for an option, and only `-` names an input. -/
theorem of_ofWord? (h : ofWord? text = some a) : Says text a ∧
    valueFor? "--config" text = none ∧ valueFor? "--identifier-delimiter" text = none ∧
    (text.toList.head? = some '-') := by
  unfold ofWord? at h
  split at h <;> cases h
  · exact ⟨.shortHelp, by decide⟩
  · exact ⟨.help, by decide⟩
  · exact ⟨.flag .ansi, by decide⟩
  · exact ⟨.flag .keepWhitespace, by decide⟩
  · exact ⟨.flag .quoteStrings, by decide⟩
  · exact ⟨.flag .reduceEnums, by decide⟩
  · exact ⟨.flag .noThrow, by decide⟩
  · exact ⟨.flag .quiet, by decide⟩
  · exact ⟨.lines, by decide⟩
  · exact ⟨.count, by decide⟩
  · exact ⟨@Says.input "-" rfl, by decide⟩

theorem of_value (hv : valueFor? "--config" text = some value ∨
    valueFor? "--identifier-delimiter" text = some value) : ofWord? text = none ∧
      (text == "--config" || text == "--identifier-delimiter") = false ∧
      text.toList.head? = some '-' := by
  refine ⟨?_, ?_, ?_⟩
  · cases hw : ofWord? text with
    | none => rfl
    | some a =>
      obtain ⟨-, hconfig, hdelimiter, -⟩ := of_ofWord? hw
      rw [hconfig, hdelimiter] at hv
      rcases hv with hv | hv <;> cases hv
  · rw [Bool.or_eq_false_iff, beq_eq_false_iff_ne, beq_eq_false_iff_ne]
    constructor <;> rintro rfl <;> rcases hv with hv | hv <;> exact absurd hv (by simp [valueFor?])
  · rw [valueFor?_eq_some_iff, valueFor?_eq_some_iff] at hv
    rcases hv with rfl | rfl <;> simp

theorem read_of_config (hv : valueFor? "--config" text = some value) :
    read text = ofConfigValue value := by
  obtain ⟨hword, hbare, -⟩ := of_value (.inl hv)
  simp only [read, hword, hbare, hv, Bool.false_eq_true, if_false]

theorem read_of_delimiter (hv : valueFor? "--identifier-delimiter" text = some value) :
    read text = ofDelimiterValue value := by
  obtain ⟨hword, hbare, -⟩ := of_value (.inr hv)
  have hconfig : valueFor? "--config" text = none := by
    rw [Option.eq_none_iff_forall_ne_some]
    intro path hpath
    have hboth := (valueFor?_eq_some_iff.1 hpath).symm.trans (valueFor?_eq_some_iff.1 hv)
    have := congrArg String.toList hboth
    simp at this
  simp only [read, hword, hbare, hconfig, hv, Bool.false_eq_true, if_false]

theorem read_of_positional (h : isPositional text = true) :
    read text = .ok (.input (.named text)) := by
  by_cases hdash : text = "-"
  · subst hdash
    rfl
  · have hhead : text.toList.head? ≠ some '-' := by
      simpa [isPositional, hdash] using h
    have hword : ofWord? text = none := by
      cases hw : ofWord? text with
      | none => rfl
      | some a => exact absurd (of_ofWord? hw).2.2.2 hhead
    have hbare : (text == "--config" || text == "--identifier-delimiter") = false := by
      rw [Bool.or_eq_false_iff, beq_eq_false_iff_ne, beq_eq_false_iff_ne]
      constructor <;> rintro rfl <;> exact hhead (by decide)
    have hconfig : valueFor? "--config" text = none :=
      Option.eq_none_iff_forall_ne_some.2 fun v hv => hhead (of_value (.inl hv)).2.2
    have hdelimiter : valueFor? "--identifier-delimiter" text = none :=
      Option.eq_none_iff_forall_ne_some.2 fun v hv => hhead (of_value (.inr hv)).2.2
    have hno : (text.toList.head? == some '-') = false := beq_false_of_ne hhead
    simp only [read, hword, hbare, hconfig, hdelimiter, hno, Bool.false_eq_true, if_false,
      Input.named, hdash]

theorem of_ofConfigValue (h : ofConfigValue value = .ok a) : Says ("--config" ++ "=" ++ value) a := by
  rw [ofConfigValue] at h
  split at h
  · cases h
  · rename_i hne
    cases h
    exact .config (by simpa using hne)

theorem of_ofDelimiterValue (h : ofDelimiterValue value = .ok a) :
    Says ("--identifier-delimiter" ++ "=" ++ value) a := by
  rw [ofDelimiterValue] at h
  split at h
  · rename_i c hc
    cases h
    rw [← String.ofList_toList (s := value), hc]
    exact .delimiter c
  · cases h

theorem says_of_read (h : read text = .ok a) : Says text a := by
  by_cases hpos : isPositional text = true
  · rw [read_of_positional hpos] at h
    cases h
    exact .input hpos
  · have hhead : (text.toList.head? == some '-') = true := by
      rw [isPositional, Bool.or_eq_true, bne_iff_ne] at hpos
      simpa using fun hne => hpos (.inr hne)
    rw [read] at h
    split at h
    · rename_i hw
      cases h
      exact (of_ofWord? hw).1
    · split at h
      · cases h
      · split at h
        · rename_i value hv
          obtain rfl := valueFor?_eq_some_iff.1 hv
          exact of_ofConfigValue h
        · split at h
          · rename_i value hv
            obtain rfl := valueFor?_eq_some_iff.1 hv
            exact of_ofDelimiterValue h
          · cases h

theorem read_of_says (h : Says text a) : read text = .ok a := by
  cases h with
  | shortHelp => rfl
  | help => rfl
  | flag f => cases f <;> rfl
  | lines => rfl
  | count => rfl
  | @config path hne =>
    rw [read_of_config (valueFor?_append _ _), ofConfigValue, if_neg (by simpa using hne)]
  | delimiter c =>
    rw [read_of_delimiter (valueFor?_append _ _), ofDelimiterValue]
    simp
  | input hpos => exact read_of_positional hpos

/-- An argument is read as what it says. -/
theorem read_eq_ok_iff : read text = .ok a ↔ Says text a :=
  ⟨says_of_read, read_of_says⟩

end One

end Argument

/-! ## A list of arguments -/

/-- What is asked for when the arguments follow, unless that is decided already. -/
def Command.followed (c : Except ArgumentError Command) (texts : List String) :
    Except ArgumentError Command :=
  match c with
  | .ok (.run r) => r.takeAll texts
  | decided => decided

theorem Request.takeAll_cons (r : Request) (text : String) (texts : List String) :
    r.takeAll (text :: texts) =
      Command.followed ((Argument.read text).bind (r.take text)) texts := by
  rw [Request.takeAll]
  cases Argument.read text with
  | error e => rfl
  | ok a =>
    change (r.take text a).bind _ = Command.followed (r.take text a) texts
    cases r.take text a with
    | error e => rfl
    | ok c => cases c <;> rfl

theorem Request.takeAll_append (r : Request) (texts more : List String) :
    r.takeAll (texts ++ more) = Command.followed (r.takeAll texts) more := by
  induction texts generalizing r with
  | nil => rfl
  | cons text texts ih =>
    rw [List.cons_append, takeAll_cons, takeAll_cons]
    generalize (Argument.read text).bind (r.take text) = c
    match c with
    | .error _ => rfl
    | .ok .help => rfl
    | .ok (.run r') => exact ih r'

/-- The arguments in front decide what becomes of those behind them. -/
theorem Command.read_append (texts more : List String) :
    Command.read (texts ++ more) = Command.followed (Command.read texts) more :=
  Request.start.takeAll_append texts more

/-! ## What a list asks for -/

/-- The value that the last argument gives, of those that give one. -/
def last? {α : Type} (value? : String → Option α) (args : List String) : Option α :=
  (args.filterMap value?).getLast?

section Last

variable {α : Type} (value? : String → Option α) (args : List String)

theorem last?_snoc (text : String) :
    last? value? (args ++ [text]) = (value? text).or (last? value? args) := by
  rw [last?, last?, List.filterMap_append, List.getLast?_append, List.filterMap_cons]
  cases value? text <;> rfl

theorem last?_filter :
    last? value? (args.filter fun text => (value? text).isSome) = last? value? args := by
  rw [last?, last?, List.filterMap_filter]
  congr 2
  funext text
  cases value? text <;> rfl

end Last

/-- The value of a setting that the flag gives it, where the flag is among the arguments. -/
def given (f : Flag) (value : Bool) (args : List String) : Option Bool :=
  if f.word ∈ args then some value else none

/-- The overrides that the flags among the arguments give, and an identifier delimiter. -/
def flagsOf (args : List String) (delimiter : Option Char) : Overrides where
  ansiDoubleQuotes := given .ansi true args
  identifierDelimiter := delimiter
  stripWhitespace := given .keepWhitespace false args
  writeSyntaxErrorsToConsole := given .quiet false args
  throwOnSyntaxError := given .noThrow false args
  addRemovedStringQuotes := given .quoteStrings true args
  reduceEnumsToOneElement := given .reduceEnums true args

/-- The layout that the arguments ask for. -/
def layoutOf (args : List String) : Batch.Layout :=
  if "--count" ∈ args then .count else if "--lines" ∈ args then .lines else .whole

/-- What the arguments ask for, if none of them asks for help or is refused. -/
structure Requests (args : List String) (r : Request) : Prop where
  layout : r.layout = layoutOf args
  /-- No argument names an input, or one does. -/
  input : (args.filter isPositional = [] ∧ r.input = none) ∨
    ∃ text, args.filter isPositional = [text] ∧ r.input = some (.named text)
  config : r.config = last? (Argument.valueFor? "--config") args
  delimiter : r.overrides.identifierDelimiter.map String.singleton =
    last? (Argument.valueFor? "--identifier-delimiter") args
  flags : r.overrides = flagsOf args r.overrides.identifierDelimiter

/-- The settings file that the argument names. -/
def Argument.path? : Argument → Option String
  | config path => some path
  | _ => none

/-- The identifier delimiter that the argument gives. -/
def Argument.char? : Argument → Option Char
  | delimiter c => some c
  | _ => none

/-- Does the argument name an input? -/
def Argument.isInput : Argument → Bool
  | input _ => true
  | _ => false

/-- The layout with the argument taken in. -/
def Argument.layoutAfter (layout : Batch.Layout) : Argument → Batch.Layout
  | count => .count
  | lines => if layout == .whole then .lines else layout
  | _ => layout

/-- The overrides with the argument taken in. -/
def Argument.overridesAfter (w : Overrides) : Argument → Overrides
  | flag f => f.give w
  | delimiter c => { w with identifierDelimiter := some c }
  | _ => w

theorem Argument.identifierDelimiter_overridesAfter (w : Overrides) (a : Argument) :
    (a.overridesAfter w).identifierDelimiter = a.char?.or w.identifierDelimiter := by
  cases a with
  | flag f => cases f <;> rfl
  | _ => rfl

section Step

variable {args : List String} {r r' : Request} {text : String} {a b : Argument}

theorem Says.unique (ha : Says text a) (hb : Says text b) : a = b :=
  Except.ok.inj ((Argument.read_eq_ok_iff.2 ha).symm.trans (Argument.read_eq_ok_iff.2 hb))

theorem Says.eq_count_iff (h : Says text a) : "--count" = text ↔ a = .count := by
  constructor
  · rintro rfl
    exact h.unique .count
  · rintro rfl
    cases h
    rfl

theorem Says.eq_lines_iff (h : Says text a) : "--lines" = text ↔ a = .lines := by
  constructor
  · rintro rfl
    exact h.unique .lines
  · rintro rfl
    cases h
    rfl

theorem Says.eq_word_iff (h : Says text a) (f : Flag) : f.word = text ↔ a = .flag f := by
  constructor
  · rintro rfl
    exact h.unique (.flag f)
  · rintro rfl
    cases h
    rfl

theorem Says.isPositional_eq (h : Says text a) : isPositional text = a.isInput := by
  rw [Bool.eq_iff_iff]
  constructor
  · intro hpos
    rw [h.unique (.input hpos)]
    rfl
  · intro hinput
    cases h <;> first | assumption | cases hinput

theorem Says.valueFor?_config (h : Says text a) :
    Argument.valueFor? "--config" text = a.path? := by
  refine Option.ext fun path => ?_
  constructor
  · intro hv
    have hread := (Argument.read_of_config hv).symm.trans (Argument.read_eq_ok_iff.2 h)
    rw [Argument.ofConfigValue] at hread
    split at hread
    · cases hread
    · cases hread
      rfl
  · intro ha
    cases h <;> cases ha
    exact Argument.valueFor?_append _ _

theorem Says.valueFor?_delimiter (h : Says text a) :
    Argument.valueFor? "--identifier-delimiter" text = a.char?.map String.singleton := by
  refine Option.ext fun value => ?_
  constructor
  · intro hv
    have hread := (Argument.read_of_delimiter hv).symm.trans (Argument.read_eq_ok_iff.2 h)
    rw [Argument.ofDelimiterValue] at hread
    split at hread
    · rename_i c hc
      cases hread
      rw [← String.ofList_toList (s := value), hc]
      rfl
    · cases hread
  · intro ha
    cases h <;> cases ha
    exact Argument.valueFor?_append _ _

theorem Requests.start : Requests [] Request.start where
  layout := rfl
  input := .inl ⟨rfl, rfl⟩
  config := rfl
  delimiter := rfl
  flags := rfl

theorem given_snoc (ha : Says text a) (args : List String) (f : Flag) (value : Bool) :
    given f value (args ++ [text]) = if a = .flag f then some value else given f value args := by
  simp only [given, List.mem_append, List.mem_singleton, ha.eq_word_iff]
  by_cases hf : a = .flag f
  · rw [if_pos (.inr hf), if_pos hf]
  · simp only [hf, or_false, if_false]

theorem flagsOf_snoc (ha : Says text a) (args : List String) (c : Option Char) :
    flagsOf (args ++ [text]) (a.char?.or c) = a.overridesAfter (flagsOf args c) := by
  simp only [flagsOf, given_snoc ha]
  cases a with
  | flag f => cases f <;> rfl
  | _ => rfl

theorem layoutOf_snoc (ha : Says text a) (args : List String) :
    layoutOf (args ++ [text]) = a.layoutAfter (layoutOf args) := by
  simp only [layoutOf, Argument.layoutAfter, List.mem_append, List.mem_singleton, ha.eq_count_iff,
    ha.eq_lines_iff]
  cases a with
  | lines =>
    by_cases hcount : "--count" ∈ args
    · simp [hcount]
    · by_cases hlines : "--lines" ∈ args <;> simp [hcount, hlines]
  | _ => simp

/-- What one more argument changes in a request. -/
theorem Request.take_eq_run (htake : r.take text a = .ok (.run r')) :
    r'.layout = a.layoutAfter r.layout ∧
    (if a.isInput then r.input = none ∧ ∃ source, a = .input source ∧ r'.input = some source
      else r'.input = r.input) ∧
    r'.config = a.path?.or r.config ∧ r'.overrides = a.overridesAfter r.overrides := by
  cases a with
  | help => cases htake
  | input source =>
    rw [Request.take] at htake
    split at htake
    · cases htake
    · rename_i hinput
      cases htake
      exact ⟨rfl, ⟨by simpa using hinput, source, rfl, rfl⟩, rfl, rfl⟩
  | _ =>
    cases htake
    exact ⟨rfl, rfl, rfl, rfl⟩

/-- One more argument is taken into the request as it is told from the list. -/
theorem Requests.take (h : Requests args r) (ha : Says text a)
    (htake : r.take text a = .ok (.run r')) : Requests (args ++ [text]) r' := by
  obtain ⟨hlayout, hinput, hconfig, hoverrides⟩ := Request.take_eq_run htake
  refine ⟨?_, ?_, ?_, ?_, ?_⟩
  · rw [hlayout, layoutOf_snoc ha, h.layout]
  · rw [List.filter_append, List.filter_singleton, ha.isPositional_eq]
    cases hin : a.isInput with
    | false =>
      rw [hin, if_neg Bool.false_ne_true] at hinput
      simpa [hinput] using h.input
    | true =>
      rw [hin, if_pos rfl] at hinput
      obtain ⟨hnone, source, rfl, hsome⟩ := hinput
      rcases h.input with ⟨hempty, -⟩ | ⟨_, -, hother⟩
      · cases ha
        exact .inr ⟨text, by simp [hempty], hsome⟩
      · cases hnone.symm.trans hother
  · rw [hconfig, last?_snoc, ha.valueFor?_config, h.config]
  · rw [last?_snoc, ha.valueFor?_delimiter, ← h.delimiter, hoverrides]
    rw [Argument.identifierDelimiter_overridesAfter]
    cases a.char? <;> rfl
  · rw [hoverrides, Argument.identifierDelimiter_overridesAfter, flagsOf_snoc ha, ← h.flags]

end Step

section Run

variable {args args' : List String} {r r' : Request}

/-- The arguments are read to their end. -/
def Runs (args : List String) : Prop :=
  ∃ r, Command.read args = .ok (.run r)

theorem Command.read_snoc (h : Command.read args = .ok (.run r)) (text : String) :
    Command.read (args ++ [text]) = (Argument.read text).bind (r.take text) := by
  rw [read_append, h, followed, Request.takeAll_cons]
  cases (Argument.read text).bind (r.take text) with
  | error e => rfl
  | ok c => cases c <;> rfl

/-- Nothing behind arguments that are not read to their end changes what becomes of them. -/
theorem Command.read_append_of_not_runs (h : ¬ Runs args) (more : List String) :
    Command.read (args ++ more) = Command.read args := by
  rw [Command.read_append]
  match hc : Command.read args with
  | .ok (.run r) => exact absurd ⟨r, hc⟩ h
  | .ok .help => rfl
  | .error e => rfl

theorem Runs.of_isPrefix (h : Runs args) (hp : args' <+: args) : Runs args' := by
  obtain ⟨more, rfl⟩ := hp
  by_contra hnot
  rw [Runs, Command.read_append_of_not_runs hnot] at h
  exact hnot h

/-- The last argument read is taken into what the others ask for. -/
theorem Command.of_read_snoc {text : String} (h : Command.read (args ++ [text]) = .ok (.run r')) :
    ∃ r a, Command.read args = .ok (.run r) ∧ Says text a ∧ r.take text a = .ok (.run r') := by
  obtain ⟨r, hr⟩ := Runs.of_isPrefix ⟨r', h⟩ (List.prefix_append args [text])
  rw [Command.read_snoc hr] at h
  cases ha : Argument.read text with
  | error e =>
    rw [ha] at h
    cases h
  | ok a =>
    rw [ha] at h
    exact ⟨r, a, hr, Argument.says_of_read ha, h⟩

/-- What arguments are read as can be told from their list. -/
theorem requests_of_read (h : Command.read args = .ok (.run r)) : Requests args r := by
  induction args using List.reverseRecOn generalizing r with
  | nil =>
    cases h
    exact .start
  | append_singleton args text ih =>
    obtain ⟨r', a, hr', ha, htake⟩ := Command.of_read_snoc h
    exact (ih hr').take ha htake

/-- One more argument is read if it says something, help apart, and names no second input. -/
theorem Runs.snoc {text : String} {a : Argument} (h : Runs args) (ha : Says text a)
    (hne : a ≠ .help) (hone : ((args ++ [text]).filter isPositional).length ≤ 1) :
    Runs (args ++ [text]) := by
  obtain ⟨r, hr⟩ := h
  have hread : Command.read (args ++ [text]) = r.take text a := by
    rw [Command.read_snoc hr, Argument.read_of_says ha]
    rfl
  rw [Runs, hread]
  cases a with
  | help => exact absurd rfl hne
  | input source =>
    have hnone : r.input = none := by
      rcases (requests_of_read hr).input with ⟨-, hnone⟩ | ⟨_, hother, -⟩
      · exact hnone
      · simp [List.filter_append, hother, ha.isPositional_eq, Argument.isInput] at hone
    exact ⟨{ r with input := some source }, by rw [Request.take, hnone]; rfl⟩
  | _ => exact ⟨_, rfl⟩

/-- Arguments are read to their end if each says something, none asks for help, and no more than one
names an input. -/
theorem runs_iff : Runs args ↔
    (∀ text ∈ args, ∃ a, Says text a ∧ a ≠ .help) ∧ (args.filter isPositional).length ≤ 1 := by
  induction args using List.reverseRecOn with
  | nil =>
    constructor
    · intro _
      simp
    · intro _
      exact ⟨Request.start, rfl⟩
  | append_singleton args text ih =>
    constructor
    · rintro ⟨r', hr'⟩
      obtain ⟨r, a, hr, ha, htake⟩ := Command.of_read_snoc hr'
      refine ⟨?_, ?_⟩
      · intro t ht
        rcases List.mem_append.1 ht with ht | ht
        · exact (ih.1 ⟨r, hr⟩).1 t ht
        · obtain rfl := List.mem_singleton.1 ht
          refine ⟨a, ha, ?_⟩
          rintro rfl
          cases htake
      · rcases (requests_of_read hr').input with ⟨hempty, -⟩ | ⟨_, hone, -⟩
        · rw [hempty]
          exact Nat.zero_le 1
        · rw [hone]
          exact Nat.le_refl 1
    · rintro ⟨hall, hone⟩
      obtain ⟨a, ha, hne⟩ := hall text (List.mem_append_right _ (List.mem_singleton_self text))
      refine (ih.2 ⟨fun t ht => hall t (List.mem_append_left _ ht), ?_⟩).snoc ha hne hone
      rw [List.filter_append, List.length_append] at hone
      omega

/-! ## The order of the arguments -/

/-- The same arguments in another order, those that name settings files in the same order among
themselves, and those that give identifier delimiters too. -/
structure Reordered (args args' : List String) : Prop where
  perm : args.Perm args'
  config : args.filter (fun text => (Argument.valueFor? "--config" text).isSome) =
    args'.filter fun text => (Argument.valueFor? "--config" text).isSome
  delimiter :
    args.filter (fun text => (Argument.valueFor? "--identifier-delimiter" text).isSome) =
      args'.filter fun text => (Argument.valueFor? "--identifier-delimiter" text).isSome

/-- A list of arguments asks for one thing. -/
theorem Requests.unique (h : Requests args r) (h' : Requests args r') : r = r' := by
  have hlayout : r.layout = r'.layout := h.layout.trans h'.layout.symm
  have hconfig : r.config = r'.config := h.config.trans h'.config.symm
  have hinput : r.input = r'.input := by
    rcases h.input with ⟨hnil, hr⟩ | ⟨text, hone, hr⟩ <;>
      rcases h'.input with ⟨hnil', hr'⟩ | ⟨text', hone', hr'⟩
    · rw [hr, hr']
    · cases hnil.symm.trans hone'
    · cases hone.symm.trans hnil'
    · cases hone.symm.trans hone'
      rw [hr, hr']
  have hdelimiter : r.overrides.identifierDelimiter = r'.overrides.identifierDelimiter := by
    refine Option.map_injective (fun c c' hc => ?_) (h.delimiter.trans h'.delimiter.symm)
    simpa using congrArg String.toList hc
  have hoverrides : r.overrides = r'.overrides := by
    rw [h.flags, h'.flags, hdelimiter]
  cases r
  cases r'
  rw [Request.mk.injEq]
  exact ⟨hconfig, hoverrides, hinput, hlayout⟩

/-- What is asked for does not depend on the order. -/
theorem Requests.reordered (h : Requests args r) (ho : Reordered args args') :
    Requests args' r := by
  have hmem {text : String} : text ∈ args ↔ text ∈ args' := ho.perm.mem_iff
  have hinputs := ho.perm.filter isPositional
  refine ⟨?_, ?_, ?_, ?_, ?_⟩
  · simpa only [layoutOf, hmem] using h.layout
  · rcases h.input with ⟨hnil, hr⟩ | ⟨text, hone, hr⟩
    · rw [hnil] at hinputs
      exact .inl ⟨hinputs.nil_eq.symm, hr⟩
    · rw [hone, List.singleton_perm] at hinputs
      exact .inr ⟨text, hinputs.symm, hr⟩
  · rw [h.config, ← last?_filter, ho.config, last?_filter]
  · rw [h.delimiter, ← last?_filter, ho.delimiter, last?_filter]
  · simpa only [flagsOf, given, hmem] using h.flags

theorem Runs.reordered (h : Runs args) (ho : Reordered args args') : Runs args' := by
  rw [runs_iff] at h ⊢
  exact ⟨fun text htext => h.1 text (ho.perm.mem_iff.2 htext),
    (ho.perm.filter isPositional).length_eq ▸ h.2⟩

/-- Queries come from the input that an argument names, else from standard input. -/
theorem Requests.source (h : Requests args r) :
    (args.filter isPositional = [] ∧ r.source = .stdin) ∨
      ∃ text, args.filter isPositional = [text] ∧ r.source = .named text := by
  rcases h.input with ⟨hnil, hr⟩ | ⟨text, hone, hr⟩
  · exact .inl ⟨hnil, by rw [Request.source, hr]; rfl⟩
  · exact .inr ⟨text, hone, by rw [Request.source, hr]; rfl⟩

/-- The first arguments that ask for help or are refused decide for the whole list. Where there are
none, what is asked for can be told from the list, and the order of the arguments does not matter, that
of the settings files and that of the identifier delimiters apart. -/
theorem read_arguments (args : List String) :
    (∀ front, front <+: args → ¬ Runs front → Command.read args = Command.read front) ∧
    ((∀ front, front <+: args → Runs front) →
      ∃ r, Command.read args = .ok (.run r) ∧ Requests args r ∧
        ((args.filter isPositional = [] ∧ r.source = .stdin) ∨
          ∃ text, args.filter isPositional = [text] ∧ r.source = .named text) ∧
        ∀ args', Reordered args args' → Command.read args' = .ok (.run r)) := by
  refine ⟨?_, fun hfronts => ?_⟩
  · rintro front ⟨behind, rfl⟩ hdecided
    exact Command.read_append_of_not_runs hdecided behind
  · obtain ⟨r, hr⟩ := hfronts args List.prefix_rfl
    have hrequests := requests_of_read hr
    refine ⟨r, hr, hrequests, hrequests.source, fun args' ho => ?_⟩
    obtain ⟨r', hr'⟩ := Runs.reordered ⟨r, hr⟩ ho
    rw [hr', (requests_of_read hr').unique (hrequests.reordered ho)]

/-- Help is asked for in front of a mistake. Two settings files and a query file are named, in two
orders, and lines do not take counting back. -/
theorem read_arguments_orders :
    Command.read ["--ansi", "--help", "--nope"] = .ok .help ∧
    Command.read ["--count", "--config=a", "q.sql", "--lines", "--config=b", "--ansi"] =
      Command.read ["q.sql", "--ansi", "--config=a", "--lines", "--config=b", "--count"] ∧
    ∃ r, Command.read ["--count", "--config=a", "q.sql", "--lines", "--config=b", "--ansi"] =
      .ok (.run r) ∧ r.layout = .count ∧ r.source = .file "q.sql" ∧ r.config = some "b" := by
  have hfronts : ∀ front,
      front <+: ["--count", "--config=a", "q.sql", "--lines", "--config=b", "--ansi"] →
      Runs front := fun front hfront => Runs.of_isPrefix ⟨_, rfl⟩ hfront
  refine ⟨?_, ?_⟩
  · refine ((read_arguments _).1 ["--ansi", "--help"] ⟨["--nope"], rfl⟩ ?_).trans rfl
    rintro ⟨r, hr⟩
    cases hr
  · obtain ⟨r, hread, hrequests, -, horder⟩ := (read_arguments _).2 hfronts
    have hother := horder
      ["q.sql", "--ansi", "--config=a", "--lines", "--config=b", "--count"]
      ⟨by decide, by decide, by decide⟩
    refine ⟨hread.trans hother.symm, r, hread, ?_, ?_, ?_⟩
    · rw [hrequests.layout]
      decide
    · cases hread
      rfl
    · rw [hrequests.config]
      decide

end Run

end CommandLine
end QueryDigest
