import Mathlib
import QueryDigest.CommandLine.Program
import QueryDigest.Proofs.Requests

/-!
# QueryDigest.Proofs.Settings

Which settings a run has. A setting has values of its own kind (`Setting.Value`). Members of a
settings file and flags on a command line give such values, each to one setting, and leave the others
alone (`Overrides.get?_set_of_ne`, `Argument.get?_overridesAfter`). From what one of them does follows
what a whole object gives (`Overrides.ofJson?_object`) and what a list of arguments gives
(`get?_overrides_of_read`). Laid over each other they are the settings of the run, each by itself
(`execute_settings`).
-/

namespace QueryDigest

/-! ## One setting -/

/-- The values that a setting can have. -/
def Setting.Value : Setting → Type
  | identifierDelimiter => Char
  | _ => Bool

/-- The value of the setting. -/
def Options.get (o : Options) : (s : Setting) → s.Value
  | .ansiDoubleQuotes => o.ansiDoubleQuotes
  | .identifierDelimiter => o.identifierDelimiter
  | .stripWhitespace => o.stripWhitespace
  | .writeSyntaxErrorsToConsole => o.writeSyntaxErrorsToConsole
  | .throwOnSyntaxError => o.throwOnSyntaxError
  | .addRemovedStringQuotes => o.addRemovedStringQuotes
  | .reduceEnumsToOneElement => o.reduceEnumsToOneElement

/-- Options are their settings. -/
theorem Options.ext_get {o o' : Options} (h : ∀ s, o.get s = o'.get s) : o = o' := by
  obtain ⟨⟩ := o
  obtain ⟨⟩ := o'
  rw [Options.mk.injEq]
  exact ⟨h .ansiDoubleQuotes, h .identifierDelimiter, h .stripWhitespace,
    h .writeSyntaxErrorsToConsole, h .throwOnSyntaxError, h .addRemovedStringQuotes,
    h .reduceEnumsToOneElement⟩

namespace Overrides

/-- The value of the setting, where it is given. -/
def get? (w : Overrides) : (s : Setting) → Option s.Value
  | .ansiDoubleQuotes => w.ansiDoubleQuotes
  | .identifierDelimiter => w.identifierDelimiter
  | .stripWhitespace => w.stripWhitespace
  | .writeSyntaxErrorsToConsole => w.writeSyntaxErrorsToConsole
  | .throwOnSyntaxError => w.throwOnSyntaxError
  | .addRemovedStringQuotes => w.addRemovedStringQuotes
  | .reduceEnumsToOneElement => w.reduceEnumsToOneElement

/-- The overrides with the setting given. -/
def set (w : Overrides) : (s : Setting) → s.Value → Overrides
  | .ansiDoubleQuotes, b => { w with ansiDoubleQuotes := some b }
  | .identifierDelimiter, c => { w with identifierDelimiter := some c }
  | .stripWhitespace, b => { w with stripWhitespace := some b }
  | .writeSyntaxErrorsToConsole, b => { w with writeSyntaxErrorsToConsole := some b }
  | .throwOnSyntaxError, b => { w with throwOnSyntaxError := some b }
  | .addRemovedStringQuotes, b => { w with addRemovedStringQuotes := some b }
  | .reduceEnumsToOneElement, b => { w with reduceEnumsToOneElement := some b }

@[simp] theorem get?_empty (s : Setting) : empty.get? s = none := by
  cases s <;> rfl

@[simp] theorem get?_set_self (w : Overrides) (s : Setting) (v : s.Value) :
    (w.set s v).get? s = some v := by
  cases s <;> rfl

/-- A setting given leaves the others alone. -/
theorem get?_set_of_ne (w : Overrides) {s s' : Setting} (v : s.Value) (h : s' ≠ s) :
    (w.set s v).get? s' = w.get? s' := by
  cases s <;> cases s' <;> first | rfl | exact absurd rfl h

/-- Overrides lie over options setting by setting. -/
theorem get_apply (w : Overrides) (o : Options) (s : Setting) :
    (w.apply o).get s = (w.get? s).getD (o.get s) := by
  cases s <;> rfl

theorem gives_eq (w : Overrides) (s : Setting) : w.gives s = (w.get? s).isSome := by
  cases s <;> rfl

end Overrides

/-! ## Settings in an object -/

theorem Json.asChar?_singleton (c : Char) :
    asChar? (.string (some (String.singleton c))) = some c := by
  simp [asChar?]

namespace Setting

/-- The value as JSON. -/
def toJson : (s : Setting) → s.Value → Json
  | .identifierDelimiter, c => .string (some (String.singleton c))
  | .ansiDoubleQuotes, b => .bool b
  | .stripWhitespace, b => .bool b
  | .writeSyntaxErrorsToConsole, b => .bool b
  | .throwOnSyntaxError, b => .bool b
  | .addRemovedStringQuotes, b => .bool b
  | .reduceEnumsToOneElement, b => .bool b

/-- The value of the setting that a JSON value is; none if it is of the wrong kind. -/
def ofJson? : (s : Setting) → Json → Option s.Value
  | .identifierDelimiter, value => value.asChar?
  | .ansiDoubleQuotes, value => value.asBool?
  | .stripWhitespace, value => value.asBool?
  | .writeSyntaxErrorsToConsole, value => value.asBool?
  | .throwOnSyntaxError, value => value.asBool?
  | .addRemovedStringQuotes, value => value.asBool?
  | .reduceEnumsToOneElement, value => value.asBool?

theorem ofJson?_toJson (s : Setting) (v : s.Value) : s.ofJson? (s.toJson v) = some v := by
  cases s with
  | identifierDelimiter => exact Json.asChar?_singleton v
  | _ => rfl

theorem key_inj {s s' : Setting} (h : s.key = s'.key) : s = s' := by
  cases s <;> cases s' <;> first | rfl | exact absurd h (by decide)

theorem ofKey?_key (s : Setting) : ofKey? s.key = some s := by
  cases s <;> decide

theorem key_of_ofKey? {key : String} {s : Setting} (h : ofKey? key = some s) : s.key = key := by
  simpa using List.find?_some h

end Setting

namespace Overrides

theorem give?_eq (w : Overrides) (s : Setting) (value : Json) :
    w.give? s value = (s.ofJson? value).map (w.set s) := by
  cases s <;> rfl

/-- The value of the setting that stands under its key. -/
def configured? (s : Setting) (members : List (String × Json)) : Option s.Value :=
  (members.lookup s.key).bind s.ofJson?

section Object

variable {w : Overrides} {s : Setting} {key : String} {value : Json}
  {members : List (String × Json)}

theorem configured?_cons_self (s : Setting) (v : s.Value) (members : List (String × Json)) :
    configured? s ((s.key, s.toJson v) :: members) = some v := by
  rw [configured?, List.lookup_cons_self, Option.bind_some, Setting.ofJson?_toJson]

theorem configured?_cons_of_ne (h : s.key ≠ key) :
    configured? s ((key, value) :: members) = configured? s members := by
  rw [configured?, configured?, List.lookup_cons, beq_false_of_ne h]

theorem configured?_eq_none (h : s.key ∉ members.map Prod.fst) : configured? s members = none := by
  have hnone : members.lookup s.key = none := by
    rw [List.lookup_eq_none_iff]
    intro member hmember
    rw [bne_iff_ne]
    exact fun he => h (he ▸ List.mem_map_of_mem hmember)
  rw [configured?, hnone, Option.bind_none]

/-- A member with a key that is not known gives nothing. -/
theorem takeMember?_unknown (h : ∀ s : Setting, s.key ≠ key) :
    w.takeMember? (some key, value) = some w := by
  have hnone : Setting.ofKey? key = none :=
    Option.eq_none_iff_forall_ne_some.2 fun s hs => h s (Setting.key_of_ofKey? hs)
  simp only [takeMember?, Option.bind_eq_bind, Option.bind_some, hnone]
  rfl

/-- A member gives the setting of its key. -/
theorem takeMember?_key (v : s.Value) (h : w.get? s = none) :
    w.takeMember? (some s.key, s.toJson v) = some (w.set s v) := by
  simp only [takeMember?, Option.bind_eq_bind, Option.bind_some, Setting.ofKey?_key, gives_eq, h,
    Option.isSome_none, Bool.false_eq_true, if_false, give?_eq, Setting.ofJson?_toJson,
    Option.map_some]

/-- Members with different keys give each setting the value under its key. -/
theorem foldlM_takeMember? (hkeys : (members.map Prod.fst).Nodup)
    (hvalues : ∀ (s : Setting) value, (s.key, value) ∈ members → ∃ v, value = s.toJson v)
    (hopen : ∀ s : Setting, s.key ∈ members.map Prod.fst → w.get? s = none) :
    ∃ w', (members.map fun (key, value) => (some key, value)).foldlM takeMember? w = some w' ∧
      ∀ s, w'.get? s = (configured? s members).or (w.get? s) := by
  induction members generalizing w with
  | nil => exact ⟨w, rfl, fun s => rfl⟩
  | cons member members ih =>
    obtain ⟨key, value⟩ := member
    rw [List.map_cons, List.nodup_cons] at hkeys
    have hvalues' := fun s value h => hvalues s value (List.mem_cons_of_mem _ h)
    rw [List.map_cons, List.foldlM_cons]
    by_cases hknown : ∃ s : Setting, s.key = key
    · obtain ⟨s, rfl⟩ := hknown
      obtain ⟨v, rfl⟩ := hvalues s value List.mem_cons_self
      rw [takeMember?_key v (hopen s List.mem_cons_self)]
      -- The members behind this one have other keys, so their settings are open as before.
      obtain ⟨w', hw', hget⟩ := ih hkeys.2 hvalues' (w := w.set s v) fun s' hs' => by
        rw [get?_set_of_ne w v fun he => hkeys.1 (he ▸ hs')]
        exact hopen s' (List.mem_cons_of_mem _ hs')
      refine ⟨w', hw', fun s' => ?_⟩
      rw [hget]
      by_cases hs' : s' = s
      · subst hs'
        rw [configured?_eq_none hkeys.1, configured?_cons_self, get?_set_self]
        rfl
      · rw [configured?_cons_of_ne fun he => hs' (Setting.key_inj he), get?_set_of_ne w v hs']
    · have hunknown : ∀ s : Setting, s.key ≠ key := fun s hs => hknown ⟨s, hs⟩
      rw [takeMember?_unknown hunknown]
      obtain ⟨w', hw', hget⟩ := ih hkeys.2 hvalues' fun s hs =>
        hopen s (List.mem_cons_of_mem _ hs)
      refine ⟨w', hw', fun s => ?_⟩
      rw [hget, configured?_cons_of_ne (hunknown s)]

/-- An object with different keys gives each setting the value under its key. -/
theorem ofJson?_object (hkeys : (members.map Prod.fst).Nodup)
    (hvalues : ∀ (s : Setting) value, (s.key, value) ∈ members → ∃ v, value = s.toJson v) :
    ∃ w, ofJson? (.object (members.map fun (key, value) => (some key, value))) = some w ∧
      ∀ s, w.get? s = configured? s members := by
  obtain ⟨w, hw, hget⟩ := foldlM_takeMember? hkeys hvalues fun s _ => get?_empty s
  exact ⟨w, hw, fun s => by rw [hget, get?_empty, Option.or_none]⟩

end Object

end Overrides

namespace CommandLine

/-! ## Settings on the command line -/

/-- The setting that a text gives as a flag, and the value that it gives it. -/
def assignment? (text : String) : Option ((s : Setting) × s.Value) :=
  match text with
  | "--ansi" => some ⟨.ansiDoubleQuotes, true⟩
  | "--keep-whitespace" => some ⟨.stripWhitespace, false⟩
  | "--quiet" => some ⟨.writeSyntaxErrorsToConsole, false⟩
  | "--no-throw" => some ⟨.throwOnSyntaxError, false⟩
  | "--quote-strings" => some ⟨.addRemovedStringQuotes, true⟩
  | "--reduce-enums" => some ⟨.reduceEnumsToOneElement, true⟩
  | _ =>
    match (Argument.valueFor? "--identifier-delimiter" text).map String.toList with
    | some [c] => some ⟨.identifierDelimiter, c⟩
    | _ => none

/-- The value that the text gives the setting, where it is a flag for it. -/
def flagValue? (s : Setting) (text : String) : Option s.Value :=
  (assignment? text).toList.dlookup s

/-- The setting that the argument gives, and its value. -/
def Argument.assignment? : Argument → Option ((s : Setting) × s.Value)
  | flag .ansi => some ⟨.ansiDoubleQuotes, true⟩
  | flag .keepWhitespace => some ⟨.stripWhitespace, false⟩
  | flag .quiet => some ⟨.writeSyntaxErrorsToConsole, false⟩
  | flag .noThrow => some ⟨.throwOnSyntaxError, false⟩
  | flag .quoteStrings => some ⟨.addRemovedStringQuotes, true⟩
  | flag .reduceEnums => some ⟨.reduceEnumsToOneElement, true⟩
  | delimiter c => some ⟨.identifierDelimiter, c⟩
  | _ => none

section Flags

variable {args : List String} {text : String} {a : Argument} {r r' : Request}

/-- A flag is told by its text. -/
theorem Says.assignment?_eq (h : Says text a) : assignment? text = a.assignment? := by
  unfold assignment?
  split
  · rw [h.unique (.flag .ansi)]
    rfl
  · rw [h.unique (.flag .keepWhitespace)]
    rfl
  · rw [h.unique (.flag .quiet)]
    rfl
  · rw [h.unique (.flag .noThrow)]
    rfl
  · rw [h.unique (.flag .quoteStrings)]
    rfl
  · rw [h.unique (.flag .reduceEnums)]
    rfl
  · rename_i hansi hkeep hquiet hthrow hquote hreduce
    rw [h.valueFor?_delimiter]
    cases a with
    | flag f =>
      have hword := (h.eq_word_iff f).2 rfl
      cases f with
      | ansi => exact absurd hword.symm hansi
      | keepWhitespace => exact absurd hword.symm hkeep
      | quiet => exact absurd hword.symm hquiet
      | noThrow => exact absurd hword.symm hthrow
      | quoteStrings => exact absurd hword.symm hquote
      | reduceEnums => exact absurd hword.symm hreduce
    | delimiter c => simp [Argument.char?, Argument.assignment?]
    | _ => rfl

/-- An argument gives the setting of its flag and no other. -/
theorem Argument.get?_overridesAfter (a : Argument) (w : Overrides) (s : Setting) :
    (a.overridesAfter w).get? s = (a.assignment?.toList.dlookup s).or (w.get? s) := by
  cases a with
  | flag f => cases f <;> cases s <;> rfl
  | delimiter c => cases s <;> rfl
  | _ => rfl

/-- One more argument gives the setting of its flag. -/
theorem get?_take (h : ∀ s, r.overrides.get? s = last? (flagValue? s) args) (ha : Says text a)
    (htake : r.take text a = .ok (.run r')) (s : Setting) :
    r'.overrides.get? s = last? (flagValue? s) (args ++ [text]) := by
  rw [(Request.take_eq_run htake).2.2.2, Argument.get?_overridesAfter, last?_snoc, h, flagValue?,
    ha.assignment?_eq]

/-- The overrides of a request are the last flags. -/
theorem get?_overrides_of_read (h : Command.read args = .ok (.run r)) (s : Setting) :
    r.overrides.get? s = last? (flagValue? s) args := by
  induction args using List.reverseRecOn generalizing r s with
  | nil =>
    cases h
    exact Overrides.get?_empty s
  | append_singleton args text ih =>
    obtain ⟨r', a, hr', ha, htake⟩ := Command.of_read_snoc h
    exact get?_take (ih hr') ha htake s

end Flags

/-! ## The settings of a run -/

theorem decode_toUTF8 (text : String) : decode (.ok text.toUTF8) = .ok text := by
  have hdecoded : String.fromUTF8? text.toUTF8 = some text := dif_pos text.isValidUTF8
  rw [decode, hdecoded]

/-- The settings file holds an object with these members, or no file is named and there are none.
A key is a text, which half a UTF-16 pair is not. -/
inductive SettingsFile (around : Surroundings Id) :
    Option String → List (String × Json) → Prop where
  | unnamed : SettingsFile around none []
  | named {path text : String} {members : List (String × Json)} :
      around.file path = .ok text.toUTF8 →
      Json.parse? text = some (.object (members.map fun (key, value) => (some key, value))) →
      SettingsFile around (some path) members

/-- The arguments request a run, and the members of its settings file have different keys, and
values of the right kind where the key is that of a setting. -/
structure Configured (around : Surroundings Id) (args : List String)
    (members : List (String × Json)) (r : Request) : Prop where
  read : Command.read args = .ok (.run r)
  file : SettingsFile around r.config members
  keys : (members.map Prod.fst).Nodup
  values : ∀ (s : Setting) value, (s.key, value) ∈ members → ∃ v, value = s.toJson v

section Run

variable {around : Surroundings Id} {args : List String} {members : List (String × Json)}
  {r : Request}

/-- The settings of a file are laid over the default ones. -/
theorem Configured.readOptions_eq (h : Configured around args members r) :
    ∃ base, readOptions around r.config = .ok base ∧
      ∀ s, base.get s = (Overrides.configured? s members).getD (Options.default.get s) := by
  obtain ⟨-, hfile, hkeys, hvalues⟩ := h
  generalize r.config = config at hfile ⊢
  cases hfile with
  | unnamed => exact ⟨.default, rfl, fun s => rfl⟩
  | @named path text members hfile hparse =>
    obtain ⟨w, hw, hget⟩ := Overrides.ofJson?_object hkeys hvalues
    have hoptions : Options.parse? text = some (w.apply .default) := by
      rw [Options.parse?, Overrides.parse?, hparse, Option.bind_some, hw, Option.map_some]
    refine ⟨w.apply .default, ?_, fun s => by rw [Overrides.get_apply, hget]⟩
    simp only [readOptions, readFile, hfile, decode_toUTF8, Except.mapError, hoptions, bind, pure]

/-- Each setting by itself comes from the flags, the file or the default. -/
theorem Configured.get_apply (h : Configured around args members r) :
    ∃ base, readOptions around r.config = .ok base ∧ ∀ s, (r.overrides.apply base).get s =
      ((last? (flagValue? s) args).or (Overrides.configured? s members)).getD
        (Options.default.get s) := by
  obtain ⟨base, hbase, hget⟩ := h.readOptions_eq
  refine ⟨base, hbase, fun s => ?_⟩
  rw [Overrides.get_apply, get?_overrides_of_read h.read, hget]
  cases last? (flagValue? s) args <;> rfl

theorem execute_of_readOptions {base : Options} (h : readOptions around r.config = .ok base) :
    execute around r =
      Except.map (Batch.run r.layout (r.overrides.apply base)) (readInput around r.source) := by
  simp only [execute, h, bind, pure]
  cases readInput around r.source <;> rfl

/-- A run has its settings from the last flags, what they leave out from the settings file, and what
this leaves out too as by default. Flags for other settings and members under other keys do not
matter to a setting. -/
theorem execute_settings (h : Configured around args members r) :
    ∃ base, readOptions around r.config = .ok base ∧
      execute around r =
        Except.map (Batch.run r.layout (r.overrides.apply base)) (readInput around r.source) ∧
      (∀ s, (r.overrides.apply base).get s =
        ((last? (flagValue? s) args).or (Overrides.configured? s members)).getD
          (Options.default.get s)) ∧
      ∀ {around' args' members' r' base'}, Configured around' args' members' r' →
        readOptions around' r'.config = .ok base' →
        ∀ s, args'.filter (fun text => (flagValue? s text).isSome) =
            args.filter (fun text => (flagValue? s text).isSome) →
          members'.lookup s.key = members.lookup s.key →
          (r'.overrides.apply base').get s = (r.overrides.apply base).get s := by
  obtain ⟨base, hbase, hget⟩ := h.get_apply
  refine ⟨base, hbase, execute_of_readOptions hbase, hget, ?_⟩
  intro around' args' members' r' base' h' hbase' s hflags hmember
  obtain ⟨_, hread, hget'⟩ := h'.get_apply
  cases hbase'.symm.trans hread
  rw [hget, hget', ← last?_filter _ args', hflags, last?_filter, Overrides.configured?,
    hmember, Overrides.configured?]

/-- A file gives two settings and a note, and flags give one of the two again and another twice. -/
theorem execute_settings_layers : ∃ (around : Surroundings Id) (r : Request) (base : Options),
    around.file "c" = .ok (String.toUTF8
      "\x7b\x22stripWhitespace\x22:true,\x22note\x22:[1],\x22reduceEnumsToOneElement\x22:true\x7d") ∧
    Command.read ["--config=c", "--keep-whitespace", "--identifier-delimiter=!",
      "--identifier-delimiter=\x22"] = .ok (.run r) ∧
    readOptions around r.config = .ok base ∧
    r.overrides.apply base = { Options.default with
      identifierDelimiter := '\x22'
      stripWhitespace := false
      reduceEnumsToOneElement := true } := by
  have hconfigured : Configured
      ⟨fun _ => Except.ok (String.toUTF8
        "\x7b\x22stripWhitespace\x22:true,\x22note\x22:[1],\x22reduceEnumsToOneElement\x22:true\x7d"),
        Except.error .notFound, fun _ => ""⟩
      ["--config=c", "--keep-whitespace", "--identifier-delimiter=!",
        "--identifier-delimiter=\x22"]
      [("stripWhitespace", .bool true), ("note", .array [.number "1"]),
        ("reduceEnumsToOneElement", .bool true)]
      ⟨some "c", { Overrides.empty with identifierDelimiter := '\x22', stripWhitespace := false },
        none, .whole⟩ :=
    { read := rfl
      file := .named rfl (by cbv)
      keys := by decide
      values := by
        intro s value h
        cases s <;> simp only [Setting.key, List.mem_cons, List.mem_nil_iff, Prod.mk.injEq,
          String.reduceEq, false_and, false_or, or_false, true_and] at h
        · exact ⟨true, h⟩
        · exact ⟨true, h⟩ }
  obtain ⟨base, hbase, -, hget, -⟩ := execute_settings hconfigured
  refine ⟨_, _, base, rfl, hconfigured.read, hbase, Options.ext_get fun s => ?_⟩
  rw [hget]
  cases s <;> rfl

end Run

end CommandLine
end QueryDigest
