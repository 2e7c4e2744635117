import QueryDigest.Proofs.Answers
import QueryDigest.Proofs.InputLines
import QueryDigest.Proofs.Settings

/-!
# QueryDigest.Proofs.Exits

How the program ends. `Ends around args exit` tells each end by what is read, with no word of how: of
a file or of standard input either the bytes are those of a text, or it is `Unread`. What is said of
a settings file or an input that fails is spelled out in it, with the reason that the system or the
reader of settings gives. The program ends in every case (`exists_ends`) and as told
(`Ends.program_eq`), so there is one end for each command line (`program_ends`). Only a run that `Starts` writes to standard output. It fails only with one of
its queries, and no query fails where syntax errors are not thrown (`Batch.run_ok`).
-/

namespace QueryDigest

/-! ## Runs in which no query fails -/

section NotThrown

variable {o : Options}

theorem Options.exists_rules (hd : isAsciiPunctuation o.identifierDelimiter = true) :
    ∃ r, Scan.Rules.ofOptions o = .ok r := by
  refine ⟨⟨⟨o.identifierDelimiter, hd, o.dialect⟩, o.stripWhitespace, o.stringPlaceholder⟩, ?_⟩
  rw [Scan.Rules.ofOptions, Options.quotes, dif_pos hd]
  rfl

/-- Where syntax errors are not thrown, every query has a digest. -/
theorem Scan.isOk_report (hd : isAsciiPunctuation o.identifierDelimiter = true)
    (hthrow : o.throwOnSyntaxError = false) (query : String) :
    (report o query).answer.isOk = true := by
  obtain ⟨r, hr⟩ := o.exists_rules hd
  obtain ⟨ts, scope, tail, rd⟩ := Reading.exists r query.toList
  rw [report_eq hr rd]
  cases scope with
  | none =>
    dsimp only
    rw [Options.deliver_eq]
    rfl
  | some scope =>
    dsimp only
    rw [Options.refuse, hthrow]
    rfl

namespace Batch

theorem ok_transcript {reports : List (Nat × Report)} {out : List String}
    (h : ∀ n report, (n, report) ∈ reports → report.answer.isOk = true) :
    (transcript reports out).ok = true := by
  rw [transcript, List.all_eq_true]
  rintro ⟨n, report⟩ hmem
  exact h n report hmem

/-- A run fails only with one of its queries. -/
theorem run_ok (h : ∀ query, (report o query).answer.isOk = true) (layout : Layout)
    (input : String) : (run layout o input).ok = true := by
  have hlines : ∀ n report, (n, report) ∈ lineReports o input → report.answer.isOk = true := by
    intro n rep hmem
    rw [lineReports, List.mem_map] at hmem
    obtain ⟨⟨m, query⟩, -, heq⟩ := hmem
    cases heq
    exact h query
  cases layout with
  | whole =>
    rw [← isOk_answer]
    exact h input
  | lines => exact ok_transcript hlines
  | count => exact ok_transcript hlines

end Batch

end NotThrown

namespace CommandLine

/-! ## What is read -/

/-- No text is read, for this cause: the system says why, or the bytes are those of no text. -/
inductive Unread (read : Except SystemError ByteArray) : String → Prop where
  | failed {text : String} {code : Nat} : read = .error ⟨text, code⟩ →
      Unread read (text ++ " (os error " ++ toString code ++ ")")
  | noText {bytes : ByteArray} : read = .ok bytes → (∀ text : String, bytes ≠ text.toUTF8) →
      Unread read "stream did not contain valid UTF-8"

section Surroundings

variable (around : Surroundings Id)

/-- These are the settings before any flag: the default ones, or those of the file that is named. -/
inductive Configures : Option String → Options → Prop where
  | unnamed : Configures none .default
  | named {path text : String} {base : Options} : around.file path = .ok text.toUTF8 →
      Options.parse? text = some base → Configures (some path) base

/-- The file that is named gives no settings, of which this is said: it is not read, or the reader of
settings refuses its text for a reason of its own. -/
inductive Misconfigures : Option String → String → Prop where
  | unread {path cause : String} : Unread (around.file path) cause →
      Misconfigures (some path) ("cannot read " ++ path ++ ": " ++ cause)
  | rejected {path text : String} : around.file path = .ok text.toUTF8 →
      Options.parse? text = none →
      Misconfigures (some path) ("invalid config " ++ path ++ ": " ++ around.refusal text)

/-- The input is this text. -/
inductive Supplies : Input → String → Prop where
  | stdin {text : String} : around.stdin = .ok text.toUTF8 → Supplies .stdin text
  | file {path text : String} : around.file path = .ok text.toUTF8 → Supplies (.file path) text

/-- The input is no text, of which this is said. -/
inductive Withholds : Input → String → Prop where
  | stdin {cause : String} : Unread around.stdin cause →
      Withholds .stdin ("cannot read standard input: " ++ cause)
  | file {path cause : String} : Unread (around.file path) cause →
      Withholds (.file path) ("cannot read " ++ path ++ ": " ++ cause)

variable (args : List String)

/-- A run starts with these settings on this input. -/
structure Starts (r : Request) (o : Options) (input : String) : Prop where
  read : Command.read args = .ok (.run r)
  configures : ∃ base, Configures around r.config base ∧ r.overrides.apply base = o
  supplies : Supplies around r.source input

/-- The ends of the program. The settings come before the input, and the arguments before both. -/
inductive Ends : Exit → Prop where
  | refused {e : ArgumentError} : Command.read args = .error e →
      Ends ⟨2, "", Batch.line ("error: " ++ e.message) ++ Batch.line usageHint⟩
  | helped : Command.read args = .ok .help → Ends ⟨0, "", String.join (usageLines.map Batch.line)⟩
  | misconfigured {r : Request} {message : String} : Command.read args = .ok (.run r) →
      Misconfigures around r.config message → Ends ⟨1, "", "error: " ++ message ++ "\n"⟩
  | withheld {r : Request} {base : Options} {message : String} :
      Command.read args = .ok (.run r) → Configures around r.config base →
      Withholds around r.source message → Ends ⟨1, "", "error: " ++ message ++ "\n"⟩
  | ran {r : Request} {o : Options} {input : String} : Starts around args r o input →
      Ends ⟨if (Batch.run r.layout o input).ok then 0 else 1, (Batch.run r.layout o input).out,
        (Batch.run r.layout o input).err⟩

end Surroundings

section Reading

variable {read : Except SystemError ByteArray} {cause : String}

theorem toUTF8_of_fromUTF8? {bytes : ByteArray} {text : String}
    (h : String.fromUTF8? bytes = some text) : bytes = text.toUTF8 := by
  rw [String.fromUTF8?, Option.dite_none_right_eq_some] at h
  obtain ⟨hvalid, h⟩ := h
  cases h
  rfl

theorem Unread.decode_eq (h : Unread read cause) : decode read = .error cause := by
  cases h with
  | failed h => rw [h, decode, SystemError.message]
  | @noText bytes h hno =>
    rw [h]
    cases htext : String.fromUTF8? bytes with
    | some text => exact absurd (toUTF8_of_fromUTF8? htext) (hno text)
    | none => simp only [decode, htext]

theorem text_or_unread (read : Except SystemError ByteArray) :
    (∃ text : String, read = .ok text.toUTF8) ∨ ∃ cause, Unread read cause := by
  cases read with
  | error e =>
    obtain ⟨text, code⟩ := e
    exact .inr ⟨_, .failed rfl⟩
  | ok bytes =>
    by_cases htext : ∃ text : String, bytes = text.toUTF8
    · obtain ⟨text, rfl⟩ := htext
      exact .inl ⟨text, rfl⟩
    · exact .inr ⟨_, .noText rfl fun text h => htext ⟨text, h⟩⟩

end Reading

section Program

variable {around : Surroundings Id} {args : List String} {config : Option String} {source : Input}
  {base : Options} {message input : String}

theorem readFile_eq {path text : String} (h : around.file path = .ok text.toUTF8) :
    readFile around path = .ok text := by
  simp only [readFile, h, decode_toUTF8, Except.mapError, bind, pure]

theorem Unread.readFile_eq {path cause : String} (h : Unread (around.file path) cause) :
    readFile around path = .error (.file path cause) := by
  simp only [readFile, h.decode_eq, Except.mapError, bind, pure]

theorem Configures.readOptions_eq (h : Configures around config base) :
    readOptions around config = .ok base := by
  cases h with
  | unnamed => rfl
  | named hfile hparse => simp only [readOptions, readFile_eq hfile, hparse, bind, pure]

theorem Misconfigures.readOptions_eq (h : Misconfigures around config message) :
    ∃ failure, readOptions around config = .error failure ∧ failure.message = message := by
  cases h with
  | @unread path cause h =>
    refine ⟨.file path cause, ?_, rfl⟩
    simp only [readOptions, h.readFile_eq, bind, pure]
  | @rejected path text hfile hparse =>
    refine ⟨.config path (around.refusal text), ?_, rfl⟩
    simp only [readOptions, readFile_eq hfile, hparse, bind, pure]

theorem Supplies.readInput_eq (h : Supplies around source input) :
    readInput around source = .ok input := by
  cases h with
  | stdin h => simp only [readInput, h, decode_toUTF8, Except.mapError, bind, pure]
  | file h => exact readFile_eq h

theorem Withholds.readInput_eq (h : Withholds around source message) :
    ∃ failure, readInput around source = .error failure ∧ failure.message = message := by
  cases h with
  | @stdin cause h =>
    refine ⟨.stdin cause, ?_, rfl⟩
    simp only [readInput, h.decode_eq, Except.mapError, bind, pure]
  | @file path cause h => exact ⟨.file path cause, h.readFile_eq, rfl⟩

theorem configures_or_misconfigures (around : Surroundings Id) (config : Option String) :
    (∃ base, Configures around config base) ∨ ∃ message, Misconfigures around config message := by
  cases config with
  | none => exact .inl ⟨_, .unnamed⟩
  | some path =>
    rcases text_or_unread (around.file path) with ⟨text, htext⟩ | ⟨cause, h⟩
    · cases hparse : Options.parse? text with
      | some base => exact .inl ⟨base, .named htext hparse⟩
      | none => exact .inr ⟨_, .rejected htext hparse⟩
    · exact .inr ⟨_, .unread h⟩

theorem supplies_or_withholds (around : Surroundings Id) (source : Input) :
    (∃ input, Supplies around source input) ∨ ∃ message, Withholds around source message := by
  cases source with
  | stdin =>
    rcases text_or_unread around.stdin with ⟨text, htext⟩ | ⟨cause, h⟩
    · exact .inl ⟨text, .stdin htext⟩
    · exact .inr ⟨_, .stdin h⟩
  | file path =>
    rcases text_or_unread (around.file path) with ⟨text, htext⟩ | ⟨cause, h⟩
    · exact .inl ⟨text, .file htext⟩
    · exact .inr ⟨_, .file h⟩

/-- The program ends in one of these ways. -/
theorem exists_ends (around : Surroundings Id) (args : List String) :
    ∃ exit, Ends around args exit := by
  cases hread : Command.read args with
  | error e => exact ⟨_, .refused hread⟩
  | ok command =>
    cases command with
    | help => exact ⟨_, .helped hread⟩
    | run r =>
      rcases configures_or_misconfigures around r.config with ⟨base, hbase⟩ | ⟨message, h⟩
      · rcases supplies_or_withholds around r.source with ⟨input, hinput⟩ | ⟨message, h⟩
        · exact ⟨_, .ran ⟨hread, ⟨base, hbase, rfl⟩, hinput⟩⟩
        · exact ⟨_, .withheld hread hbase h⟩
      · exact ⟨_, .misconfigured hread h⟩

/-- The program ends as told. -/
theorem Ends.program_eq {exit : Exit} (h : Ends around args exit) :
    Id.run (program around args) = exit := by
  cases h with
  | refused hread => simp only [program, hread, Id.run, pure]
  | helped hread => simp only [program, hread, Id.run, pure]
  | misconfigured hread h =>
    obtain ⟨failure, hfailure, rfl⟩ := h.readOptions_eq
    simp only [program, hread, execute, hfailure, Id.run, bind, pure, Batch.line]
  | withheld hread hbase h =>
    obtain ⟨failure, hfailure, rfl⟩ := h.readInput_eq
    simp only [program, hread, execute_of_readOptions hbase.readOptions_eq, hfailure, Id.run,
      Except.map, bind, pure, Batch.line]
  | ran h =>
    obtain ⟨hread, ⟨base, hbase, rfl⟩, hinput⟩ := h
    simp only [program, hread, execute_of_readOptions hbase.readOptions_eq, hinput.readInput_eq,
      Id.run, Except.map, bind, pure]

theorem Ends.out_eq_empty_or_starts {exit : Exit} (h : Ends around args exit) :
    exit.out = "" ∨ ∃ r o input, Starts around args r o input := by
  cases h with
  | refused _ | helped _ | misconfigured _ _ | withheld _ _ _ => exact .inl rfl
  | ran h => exact .inr ⟨_, _, _, h⟩

theorem status_eq_zero_iff (ok : Bool) : (if ok then 0 else 1 : UInt32) = 0 ↔ ok = true := by
  cases ok <;> decide

/-- The program ends as its arguments, then its settings file, then its input say, and writes to
standard output only in a run that has all three. A run ends well exactly if each of its queries has
a digest, which they all have where the delimiter is accepted and syntax errors are not thrown. -/
theorem program_ends (around : Surroundings Id) (args : List String) :
    (∀ exit, Id.run (program around args) = exit ↔ Ends around args exit) ∧
    ((Id.run (program around args)).out ≠ "" → ∃ r o input, Starts around args r o input) ∧
    ∀ r o input, Starts around args r o input →
      ((Id.run (program around args)).status = 0 ↔ (Batch.run r.layout o input).ok = true) ∧
      (o.throwOnSyntaxError = false → isAsciiPunctuation o.identifierDelimiter = true →
        (Id.run (program around args)).status = 0) := by
  obtain ⟨exit, hends⟩ := exists_ends around args
  refine ⟨?_, ?_, ?_⟩
  · intro exit'
    constructor
    · rintro rfl
      rw [hends.program_eq]
      exact hends
    · intro h
      exact h.program_eq
  · intro hout
    rw [hends.program_eq] at hout
    exact hends.out_eq_empty_or_starts.resolve_left hout
  · intro r o input h
    rw [(Ends.ran h).program_eq]
    refine ⟨status_eq_zero_iff _, ?_⟩
    intro hthrow hd
    exact (status_eq_zero_iff _).2 (Batch.run_ok (Scan.isOk_report hd hthrow) r.layout input)

/-- An open string that is told in a text, and settings that are refused although the input is no text
either. -/
theorem program_ends_open_string :
    ∃ refusal : String → String,
      refusal "[" = "EOF while parsing a list at line 1 column 1" ∧
      (∃ r o, Starts ⟨fun _ => Except.error .notFound, Except.ok (String.toUTF8 "'x"), refusal⟩
          ["--no-throw"] r o "'x" ∧ o.throwOnSyntaxError = false ∧
        isAsciiPunctuation o.identifierDelimiter = true ∧
        (Id.run (program ⟨fun _ => Except.error .notFound, Except.ok (String.toUTF8 "'x"), refusal⟩
          ["--no-throw"])).status = 0) ∧
      Id.run (program ⟨fun _ => Except.ok (String.toUTF8 "["), Except.ok ⟨#[0xff]⟩, refusal⟩
          ["--config=c"]) =
        ⟨1, "", "error: invalid config c: EOF while parsing a list at line 1 column 1\n"⟩ := by
  refine ⟨fun _ => "EOF while parsing a list at line 1 column 1", rfl, ?_, ?_⟩
  · have hstarts : Starts ⟨fun _ => Except.error .notFound, Except.ok (String.toUTF8 "'x"),
        fun _ => "EOF while parsing a list at line 1 column 1"⟩
        ["--no-throw"] ⟨none, { throwOnSyntaxError := some false }, none, .whole⟩
        { Options.default with throwOnSyntaxError := false } "'x" :=
      ⟨rfl, ⟨_, .unnamed, rfl⟩, .stdin rfl⟩
    refine ⟨_, _, hstarts, rfl, by decide, ?_⟩
    exact ((program_ends _ _).2.2 _ _ _ hstarts).2 rfl (by decide)
  · have hread : Command.read ["--config=c"] = .ok (.run ⟨some "c", .empty, none, .whole⟩) := rfl
    have hparse : Options.parse? "[" = none := by cbv
    exact ((program_ends _ _).1 _).2 (.misconfigured hread (.rejected rfl hparse))

end Program

end CommandLine
end QueryDigest
