import Mathlib.Data.List.Destutter
import QueryDigest.Proofs.Identifiers
import QueryDigest.Proofs.NextSign
import QueryDigest.Proofs.Trimming

/-!
# QueryDigest.Proofs.Spacing

The two ways to write whitespace. A scan that writes runs as one space and a scan that keeps every
space read the same tokens, but for the blanks, which are characters like others where they are kept
(`Reading.kept`). With every token the two texts written stay the same up to the length of their
runs of spaces (`singleSpaced_writtenFrom`), if no quoted identifier has such a run: an identifier is
written as it stands.

So the digest with single spaces is the digest with kept spaces `respaced`, and a scope is left open
for both or for neither (`report_respaced`). Where the answer to an open scope is a text that names
the error, the text behind the message is respaced, and nothing is trimmed at the seam
(`digest_respaced_message`).
-/

namespace QueryDigest
namespace Text

/-- Not both are spaces. -/
abbrev NotDoubled (a b : Char) : Prop :=
  a ≠ ' ' ∨ b ≠ ' '

/-- The characters with one space for each run of spaces. -/
def singleSpaced (cs : List Char) : List Char :=
  cs.destutter NotDoubled

/-- The text with one space for each run of spaces, trimmed. -/
def respaced (text : String) : String :=
  String.ofList (trimStart (trimEnd (singleSpaced text.toList)))

section SingleSpaced

variable {x y cs blanks : List Char}

theorem eq_of_doubled {a b : Char} (h : ¬ NotDoubled a b) : a = ' ' ∧ b = ' ' := by
  simpa [NotDoubled, not_or] using h

theorem exists_destutter' (a : Char) (x : List Char) :
    ∃ tail, x.destutter' NotDoubled a = a :: tail := by
  induction x generalizing a with
  | nil => exact ⟨[], rfl⟩
  | cons b x ih =>
    by_cases hab : NotDoubled a b
    · exact ⟨_, List.destutter'_cons_pos _ hab⟩
    · rw [List.destutter'_cons_neg _ hab]
      exact ih a

/-- What is kept of `y` behind `x` depends on the last character of `x` only. -/
theorem destutter'_append (a : Char) (x y : List Char) :
    (x ++ y).destutter' NotDoubled a =
      x.destutter' NotDoubled a ++ (y.destutter' NotDoubled (x.getLastD a)).tail := by
  induction x generalizing a with
  | nil =>
    obtain ⟨tail, htail⟩ := exists_destutter' a y
    rw [List.nil_append, List.getLastD_nil, htail]
    rfl
  | cons b x ih =>
    rw [List.cons_append, List.getLastD_cons]
    by_cases hab : NotDoubled a b
    · rw [List.destutter'_cons_pos _ hab, List.destutter'_cons_pos _ hab, ih b, List.cons_append]
    · obtain ⟨rfl, rfl⟩ := eq_of_doubled hab
      rw [List.destutter'_cons_neg _ hab, List.destutter'_cons_neg _ hab, ih ' ']

theorem getLast?_destutter' (a : Char) (x : List Char) :
    (x.destutter' NotDoubled a).getLast? = (a :: x).getLast? := by
  induction x using List.reverseRecOn with
  | nil => rfl
  | append_singleton x b ih =>
    rw [destutter'_append, ← List.cons_append, List.getLast?_concat]
    by_cases hab : NotDoubled (x.getLastD a) b
    · rw [List.destutter'_cons_pos _ hab]
      exact List.getLast?_concat
    · obtain ⟨ha, rfl⟩ := eq_of_doubled hab
      rw [List.destutter'_cons_neg _ hab, List.destutter'_nil, List.tail_cons, List.append_nil, ih,
        List.getLast?_cons, ← List.getLastD_eq_getLast?, ha]

theorem getLast?_singleSpaced (x : List Char) : (singleSpaced x).getLast? = x.getLast? := by
  cases x with
  | nil => rfl
  | cons a x => exact getLast?_destutter' a x

/-- No run of spaces goes over the place where neither side has one. -/
theorem singleSpaced_append (h : x.getLast? = some ' ' → y.head? ≠ some ' ') :
    singleSpaced (x ++ y) = singleSpaced x ++ singleSpaced y := by
  cases x with
  | nil => rfl
  | cons a x =>
    rw [List.getLast?_cons, ← List.getLastD_eq_getLast?] at h
    refine (destutter'_append a x y).trans (congrArg _ ?_)
    cases y with
    | nil => rfl
    | cons b y =>
      have hab : NotDoubled (x.getLastD a) b := by
        by_cases ha : x.getLastD a = ' '
        · exact .inr fun hb => h (congrArg some ha) (congrArg some hb)
        · exact .inl ha
      rw [List.destutter'_cons_pos _ hab]
      rfl

/-- A space behind a space is not written. -/
theorem singleSpaced_snoc_space (h : x.getLast? = some ' ') :
    singleSpaced (x ++ [' ']) = singleSpaced x := by
  cases x with
  | nil => cases h
  | cons a x =>
    rw [List.getLast?_cons, ← List.getLastD_eq_getLast?, Option.some.injEq] at h
    refine (destutter'_append a x [' ']).trans ?_
    rw [h]
    exact List.append_nil _

theorem isChain_of_not_doubled (h : ¬ [' ', ' '] <:+: cs) : cs.IsChain NotDoubled := by
  induction cs with
  | nil => exact .nil
  | cons a cs ih =>
    refine (ih fun hcs => h (hcs.trans (List.suffix_cons a cs).isInfix)).cons ?_
    intro b hb
    by_cases ha : a = ' '
    · refine .inr ?_
      rintro rfl
      obtain ⟨tail, rfl⟩ := List.head?_eq_some_iff.1 hb
      exact h ⟨[], tail, by rw [ha]; rfl⟩
    · exact .inl ha

theorem isChain_of_not_mem (h : ' ' ∉ cs) : cs.IsChain NotDoubled :=
  isChain_of_not_doubled fun hcs => h (hcs.subset List.mem_cons_self)

/-- What is trimmed at the end can be trimmed before the runs are shortened. -/
theorem trimEnd_singleSpaced_trimEnd (x : List Char) :
    trimEnd (singleSpaced (trimEnd x)) = trimEnd (singleSpaced x) := by
  obtain ⟨blanks, hx, hb⟩ := exists_trimEnd x
  have hlast : (trimEnd x).getLast? ≠ some ' ' := by
    intro h
    exact absurd (last_trimEnd x ' ' h) (by decide)
  have hblanks : ∀ d ∈ singleSpaced blanks, isBlank d = true := fun d hd =>
    hb d ((List.destutter_sublist _ blanks).subset hd)
  conv_rhs => rw [hx, singleSpaced_append fun h => absurd h hlast, trimEnd_append_blanks hblanks]

end SingleSpaced

end Text

namespace Scan

open Text

/-! ## What is read -/

/-- The token where spaces are kept. -/
def Token.kept : Token → Token
  | blank c => other c
  | t => t

section Read

variable {r : Rules} {before rest text tail : List Char} {t : Token} {ts : List Token}
  {scope : Option Scope}

theorem Token.spelling_kept (t : Token) : t.kept.spelling = t.spelling := by
  cases t <;> rfl

theorem spelling_kept (ts : List Token) : spelling (ts.map Token.kept) = spelling ts := by
  induction ts with
  | nil => rfl
  | cons t ts ih => rw [List.map_cons, spelling_cons, spelling_cons, ih, t.spelling_kept]

theorem identifier_mem_kept {q : Char} {inner : List Char} :
    .identifier q inner ∈ ts.map Token.kept ↔ .identifier q inner ∈ ts := by
  rw [List.mem_map]
  constructor
  · rintro ⟨t, ht, hkept⟩
    cases t <;> cases hkept
    exact ht
  · exact fun h => ⟨_, h, rfl⟩

theorem Reads.kept (h : Reads r before t rest) :
    Reads { r with strip := false } before t.kept rest := by
  cases h with
  | blank _ hw => exact reads_blankToken (r := { r with strip := false }) hw before rest
  | identifier hq hi => exact .identifier hq hi
  | string hq hbody hr => exact .string hq hbody hr
  | lineComment hid hm ht hr => exact .lineComment hid hm ht hr
  | blockComment hid hno => exact .blockComment hid hno
  | number hd hm hr => exact .number hd hm hr
  | signedNumber hid hs hb hd hm hr => exact .signedNumber hid hs hb hd hm hr
  | name hid hn hm hr => exact .name hid hn hm hr
  | other h => exact .other { h with blank := rfl }

theorem ReadsAll.kept (h : ReadsAll r before ts rest) :
    ReadsAll { r with strip := false } before (ts.map Token.kept) rest := by
  induction h with
  | nil => exact .nil
  | @cons before rest t ts hread _ ih =>
    refine .cons ?_ ?_
    · rw [spelling_kept]
      exact hread.kept
    · rw [t.spelling_kept]
      exact ih

theorem Ending.kept (h : Ending r scope tail) : Ending { r with strip := false } scope tail := by
  cases h with
  | done => exact .done
  | unclosed h =>
    cases h with
    | string hq hbody => exact .unclosed (.string hq hbody)
    | identifier hq hi => exact .unclosed (.identifier hq hi)
    | blockComment hid hno => exact .unclosed (.blockComment hid hno)

/-- Where spaces are kept, a text has the same tokens but for its blanks. -/
theorem Reading.kept (rd : Reading r text ts scope tail) :
    Reading { r with strip := false } text (ts.map Token.kept) scope tail where
  text_eq := by rw [spelling_kept, rd.text_eq]
  reads := rd.reads.kept
  ending := rd.ending.kept

end Read

/-! ## What is written -/

section Written

variable {r : Rules} {before rest out : List Char} {t : Token} {ts : List Token}

/-- Nothing is written that begins with a space or has a run of spaces in it. -/
def Solid (w : List Char) : Prop :=
  w.head? ≠ some ' ' ∧ w.IsChain NotDoubled

theorem solid_of_not_mem {w : List Char} (h : ' ' ∉ w) : Solid w :=
  ⟨fun hw => h (List.mem_of_mem_head? hw), isChain_of_not_mem h⟩

theorem Solid.singleSpaced_append {w : List Char} (h : Solid w) (out : List Char) :
    singleSpaced (out ++ w) = singleSpaced out ++ w := by
  rw [Text.singleSpaced_append fun _ => h.1]
  exact congrArg _ (List.destutter_of_isChain _ _ h.2)

theorem delimiter_ne_space (q : Quotes) : q.delimiter ≠ ' ' := by
  intro h
  have := q.delimiter_punctuation
  rw [h] at this
  exact absurd this (by decide)

theorem solid_delimiter_cons (q : Quotes) {inner : List Char} (h : ¬ [' ', ' '] <:+: inner) :
    Solid (q.delimiter :: inner) := by
  refine ⟨?_, (isChain_of_not_doubled h).cons fun _ _ => .inl (delimiter_ne_space q)⟩
  rw [List.head?_cons, ne_eq, Option.some.injEq]
  exact delimiter_ne_space q

theorem solid_quoted (q : Quotes) {inner : List Char} (h : ¬ [' ', ' '] <:+: inner) :
    Solid (q.delimiter :: (inner ++ [q.delimiter])) := by
  obtain ⟨hhead, hchain⟩ := solid_delimiter_cons q h
  refine ⟨hhead, hchain.append (.singleton _) fun _ _ d hd => .inr ?_⟩
  obtain rfl := Option.some.inj hd
  exact delimiter_ne_space q

theorem Reads.solid (hs : r.strip = true) (hp : ' ' ∉ r.placeholder.toList)
    (h : Reads r before t rest) (hid : ∀ q inner, t = .identifier q inner → ¬ [' ', ' '] <:+: inner)
    (hblank : ∀ c, t ≠ .blank c) (out : List Char) : Solid (t.written r out) := by
  cases h with
  | blank _ _ => exact absurd rfl (hblank _)
  | identifier _ _ => exact solid_quoted r.quotes (hid _ _ rfl)
  | string _ _ _ => exact solid_of_not_mem hp
  | lineComment _ _ _ _ | blockComment _ _ => exact solid_of_not_mem List.not_mem_nil
  | number _ _ _ | signedNumber _ _ _ _ _ _ => exact solid_of_not_mem (by simp [Token.written])
  | name _ hfirst hmore _ =>
    refine solid_of_not_mem ?_
    rw [Token.written, List.mem_cons, not_or]
    exact ⟨(ne_of_hasChar hfirst (by decide)).symm, fun hc => absurd (hmore _ hc) (by decide)⟩
  | @other c _ h =>
    have hblank := h.not_whitespace hs
    refine solid_of_not_mem ?_
    rw [Token.written, not_lineWhitespace hblank, if_neg Bool.false_ne_true, List.mem_singleton]
    rintro rfl
    cases hblank

theorem Token.written_kept (ht : ∀ c, t ≠ .blank c) (out out' : List Char) :
    t.kept.written { r with strip := false } out = t.written r out' := by
  cases t with
  | blank c => exact absurd rfl (ht c)
  | _ => rfl

/-- A blank is written as one space where spaces are kept. -/
theorem Reads.written_kept_blank {c : Char} (h : Reads r before (.blank c) rest) (out : List Char) :
    (Token.blank c).kept.written { r with strip := false } out = [' '] := by
  cases h with
  | blank _ hw =>
    rcases eq_of_whitespace hw with rfl | rfl | rfl | rfl <;> rfl

/-- With every token, the text written with single spaces is the one with kept spaces, up to the
length of its runs. -/
theorem singleSpaced_writtenFrom (hs : r.strip = true) (hp : ' ' ∉ r.placeholder.toList)
    (hid : ∀ q inner, .identifier q inner ∈ ts → ¬ [' ', ' '] <:+: inner)
    (hreads : ReadsAll r before ts rest) (out : List Char) :
    writtenFrom r (singleSpaced out) ts =
      singleSpaced (writtenFrom { r with strip := false } out (ts.map Token.kept)) := by
  induction hreads generalizing out with
  | nil => rfl
  | @cons before rest t ts hread _ ih =>
    have ih' := ih (fun q inner hmem => hid q inner (List.mem_cons_of_mem t hmem))
      (out ++ t.kept.written { r with strip := false } out)
    refine Eq.trans ?_ ih'
    rw [writtenFrom, List.foldl_cons]
    refine congrArg (fun out => writtenFrom r out ts) ?_
    by_cases ht : ∀ c, t ≠ .blank c
    · have hsolid := hread.solid hs hp (fun q inner h => hid q inner (h ▸ List.mem_cons_self)) ht out
      rw [Token.written_kept ht out out, hsolid.singleSpaced_append]
      refine congrArg _ ?_
      cases t with
      | blank c => exact absurd rfl (ht c)
      | _ => rfl
    · obtain ⟨c, rfl⟩ : ∃ c, t = .blank c := by simpa using ht
      rw [hread.written_kept_blank, Token.written, getLast?_singleSpaced]
      split
      · rename_i hout
        rw [singleSpaced_snoc_space hout, List.append_nil]
      · rename_i hout
        rw [Text.singleSpaced_append fun h => absurd h hout]
        rfl

/-- What is written for an open scope has no run of spaces either. -/
theorem Ending.solid {scope : Scope} {tail : List Char} (hp : ' ' ∉ r.placeholder.toList)
    (h : Ending r (some scope) tail)
    (hid : scope = .identifier → ∀ q inner, tail = q :: inner → ¬ [' ', ' '] <:+: inner) :
    Solid (scope.written r tail) := by
  cases h with
  | unclosed h =>
    cases h with
    | string _ _ =>
      rw [Scope.written]
      split
      · exact solid_of_not_mem List.not_mem_nil
      · exact solid_of_not_mem hp
    | identifier _ _ => exact solid_delimiter_cons r.quotes (hid rfl _ _ rfl)
    | blockComment _ _ => exact solid_of_not_mem List.not_mem_nil

end Written

/-! ## Digests -/

section Digests

variable {o : Options} {r : Rules}

theorem ofOptions_strip (hr : Rules.ofOptions o = .ok r) (strip : Bool) :
    Rules.ofOptions { o with stripWhitespace := strip } = .ok { r with strip := strip } := by
  obtain ⟨h, rfl⟩ := Rules.eq_of_ofOptions hr
  rw [Rules.ofOptions, Options.quotes, dif_pos h]
  rfl

theorem not_mem_placeholder (hr : Rules.ofOptions o = .ok r) : ' ' ∉ r.placeholder.toList := by
  obtain ⟨_, rfl⟩ := Rules.eq_of_ofOptions hr
  show ' ' ∉ o.stringPlaceholder.toList
  rw [Options.stringPlaceholder]
  split <;> decide

/-- The trimmed text with single spaces is the trimmed text with kept spaces, respaced. -/
theorem trim_singleSpaced (o : Options) (cs : List Char) :
    { o with stripWhitespace := true }.trim (String.ofList (singleSpaced cs)) =
      respaced ({ o with stripWhitespace := false }.trim (String.ofList cs)) := by
  rw [respaced, Options.trim, Options.trim]
  simp only [if_true, Bool.false_eq_true, if_false, String.toList_ofList,
    trimEnd_singleSpaced_trimEnd]

/-- No quoted identifier of the reading has a run of spaces. -/
theorem not_doubled_of_passes {query : String} {ts : List Token} {scope : Option Scope}
    {tail : List Char} (hid : ∀ inner, PassesIdentifier r query inner → ¬ [' ', ' '] <:+: inner)
    (rd : Reading { r with strip := true } query.toList ts scope tail) :
    (∀ q inner, .identifier q inner ∈ ts → ¬ [' ', ' '] <:+: inner) ∧
      (scope = some .identifier → ∀ q inner, tail = q :: inner → ¬ [' ', ' '] <:+: inner) := by
  have hpasses : ∀ inner, ((∃ q, .identifier q inner ∈ ts) ∨
      scope = some .identifier ∧ ∃ q, tail = q :: inner) → PassesIdentifier r query inner := by
    intro inner h
    -- the rules are those of the reading, or those of the reading with the blanks kept
    obtain ⟨quotes, strip, placeholder⟩ := r
    cases strip with
    | true => exact (passesIdentifier_iff rd).2 h
    | false =>
      refine (passesIdentifier_iff rd.kept).2 ?_
      simpa only [identifier_mem_kept] using h
  exact ⟨fun q inner hmem => hid inner (hpasses inner (.inl ⟨q, hmem⟩)),
    fun hscope q inner htail => hid inner (hpasses inner (.inr ⟨hscope, q, htail⟩))⟩

/-- The reports on a query with single spaces and with kept spaces differ in spaces only. -/
theorem report_respaced (hr : Rules.ofOptions o = .ok r)
    (hreduce : o.reduceEnumsToOneElement = false) {query : String}
    (hid : ∀ inner, PassesIdentifier r query inner → ¬ [' ', ' '] <:+: inner) :
    (∃ single kept,
      scan { r with strip := true } (Source.ofText query) = some (.finished single) ∧
      scan { r with strip := false } (Source.ofText query) = some (.finished kept) ∧
      ∃ text, text = { o with stripWhitespace := false }.trim kept ∧
        report { o with stripWhitespace := false } query = ⟨.ok text, []⟩ ∧
        report { o with stripWhitespace := true } query = ⟨.ok (respaced text), []⟩) ∨
    (∃ scope offset single kept,
      scan { r with strip := true } (Source.ofText query) = some (.unclosed scope offset single) ∧
      scan { r with strip := false } (Source.ofText query) = some (.unclosed scope offset kept) ∧
      ∃ text, text = { o with stripWhitespace := false }.trim kept ∧
        report { o with stripWhitespace := false } query = o.refuse ⟨scope, offset, query, text⟩ ∧
        report { o with stripWhitespace := true } query =
          o.refuse ⟨scope, offset, query, respaced text⟩) := by
  obtain ⟨ts, scope, tail, rd⟩ := Reading.exists { r with strip := true } query.toList
  obtain ⟨hts, htail⟩ := not_doubled_of_passes hid rd
  have hp := not_mem_placeholder hr
  have hwritten : written { r with strip := true } ts =
      singleSpaced (written { r with strip := false } (ts.map Token.kept)) :=
    singleSpaced_writtenFrom (r := { r with strip := true }) rfl hp hts rd.reads []
  have hkept := report_eq (ofOptions_strip hr false) rd.kept
  have hsingle := report_eq (ofOptions_strip hr true) rd
  cases scope with
  | none =>
    refine .inl ⟨_, _, scan_eq rd, scan_eq rd.kept, _, rfl, ?_, ?_⟩
    · rw [hkept, Options.deliver]
      exact if_neg (Bool.eq_false_iff.1 hreduce)
    · rw [hsingle, hwritten, trim_singleSpaced, Options.deliver]
      exact if_neg (Bool.eq_false_iff.1 hreduce)
  | some scope =>
    have hscope : Solid (scope.written r tail) :=
      Ending.solid (r := { r with strip := true }) hp rd.ending fun h => htail (congrArg some h)
    have hscan := scan_eq rd.kept
    rw [outcome, spelling_kept] at hscan
    refine .inr ⟨_, _, _, _, scan_eq rd, hscan, _, rfl, ?_, ?_⟩
    · rw [hkept, spelling_kept]
      rfl
    · have htext := trim_singleSpaced o
        (written { r with strip := false } (ts.map Token.kept) ++ scope.written r tail)
      rw [hscope.singleSpaced_append, ← hwritten] at htext
      exact hsingle.trans (congrArg (fun text => o.refuse ⟨scope, _, query, text⟩) htext)

/-- What is left of a comment between two blanks is one space or two. -/
theorem report_respaced_comment : ∃ r, Rules.ofOptions .default = .ok r ∧
    Options.default.reduceEnumsToOneElement = false ∧
    (∀ inner, PassesIdentifier r "\x60a b\x60\t/**/ c" inner → ¬ [' ', ' '] <:+: inner) ∧
    report { Options.default with stripWhitespace := false } "\x60a b\x60\t/**/ c" =
      ⟨.ok "\x60a b\x60  c", []⟩ ∧
    report { Options.default with stripWhitespace := true } "\x60a b\x60\t/**/ c" =
      ⟨.ok "\x60a b\x60 c", []⟩ := by
  generalize hr : (⟨⟨'\x60', by decide, .mysql⟩, true, "?"⟩ : Rules) = r
  have hok : Rules.ofOptions .default = .ok r := by
    rw [← hr]
    rfl
  have rd : Reading r "\x60a b\x60\t/**/ c".toList
      [.identifier '\x60' ['a', ' ', 'b'], .blank '\t', .blockComment [], .blank ' ', .name 'c' []]
      none [] := by
    subst hr
    refine ⟨by decide, .cons (.identifier (by decide) (by decide)) ?_, .done⟩
    refine .cons (.blank rfl (by decide)) (.cons (.blockComment (by decide) (by decide)) ?_)
    exact .cons (.blank rfl (by decide)) (.cons (.name (by decide) (by decide) (by simp) (by simp))
      .nil)
  have hid : ∀ inner, PassesIdentifier r "\x60a b\x60\t/**/ c" inner → ¬ [' ', ' '] <:+: inner := by
    intro inner h
    rcases (passesIdentifier_iff rd).1 h with ⟨q, hmem⟩ | ⟨hscope, -⟩
    · obtain ⟨-, rfl⟩ : q = '\x60' ∧ inner = ['a', ' ', 'b'] := by simpa using hmem
      decide
    · cases hscope
  have hkept : report { Options.default with stripWhitespace := false } "\x60a b\x60\t/**/ c" =
      ⟨.ok "\x60a b\x60  c", []⟩ := by
    rw [report_eq (ofOptions_strip hok false) rd.kept]
    subst hr
    rfl
  refine ⟨r, hok, rfl, hid, hkept, ?_⟩
  rcases report_respaced hok rfl hid with
    ⟨_, _, -, -, text, -, h, hsingle⟩ | ⟨_, _, _, _, -, -, _, -, h, -⟩
  · obtain rfl : "\x60a b\x60  c" = text := by simpa using hkept.symm.trans h
    exact hsingle
  · cases hkept.symm.trans h

/-- No text is written in front of an open comment, so the answer ends in the space behind the
message, which is no part of what is trimmed. -/
theorem digest_respaced_message : ∃ o r text, Rules.ofOptions o = .ok r ∧
    o.reduceEnumsToOneElement = false ∧
    (∀ inner, PassesIdentifier r "/*" inner → ¬ [' ', ' '] <:+: inner) ∧
    digest { o with stripWhitespace := false } "/*" = .ok text ∧
    digest { o with stripWhitespace := true } "/*" = .ok text ∧ text ≠ respaced text := by
  generalize hr : (⟨⟨'\x60', by decide, .mysql⟩, true, "?"⟩ : Rules) = r
  have hok : Rules.ofOptions { Options.default with throwOnSyntaxError := false } = .ok r := by
    rw [← hr]
    rfl
  have rd : Reading r "/*".toList [] (some .blockComment) ['/', '*'] := by
    subst hr
    exact ⟨rfl, .nil, .unclosed (.blockComment (by decide) (by decide))⟩
  refine ⟨_, r, Scope.blockComment.message ++ ": ", hok, rfl, fun inner h => ?_, ?_, ?_, ?_⟩
  · rcases (passesIdentifier_iff rd).1 h with ⟨q, hmem⟩ | ⟨hscope, -⟩
    · cases hmem
    · cases hscope
  · exact digest_eq (ofOptions_strip hok false) rd.kept
  · subst hr
    exact digest_eq (ofOptions_strip hok true) rd
  · decide +kernel

end Digests

end Scan
end QueryDigest
