import Awayuki.CustomSql.Items
import Awayuki.Library.SqlText

/-!
# Containment of custom timeline SQL

What SQLite makes of a statement within the query that is put around it.

* `scan_spec`: what the scan has accepted ends outside quotes and block comments, and has no
  semicolon;
* `Contained`: the parentheses of the query enclose the statement, its limit is outside quotes and
  comments, and its placeholders are the only ones;
* `contained_iff`: so it is when the statement is balanced, has no placeholders and does not end in
  a comment to the end of the line.
-/

namespace Awayuki.CustomSql

open SqlText

/-! ### Pieces of a text -/

variable {mode' mode'' : Mode} {space statement : Str}

/-- The modes in which an accepted text may end. -/
def ends : Mode → Bool
  | .code | .word | .dash | .slash | .line | .closed _ => true
  | _ => false

/-- Is what follows read as at the beginning of a text? -/
def Meets (mode : Mode) (text : Str) : Prop := ∀ c ∈ text.head?,
  advance mode c = advance .code c ∧
    (mark mode c = some .semicolon ↔ mark .code c = some .semicolon)

/-- No semicolon and nothing left open, unless there is a zero character. -/
def CleanFrom (mode : Mode) (text : Str) : Prop :=
  '\x00' ∉ text → some .semicolon ∉ marks mode text ∧ ends (run mode text) = true

def Clean (text : Str) : Prop := CleanFrom .code text

variable {mode : Mode} {c q : Char} {item rest text : Str}

theorem clean_nil : Clean [] := fun _ => ⟨List.not_mem_nil, rfl⟩

theorem CleanFrom.append (hitem : CleanFrom mode item)
    (hmeets : '\x00' ∉ item → Meets (run mode item) rest) (hrest : Clean rest) :
    CleanFrom mode (item ++ rest) := by
  intro hzero
  rw [List.mem_append, not_or] at hzero
  obtain ⟨hsemicolon, hends⟩ := hitem hzero.1
  obtain ⟨hsemicolon', hends'⟩ := hrest hzero.2
  rw [marks_append, run_append, List.mem_append, not_or]
  cases rest with
  | nil => exact ⟨⟨hsemicolon, List.not_mem_nil⟩, hends⟩
  | cons c rest =>
    obtain ⟨hadvance, hmark⟩ := hmeets hzero.1 c rfl
    refine ⟨⟨hsemicolon, ?_⟩, ?_⟩
    · intro hmem
      rw [marks, hadvance] at hmem
      refine hsemicolon' ?_
      rcases List.mem_cons.1 hmem with hhead | htail
      · exact List.mem_cons.2 (.inl (hmark.1 hhead.symm).symm)
      · exact List.mem_cons_of_mem _ htail
    · rw [run_cons, hadvance]
      exact hends'

theorem mark_eq_none (h : reads mode c = false) : mark mode c = none := by
  unfold mark
  rw [h]
  rfl

theorem mark_eq_semicolon : mark mode c = some .semicolon ↔ reads mode c = true ∧ c = ';' := by
  constructor
  · intro h
    cases hreads : reads mode c with
    | false =>
      rw [mark_eq_none hreads] at h
      cases h
    | true =>
      refine ⟨rfl, ?_⟩
      unfold mark at h
      rw [hreads] at h
      by_contra hne
      rw [Bool.not_true, if_neg Bool.false_ne_true, if_neg hne] at h
      split_ifs at h <;> cases h
  · rintro ⟨hreads, rfl⟩
    unfold mark
    rw [hreads]
    rfl

/-- What is read is read as at the beginning. -/
theorem meets_of_reads (h : ∀ c ∈ text.head?, reads mode c = true) : Meets mode text := by
  intro c hc
  refine ⟨advance_of_reads (h c hc), ?_⟩
  rw [mark_eq_semicolon, mark_eq_semicolon, h c hc]
  rfl

theorem meets_code : Meets .code text := fun _ _ => ⟨rfl, Iff.rfl⟩

theorem Meets.of_append {after : Str} (h : Meets mode (text ++ after)) : Meets mode text := by
  intro c hc
  refine h c ?_
  cases text with
  | nil => cases hc
  | cons d text => exact hc

/-! ### What the loops skip -/

/-- From a mode to another, with nothing read on the way. -/
def Passes (mode : Mode) (text : Str) (mode' : Mode) : Prop :=
  '\x00' ∉ text → run mode text = mode' ∧ some .semicolon ∉ marks mode text

theorem Passes.cons (hreads : reads mode c = false) (hnext : next mode c = mode')
    (h : Passes mode' text mode'') : Passes mode (c :: text) mode'' := by
  intro hzero
  rw [List.mem_cons, not_or] at hzero
  obtain ⟨hrun, hmarks⟩ := h hzero.2
  have hadvance : advance mode c = mode' := (advance_of_ne_zero (Ne.symm hzero.1)).trans hnext
  refine ⟨by rw [run_cons, hadvance, hrun], ?_⟩
  rw [marks, hadvance, mark_eq_none hreads, List.mem_cons, not_or]
  exact ⟨nofun, hmarks⟩

theorem passes_nil (mode : Mode) : Passes mode [] mode := fun _ => ⟨rfl, List.not_mem_nil⟩

theorem skipBlock_spec (h : skipBlock text = some rest) :
    ∃ skipped, text = skipped ++ rest ∧ Passes .block skipped .code ∧
      (text.head? ≠ some '/' → Passes .star skipped .code) := by
  induction text with
  | nil => cases h
  | cons c text ih =>
    unfold skipBlock at h
    split_ifs at h with hend
    · rw [Bool.and_eq_true, decide_eq_true_eq, decide_eq_true_eq] at hend
      obtain ⟨rfl, hslash⟩ := hend
      cases h
      cases text with
      | nil => cases hslash
      | cons d text =>
        cases hslash
        have hstar : Passes .star ['/'] .code := (passes_nil .code).cons rfl rfl
        exact ⟨['*', '/'], rfl, hstar.cons rfl rfl, fun _ => hstar.cons rfl rfl⟩
    · obtain ⟨skipped, htext, hblock, hstar⟩ := ih h
      have hpasses : Passes (next .block c) skipped .code := by
        show Passes (if c = '*' then .star else .block) skipped .code
        split_ifs with hc
        · refine hstar fun hslash => hend ?_
          rw [hc, hslash]
          rfl
        · exact hblock
      refine ⟨c :: skipped, congrArg (c :: ·) htext, hpasses.cons rfl rfl, fun hc => ?_⟩
      have hne : c ≠ '/' := fun heq => hc (by rw [heq]; rfl)
      have hnext : next .star c = next .block c := if_neg hne
      exact hpasses.cons rfl hnext

theorem skipQuoted_spec (h : skipQuoted q text = some rest) :
    ∃ skipped, text = skipped ++ rest ∧ Passes (.quote q) skipped (.closed q) ∧
      ∀ c ∈ rest.head?, c ≠ q := by
  induction text using skipQuoted.induct q with
  | case1 => cases h
  | case2 =>
    rw [skipQuoted, if_pos rfl] at h
    cases h
    exact ⟨[q], rfl, (passes_nil _).cons rfl (if_pos rfl), fun _ hnone => by cases hnone⟩
  | case3 c hc =>
    rw [skipQuoted, if_neg hc] at h
    cases h
  | case4 text ih =>
    rw [skipQuoted, if_pos rfl, if_pos rfl] at h
    obtain ⟨skipped, rfl, hpasses, hnext⟩ := ih h
    refine ⟨q :: q :: skipped, rfl, ?_, hnext⟩
    have hclosed : Passes (.closed q) (q :: skipped) (.closed q) :=
      hpasses.cons (by simp [reads]) (if_pos rfl)
    exact hclosed.cons rfl (if_pos rfl)
  | case5 d text hd =>
    rw [skipQuoted, if_pos rfl, if_neg hd] at h
    cases h
    exact ⟨[q], rfl, (passes_nil _).cons rfl (if_pos rfl), by simp [hd]⟩
  | case6 c d text hc ih =>
    rw [skipQuoted, if_neg hc] at h
    obtain ⟨skipped, hskipped, hpasses, hnext⟩ := ih h
    exact ⟨c :: skipped, congrArg (c :: ·) hskipped, hpasses.cons rfl (if_neg hc), hnext⟩

theorem skipBracket_spec (h : skipBracket text = some rest) :
    ∃ skipped, text = skipped ++ rest ∧ Passes .bracket skipped .code := by
  induction text with
  | nil => cases h
  | cons c text ih =>
    unfold skipBracket at h
    split_ifs at h with hc
    · cases h
      exact ⟨[c], rfl, (passes_nil _).cons rfl (if_pos hc)⟩
    · obtain ⟨skipped, htext, hpasses⟩ := ih h
      exact ⟨c :: skipped, congrArg (c :: ·) htext, hpasses.cons rfl (if_neg hc)⟩

theorem Passes.clean (h : Passes mode text mode') (hends : ends mode' = true) :
    CleanFrom mode text := by
  intro hzero
  obtain ⟨hrun, hmarks⟩ := h hzero
  rw [hrun]
  exact ⟨hmarks, hends⟩

/-- A first character and what it opens. -/
theorem passes_cons (hstart : start c = mode') (hc : c ≠ ';') (hitem : Passes mode' item mode'') :
    Passes .code (c :: item) mode'' := by
  intro hzero
  rw [List.mem_cons, not_or] at hzero
  obtain ⟨hrun, hmarks⟩ := hitem hzero.2
  have hadvance : advance .code c = mode' := (advance_of_ne_zero (Ne.symm hzero.1)).trans hstart
  refine ⟨by rw [run_cons, hadvance, hrun], ?_⟩
  rw [marks, hadvance, List.mem_cons, not_or]
  exact ⟨fun h => hc (mark_eq_semicolon.1 h.symm).2, hmarks⟩

theorem start_of_isQuote (h : isQuote c = true) : start c = .quote c := by
  have hc : c = '\'' ∨ c = '\x22' ∨ c = '\x60' := by simpa [isQuote] using h
  rcases hc with rfl | rfl | rfl <;> rfl

theorem start_of_isIdentifierByte (h : isIdentifierByte c = true) : start c = .word := by
  have hne (d : Char) (hd : isIdentifierByte d = false) : c ≠ d := fun heq => by
    rw [heq, hd] at h
    cases h
  have hquote : SqlText.isQuote c = false := by
    simp [SqlText.isQuote, hne '\'' rfl, hne '\x22' rfl, hne '\x60' rfl]
  have hid : isIdChar c = true := by
    unfold isIdentifierByte at h
    unfold isIdChar
    rw [h]
    rfl
  unfold start
  rw [if_neg (hne '-' rfl), if_neg (hne '/' rfl), hquote, if_neg Bool.false_ne_true,
    if_neg (hne '[' rfl), if_pos hid]

theorem passes_word {word : Str} (h : ∀ c ∈ word, isIdentifierByte c = true) :
    Passes .word word .word := by
  induction word with
  | nil => exact passes_nil _
  | cons c word ih =>
    rw [List.forall_mem_cons] at h
    have hc : c ≠ ';' := by
      rintro rfl
      exact absurd h.1 (by decide)
    intro hzero
    rw [List.mem_cons, not_or] at hzero
    obtain ⟨hrun, hmarks⟩ := ih h.2 hzero.2
    have hadvance : advance .word c = .word :=
      (advance_of_ne_zero (Ne.symm hzero.1)).trans (start_of_isIdentifierByte h.1)
    refine ⟨by rw [run_cons, hadvance, hrun], ?_⟩
    rw [marks, hadvance, List.mem_cons, not_or]
    exact ⟨fun hmark => hc (mark_eq_semicolon.1 hmark.symm).2, hmarks⟩

theorem passes_space (h : isAsciiWhitespace c = true) : Passes .code [c] .code := by
  have hc : c = ' ' ∨ c = '\t' ∨ c = '\n' ∨ c = '\x0c' ∨ c = '\r' := by
    simpa [isAsciiWhitespace, or_assoc] using h
  rcases hc with rfl | rfl | rfl | rfl | rfl <;> exact passes_cons rfl (by decide) (passes_nil _)

/-- A comment to the end of the line. -/
theorem passes_line {skipped : Str} (h : '\n' ∉ skipped) :
    Passes .code ('-' :: '-' :: skipped) .line := by
  have hline : Passes .line skipped .line := by
    induction skipped with
    | nil => exact passes_nil _
    | cons c skipped ih =>
      rw [List.mem_cons, not_or] at h
      exact (ih h.2).cons rfl (if_neg (Ne.symm h.1))
  exact passes_cons rfl (by decide) (hline.cons rfl rfl)

/-- A character that begins no quotes and no comment. -/
theorem start_other (rest : Str) (hquote : isQuote c = false) (hbracket : c ≠ '[')
    (hdash : c = '-' → rest.head? ≠ some '-') (hslash : c = '/' → rest.head? ≠ some '*') :
    ends (start c) = true ∧ Meets (start c) rest := by
  have hquote' : SqlText.isQuote c = false := hquote
  unfold start
  rw [hquote', if_neg Bool.false_ne_true, if_neg hbracket]
  split_ifs with h h h
  · refine ⟨rfl, meets_of_reads fun d hd => ?_⟩
    have hne : d ≠ '-' := fun heq => hdash h (heq ▸ hd)
    simpa [reads] using hne
  · refine ⟨rfl, meets_of_reads fun d hd => ?_⟩
    have hne : d ≠ '*' := fun heq => hslash h (heq ▸ hd)
    simpa [reads] using hne
  · exact ⟨rfl, meets_of_reads fun _ _ => rfl⟩
  · exact ⟨rfl, meets_code⟩

/-- An item is passed without a semicolon, and what is behind it is read as at the beginning. -/
theorem Item.passes (h : Item item rest) :
    ∃ mode, Passes .code item mode ∧ ends mode = true ∧ Meets mode rest := by
  cases h with
  | blank hblank =>
    cases hblank with
    | space hspace => exact ⟨.code, passes_space hspace, rfl, meets_code⟩
    | line hnewline hnext =>
      refine ⟨.line, passes_line hnewline, rfl, fun c hc => ?_⟩
      obtain rfl := hnext c hc
      exact ⟨rfl, by decide⟩
    | block hskipped =>
      obtain ⟨skipped, htext, hpasses, -⟩ := skipBlock_spec (hskipped rest)
      obtain rfl := List.append_cancel_right htext
      have hslash : Passes .slash ('*' :: _) .code := hpasses.cons rfl rfl
      exact ⟨.code, passes_cons (by decide) (by decide) hslash, rfl, meets_code⟩
  | quoted hquote hnext hskipped =>
    rename_i q skipped
    obtain ⟨skipped', htext, hpasses, -⟩ := skipQuoted_spec (hskipped rest hnext)
    obtain rfl := List.append_cancel_right htext
    have hq : q ≠ ';' := by
      rintro rfl
      exact absurd hquote (by decide)
    refine ⟨.closed q, passes_cons (start_of_isQuote hquote) hq hpasses, rfl,
      meets_of_reads fun d hd => ?_⟩
    have hne : d ≠ q := fun heq => hnext (heq ▸ hd)
    simpa [reads] using hne
  | bracket hskipped =>
    obtain ⟨skipped', htext, hpasses⟩ := skipBracket_spec (hskipped rest)
    obtain rfl := List.append_cancel_right htext
    exact ⟨.code, passes_cons (by decide) (by decide) hpasses, rfl, meets_code⟩
  | word hword =>
    rename_i c word
    rw [List.forall_mem_cons] at hword
    refine ⟨.word, passes_cons (start_of_isIdentifierByte hword.1) ?_ (passes_word hword.2), rfl,
      meets_of_reads fun _ _ => rfl⟩
    rintro rfl
    exact absurd hword.1 (by decide)
  | other hquote hbracket hsemicolon hdash hslash =>
    obtain ⟨hends, hmeets⟩ := start_other rest hquote hbracket hdash hslash
    exact ⟨_, passes_cons rfl hsemicolon (passes_nil _), hends, hmeets⟩

theorem Items.clean (h : Items text rest) : Clean text := by
  induction h with
  | nil => exact clean_nil
  | cons hitem _ ih =>
    obtain ⟨mode, hpasses, hends, hmeets⟩ := hitem.passes
    refine (hpasses.clean hends).append (fun hzero => ?_) ih
    rw [(hpasses hzero).1]
    exact hmeets.of_append

/-! ### The scan -/

section Scan

variable {sql done : Str} {turns : ℕ} {first : Option Str}
  {result : Option Str × Option Str}

/-- The statement within a text: all of it, or what is before a semicolon. -/
def Accepted (done text : Str) (result : Option Str × Option Str) : Prop :=
  ∃ body, Clean body ∧ (result.2 = none ∧ text = body ∨
    ∃ after, result.2 = some (done ++ body) ∧ text = body ++ ';' :: after)

theorem scan_spec (hsql : sql = done ++ text) (hturns : text.length ≤ turns)
    (h : scan sql turns text first none = .ok result) : Accepted done text result := by
  rcases scan_items hsql hturns h with ⟨hnone, hitems⟩ | ⟨body, after, htext, hsome, hitems, -⟩
  · exact ⟨text, hitems.clean, .inl ⟨hnone, rfl⟩⟩
  · exact ⟨body, hitems.clean, .inr ⟨after, hsome, htext⟩⟩

end Scan

/-! ### The statement -/

theorem start_of_isWhitespace (h : Str.isWhitespace c = true) :
    c ≠ '\x00' ∧ (start c = .code ∨ start c = .word) := by
  have hne (d : Char) (hd : Str.isWhitespace d = false) : c ≠ d := fun heq => by
    rw [heq, hd] at h
    cases h
  have hquote : SqlText.isQuote c = false := by
    simp [SqlText.isQuote, hne '\'' (by decide), hne '\x22' (by decide), hne '\x60' (by decide)]
  refine ⟨hne '\x00' (by decide), ?_⟩
  unfold start
  rw [if_neg (hne '-' (by decide)), if_neg (hne '/' (by decide)), hquote,
    if_neg Bool.false_ne_true, if_neg (hne '[' (by decide))]
  split_ifs
  · exact .inr rfl
  · exact .inl rfl

/-- White space at the beginning opens nothing. -/
theorem run_space (h : ∀ c ∈ space, Str.isWhitespace c = true)
    (hmode : mode = .code ∨ mode = .word) : run mode space = .code ∨ run mode space = .word := by
  induction space generalizing mode with
  | nil => exact hmode
  | cons c space ih =>
    rw [List.forall_mem_cons] at h
    obtain ⟨hzero, hstart⟩ := start_of_isWhitespace h.1
    have hreads : reads mode c = true := by rcases hmode with rfl | rfl <;> rfl
    rw [run_cons, advance_of_ne_zero hzero, next_of_reads hreads]
    exact ih h.2 hstart

theorem clean_of_clean_append (h : ∀ c ∈ space, Str.isWhitespace c = true)
    (hclean : Clean (space ++ text)) : Clean text := by
  intro hzero
  have hspace : '\x00' ∉ space := fun hmem => (start_of_isWhitespace (h _ hmem)).1 rfl
  obtain ⟨hsemicolon, hends⟩ := hclean (by simp [hspace, hzero])
  rw [marks_append, List.mem_append, not_or] at hsemicolon
  rw [run_append] at hends
  cases text with
  | nil => exact ⟨List.not_mem_nil, rfl⟩
  | cons c text =>
    have hreads : reads (run .code space) c = true := by
      rcases run_space h (.inl rfl) with hrun | hrun <;> rw [hrun] <;> rfl
    rw [run_cons, advance_of_reads hreads] at hends
    refine ⟨fun hmem => hsemicolon.2 ?_, hends⟩
    rw [marks, advance_of_reads hreads]
    rw [marks] at hmem
    rcases List.mem_cons.1 hmem with hhead | htail
    · refine List.mem_cons.2 (.inl (mark_eq_semicolon.2 ⟨hreads, ?_⟩).symm)
      exact (mark_eq_semicolon.1 hhead.symm).2
    · exact List.mem_cons_of_mem _ htail

/-- Only quotes are looked for. -/
def Quotes (mode : Mode) : Prop := ∀ q, mode = .quote q ∨ mode = .closed q → isQuote q = true

theorem quotes_start (c : Char) : Quotes (start c) := by
  intro q h
  unfold start at h
  split_ifs at h with hdash hslash hquote hbracket hid
  all_goals simp at h
  subst h
  exact hquote

theorem quotes_advance (h : Quotes mode) : Quotes (advance mode c) := by
  unfold advance
  split_ifs with hzero
  · exact nofun
  · cases mode with
    | code => exact quotes_start c
    | word => exact quotes_start c
    | quote q =>
      intro q' h'
      refine h q' (.inl ?_)
      simp only [next] at h'
      split_ifs at h' <;> simpa using h'
    | closed q =>
      simp only [next]
      split_ifs with hc
      · intro q' h'
        exact h q' (.inr (by simpa using h'))
      · exact quotes_start c
    | dash =>
      simp only [next]
      split_ifs
      · exact nofun
      · exact quotes_start c
    | slash =>
      simp only [next]
      split_ifs
      · exact nofun
      · exact quotes_start c
    | star =>
      simp only [next]
      split_ifs <;> exact nofun
    | line =>
      simp only [next]
      split_ifs <;> exact nofun
    | block =>
      simp only [next]
      split_ifs <;> exact nofun
    | bracket =>
      simp only [next]
      split_ifs <;> exact nofun
    | ended => exact nofun

theorem quotes_code : Quotes .code := by
  rintro q (h | h)
  · cases h
  · cases h

theorem quotes_run (text : Str) (h : Quotes mode) : Quotes (run mode text) := by
  induction text generalizing mode with
  | nil => exact h
  | cons c text ih => exact ih (quotes_advance h)

/-- White space at the end closes nothing but a comment to the end of the line. -/
theorem ends_of_ends_advance (hquotes : Quotes mode) (hc : Str.isWhitespace c = true)
    (h : ends (advance mode c) = true) : ends mode = true := by
  have hne (d : Char) (hd : Str.isWhitespace d = false) : c ≠ d := fun heq => by
    rw [heq, hd] at hc
    cases hc
  rw [advance_of_ne_zero (hne '\x00' (by decide))] at h
  cases mode with
  | block =>
    rw [show next .block c = .block from if_neg (hne '*' (by decide))] at h
    cases h
  | star =>
    have hnext : next .star c = .block :=
      (if_neg (hne '/' (by decide))).trans (if_neg (hne '*' (by decide)))
    rw [hnext] at h
    cases h
  | quote q =>
    have hq : c ≠ q := fun heq => by
      have hquote := hquotes q (.inl rfl)
      rw [← heq] at hquote
      have hmem : c = '\'' ∨ c = '\x22' ∨ c = '\x60' := by simpa [isQuote] using hquote
      rcases hmem with rfl | rfl | rfl <;> exact absurd hc (by decide)
    rw [show next (.quote q) c = .quote q from if_neg hq] at h
    cases h
  | bracket =>
    rw [show next .bracket c = .bracket from if_neg (hne ']' (by decide))] at h
    cases h
  | ended => exact h
  | code => rfl
  | word => rfl
  | dash => rfl
  | slash => rfl
  | line => rfl
  | closed q => rfl

theorem ends_of_ends_run (hquotes : Quotes mode) (hspace : ∀ c ∈ space, Str.isWhitespace c = true)
    (h : ends (run mode space) = true) : ends mode = true := by
  induction space generalizing mode with
  | nil => exact h
  | cons c space ih =>
    rw [List.forall_mem_cons] at hspace
    exact ends_of_ends_advance hquotes hspace.1 (ih (quotes_advance hquotes) hspace.2 h)

theorem clean_trim (h : Clean text) : Clean (Str.trim text) := by
  have hstart : Clean (Str.trimStart text) := by
    have hspace : ∀ c ∈ text.takeWhile Str.isWhitespace, Str.isWhitespace c = true :=
      fun c hc => List.mem_takeWhile_imp hc
    refine clean_of_clean_append hspace ?_
    rw [Str.trimStart, List.takeWhile_append_dropWhile]
    exact h
  generalize hs : Str.trimStart text = s at hstart
  have htext : s = Str.trimEnd s ++ s.rtakeWhile Str.isWhitespace :=
    (List.rdropWhile_append_rtakeWhile).symm
  rw [Str.trim, hs]
  intro hzero
  have hspace : ∀ c ∈ s.rtakeWhile Str.isWhitespace, Str.isWhitespace c = true :=
    fun c hc => List.mem_rtakeWhile_imp hc
  have hzero' : '\x00' ∉ s := by
    rw [htext, List.mem_append, not_or]
    exact ⟨hzero, fun hmem => (start_of_isWhitespace (hspace _ hmem)).1 rfl⟩
  obtain ⟨hsemicolon, hends⟩ := hstart hzero'
  rw [htext, marks_append, List.mem_append, not_or] at hsemicolon
  rw [htext, run_append] at hends
  exact ⟨hsemicolon.1, ends_of_ends_run (quotes_run _ quotes_code) hspace hends⟩

/-- What is accepted is clean. -/
theorem clean_of_validate {sql : Str} (h : validate sql = .ok statement) : Clean statement := by
  obtain ⟨first, terminated, hscan, rfl⟩ := validate_ok h
  obtain ⟨body, hbody, hresult⟩ := scan_spec (List.nil_append sql).symm le_rfl hscan
  rcases hresult with ⟨hnone, rfl⟩ | ⟨after, hsome, -⟩
  · obtain rfl : terminated = none := hnone
    exact clean_trim hbody
  · obtain rfl : terminated = some body := hsome
    exact clean_trim hbody

/-! ### The query -/

/-- The statement is within the parentheses, and nothing else of the query is changed by it. -/
structure Contained (wrapper : Wrapper) (statement : Str) : Prop where
  encloses : closer 0 (marks (run .code wrapper.before) (statement ++ wrapper.after)) =
    some statement.length
  outside : readsAll (run .code (wrapper.before ++ statement)) wrapper.after = true
  placeholders : some .parameter ∉ marks (run .code wrapper.before) statement
  single : some .semicolon ∉ marks .code (wrapper.wrap statement)

/-- What the statement has to be for that. -/
structure Wrappable (statement : Str) : Prop where
  balanced : balance 0 (marks .code statement) = some 0
  placeholders : some .parameter ∉ marks .code statement
  noLine : run .code statement ≠ .line
  noZero : '\x00' ∉ statement

def wrappers : List Wrapper := [limited, paged, explained]

/-- What the queries have in common. -/
structure Wrapper.Encloses (wrapper : Wrapper) : Prop where
  before : run .code wrapper.before = .code
  after : ∃ after, wrapper.after = ')' :: after ∧ readsAll .code after = true
  semicolons : some .semicolon ∉ marks .code wrapper.before ++ marks .code wrapper.after

variable {wrapper : Wrapper}

theorem encloses_of_mem (h : wrapper ∈ wrappers) : wrapper.Encloses := by
  have hwrapper : wrapper = limited ∨ wrapper = paged ∨ wrapper = explained := by
    simpa [wrappers] using h
  rcases hwrapper with rfl | rfl | rfl
  · exact ⟨by decide +kernel, ⟨_, rfl, by decide +kernel⟩, by decide +kernel⟩
  · exact ⟨by decide +kernel, ⟨_, rfl, by decide +kernel⟩, by decide +kernel⟩
  · exact ⟨by decide +kernel, ⟨_, rfl, by decide +kernel⟩, by decide +kernel⟩

/-- A parenthesis is read in every mode in which a text may end, but for the comment. -/
theorem reads_of_ends (h : ends mode = true) (hline : mode ≠ .line) (hquotes : Quotes mode) :
    reads mode ')' = true := by
  cases mode with
  | code => rfl
  | word => rfl
  | dash => rfl
  | slash => rfl
  | closed q =>
    have hquote := hquotes q (.inr rfl)
    have hq : q ≠ ')' := by
      rintro rfl
      exact absurd hquote (by decide)
    simpa [reads] using Ne.symm hq
  | line => exact absurd rfl hline
  | block => cases h
  | star => cases h
  | quote q => cases h
  | bracket => cases h
  | ended => cases h

theorem mark_paren (h : reads mode ')' = true) : mark mode ')' = some .closes := by
  unfold mark
  rw [h]
  rfl

/-- The query contains the statement exactly when the statement can be put in parentheses. -/
theorem contained_iff (hwrapper : wrapper.Encloses) (hclean : Clean statement) :
    Contained wrapper statement ↔ Wrappable statement := by
  obtain ⟨hbefore, ⟨after, hafter, hreads⟩, hsemicolons⟩ := hwrapper
  have hmarks (hread : reads (run .code statement) ')' = true) :
      marks .code (statement ++ wrapper.after) =
        marks .code statement ++ some .closes :: marks .code after := by
    rw [marks_append, hafter, marks, mark_paren hread, advance_of_reads hread]
    rfl
  constructor
  · intro h
    have houtside := h.outside
    rw [run_append, hbefore, hafter, readsAll, Bool.and_eq_true] at houtside
    refine ⟨?_, ?_, fun hline => ?_, fun hzero => ?_⟩
    · have hencloses := h.encloses
      rw [hbefore, hmarks houtside.1, ← length_marks .code statement] at hencloses
      exact closer_eq_length.1 hencloses
    · have hplaceholders := h.placeholders
      rwa [hbefore] at hplaceholders
    · rw [hline] at houtside
      cases houtside.1
    · rw [run_of_zero hzero] at houtside
      cases houtside.1
  · intro h
    obtain ⟨hsemicolon, hends⟩ := hclean h.noZero
    have hread := reads_of_ends hends h.noLine (quotes_run statement quotes_code)
    refine ⟨?_, ?_, ?_, ?_⟩
    · rw [hbefore, hmarks hread, ← length_marks .code statement]
      exact closer_eq_length.2 h.balanced
    · rw [run_append, hbefore, hafter, readsAll, hread, advance_of_reads hread]
      exact hreads
    · rw [hbefore]
      exact h.placeholders
    · rw [Wrapper.wrap, List.append_assoc, marks_append, hbefore, hmarks hread]
      rw [hafter, marks] at hsemicolons
      simp only [List.mem_append, List.mem_cons, not_or] at hsemicolons ⊢
      exact ⟨hsemicolons.1, hsemicolon, nofun, hsemicolons.2.2⟩

/-- An accepted statement is contained in its query exactly when it is balanced outside quotes and
comments, has no placeholders, and does not end in a comment or at a zero character. -/
theorem custom_sql_contained {sql statement : Str} (h : validate sql = .ok statement) :
    ∀ wrapper ∈ wrappers, Contained wrapper statement ↔ Wrappable statement :=
  fun _ hwrapper => contained_iff (encloses_of_mem hwrapper) (clean_of_validate h)

/-- The parenthesis closes that of the query, and the limit is in a comment. -/
theorem not_custom_sql_contained : ¬ ∀ sql statement, validate sql = .ok statement →
    ∀ wrapper ∈ wrappers, Contained wrapper statement := by
  intro h
  let sql : Str := "SELECT * FROM statuses) x --"
  have hvalidate : validate sql = .ok sql := by decide +kernel
  have houtside := (h sql sql hvalidate paged (by simp [wrappers])).outside
  revert houtside
  decide +kernel

theorem custom_sql_contained_statuses : Contained paged "SELECT * FROM statuses" := by
  have hvalidate : validate " SELECT * FROM statuses ; -- all" =
      .ok ("SELECT * FROM statuses" : String).toList := by decide +kernel
  refine (custom_sql_contained hvalidate paged (by simp [wrappers])).2 ⟨?_, ?_, ?_, ?_⟩
  all_goals decide +kernel

end Awayuki.CustomSql
