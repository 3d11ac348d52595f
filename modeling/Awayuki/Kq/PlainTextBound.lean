import Awayuki.Kq.PlainText

/-!
# KQ: the size of plain text

`html_to_plain_text` stops once its text has `MAX_DERIVED_TEXT_BYTES` bytes, but looks only after a
plain character: a line break does not stop it, and the last character may go past the limit.

* `Scan`: the state of the main loop between two characters, `Scan.step` what one character does
  to it without the limit, and `Scan.stops` where the limit ends the loop;
* `Overruns`: a character that is written across the limit;
* `plainTextUnbounded`: the conversion without the limit.
-/

namespace Awayuki.Kq

/-! ### The main loop -/

variable {cs : List Char} {c : Char} {html : Str}

/-- The variables of the main loop, with the tag being read. -/
structure Scan where
  output : Str
  suppressedTag : Option Str
  tag : Option Str

variable {s : Scan}

namespace Scan

def start : Scan := ⟨[], none, none⟩

/-- Is the character text, not markup? -/
def reads (s : Scan) (c : Char) : Bool := s.tag.isNone && c != '<'

/-- One character, without the limit. -/
def step (s : Scan) (c : Char) : Scan :=
  match s.tag with
  | some tag =>
    if c = '>' then
      ⟨(applyTag s.output s.suppressedTag tag).1, (applyTag s.output s.suppressedTag tag).2, none⟩
    else ⟨s.output, s.suppressedTag, some (if tag.len < 256 then tag ++ [c] else tag)⟩
  | none =>
    if c = '<' then ⟨s.output, s.suppressedTag, some []⟩
    else ⟨if s.suppressedTag.isNone then s.output ++ [c] else s.output, s.suppressedTag, none⟩

/-- Does the limit end the loop after this character? -/
def stops (s : Scan) (c : Char) : Bool :=
  s.reads c && decide (MAX_DERIVED_TEXT_BYTES ≤ (s.step c).output.len)

/-- The text once all is read: a tag that is open at the end counts. -/
def finish (s : Scan) : Str :=
  match s.tag with
  | some tag => (applyTag s.output s.suppressedTag tag).1
  | none => s.output

/-- The main loop from a state on. -/
def strip (s : Scan) (cs : List Char) : Str := stripTags s.output s.suppressedTag s.tag cs

/-- All the characters, without the limit. -/
def run (s : Scan) (cs : List Char) : Scan := cs.foldl step s

@[simp] theorem run_nil (s : Scan) : s.run [] = s := rfl

@[simp] theorem run_cons (s : Scan) (c : Char) (cs : List Char) :
    s.run (c :: cs) = (s.step c).run cs := rfl

@[simp] theorem run_append (s : Scan) (cs ds : List Char) :
    s.run (cs ++ ds) = (s.run cs).run ds := List.foldl_append

@[simp] theorem strip_nil (s : Scan) : s.strip [] = s.finish := by
  obtain ⟨output, suppressedTag, tag⟩ := s
  cases tag <;> rfl

theorem strip_cons (s : Scan) (c : Char) (cs : List Char) :
    s.strip (c :: cs) = if s.stops c then (s.step c).output else (s.step c).strip cs := by
  obtain ⟨output, suppressedTag, tag⟩ := s
  cases tag with
  | some tag =>
    by_cases hc : c = '>'
    · simp [strip, step, stops, reads, stripTags, hc]
    · simp [strip, step, stops, reads, stripTags, hc]
  | none =>
    by_cases hc : c = '<'
    · simp [strip, step, stops, reads, stripTags, hc]
    · have hstep : (⟨output, suppressedTag, none⟩ : Scan).step c =
          ⟨if suppressedTag.isNone then output ++ [c] else output, suppressedTag, none⟩ :=
        if_neg hc
      have hreads : (⟨output, suppressedTag, none⟩ : Scan).reads c = true := by
        simp [reads, hc]
      rw [stops, hreads, hstep, Bool.true_and, strip, stripTags, if_neg hc]
      simp only [decide_eq_true_eq, strip, ge_iff_le]

/-- The limit ends the loop after none of the characters. -/
def Continues (s : Scan) (cs : List Char) : Prop :=
  ∀ before c after, cs = before ++ c :: after → (s.run before).stops c = false

theorem continues_nil (s : Scan) : s.Continues [] := by
  intro before c after h
  exact absurd h.symm (List.append_ne_nil_of_right_ne_nil _ (List.cons_ne_nil _ _))

theorem continues_cons : s.Continues (c :: cs) ↔ s.stops c = false ∧ (s.step c).Continues cs := by
  constructor
  · intro h
    refine ⟨h [] c cs rfl, fun before d after hsplit => ?_⟩
    exact h (c :: before) d after (by rw [hsplit]; rfl)
  · rintro ⟨hfirst, hrest⟩ before d after hsplit
    cases before with
    | nil =>
      obtain ⟨rfl, -⟩ := List.cons.inj hsplit
      exact hfirst
    | cons e before =>
      obtain ⟨rfl, htail⟩ := List.cons.inj hsplit
      exact hrest before d after htail

theorem continues_append {ds : List Char} :
    s.Continues (cs ++ ds) ↔ s.Continues cs ∧ (s.run cs).Continues ds := by
  induction cs generalizing s with
  | nil => simp [continues_nil]
  | cons c cs ih => rw [List.cons_append, continues_cons, continues_cons, ih, run_cons, and_assoc]

/-- Characters that do not end the loop are read as without the limit. -/
theorem strip_append (h : s.Continues cs) (ds : List Char) :
    s.strip (cs ++ ds) = (s.run cs).strip ds := by
  induction cs generalizing s with
  | nil => rfl
  | cons c cs ih =>
    rw [continues_cons] at h
    rw [List.cons_append, strip_cons, h.1, run_cons]
    exact ih h.2

end Scan

theorem htmlToPlainText_eq (html : Str) : htmlToPlainText html =
    (decodeNestedHtmlEntities (Scan.start.strip html).trim 8).trim := rfl

/-- `html_to_plain_text` without the limit. -/
def plainTextUnbounded (html : Str) : Str :=
  (decodeNestedHtmlEntities (Scan.start.run html).finish.trim 8).trim

/-! ### Tags -/

/-- A tag writes a line break at most. -/
theorem applyTag_output (output : Str) (suppressedTag : Option Str) (tag : Str) :
    (applyTag output suppressedTag tag).1 = output ∨
      (applyTag output suppressedTag tag).1 = output ++ ['\n'] := by
  unfold applyTag
  cases suppressedTag with
  | some suppressed =>
    dsimp only
    split
    · exact Or.inl rfl
    · exact Or.inl rfl
  | none =>
    dsimp only
    split_ifs
    · exact Or.inl rfl
    · exact Or.inr rfl
    · unfold pushNewline
      split
      · exact Or.inl rfl
      · exact Or.inr rfl
    · exact Or.inl rfl

theorem trim_applyTag (output : Str) (suppressedTag : Option Str) (tag : Str) :
    (applyTag output suppressedTag tag).1.trim = output.trim := by
  rcases applyTag_output output suppressedTag tag with h | h
  · rw [h]
  · rw [h, Str.trim_append_whitespace Str.isWhitespace_newline]

namespace Scan

theorem step_output_of_reads (hreads : s.reads c = true) (hsuppressed : s.suppressedTag = none) :
    (s.step c).output = s.output ++ [c] := by
  obtain ⟨output, suppressedTag, tag⟩ := s
  obtain rfl : suppressedTag = none := hsuppressed
  simp only [reads, Bool.and_eq_true, Option.isNone_iff_eq_none, bne_iff_ne] at hreads
  obtain ⟨rfl, hne⟩ := hreads
  simp [step, hne]

/-- What one character does to the trimmed text: nothing, unless it is text outside of a
suppressed tag. -/
theorem trim_step (s : Scan) (c : Char) : (s.step c).output.trim = s.output.trim ∨
    s.reads c = true ∧ s.suppressedTag = none ∧ (s.step c).output = s.output ++ [c] := by
  obtain ⟨output, suppressedTag, tag⟩ := s
  cases tag with
  | some tag =>
    left
    by_cases hc : c = '>'
    · simp only [step, if_pos hc]
      exact trim_applyTag _ _ _
    · simp only [step, if_neg hc]
  | none =>
    by_cases hc : c = '<'
    · left
      simp only [step, if_pos hc]
    · cases suppressedTag with
      | some suppressed =>
        left
        simp [step, if_neg hc]
      | none =>
        have hreads : (⟨output, none, none⟩ : Scan).reads c = true := by simp [reads, hc]
        exact Or.inr ⟨hreads, rfl, step_output_of_reads hreads rfl⟩

theorem trim_finish (s : Scan) : s.finish.trim = s.output.trim := by
  obtain ⟨output, suppressedTag, tag⟩ := s
  cases tag with
  | some tag => exact trim_applyTag _ _ _
  | none => rfl

end Scan

/-! ### Characters across the limit -/

/-- The loop reaches the character `c` as text that is not white space, and with it the text is
longer than the limit. -/
def Scan.Overruns (s : Scan) (cs : List Char) : Prop :=
  ∃ before c after, cs = before ++ c :: after ∧ s.Continues before ∧
    (s.run before).reads c = true ∧ (s.run before).suppressedTag = none ∧
    Str.isWhitespace c = false ∧
    MAX_DERIVED_TEXT_BYTES < (s.run before).output.trimStart.len + c.utf8Size

/-- A character of the input is written across the limit. -/
def Overruns (html : Str) : Prop := Scan.start.Overruns html

/-- The loop reads all of the input. -/
def NothingCut (html : Str) : Prop :=
  ∀ before c after, html = before ++ c :: after → (Scan.start.run before).stops c = true →
    after = []

namespace Scan

theorem Overruns.cons (hstop : s.stops c = false) (h : (s.step c).Overruns cs) :
    s.Overruns (c :: cs) := by
  obtain ⟨before, d, after, rfl, hbefore, hrest⟩ := h
  exact ⟨c :: before, d, after, rfl, continues_cons.2 ⟨hstop, hbefore⟩, hrest⟩

/-- Nothing written across the limit, the trimmed text is in it at every step. -/
theorem len_trim_step_le (hs : s.output.trim.len ≤ MAX_DERIVED_TEXT_BYTES)
    (h : ¬ s.Overruns (c :: cs)) : (s.step c).output.trim.len ≤ MAX_DERIVED_TEXT_BYTES := by
  rcases s.trim_step c with htrim | ⟨hreads, hsuppressed, houtput⟩
  · rw [htrim]
    exact hs
  · rw [houtput]
    by_cases hc : Str.isWhitespace c = true
    · rw [Str.trim_append_whitespace hc]
      exact hs
    · have hc' : Str.isWhitespace c = false := by simpa using hc
      rw [Str.trim_append_of_not hc', Str.len_append, Str.len_cons, Str.len_nil, Nat.add_zero]
      by_contra hlong
      exact h ⟨[], c, cs, rfl, continues_nil s, hreads, hsuppressed, hc', not_le.1 hlong⟩

theorem len_trim_strip_le (hs : s.output.trim.len ≤ MAX_DERIVED_TEXT_BYTES) (h : ¬ s.Overruns cs) :
    (s.strip cs).trim.len ≤ MAX_DERIVED_TEXT_BYTES := by
  induction cs generalizing s with
  | nil =>
    rw [strip_nil, trim_finish]
    exact hs
  | cons c cs ih =>
    have hstep := len_trim_step_le hs h
    rw [strip_cons]
    split
    next => exact hstep
    next hstop =>
      have hgo : s.stops c = false := by simpa using hstop
      exact ih hstep fun hover => h (hover.cons hgo)

/-- The loop ends with the character that is written across the limit. -/
theorem trim_strip_of_overruns (h : s.Overruns cs) :
    MAX_DERIVED_TEXT_BYTES < (s.strip cs).trim.len := by
  obtain ⟨before, c, after, rfl, hbefore, hreads, hsuppressed, hc, hlong⟩ := h
  rw [strip_append hbefore]
  have hwritten := step_output_of_reads hreads hsuppressed
  have hstart : (s.run before).output.trimStart.len ≤ (s.run before).output.len :=
    Str.len_le_of_sublist (List.dropWhile_sublist _)
  have hstop : (s.run before).stops c = true := by
    rw [stops, hreads, hwritten, Bool.true_and, decide_eq_true_eq, Str.len_append, Str.len_cons,
      Str.len_nil]
    omega
  rw [strip_cons, if_pos hstop, hwritten, Str.trim_append_of_not hc, Str.len_append, Str.len_cons,
    Str.len_nil]
  omega

end Scan

/-! ### Entities -/

theorem decodeHtmlEntity_nil : decodeHtmlEntity [] = none := by decide

theorem decodeHtmlEntity_singleton (c : Char) : decodeHtmlEntity [c] = none := by
  have hlength : ∀ entry ∈ namedEntities, entry.1.length ≠ 1 := by decide
  have hlookup : namedEntities.lookup [c] = none := by
    rw [List.lookup_eq_none_iff]
    intro entry hentry
    rw [bne_iff_ne]
    intro hc
    exact hlength entry hentry (by rw [← hc]; rfl)
  have hhex : Str.startsWith [c] "#x" = false ∧ Str.startsWith [c] "#X" = false := by
    simp [Str.startsWith, List.isPrefixOf]
  rw [decodeHtmlEntity, hlookup]
  simp only [hhex.1, hhex.2, Bool.or_self, Bool.false_eq_true, if_false]
  split
  next => rfl
  next => rfl

theorem two_le_len_of_decodeHtmlEntity {entity : Str} (h : decodeHtmlEntity entity = some c) :
    2 ≤ entity.len := by
  match entity with
  | [] => rw [decodeHtmlEntity_nil] at h; cases h
  | [d] => rw [decodeHtmlEntity_singleton] at h; cases h
  | d :: e :: rest =>
    have hd := Char.utf8Size_pos d
    have he := Char.utf8Size_pos e
    rw [Str.len_cons, Str.len_cons]
    omega

/-- Decoding entities does not make a text longer. -/
theorem len_decodeHtmlEntitiesOnce_le (entity : Option Str) (cs : List Char) :
    (decodeHtmlEntitiesOnce entity cs).len ≤
      (entity.elim 0 fun entity => 1 + entity.len) + Str.len cs := by
  induction cs generalizing entity with
  | nil =>
    cases entity with
    | none => simp [decodeHtmlEntitiesOnce]
    | some entity =>
      have hamp : '&'.utf8Size = 1 := rfl
      simp [decodeHtmlEntitiesOnce, hamp]
  | cons c cs ih =>
    have hamp : '&'.utf8Size = 1 := rfl
    have hsemicolon : ';'.utf8Size = 1 := rfl
    have hnone := ih none
    rw [Option.elim_none, Nat.zero_add] at hnone
    cases entity with
    | none =>
      rw [decodeHtmlEntitiesOnce]
      split_ifs with hc
      · have hopen := ih (some [])
        rw [hc, Str.len_cons, hamp]
        simpa using hopen
      · rw [Str.len_cons, Str.len_cons, Option.elim_none]
        omega
    | some entity =>
      rw [decodeHtmlEntitiesOnce, Option.elim_some]
      split_ifs with hend hmore hc
      · rw [hend.2, Str.len_cons, hsemicolon]
        cases hdecode : decodeHtmlEntity entity with
        | some decoded =>
          have hlong := two_le_len_of_decodeHtmlEntity hdecode
          have hshort := Char.utf8Size_le_four decoded
          dsimp only
          rw [Str.len_cons]
          omega
        | none =>
          dsimp only
          rw [List.cons_append, Str.len_cons, Str.len_append, Str.len_cons, hamp, hsemicolon]
          omega
      · have hgo := ih (some (entity ++ [c]))
        rw [Option.elim_some, Str.len_append, Str.len_cons, Str.len_nil] at hgo
        rw [Str.len_cons]
        omega
      · have hopen := ih (some [])
        rw [Option.elim_some, Str.len_nil] at hopen
        rw [List.cons_append, Str.len_cons, Str.len_append, hc, Str.len_cons, hamp]
        omega
      · rw [List.cons_append, Str.len_cons, Str.len_append, Str.len_cons, Str.len_cons, hamp]
        omega

theorem len_decodeNestedHtmlEntities_le (value : Str) (rounds : ℕ) :
    (decodeNestedHtmlEntities value rounds).len ≤ value.len := by
  induction rounds generalizing value with
  | zero => exact le_refl _
  | succ rounds ih =>
    rw [decodeNestedHtmlEntities]
    split
    · exact le_refl _
    · have honce := len_decodeHtmlEntitiesOnce_le none value
      rw [Option.elim_none, Nat.zero_add] at honce
      exact le_trans (ih _) honce

/-- A text without `&` has no entities. -/
theorem decodeHtmlEntitiesOnce_of_not_mem (h : '&' ∉ cs) : decodeHtmlEntitiesOnce none cs = cs := by
  induction cs with
  | nil => rfl
  | cons c cs ih =>
    rw [List.mem_cons, not_or] at h
    rw [decodeHtmlEntitiesOnce, if_neg (Ne.symm h.1), ih h.2]

theorem decodeNestedHtmlEntities_of_fixed {value : Str}
    (h : decodeHtmlEntitiesOnce none value = value) (rounds : ℕ) :
    decodeNestedHtmlEntities value rounds = value := by
  cases rounds with
  | zero => rfl
  | succ rounds =>
    rw [decodeNestedHtmlEntities]
    exact if_pos h

/-! ### Characters of the text -/

namespace Scan

variable {d : Char}

/-- The text has characters of the input and line breaks. -/
theorem mem_step (h : d ∈ (s.step c).output) : d ∈ s.output ∨ d = c ∨ d = '\n' := by
  obtain ⟨output, suppressedTag, tag⟩ := s
  cases tag with
  | some tag =>
    by_cases hc : c = '>'
    · simp only [step, if_pos hc] at h
      rcases applyTag_output output suppressedTag tag with heq | heq
      · rw [heq] at h
        exact Or.inl h
      · rw [heq, List.mem_append, List.mem_singleton] at h
        exact h.imp_right Or.inr
    · simp only [step, if_neg hc] at h
      exact Or.inl h
  | none =>
    by_cases hc : c = '<'
    · simp only [step, if_pos hc] at h
      exact Or.inl h
    · simp only [step, if_neg hc] at h
      split at h
      · rw [List.mem_append, List.mem_singleton] at h
        exact h.imp_right Or.inl
      · exact Or.inl h

theorem mem_finish (h : d ∈ s.finish) : d ∈ s.output ∨ d = '\n' := by
  obtain ⟨output, suppressedTag, tag⟩ := s
  cases tag with
  | some tag =>
    have hmem : d ∈ (applyTag output suppressedTag tag).1 := h
    rcases applyTag_output output suppressedTag tag with heq | heq
    · rw [heq] at hmem
      exact Or.inl hmem
    · rw [heq, List.mem_append, List.mem_singleton] at hmem
      exact hmem
  | none => exact Or.inl h

theorem mem_strip (h : d ∈ s.strip cs) : d ∈ s.output ∨ d ∈ cs ∨ d = '\n' := by
  induction cs generalizing s with
  | nil =>
    rw [strip_nil] at h
    exact (mem_finish h).imp_right Or.inr
  | cons c cs ih =>
    have hstep : d ∈ (s.step c).output → d ∈ s.output ∨ d ∈ c :: cs ∨ d = '\n' := by
      intro hd
      rcases mem_step hd with hd | rfl | rfl
      · exact Or.inl hd
      · exact Or.inr (Or.inl (List.mem_cons_self))
      · exact Or.inr (Or.inr rfl)
    rw [strip_cons] at h
    split at h
    · exact hstep h
    · rcases ih h with hd | hd | hd
      · exact hstep hd
      · exact Or.inr (Or.inl (List.mem_cons_of_mem _ hd))
      · exact Or.inr (Or.inr hd)

end Scan

/-! ### The limit -/

/-- The last character read may be one after which the limit would have ended the loop. -/
theorem plainText_eq_of_nothingCut (h : NothingCut html) :
    htmlToPlainText html = plainTextUnbounded html := by
  have hstrip : ∀ (s : Scan) (cs : List Char),
      (∀ before c after, cs = before ++ c :: after → (s.run before).stops c = true → after = []) →
      (s.strip cs).trim = (s.run cs).finish.trim := by
    intro s cs
    induction cs generalizing s with
    | nil =>
      intro _
      rw [Scan.strip_nil, Scan.run_nil]
    | cons c cs ih =>
      intro hcut
      rw [Scan.strip_cons]
      split
      next hstop =>
        obtain rfl : cs = [] := hcut [] c cs rfl hstop
        rw [Scan.run_cons, Scan.run_nil, Scan.trim_finish]
      next =>
        rw [Scan.run_cons]
        exact ih _ fun before d after hsplit => hcut (c :: before) d after (by rw [hsplit]; rfl)
  rw [htmlToPlainText_eq, hstrip _ _ h, plainTextUnbounded]

theorem len_plainText_le (h : ¬ Overruns html) :
    (htmlToPlainText html).len ≤ MAX_DERIVED_TEXT_BYTES := by
  have hstart : Scan.start.output.trim.len ≤ MAX_DERIVED_TEXT_BYTES := by decide
  rw [htmlToPlainText_eq]
  calc (decodeNestedHtmlEntities (Scan.start.strip html).trim 8).trim.len
      ≤ (decodeNestedHtmlEntities (Scan.start.strip html).trim 8).len := Str.len_trim_le _
    _ ≤ (Scan.start.strip html).trim.len := len_decodeNestedHtmlEntities_le _ _
    _ ≤ MAX_DERIVED_TEXT_BYTES := Scan.len_trim_strip_le hstart h

/-- Without entities, a character written across the limit shows in the length. -/
theorem lt_len_plainText (hamp : '&' ∉ html) (h : Overruns html) :
    MAX_DERIVED_TEXT_BYTES < (htmlToPlainText html).len := by
  have hno : '&' ∉ (Scan.start.strip html).trim := by
    intro hmem
    rcases Scan.mem_strip ((Str.trim_sublist _).subset hmem) with h | h | h
    · cases h
    · exact hamp h
    · exact absurd h (by decide)
  rw [htmlToPlainText_eq,
    decodeNestedHtmlEntities_of_fixed (decodeHtmlEntitiesOnce_of_not_mem hno), Str.trim_trim]
  exact Scan.trim_strip_of_overruns h

/-- The conversion is in the limit, and the same as without it when nothing is cut, if no
character is written across the limit; where there are no entities, only then. -/
theorem plainText_bounded (html : Str) :
    (¬ Overruns html → (htmlToPlainText html).len ≤ MAX_DERIVED_TEXT_BYTES ∧
      (NothingCut html → htmlToPlainText html = plainTextUnbounded html)) ∧
    ('&' ∉ html → ((htmlToPlainText html).len ≤ MAX_DERIVED_TEXT_BYTES ∧
      (NothingCut html → htmlToPlainText html = plainTextUnbounded html) ↔ ¬ Overruns html)) := by
  constructor
  · exact fun h => ⟨len_plainText_le h, plainText_eq_of_nothingCut⟩
  · intro hamp
    refine ⟨fun h hover => ?_, fun h => ⟨len_plainText_le h, plainText_eq_of_nothingCut⟩⟩
    exact absurd h.1 (not_le.2 (lt_len_plainText hamp hover))

/-! ### Line breaks -/

/-- A letter, `n` line breaks and a letter. -/
def breaks (n : ℕ) : Str := 'a' :: ((List.replicate n "<br>".toList).flatten ++ ['b'])

theorem run_breaks (n : ℕ) (output : Str) :
    Scan.Continues ⟨output, none, none⟩ (List.replicate n "<br>".toList).flatten ∧
      Scan.run ⟨output, none, none⟩ (List.replicate n "<br>".toList).flatten =
        ⟨output ++ List.replicate n '\n', none, none⟩ := by
  induction n generalizing output with
  | zero => exact ⟨Scan.continues_nil _, by simp⟩
  | succ n ih =>
    have hbreak : Scan.run ⟨output, none, none⟩ "<br>".toList =
        ⟨output ++ ['\n'], none, none⟩ := rfl
    obtain ⟨hcontinues, hrun⟩ := ih (output ++ ['\n'])
    rw [List.replicate_succ, List.flatten_cons, Scan.continues_append, Scan.run_append, hbreak,
      hrun]
    refine ⟨⟨?_, hcontinues⟩, by simp [List.replicate_succ]⟩
    -- a tag is read without a look at the limit
    have hchars : "<br>".toList = ['<', 'b', 'r', '>'] := rfl
    rw [hchars]
    simp only [Scan.continues_cons]
    exact ⟨rfl, rfl, rfl, rfl, Scan.continues_nil _⟩

theorem overruns_breaks {n : ℕ} (hn : MAX_DERIVED_TEXT_BYTES ≤ n) : Overruns (breaks n) := by
  obtain ⟨hcontinues, hrun⟩ := run_breaks n ['a']
  have hletter : Scan.start.step 'a' = ⟨['a'], none, none⟩ := rfl
  refine ⟨'a' :: (List.replicate n "<br>".toList).flatten, 'b', [], by simp [breaks], ?_, ?_⟩
  · rw [Scan.continues_cons, hletter]
    exact ⟨by decide, hcontinues⟩
  · rw [Scan.run_cons, hletter, hrun]
    refine ⟨rfl, rfl, rfl, ?_⟩
    have htext : Str.trimStart (['a'] ++ List.replicate n '\n') = 'a' :: List.replicate n '\n' :=
      List.dropWhile_cons_of_neg (by decide)
    have hbreaks : Str.len (List.replicate n '\n') = n := by
      rw [Str.len, List.map_replicate, List.sum_replicate, smul_eq_mul]
      exact Nat.mul_one n
    show MAX_DERIVED_TEXT_BYTES < Str.len (Str.trimStart _) + _
    rw [htext, Str.len_cons, hbreaks]
    exact lt_of_le_of_lt hn (by have := Char.utf8Size_pos 'b'; omega)

theorem ampersand_not_mem_breaks (n : ℕ) : '&' ∉ breaks n := by
  have hbreak : '&' ∉ "<br>".toList := by decide
  simp only [breaks, List.mem_cons, List.mem_append, List.mem_flatten, List.mem_replicate,
    List.not_mem_nil, or_false, not_or]
  refine ⟨by decide, ?_, by decide⟩
  rintro ⟨part, ⟨-, rfl⟩, hmem⟩
  exact hbreak hmem

/-- Line breaks are not cut. -/
theorem not_plainText_bounded : ¬ ∀ html : Str,
    (htmlToPlainText html).len ≤ MAX_DERIVED_TEXT_BYTES ∧
      (NothingCut html → htmlToPlainText html = plainTextUnbounded html) := by
  intro h
  have hlong := lt_len_plainText (ampersand_not_mem_breaks _) (overruns_breaks (le_refl _))
  exact absurd (h _).1 (not_le.2 hlong)

end Awayuki.Kq
