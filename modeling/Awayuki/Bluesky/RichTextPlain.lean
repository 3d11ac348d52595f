import Awayuki.Bluesky.RichText

/-!
# Bluesky: plain text of a post's HTML

`html_to_plain_text` of `services/kq_evaluator.rs`, read on the pages that `RichText` writes.

* `keptText`: the text up to the character with which it reaches the limit of derived texts;
* `htmlToPlainText_page`: of a page, the conversion keeps the text that the page shows;
* `ReadsBack`: what this is of the text of the post;
* `textWithFacetsToHtml_readsBack`: the way there and back.
-/

namespace Awayuki.RichText

open Kq

/-! ### Characters -/

variable {s output address : Str} {segments : List Segment}

/-- What the conversion has after the text, coming with `output`: a character with which the limit
is reached is the last one, which a line break never is. -/
def keptText : (output : Str) → Str → Str
  | output, [] => output
  | output, c :: s =>
    if c = '\n' ∨ (output ++ [c]).len < MAX_DERIVED_TEXT_BYTES then keptText (output ++ [c]) s
    else output ++ [c]

/-- Is all of the text kept? -/
def fits : (output : Str) → Str → Bool
  | _, [] => true
  | output, c :: s =>
    decide (c = '\n' ∨ (output ++ [c]).len < MAX_DERIVED_TEXT_BYTES) && fits (output ++ [c]) s

theorem keptText_of_fits (h : fits output s = true) : keptText output s = output ++ s := by
  induction s generalizing output with
  | nil => exact (List.append_nil output).symm
  | cons c s ih =>
    rw [fits, Bool.and_eq_true, decide_eq_true_eq] at h
    rw [keptText, if_pos h.1, ih h.2, List.append_assoc]
    rfl

theorem keptText_append (output s t : Str) : keptText output (s ++ t) =
    if fits output s = true then keptText (output ++ s) t else keptText output s := by
  induction s generalizing output with
  | nil => simp [fits]
  | cons c s ih =>
    rw [List.cons_append, keptText, keptText, fits]
    by_cases hc : c = '\n' ∨ (output ++ [c]).len < MAX_DERIVED_TEXT_BYTES
    · rw [if_pos hc, if_pos hc, ih, List.append_assoc, decide_eq_true hc, Bool.true_and]
      rfl
    · rw [if_neg hc, if_neg hc, decide_eq_false hc, Bool.false_and, if_neg Bool.false_ne_true]

theorem fits_append (output s t : Str) :
    fits output (s ++ t) = (fits output s && fits (output ++ s) t) := by
  induction s generalizing output with
  | nil => simp [fits]
  | cons c s ih =>
    rw [List.cons_append, fits, fits, ih, Bool.and_assoc, List.append_assoc]
    rfl

theorem fits_of_len_lt (h : (output ++ s).len < MAX_DERIVED_TEXT_BYTES) : fits output s = true := by
  induction s generalizing output with
  | nil => rfl
  | cons c s ih =>
    have hsplit : output ++ c :: s = (output ++ [c]) ++ s := by simp
    rw [hsplit] at h
    have hfirst : (output ++ [c]).len < MAX_DERIVED_TEXT_BYTES := by
      rw [Str.len_append] at h
      omega
    rw [fits, ih h, Bool.and_true, decide_eq_true_eq]
    exact Or.inr hfirst

/-! ### Reading a page -/

/-- The conversion between two tags. -/
def between (output : Str) : Scan := ⟨output, none, none⟩

/-- A text with its line breaks as tags. -/
def breaks (s : Str) : Str := Str.replaceChar '\n' "<br>" s

@[simp] theorem breaks_append (s t : Str) : breaks (s ++ t) = breaks s ++ breaks t :=
  List.flatMap_append

theorem breaks_eq_self (h : '\n' ∉ s) : breaks s = s := by
  induction s with
  | nil => rfl
  | cons c s ih =>
    rw [List.mem_cons, not_or] at h
    have hfirst : breaks [c] = [c] := by
      simp [breaks, Str.replaceChar, Ne.symm h.1]
    have happend := breaks_append [c] s
    rw [hfirst, ih h.2] at happend
    exact happend

theorem strip_br (output rest : Str) :
    (between output).strip ("<br>".toList ++ rest) = (between (output ++ ['\n'])).strip rest := by
  have hname : htmlTagName "br" = (false, "br".toList) := by decide
  have hbr : applyTag output none "br" = (output ++ ['\n'], none) := by
    rw [applyTag, hname]
    rfl
  show (⟨(applyTag output none "br").1, (applyTag output none "br").2, none⟩ : Scan).strip rest = _
  rw [hbr]
  rfl

/-- A text without markup is read up to the limit. -/
theorem strip_breaks (hclean : Clean s) (output rest : Str) :
    (between output).strip (breaks s ++ rest) =
      if fits output s = true then (between (output ++ s)).strip rest else keptText output s := by
  induction s generalizing output with
  | nil =>
    rw [fits, if_pos rfl, List.append_nil]
    rfl
  | cons c s ih =>
    have hcleanRest : Clean s := fun d hd => hclean d (List.mem_cons_of_mem _ hd)
    have hsplit : breaks (c :: s) = breaks [c] ++ breaks s := breaks_append [c] s
    have hagain : output ++ c :: s = (output ++ [c]) ++ s := by simp
    rw [hsplit, List.append_assoc, fits, keptText, hagain]
    by_cases hnewline : c = '\n'
    · have hbr : breaks [c] = "<br>".toList := by
        rw [hnewline]
        rfl
      rw [hbr, strip_br, if_pos (Or.inl hnewline), decide_eq_true (Or.inl hnewline), Bool.true_and,
        hnewline]
      exact ih hcleanRest _
    · have hplain : breaks [c] = [c] := breaks_eq_self (by simpa using Ne.symm hnewline)
      have hne : c ≠ '<' := (hclean c List.mem_cons_self).1
      have hstep : (between output).step c = between (output ++ [c]) := by
        show (if c = '<' then _ else _) = _
        rw [if_neg hne]
        rfl
      have hstops : (between output).stops c =
          decide (MAX_DERIVED_TEXT_BYTES ≤ (output ++ [c]).len) := by
        rw [Scan.stops, hstep]
        simp [Scan.reads, between, hne]
      rw [hplain, List.singleton_append, Scan.strip_cons, hstops, hstep]
      by_cases hlong : MAX_DERIVED_TEXT_BYTES ≤ (output ++ [c]).len
      · have hcut : ¬ (c = '\n' ∨ (output ++ [c]).len < MAX_DERIVED_TEXT_BYTES) :=
          not_or.2 ⟨hnewline, not_lt.2 hlong⟩
        rw [decide_eq_true hlong, if_pos rfl, if_neg hcut, decide_eq_false hcut, Bool.false_and,
          if_neg Bool.false_ne_true]
        rfl
      · have hgo : c = '\n' ∨ (output ++ [c]).len < MAX_DERIVED_TEXT_BYTES :=
          Or.inr (not_le.1 hlong)
        rw [decide_eq_false hlong, if_neg Bool.false_ne_true, if_pos hgo,
          decide_eq_true hgo, Bool.true_and]
        exact ih hcleanRest _

/-- The rest of a tag is read up to its end, though not all of it need be kept. -/
theorem strip_tag {cs : Str} (h : '>' ∉ cs) (output tag : Str) : ∃ more, ∀ rest,
    (⟨output, none, some tag⟩ : Scan).strip (cs ++ '>' :: rest) =
      (⟨(applyTag output none (tag ++ more)).1, (applyTag output none (tag ++ more)).2, none⟩ :
        Scan).strip rest := by
  induction cs generalizing tag with
  | nil =>
    refine ⟨[], fun rest => ?_⟩
    rw [List.append_nil]
    rfl
  | cons c cs ih =>
    rw [List.mem_cons, not_or] at h
    obtain ⟨more, hmore⟩ := ih h.2 (if tag.len < 256 then tag ++ [c] else tag)
    have hstep : ∀ rest, (⟨output, none, some tag⟩ : Scan).strip (c :: cs ++ '>' :: rest) =
        (⟨output, none, some (if tag.len < 256 then tag ++ [c] else tag)⟩ : Scan).strip
          (cs ++ '>' :: rest) := by
      intro rest
      show (if c = '>' then _ else _) = _
      rw [if_neg (Ne.symm h.1)]
      rfl
    by_cases hlen : tag.len < 256
    · refine ⟨c :: more, fun rest => ?_⟩
      rw [hstep, hmore, if_pos hlen, List.append_assoc]
      rfl
    · refine ⟨more, fun rest => ?_⟩
      rw [hstep, hmore, if_neg hlen]

theorem applyTag_a (output more : Str) :
    applyTag output none ("a ".toList ++ more) = (output, none) := by
  have hname : htmlTagName ("a ".toList ++ more) = (false, "a".toList) := rfl
  rw [applyTag, hname]
  rfl

theorem strip_close_a (output rest : Str) :
    (between output).strip ("</a>".toList ++ rest) = (between output).strip rest := by
  have hname : htmlTagName "/a" = (true, "a".toList) := by decide
  have hblock : isBlockTag "a" = false := by decide
  have htag : applyTag output none "/a" = (output, none) := by
    rw [applyTag, hname]
    show (if _ then _ else if _ then _ else if (true && isBlockTag "a") = true then _ else _) = _
    rw [hblock]
    rfl
  show (⟨(applyTag output none "/a").1, (applyTag output none "/a").2, none⟩ : Scan).strip rest = _
  rw [htag]
  rfl

theorem strip_begin_a (output rest : Str) : (between output).strip ("<a ".toList ++ rest) =
    (⟨output, none, some "a ".toList⟩ : Scan).strip rest := rfl

/-- The opening tag of a link leaves no trace. -/
theorem strip_open_a (hclean : Clean address) (output rest : Str) :
    (between output).strip ("<a href=\"".toList ++ address ++
      "\" rel=\"nofollow noopener noreferrer\" target=\"_blank\">".toList ++ rest) =
      (between output).strip rest := by
  have hopen : "<a href=\"".toList = "<a ".toList ++ "href=\"".toList := by decide
  have hrest : "\" rel=\"nofollow noopener noreferrer\" target=\"_blank\">".toList =
      "\" rel=\"nofollow noopener noreferrer\" target=\"_blank\"".toList ++ ['>'] := by decide
  have hnone : '>' ∉ "href=\"".toList ++ address ++
      "\" rel=\"nofollow noopener noreferrer\" target=\"_blank\"".toList := by
    intro h
    rcases List.mem_append.1 h with h | h
    · rcases List.mem_append.1 h with h | h
      · exact absurd h (by decide)
      · exact (hclean _ h).2.1 rfl
    · exact absurd h (by decide)
  obtain ⟨more, hmore⟩ := strip_tag hnone output "a "
  have hwhole : "<a href=\"".toList ++ address ++
      "\" rel=\"nofollow noopener noreferrer\" target=\"_blank\">".toList ++ rest =
      "<a ".toList ++ ("href=\"".toList ++ address ++
        "\" rel=\"nofollow noopener noreferrer\" target=\"_blank\"".toList ++ '>' :: rest) := by
    rw [hopen, hrest]
    simp only [List.append_assoc, List.singleton_append]
  rw [hwhole, strip_begin_a, hmore, applyTag_a]
  rfl

theorem breaks_anchor (hline : '\n' ∉ address) (s : Str) :
    breaks (anchor address s) = "<a href=\"".toList ++ address ++
      "\" rel=\"nofollow noopener noreferrer\" target=\"_blank\">".toList ++
        (breaks s ++ "</a>".toList) := by
  have hparts : ∀ opening closing last : Str, '\n' ∉ opening → '\n' ∉ closing → '\n' ∉ last →
      breaks (opening ++ address ++ closing ++ s ++ last) =
        opening ++ address ++ closing ++ (breaks s ++ last) := by
    intro opening closing last hopening hclosing hlast
    rw [breaks_append, breaks_append, breaks_append, breaks_append, breaks_eq_self hopening,
      breaks_eq_self hline, breaks_eq_self hclosing, breaks_eq_self hlast, List.append_assoc]
  exact hparts _ _ _ (by decide) (by decide) (by decide)

/-- Of the segments, the conversion keeps what they show. -/
theorem strip_render (h : ∀ segment ∈ segments, segment.Clean ∧ segment.OneLine)
    (output rest : Str) : (between output).strip (breaks (render segments) ++ rest) =
      if fits output (shown segments) = true then
        (between (output ++ shown segments)).strip rest
      else keptText output (shown segments) := by
  induction segments generalizing output with
  | nil =>
    show (between output).strip rest = if fits output [] = true then _ else _
    rw [fits, if_pos rfl]
    exact congrArg (fun output => (between output).strip rest) (List.append_nil output).symm
  | cons segment segments ih =>
    have hmore := ih fun other hother => h other (List.mem_cons_of_mem _ hother)
    have hrender : render (segment :: segments) = segment.render ++ render segments := rfl
    have hshown : shown (segment :: segments) = segment.shown ++ shown segments := rfl
    have hone : ∀ rest, (between output).strip (breaks segment.render ++ rest) =
        if fits output segment.shown = true then
          (between (output ++ segment.shown)).strip rest
        else keptText output segment.shown := by
      intro rest
      obtain ⟨hclean, hline⟩ := h segment List.mem_cons_self
      cases segment with
      | text s => exact strip_breaks hclean output rest
      | link address s =>
        show (between output).strip (breaks (anchor address s) ++ rest) = _
        rw [breaks_anchor hline, List.append_assoc, strip_open_a hclean.1, List.append_assoc,
          strip_breaks hclean.2, strip_close_a]
        rfl
    rw [hrender, hshown, breaks_append, List.append_assoc, hone, fits_append, keptText_append]
    by_cases hfits : fits output segment.shown = true
    · rw [if_pos hfits, if_pos hfits, hfits, Bool.true_and, hmore, List.append_assoc]
    · have hcut : fits output segment.shown = false := by simpa using hfits
      rw [if_neg hfits, if_neg hfits, hcut, Bool.false_and, if_neg Bool.false_ne_true]

theorem htmlToPlainText_page (h : ∀ segment ∈ segments, segment.Clean ∧ segment.OneLine) :
    htmlToPlainText (page segments) =
      (decodeNestedHtmlEntities (keptText [] (shown segments)).trim 8).trim := by
  have hstrip : (Scan.start.strip (page segments)).trim = (keptText [] (shown segments)).trim := by
    rw [page]
    by_cases hnone : segments = []
    · rw [if_pos hnone, hnone]
      rfl
    · have hopen : Scan.start.strip ("<p>".toList ++ breaks (render segments) ++ "</p>".toList) =
          (between []).strip (breaks (render segments) ++ "</p>".toList) := rfl
      rw [if_neg hnone]
      show (Scan.start.strip ("<p>".toList ++ breaks (render segments) ++ "</p>".toList)).trim = _
      rw [hopen, strip_render h]
      by_cases hfits : fits [] (shown segments) = true
      · rw [if_pos hfits, keptText_of_fits hfits]
        exact trim_applyTag _ none "/p"
      · rw [if_neg hfits]
  rw [htmlToPlainText_eq, hstrip]

/-! ### Escaping and decoding -/

theorem decode_escapeChar (c : Char) (rest : Str) :
    decodeHtmlEntitiesOnce none (escapeChar c ++ rest) = c :: decodeHtmlEntitiesOnce none rest := by
  unfold escapeChar
  split_ifs with h1 h2 h3 h4 h5
  · rw [h1]
    rfl
  · rw [h2]
    rfl
  · rw [h3]
    rfl
  · rw [h4]
    rfl
  · rw [h5]
    rfl
  · rw [List.singleton_append, decodeHtmlEntitiesOnce]
    exact if_neg h1

/-- One pass takes the escapes back. -/
theorem decode_htmlEscape (s : Str) : decodeHtmlEntitiesOnce none (htmlEscape s) = s := by
  induction s with
  | nil => rfl
  | cons c s ih =>
    have hsplit : htmlEscape (c :: s) = escapeChar c ++ htmlEscape s := rfl
    rw [hsplit, decode_escapeChar, ih]

theorem trimStart_htmlEscape (s : Str) :
    (htmlEscape s).trimStart = htmlEscape s.trimStart := by
  induction s with
  | nil => rfl
  | cons c s ih =>
    have hsplit : htmlEscape (c :: s) = escapeChar c ++ htmlEscape s := rfl
    have hkeep : Str.isWhitespace c = false → Str.trimStart (c :: s) = c :: s := by
      intro hc
      rw [Str.trimStart, List.dropWhile_cons_of_neg]
      simp [hc]
    rcases escapeChar_cases c with hplain | ⟨hc, name, hentity⟩
    · by_cases hc : Str.isWhitespace c = true
      · have hdrop : ∀ t : Str, Str.trimStart (c :: t) = t.trimStart := fun t =>
          List.dropWhile_cons_of_pos hc
        rw [hsplit, hplain, hdrop, List.singleton_append, hdrop, ih]
      · rw [hkeep (by simpa using hc), hsplit, hplain, List.singleton_append, Str.trimStart,
          List.dropWhile_cons_of_neg hc]
    · rw [hkeep hc, hsplit, hentity]
      rfl

theorem trimEnd_htmlEscape (s : Str) : (htmlEscape s).trimEnd = htmlEscape s.trimEnd := by
  induction s using List.reverseRecOn with
  | nil => rfl
  | append_singleton s c ih =>
    have hsplit : htmlEscape (s ++ [c]) = htmlEscape s ++ escapeChar c := by
      rw [htmlEscape_append, htmlEscape, htmlEscape, List.flatMap_singleton]
    have hkeep : Str.isWhitespace c = false → Str.trimEnd (s ++ [c]) = s ++ [c] := fun hc =>
      List.rdropWhile_concat_neg _ _ _ (by simp [hc])
    rcases escapeChar_cases c with hplain | ⟨hc, name, hentity⟩
    · by_cases hc : Str.isWhitespace c = true
      · have hdrop : ∀ t : Str, Str.trimEnd (t ++ [c]) = t.trimEnd := fun t =>
          List.rdropWhile_concat_pos _ _ _ hc
        rw [hsplit, hplain, hdrop, hdrop, ih]
      · rw [hkeep (by simpa using hc), hsplit, hplain]
        exact List.rdropWhile_concat_neg _ _ _ hc
    · have hlast : htmlEscape s ++ escapeChar c = (htmlEscape s ++ '&' :: name) ++ [';'] := by
        rw [hentity]
        simp
      rw [hkeep hc, hsplit, hlast]
      exact List.rdropWhile_concat_neg _ _ _ (by decide)

theorem trim_htmlEscape (s : Str) : (htmlEscape s).trim = htmlEscape s.trim := by
  rw [Str.trim, trimStart_htmlEscape, trimEnd_htmlEscape, Str.trim]

/-- One of the passes goes into taking the escapes back. -/
theorem decodeNested_htmlEscape (s : Str) :
    decodeNestedHtmlEntities (htmlEscape s) 8 = decodeNestedHtmlEntities s 7 := by
  rw [decodeNestedHtmlEntities, decode_htmlEscape]
  by_cases hsame : s = htmlEscape s
  · have hfixed : decodeHtmlEntitiesOnce none s = s := by
      conv_lhs => rw [hsame]
      exact decode_htmlEscape s
    rw [if_pos hsame, ← hsame, decodeNestedHtmlEntities]
    exact (if_pos hfixed).symm
  · rw [if_neg hsame]

/-- A pass leaves the text alone or takes characters from it. -/
theorem decode_eq_or_shorter (entity : Option Str) (cs : Str) :
    decodeHtmlEntitiesOnce entity cs = entity.elim [] ('&' :: ·) ++ cs ∨
      (decodeHtmlEntitiesOnce entity cs).length <
        (entity.elim [] ('&' :: ·) ++ cs : Str).length := by
  induction cs generalizing entity with
  | nil => cases entity <;> simp [decodeHtmlEntitiesOnce]
  | cons c cs ih =>
    cases entity with
    | none =>
      rw [decodeHtmlEntitiesOnce]
      split_ifs with hamp
      · rw [hamp]
        exact ih (some [])
      · refine (ih none).imp (fun h => congrArg (c :: ·) h) fun h => ?_
        exact Nat.succ_lt_succ h
    | some entity =>
      have hnext := ih none
      have hkeep : ∀ more : Str, (decodeHtmlEntitiesOnce none cs = cs ∨
          (decodeHtmlEntitiesOnce none cs).length < cs.length) →
          '&' :: entity ++ c :: decodeHtmlEntitiesOnce none cs = '&' :: entity ++ c :: cs ∨
          ('&' :: entity ++ c :: decodeHtmlEntitiesOnce none cs).length <
            ('&' :: entity ++ c :: cs).length := by
        intro _ h
        refine h.imp (fun h => by rw [h]) fun h => ?_
        simp only [List.length_append, List.length_cons]
        omega
      rw [decodeHtmlEntitiesOnce]
      split_ifs with hsemicolon hchar hamp
      · rw [hsemicolon.2] at hkeep ⊢
        cases hdecode : decodeHtmlEntity entity with
        | none => exact hkeep [] hnext
        | some decoded =>
          refine Or.inr ?_
          have hle : (decodeHtmlEntitiesOnce none cs).length ≤ cs.length := by
            rcases hnext with h | h
            · exact (congrArg List.length h).le
            · exact h.le
          simp only [Option.elim_some, List.length_append, List.length_cons]
          omega
      · have hcont := ih (some (entity ++ [c]))
        simpa using hcont
      · rw [hamp]
        refine (ih (some [])).imp (fun h => ?_) fun h => ?_
        · rw [h]
          rfl
        · simp only [Option.elim_some, List.length_append, List.length_cons,
            List.length_nil] at h ⊢
          omega
      · exact hkeep [] hnext

theorem length_decodeNested_le (s : Str) (rounds : ℕ) :
    (decodeNestedHtmlEntities s rounds).length ≤ s.length := by
  induction rounds generalizing s with
  | zero => exact le_refl _
  | succ rounds ih =>
    rw [decodeNestedHtmlEntities]
    split_ifs with hsame
    · exact le_refl _
    · refine (ih _).trans ?_
      rcases decode_eq_or_shorter none s with h | h
      · exact (congrArg List.length h).le
      · exact h.le

/-- All the passes leave a trimmed text as it is exactly when the first one does. -/
theorem trim_decodeNested_eq_iff (htrim : s.trim = s) (rounds : ℕ) :
    (decodeNestedHtmlEntities s (rounds + 1)).trim = s ↔ decodeHtmlEntitiesOnce none s = s := by
  rw [decodeNestedHtmlEntities]
  by_cases hsame : decodeHtmlEntitiesOnce none s = s
  · rw [if_pos hsame, htrim]
    exact iff_of_true rfl hsame
  · rw [if_neg hsame]
    refine iff_of_false (fun heq => ?_) hsame
    have hshorter : (decodeHtmlEntitiesOnce none s).length < s.length :=
      (decode_eq_or_shorter none s).resolve_left hsame
    have hnested := length_decodeNested_le (decodeHtmlEntitiesOnce none s) rounds
    have htrimmed := (Str.trim_sublist (decodeNestedHtmlEntities
      (decodeHtmlEntitiesOnce none s) rounds)).length_le
    rw [heq] at htrimmed
    omega

/-! ### There and back -/

/-- The plain text is that of a page which shows the text: cut at the limit, and with the entities
decoded that the text itself spells out. -/
structure ReadsBack (text plain : Str) : Prop where
  kept : plain = (decodeNestedHtmlEntities (keptText [] (htmlEscape text)).trim 8).trim
  short : (htmlEscape text).len < MAX_DERIVED_TEXT_BYTES →
    plain = (decodeNestedHtmlEntities text.trim 7).trim
  exact : (htmlEscape text).len < MAX_DERIVED_TEXT_BYTES →
    (plain = text.trim ↔ decodeHtmlEntitiesOnce none text.trim = text.trim)

theorem readsBack_of_kept {text plain : Str}
    (h : plain = (decodeNestedHtmlEntities (keptText [] (htmlEscape text)).trim 8).trim) :
    ReadsBack text plain := by
  have hshort : (htmlEscape text).len < MAX_DERIVED_TEXT_BYTES →
      plain = (decodeNestedHtmlEntities text.trim 7).trim := by
    intro hlen
    rw [h, keptText_of_fits (fits_of_len_lt hlen), List.nil_append, trim_htmlEscape,
      decodeNested_htmlEscape]
  refine ⟨h, hshort, fun hlen => ?_⟩
  rw [hshort hlen]
  exact trim_decodeNested_eq_iff (Str.trim_trim text) 6

/-- The conversion to HTML does not panic; what it writes is a page that shows the escaped text and
has nothing but its templates that opens a tag, closes one or ends an attribute; and of the page
the conversion to plain text reads the text back. -/
theorem textWithFacetsToHtml_readsBack [UrlEncoding] (text : Str) (facets : List Facet) :
    ∃ segments, textWithFacetsToHtml text facets = some (page segments) ∧
      shown segments = htmlEscape text ∧ (∀ segment ∈ segments, segment.Clean) ∧
      (OneLineLinks facets → ReadsBack text (htmlToPlainText (page segments))) := by
  obtain ⟨segments, hpage, hshown, hsegments⟩ := textWithFacetsToHtml_eq_page text facets
  refine ⟨segments, hpage, hshown, fun segment h => (hsegments segment h).1, fun hlines => ?_⟩
  apply readsBack_of_kept
  rw [← hshown]
  exact htmlToPlainText_page fun segment h =>
    ⟨(hsegments segment h).1, (hsegments segment h).2 hlines⟩

/-! ### A text that spells an entity -/

def encodeByte (b : UInt8) : Str :=
  let c := Char.ofNat b.toNat
  if b.toNat < 128 ∧ (c.isAlphanum = true ∨ c = '-' ∨ c = '_' ∨ c = '.' ∨ c = '~') then [c]
  else ['%', (Nat.digitChar (b.toNat / 16)).toUpper, (Nat.digitChar (b.toNat % 16)).toUpper]

theorem digit_isAlphanum : ∀ n < 16, (Nat.digitChar n).toUpper.isAlphanum = true := by decide

/-- The encoding of the bytes of a text. -/
@[reducible] def percentEncoding : UrlEncoding where
  encode s := (s.flatMap String.utf8EncodeChar).flatMap encodeByte
  encode_chars s c h := by
    obtain ⟨b, -, hb⟩ := List.mem_flatMap.1 h
    have hlt : b.toNat < 256 := b.toNat_lt
    unfold encodeByte at hb
    dsimp only at hb
    split_ifs at hb with hplain
    · rw [List.mem_singleton.1 hb]
      tauto
    · simp only [List.mem_cons, List.not_mem_nil, or_false] at hb
      rcases hb with rfl | rfl | rfl
      · simp
      · exact Or.inl (digit_isAlphanum _ (by omega))
      · exact Or.inl (digit_isAlphanum _ (Nat.mod_lt _ (by decide)))

section

attribute [local instance] percentEncoding

/-- A text without facets, read back as another one. -/
theorem not_readsBack : textWithFacetsToHtml "&amp;" [] = some "<p>&amp;amp;</p>".toList ∧
    htmlToPlainText "<p>&amp;amp;</p>" = "&".toList ∧ "&".toList ≠ Str.trim "&amp;" := by
  decide +kernel

end

end Awayuki.RichText
