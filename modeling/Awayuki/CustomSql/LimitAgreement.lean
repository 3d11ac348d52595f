import Awayuki.CustomSql.FrontendLimit

/-!
# The two searches for a `LIMIT` agree

The frontend searches the text that the user has typed, the backend the statement that `validate`
has taken from it: without the spaces around it, the semicolon and the comments behind it.

* `limitIn_append_space`: spaces at the end change nothing;
* `Items.limitIn_append`: what is behind the semicolon changes nothing;
* `limit_detectors_agree`: both searches together.
-/

namespace Awayuki.CustomSql

variable {c q : Char} {text rest item space : Str} {inWord : Bool} {depth : ℕ}

/-! ### One character -/

/-- A character that opens neither quotes nor a comment. -/
theorem limitIn_other (hquote : isQuote c = false) (hbracket : c ≠ '[')
    (hdash : c = '-' → text.head? ≠ some '-') (hslash : c = '/' → text.head? ≠ some '*') :
    limitIn inWord depth (c :: text) =
      if c = '(' then limitIn false (depth + 1) text
      else if c = ')' then limitIn false (depth - 1) text
      else depth = 0 && startsLimit inWord (c :: text) ||
        limitIn (isIdentifierByte c) depth text := by
  have hline : (decide (c = '-') && decide (text.head? = some '-')) = false := by
    rw [Bool.and_eq_false_imp]
    exact fun h => decide_eq_false (hdash (of_decide_eq_true h))
  have hblock : (decide (c = '/') && decide (text.head? = some '*')) = false := by
    rw [Bool.and_eq_false_imp]
    exact fun h => decide_eq_false (hslash (of_decide_eq_true h))
  rw [limitIn, hline, hblock, hquote, if_neg hbracket]
  rfl

theorem ne_of_isWhitespace (hc : Str.isWhitespace c = true) {d : Char}
    (hd : Str.isWhitespace d = false) : c ≠ d := fun heq => by
  rw [heq, hd] at hc
  cases hc

theorem toNat_of_isWhitespace (hc : Str.isWhitespace c = true) :
    c.toNat ≤ 32 ∨ 128 ≤ c.toNat := by
  simp only [Str.isWhitespace, Bool.or_eq_true, Bool.and_eq_true, decide_eq_true_eq,
    beq_iff_eq] at hc
  omega

theorem isIdentifierByte_of_isWhitespace (hc : Str.isWhitespace c = true) :
    isIdentifierByte c = false := by
  rcases toNat_of_isWhitespace hc with hle | hle
  · have hunderscore : '_'.toNat = 95 := rfl
    have hdollar : '$'.toNat = 36 := rfl
    rw [← isSqlIdentifierChar_toNat, Bool.eq_false_iff]
    intro hid
    simp only [isSqlIdentifierChar, Option.any_some, Bool.or_eq_true, Bool.and_eq_true,
      decide_eq_true_eq, beq_iff_eq, hunderscore, hdollar] at hid
    omega
  · exact isIdentifierByte_of_le hle

/-- What cannot go on with a word or the keyword. -/
structure Stops (c : Char) : Prop where
  letter : c.toLower ∉ ("limit" : String).toList
  identifier : isIdentifierByte c = false

theorem stops_of_isWhitespace (hc : Str.isWhitespace c = true) : Stops c where
  letter := by
    have hall : (("limit" : String).toList.all fun d => 33 ≤ d.toNat ∧ d.toNat < 128) = true := by
      decide
    have hself : c.toLower = c := by
      refine Str.toLower_eq_self ?_
      rcases toNat_of_isWhitespace hc with hle | hle <;> omega
    intro hmem
    rw [hself] at hmem
    have hbounds := of_decide_eq_true (List.all_eq_true.1 hall c hmem)
    rcases toNat_of_isWhitespace hc with hle | hle <;> omega
  identifier := isIdentifierByte_of_isWhitespace hc

theorem limitIn_space (hc : Str.isWhitespace c = true) :
    limitIn inWord depth (c :: text) = limitIn false depth text := by
  have hne {d : Char} (hd : Str.isWhitespace d = false) : c ≠ d := ne_of_isWhitespace hc hd
  have hquote : isQuote c = false := by
    simp [isQuote, hne (d := '\'') (by decide), hne (d := '\x22') (by decide),
      hne (d := '\x60') (by decide)]
  have hstarts : startsLimit inWord (c :: text) = false := by
    refine startsLimit_of_ne fun hl => (stops_of_isWhitespace hc).letter ?_
    rw [hl]
    decide
  rw [limitIn_other hquote (hne (by decide)) (fun h => absurd h (hne (by decide)))
    (fun h => absurd h (hne (by decide))), if_neg (hne (by decide)), if_neg (hne (by decide)),
    hstarts, Bool.and_false, Bool.false_or, isIdentifierByte_of_isWhitespace hc]

theorem startsLimit_append (text : Str) (hrest : ∀ c ∈ rest.head?, Stops c) :
    startsLimit inWord (text ++ rest) = startsLimit inWord text := by
  have hfive : ("limit" : String).toList.length = 5 := rfl
  rw [startsLimit, startsLimit]
  by_cases hlength : 5 ≤ text.length
  · have hnext : ((text ++ rest)[5]?).any isIdentifierByte = (text[5]?).any isIdentifierByte := by
      rcases Nat.lt_or_eq_of_le hlength with hlt | heq
      · rw [List.getElem?_append_left hlt]
      · rw [List.getElem?_append_right heq.ge, List.getElem?_eq_none heq.ge, ← heq]
        cases rest with
        | nil => rfl
        | cons c rest => exact (hrest c rfl).identifier
    rw [List.take_append_of_le_length hlength, hnext]
  · have hshort : (Str.toAsciiLowercase (text.take 5) == ("limit" : String).toList) = false := by
      refine beq_eq_false_iff_ne.2 fun heq => ?_
      have := congrArg List.length heq
      rw [Str.toAsciiLowercase, List.length_map, List.length_take, hfive] at this
      omega
    have hlong : (Str.toAsciiLowercase ((text ++ rest).take 5) ==
        ("limit" : String).toList) = false := by
      cases rest with
      | nil => rwa [List.append_nil]
      | cons c rest =>
        refine beq_eq_false_iff_ne.2 fun heq => (hrest c rfl).letter ?_
        rw [← heq]
        refine List.mem_map_of_mem ?_
        rw [List.take_append, List.mem_append]
        obtain ⟨n, hn⟩ : ∃ n, 5 - text.length = n + 1 := ⟨4 - text.length, by omega⟩
        rw [hn, List.take_succ_cons]
        exact .inr List.mem_cons_self
    rw [hshort, hlong, Bool.false_and, Bool.false_and, Bool.false_and]

/-! ### Behind the semicolon -/

theorem limitIn_blank (h : Blank item text) :
    limitIn inWord depth (item ++ text) = limitIn false depth text := by
  cases h with
  | @space c _ hspace =>
    refine limitIn_space ?_
    have hmem : c ∈ " \t\n\x0c\r".toList := by simpa [isAsciiWhitespace, or_assoc] using hspace
    have hall : " \t\n\x0c\r".toList.all Str.isWhitespace = true := by decide
    exact List.all_eq_true.1 hall _ hmem
  | line hskips hnext =>
    rw [List.cons_append, List.cons_append, limitIn]
    exact congrArg (limitIn false depth) (skipLine_append hskips hnext)
  | block hskips =>
    rw [List.cons_append, List.cons_append, limitIn]
    show limitIn false depth ((skipBlock (_ ++ text)).getD []) = _
    rw [hskips]
    rfl

theorem Blanks.limitIn (h : Blanks text) : limitIn inWord depth text = false := by
  induction h generalizing inWord with
  | nil => exact limitIn_nil inWord depth
  | cons hblank _ ih => exact (limitIn_blank hblank).trans ih

/-- A semicolon and what is accepted behind it have no keyword. -/
theorem limitIn_semicolon (h : Blanks text) : limitIn inWord depth (';' :: text) = false := by
  rw [limitIn_other (by decide) (by decide) (fun h => absurd h (by decide))
    (fun h => absurd h (by decide)), if_neg (by decide), if_neg (by decide),
    startsLimit_of_ne (by decide), h.limitIn, Bool.and_false, Bool.false_or]

theorem stops_semicolon (text : Str) : ∀ c ∈ (';' :: text).head?, Stops c := by
  intro c hc
  obtain rfl := Option.some_inj.1 hc
  exact ⟨by decide, by decide⟩

/-- The letters of a word. -/
theorem limitIn_word_append {word : Str} (hword : ∀ c ∈ word, isIdentifierByte c = true)
    (hrest : ∀ c ∈ rest.head?, Stops c)
    (h : ∀ inWord, limitIn inWord depth (text ++ rest) = limitIn inWord depth text) :
    limitIn inWord depth (word ++ text ++ rest) = limitIn inWord depth (word ++ text) := by
  induction word generalizing inWord with
  | nil => exact h inWord
  | cons c word ih =>
    rw [List.forall_mem_cons] at hword
    have hne (d : Char) (hd : isIdentifierByte d = false) : c ≠ d := fun heq => by
      rw [heq, hd] at hword
      cases hword.1
    have hquote : isQuote c = false := by
      simp [isQuote, hne '\'' rfl, hne '\x22' rfl, hne '\x60' rfl]
    have hstep (text : Str) : limitIn inWord depth (c :: text) =
        (decide (depth = 0) && startsLimit inWord (c :: text) ||
          limitIn (isIdentifierByte c) depth text) := by
      rw [limitIn_other hquote (hne '[' rfl) (fun h => absurd h (hne '-' rfl))
        (fun h => absurd h (hne '/' rfl)), if_neg (hne '(' rfl), if_neg (hne ')' rfl)]
    have hstarts : startsLimit inWord (c :: (word ++ text ++ rest)) =
        startsLimit inWord (c :: (word ++ text)) := startsLimit_append (c :: (word ++ text)) hrest
    rw [List.cons_append, List.cons_append, hstep, hstep, ih hword.2, hstarts]

theorem mem_head?_append (hc : c ∈ text.head?) : c ∈ (text ++ rest).head? := by
  cases text with
  | nil => cases hc
  | cons d text => exact hc

theorem head?_append_ne {d : Char} (h : (text ++ rest).head? ≠ some d) : text.head? ≠ some d :=
  fun hd => h (mem_head?_append hd)

/-- What is behind the semicolon changes nothing. -/
theorem Items.limitIn_append {after : Str} (h : Items text (';' :: after)) (hafter : Blanks after)
    (inWord : Bool) (depth : ℕ) :
    limitIn inWord depth (text ++ ';' :: after) = limitIn inWord depth text := by
  generalize hrest : ';' :: after = rest at h ⊢
  have hstops : ∀ c ∈ rest.head?, Stops c := hrest ▸ stops_semicolon after
  induction h generalizing inWord depth with
  | nil =>
    rw [List.nil_append, ← hrest, limitIn_semicolon hafter, limitIn_nil]
  | @cons item text rest hitem hitems ih =>
    have hcut (inWord : Bool) (depth : ℕ) :
        CustomSql.limitIn inWord depth (text ++ rest) = CustomSql.limitIn inWord depth text :=
      ih inWord depth hrest hstops
    cases hitem with
    | blank hblank =>
      have hblank' : Blank item text := by
        cases hblank with
        | space hspace => exact .space hspace
        | line hskips hnext => exact .line hskips fun c hc => hnext c (mem_head?_append hc)
        | block hskips => exact .block hskips
      rw [List.append_assoc, limitIn_blank hblank, limitIn_blank hblank', hcut]
    | @quoted q skipped _ hquote hnext hskips =>
      have hopen (text : Str) (hnext : text.head? ≠ some q) :
          CustomSql.limitIn inWord depth (q :: (skipped ++ text)) =
            CustomSql.limitIn false depth text := by
        have hmem : q = '\'' ∨ q = '\x22' ∨ q = '\x60' := by simpa [isQuote] using hquote
        have hdash : q ≠ '-' := by rintro rfl; exact absurd hquote (by decide)
        have hslash : q ≠ '/' := by rintro rfl; exact absurd hquote (by decide)
        rw [CustomSql.limitIn, decide_eq_false hdash, decide_eq_false hslash, hquote,
          hskips text hnext]
        rfl
      show CustomSql.limitIn inWord depth (q :: (skipped ++ text ++ rest)) =
        CustomSql.limitIn inWord depth (q :: (skipped ++ text))
      rw [List.append_assoc, hopen _ hnext, hopen _ (head?_append_ne hnext), hcut]
    | @bracket skipped _ hskips =>
      have hopen (text : Str) : CustomSql.limitIn inWord depth ('[' :: (skipped ++ text)) =
          CustomSql.limitIn false depth text := by
        rw [CustomSql.limitIn, hskips text]
        rfl
      show CustomSql.limitIn inWord depth ('[' :: (skipped ++ text ++ rest)) =
        CustomSql.limitIn inWord depth ('[' :: (skipped ++ text))
      rw [List.append_assoc, hopen, hopen, hcut]
    | word hword => exact limitIn_word_append hword hstops fun inWord => hcut inWord depth
    | @other c _ hquote hbracket hsemicolon hdash hslash =>
      have hstarts : startsLimit inWord (c :: (text ++ rest)) = startsLimit inWord (c :: text) :=
        startsLimit_append (c :: text) hstops
      show CustomSql.limitIn inWord depth (c :: (text ++ rest)) =
        CustomSql.limitIn inWord depth (c :: text)
      rw [limitIn_other hquote hbracket hdash hslash, limitIn_other hquote hbracket
        (fun h => head?_append_ne (hdash h)) fun h => head?_append_ne (hslash h)]
      simp only [hcut, hstarts]

/-! ### Spaces -/

theorem skipLine_append_space (hspace : ∀ c ∈ space, Str.isWhitespace c = true) (text : Str) :
    ∃ space', (∀ c ∈ space', Str.isWhitespace c = true) ∧
      skipLine (text ++ space) = skipLine text ++ space' := by
  induction text with
  | nil =>
    obtain ⟨skipped, htext, -⟩ := skipLine_spec space
    refine ⟨skipLine space, fun c hc => hspace c ?_, rfl⟩
    rw [htext]
    exact List.mem_append_right _ hc
  | cons c text ih =>
    by_cases hc : c = '\n'
    · exact ⟨space, hspace, by rw [List.cons_append, skipLine, skipLine, if_pos hc, if_pos hc]; rfl⟩
    · obtain ⟨space', hspace', heq⟩ := ih
      refine ⟨space', hspace', ?_⟩
      rw [List.cons_append, skipLine, skipLine, if_neg hc, if_neg hc, heq]

/-- What is looked for is no space. -/
theorem head?_append_space (hspace : ∀ c ∈ space, Str.isWhitespace c = true) {d : Char}
    (hd : Str.isWhitespace d = false) : (text ++ space).head? = some d ↔ text.head? = some d := by
  cases text with
  | nil =>
    refine iff_of_false (fun h => ?_) nofun
    exact ne_of_isWhitespace (hspace d (List.mem_of_mem_head? h)) hd rfl
  | cons c text => exact Iff.rfl

theorem skipBlock_space (hspace : ∀ c ∈ space, Str.isWhitespace c = true) :
    skipBlock space = none := by
  induction space with
  | nil => rfl
  | cons c space ih =>
    rw [List.forall_mem_cons] at hspace
    have hc : c ≠ '*' := ne_of_isWhitespace hspace.1 rfl
    rw [skipBlock, decide_eq_false hc, Bool.false_and, if_neg Bool.false_ne_true]
    exact ih hspace.2

theorem skipBlock_append_space (hspace : ∀ c ∈ space, Str.isWhitespace c = true) (text : Str) :
    skipBlock (text ++ space) = (skipBlock text).map (· ++ space) := by
  induction text with
  | nil => exact skipBlock_space hspace
  | cons c text ih =>
    rw [List.cons_append, skipBlock, skipBlock, ih]
    simp only [head?_append_space hspace (d := '/') rfl]
    split_ifs with hend
    · obtain ⟨rfl, text, rfl⟩ := head_eq hend
      rfl
    · rfl

theorem skipBracket_space (hspace : ∀ c ∈ space, Str.isWhitespace c = true) :
    skipBracket space = none := by
  induction space with
  | nil => rfl
  | cons c space ih =>
    rw [List.forall_mem_cons] at hspace
    have hc : c ≠ ']' := ne_of_isWhitespace hspace.1 rfl
    rw [skipBracket, if_neg hc]
    exact ih hspace.2

theorem skipBracket_append_space (hspace : ∀ c ∈ space, Str.isWhitespace c = true) (text : Str) :
    skipBracket (text ++ space) = (skipBracket text).map (· ++ space) := by
  induction text with
  | nil => exact skipBracket_space hspace
  | cons c text ih =>
    rw [List.cons_append, skipBracket, skipBracket, ih]
    split_ifs <;> rfl

theorem skipQuoted_cons (hc : c ≠ q) (text : Str) :
    skipQuoted q (c :: text) = skipQuoted q text := by
  cases text with
  | nil => exact if_neg hc
  | cons d text => exact if_neg hc

/-- A closing quote. -/
theorem skipQuoted_self (text : Str) : skipQuoted q (q :: text) =
    if text.head? = some q then skipQuoted q text.tail else some text := by
  cases text with
  | nil => rw [skipQuoted, if_pos rfl]; rfl
  | cons d text =>
    rw [skipQuoted, if_pos rfl]
    simp only [List.head?_cons, Option.some_inj, List.tail_cons]

theorem skipQuoted_space (hspace : ∀ c ∈ space, Str.isWhitespace c = true)
    (hq : Str.isWhitespace q = false) : skipQuoted q space = none := by
  induction space with
  | nil => rfl
  | cons c space ih =>
    rw [List.forall_mem_cons] at hspace
    rw [skipQuoted_cons (ne_of_isWhitespace hspace.1 hq)]
    exact ih hspace.2

theorem skipQuoted_append_space (hspace : ∀ c ∈ space, Str.isWhitespace c = true)
    (hq : Str.isWhitespace q = false) (text : Str) :
    skipQuoted q (text ++ space) = (skipQuoted q text).map (· ++ space) := by
  induction hlength : text.length using Nat.strong_induction_on generalizing text with
  | _ n ih =>
    cases text with
    | nil => exact skipQuoted_space hspace hq
    | cons c text =>
      subst hlength
      rw [List.cons_append]
      by_cases hc : c = q
      · subst hc
        rw [skipQuoted_self, skipQuoted_self]
        simp only [head?_append_space hspace hq]
        split_ifs with hnext
        · obtain ⟨text, rfl⟩ := List.head?_eq_some_iff.1 hnext
          exact ih text.length (by simp) text rfl
        · rfl
      · rw [skipQuoted_cons hc, skipQuoted_cons hc]
        exact ih text.length (by simp) text rfl

/-- Spaces at the end change nothing. -/
theorem limitIn_append_space (hspace : ∀ c ∈ space, Str.isWhitespace c = true) (inWord : Bool)
    (depth : ℕ) (text : Str) :
    limitIn inWord depth (text ++ space) = limitIn inWord depth text := by
  induction hlength : text.length using Nat.strong_induction_on
      generalizing text space inWord depth with
  | _ n ih =>
    cases text with
    | nil =>
      clear ih hlength
      rw [List.nil_append, limitIn_nil]
      induction space generalizing inWord with
      | nil => exact limitIn_nil inWord depth
      | cons c space ih =>
        rw [List.forall_mem_cons] at hspace
        rw [limitIn_space hspace.1]
        exact ih hspace.2 false
    | cons c text =>
      subst hlength
      have hstops : ∀ c ∈ space.head?, Stops c := fun c hc =>
        stops_of_isWhitespace (hspace c (List.mem_of_mem_head? hc))
      have hstarts : startsLimit inWord (c :: (text ++ space)) = startsLimit inWord (c :: text) :=
        startsLimit_append (c :: text) hstops
      have hrest {rest : Str} (inWord : Bool) (depth : ℕ) (hlength : rest.length ≤ text.length) :
          limitIn inWord depth (rest ++ space) = limitIn inWord depth rest :=
        ih rest.length (Nat.lt_succ_of_le hlength) hspace inWord depth rest rfl
      have hskip (depth : ℕ) (rest : Option Str) (hlength : (rest.getD []).length ≤ text.length) :
          limitIn false depth ((rest.map (· ++ space)).getD []) =
            limitIn false depth (rest.getD []) := by
        cases rest with
        | none => rfl
        | some rest => exact hrest false depth hlength
      rw [List.cons_append, limitIn, limitIn]
      simp only [head?_append_space hspace (d := '-') rfl, head?_append_space hspace (d := '*') rfl]
      split_ifs with hline hblock hquote
      · obtain ⟨rfl, text, rfl⟩ := head_eq hline
        obtain ⟨space', hspace', hskipped⟩ := skipLine_append_space hspace text
        show limitIn false depth (skipLine (text ++ space)) = limitIn false depth (skipLine text)
        rw [hskipped]
        refine ih _ ?_ hspace' false depth _ rfl
        exact Nat.lt_succ_of_le ((length_skipLine_le text).trans (Nat.le_succ _))
      · obtain ⟨rfl, text, rfl⟩ := head_eq hblock
        show limitIn false depth ((skipBlock (text ++ space)).getD []) =
          limitIn false depth ((skipBlock text).getD [])
        rw [skipBlock_append_space hspace]
        exact hskip depth _ ((length_skipBlock_le text).trans (Nat.le_succ _))
      · have hmem : c = '\'' ∨ c = '\x22' ∨ c = '\x60' := by simpa [isQuote] using hquote
        have hc : Str.isWhitespace c = false := by
          rcases hmem with rfl | rfl | rfl <;> rfl
        rw [skipQuoted_append_space hspace hc]
        exact hskip depth _ (length_skipQuoted_le c text)
      · rw [skipBracket_append_space hspace]
        exact hskip depth _ (length_skipBracket_le text)
      · exact hrest false (depth + 1) le_rfl
      · exact hrest false (depth - 1) le_rfl
      · rw [hstarts, hrest (isIdentifierByte c) depth le_rfl]

/-- Spaces at the start change nothing. -/
theorem limitIn_space_append (hspace : ∀ c ∈ space, Str.isWhitespace c = true) (depth : ℕ)
    (text : Str) : limitIn false depth (space ++ text) = limitIn false depth text := by
  induction space with
  | nil => rfl
  | cons c space ih =>
    rw [List.forall_mem_cons] at hspace
    rw [List.cons_append, limitIn_space hspace.1]
    exact ih hspace.2

theorem limitIn_trim (depth : ℕ) (text : Str) :
    limitIn false depth (Str.trim text) = limitIn false depth text := by
  have hstart : limitIn false depth (Str.trimStart text) = limitIn false depth text := by
    have htake : ∀ c ∈ text.takeWhile Str.isWhitespace, Str.isWhitespace c = true :=
      fun c hc => List.mem_takeWhile_imp hc
    have happend := limitIn_space_append htake depth (text.dropWhile Str.isWhitespace)
    rw [List.takeWhile_append_dropWhile] at happend
    exact happend.symm
  have hend : ∀ c ∈ (Str.trimStart text).rtakeWhile Str.isWhitespace, Str.isWhitespace c = true :=
    fun c hc => List.mem_rtakeWhile_imp hc
  have happend := limitIn_append_space hend false depth (Str.trim text)
  rw [Str.trim, Str.trimEnd, List.rdropWhile_append_rtakeWhile] at happend
  rw [← hstart, happend]
  rfl

/-! ### Both searches -/

/-- The frontend finds a `LIMIT` in what the user has typed exactly when the backend finds one in
the statement. -/
theorem limit_detectors_agree [JsLowerCase] {sql statement : Str}
    (haccepted : validate sql = .ok statement) :
    hasTopLevelSqlLimit (toUtf16 sql) = hasTopLevelLimit statement := by
  have hfrontend : hasTopLevelSqlLimit (toUtf16 sql) = limitIn false 0 sql :=
    limitLoop_eq (show toUtf16 sql = toUtf16 [] ++ toUtf16 sql from rfl) le_rfl
  have hbackend (text : Str) : hasTopLevelLimit text = limitIn false 0 text :=
    scanLimit_eq (List.nil_append text).symm le_rfl
  obtain ⟨first, terminated, hscan, rfl⟩ := validate_ok haccepted
  rw [hfrontend, hbackend, limitIn_trim]
  rcases scan_items (List.nil_append sql).symm le_rfl hscan with
    ⟨hnone, -⟩ | ⟨body, after, rfl, hsome, hitems, hafter⟩
  · obtain rfl : terminated = none := hnone
    rfl
  · obtain rfl : terminated = some body := hsome
    exact hitems.limitIn_append hafter false 0

theorem limit_detectors_agree_typed :
    @hasTopLevelSqlLimit asciiLowerCase
        (toUtf16 "SELECT ';é', id FROM statuses LIMIT 5; -- (LIMIT)".toList) =
      hasTopLevelLimit "SELECT ';é', id FROM statuses LIMIT 5" :=
  @limit_detectors_agree asciiLowerCase "SELECT ';é', id FROM statuses LIMIT 5; -- (LIMIT)"
    "SELECT ';é', id FROM statuses LIMIT 5" (by decide +kernel)

end Awayuki.CustomSql
