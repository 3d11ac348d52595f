import Awayuki.CustomSql.Validate

/-!
# The items of accepted SQL

The scan of `validate` passes a text item by item: white space, comments, quotes, words and single
characters.

* `Item`: what one turn passes, whatever is behind it;
* `scan_cons`: what a turn of the scan does;
* `scan_items`: an accepted text consists of items up to its semicolon, behind which there are
  spaces and comments only.
-/

namespace Awayuki.CustomSql

variable {c q : Char} {text rest rest' : Str}

/-! ### What the loops pass -/

theorem skipLine_spec (text : Str) : ∃ skipped, text = skipped ++ skipLine text ∧
    '\n' ∉ skipped ∧ ∀ c ∈ (skipLine text).head?, c = '\n' := by
  induction text with
  | nil => exact ⟨[], rfl, List.not_mem_nil, by simp [skipLine]⟩
  | cons c text ih =>
    unfold skipLine
    split_ifs with hc
    · exact ⟨[], rfl, List.not_mem_nil, by simp [hc]⟩
    · obtain ⟨skipped, htext, hnewline, hnext⟩ := ih
      refine ⟨c :: skipped, congrArg (c :: ·) htext, ?_, hnext⟩
      rw [List.mem_cons, not_or]
      exact ⟨Ne.symm hc, hnewline⟩

theorem skipLine_append {skipped : Str} (hskipped : '\n' ∉ skipped)
    (hrest : ∀ c ∈ rest.head?, c = '\n') : skipLine (skipped ++ rest) = rest := by
  induction skipped with
  | nil =>
    cases rest with
    | nil => rfl
    | cons c rest => exact if_pos (hrest c rfl)
  | cons c skipped ih =>
    rw [List.mem_cons, not_or] at hskipped
    exact (if_neg (Ne.symm hskipped.1)).trans (ih hskipped.2)

theorem exists_skipBlock (h : skipBlock text = some rest) :
    ∃ skipped, text = skipped ++ rest ∧ skipped.getLast? = some '/' ∧
      ∀ rest', skipBlock (skipped ++ rest') = some rest' := by
  induction text with
  | nil => cases h
  | cons c text ih =>
    unfold skipBlock at h
    split_ifs at h with hend
    · rw [Bool.and_eq_true, decide_eq_true_eq, decide_eq_true_eq] at hend
      obtain ⟨rfl, hslash⟩ := hend
      obtain rfl := Option.some_inj.1 h
      obtain ⟨text, rfl⟩ := List.head?_eq_some_iff.1 hslash
      exact ⟨['*', '/'], rfl, rfl, fun rest' => rfl⟩
    · obtain ⟨skipped, rfl, hlast, hskipped⟩ := ih h
      refine ⟨c :: skipped, rfl, by rw [List.getLast?_cons, hlast]; rfl, fun rest' => ?_⟩
      refine (if_neg fun hstart => hend ?_).trans (hskipped rest')
      cases skipped with
      | nil => cases hlast
      | cons d skipped => exact hstart

theorem exists_skipQuoted (h : skipQuoted q text = some rest) :
    ∃ skipped, text = skipped ++ rest ∧ skipped.getLast? = some q ∧ rest.head? ≠ some q ∧
      ∀ rest', rest'.head? ≠ some q → skipQuoted q (skipped ++ rest') = some rest' := by
  have hclose (rest' : Str) (hrest : rest'.head? ≠ some q) :
      skipQuoted q (q :: rest') = some rest' := by
    cases rest' with
    | nil => exact if_pos rfl
    | cons d rest' => exact (if_pos rfl).trans (if_neg fun hd => hrest (congrArg some hd))
  induction text using skipQuoted.induct q with
  | case1 => cases h
  | case2 =>
    rw [skipQuoted, if_pos rfl] at h
    cases h
    exact ⟨[q], rfl, rfl, nofun, hclose⟩
  | case3 c hc =>
    rw [skipQuoted, if_neg hc] at h
    cases h
  | case4 text ih =>
    rw [skipQuoted, if_pos rfl, if_pos rfl] at h
    obtain ⟨skipped, rfl, hlast, hrest, hskipped⟩ := ih h
    refine ⟨q :: q :: skipped, rfl, ?_, hrest, fun rest' hrest' => ?_⟩
    · rw [List.getLast?_cons, List.getLast?_cons, hlast]
      rfl
    exact (if_pos rfl).trans ((if_pos rfl).trans (hskipped rest' hrest'))
  | case5 d text hd =>
    rw [skipQuoted, if_pos rfl, if_neg hd] at h
    cases h
    exact ⟨[q], rfl, rfl, fun hhead => hd (Option.some_inj.1 hhead), hclose⟩
  | case6 c d text hc ih =>
    rw [skipQuoted, if_neg hc] at h
    obtain ⟨skipped, hskipped, hlast, hrest, hpass⟩ := ih h
    refine ⟨c :: skipped, congrArg (c :: ·) hskipped, by rw [List.getLast?_cons, hlast]; rfl, hrest,
      fun rest' hrest' => ?_⟩
    have hpass' := hpass rest' hrest'
    show skipQuoted q (c :: (skipped ++ rest')) = some rest'
    cases htail : skipped ++ rest' with
    | nil =>
      rw [htail] at hpass'
      cases hpass'
    | cons e tail =>
      rw [htail] at hpass'
      exact (if_neg hc).trans hpass'

theorem exists_skipBracket (h : skipBracket text = some rest) :
    ∃ skipped, text = skipped ++ rest ∧ skipped.getLast? = some ']' ∧
      ∀ rest', skipBracket (skipped ++ rest') = some rest' := by
  induction text with
  | nil => cases h
  | cons c text ih =>
    unfold skipBracket at h
    split_ifs at h with hc
    · cases h
      exact ⟨[c], rfl, congrArg some hc, fun rest' => if_pos hc⟩
    · obtain ⟨skipped, rfl, hlast, hskipped⟩ := ih h
      refine ⟨c :: skipped, rfl, ?_, fun rest' => (if_neg hc).trans (hskipped rest')⟩
      rw [List.getLast?_cons, hlast]
      rfl

/-! ### Items -/

/-- Spaces and comments, with what is behind them. -/
inductive Blank : Str → Str → Prop
  | space {c : Char} {rest : Str} (space : isAsciiWhitespace c = true) : Blank [c] rest
  | line {skipped rest : Str} (skips : '\n' ∉ skipped) (next : ∀ c ∈ rest.head?, c = '\n') :
      Blank ('-' :: '-' :: skipped) rest
  | block {skipped rest : Str} (skips : ∀ rest', skipBlock (skipped ++ rest') = some rest') :
      Blank ('/' :: '*' :: skipped) rest

/-- What one turn of the scan passes, with what is behind it. -/
inductive Item : Str → Str → Prop
  | blank {item rest : Str} (blank : Blank item rest) : Item item rest
  | quoted {q : Char} {skipped rest : Str} (quote : isQuote q = true) (next : rest.head? ≠ some q)
      (skips : ∀ rest', rest'.head? ≠ some q → skipQuoted q (skipped ++ rest') = some rest') :
      Item (q :: skipped) rest
  | bracket {skipped rest : Str} (skips : ∀ rest', skipBracket (skipped ++ rest') = some rest') :
      Item ('[' :: skipped) rest
  | word {c : Char} {word rest : Str} (letters : ∀ d ∈ c :: word, isIdentifierByte d = true) :
      Item (c :: word) rest
  | other {c : Char} {rest : Str} (quote : isQuote c = false) (bracket : c ≠ '[')
      (semicolon : c ≠ ';') (dash : c = '-' → rest.head? ≠ some '-')
      (slash : c = '/' → rest.head? ≠ some '*') : Item [c] rest

/-- A text of items, with what is behind it. -/
inductive Items : Str → Str → Prop
  | nil {rest : Str} : Items [] rest
  | cons {item text rest : Str} (head : Item item (text ++ rest)) (items : Items text rest) :
      Items (item ++ text) rest

/-- A text of spaces and comments. -/
inductive Blanks : Str → Prop
  | nil : Blanks []
  | cons {item text : Str} (blank : Blank item text) (blanks : Blanks text) : Blanks (item ++ text)

theorem head_eq {a b : Char} (h : (decide (c = a) && decide (text.head? = some b)) = true) :
    c = a ∧ ∃ rest, text = b :: rest := by
  rw [Bool.and_eq_true, decide_eq_true_eq, decide_eq_true_eq] at h
  exact ⟨h.1, List.head?_eq_some_iff.1 h.2⟩

/-! ### The scan -/

section Scan

variable {sql done : Str} {turns : ℕ} {first terminated : Option Str}
  {result : Option Str × Option Str}

/-- A turn passes an item, and behind the semicolon only spaces and comments. -/
structure Turn (sql : Str) (turns : ℕ) (text : Str) (terminated : Option Str)
    (result : Option Str × Option Str) (item rest : Str) (first : Option Str) : Prop where
  text : text = item ++ rest
  ne_nil : item ≠ []
  passes : Item item rest
  blank : terminated.isSome = true → Blank item rest
  scan : scan sql turns rest first terminated = .ok result

/-- A turn of the scan passes an item, or the semicolon. -/
theorem scan_cons (h : scan sql (turns + 1) (c :: text) first terminated = .ok result) :
    (∃ item rest first', Turn sql turns (c :: text) terminated result item rest first') ∨
      c = ';' ∧ terminated = none ∧
        scan sql turns text first (some (sql.take (sql.length - (text.length + 1)))) =
          .ok result := by
  have hblank {item rest : Str} {first : Option Str} (htext : c :: text = item ++ rest)
      (hne : item ≠ []) (hitem : Blank item rest)
      (hscan : scan sql turns rest first terminated = .ok result) :
      ∃ item rest first', Turn sql turns (c :: text) terminated result item rest first' :=
    ⟨item, rest, first, htext, hne, .blank hitem, fun _ => hitem, hscan⟩
  rw [scan] at h
  by_cases hspace : isAsciiWhitespace c = true
  · rw [if_pos hspace] at h
    exact .inl (hblank rfl (List.cons_ne_nil _ _) (.space hspace) h)
  rw [if_neg hspace] at h
  by_cases hline : (decide (c = '-') && decide (text.head? = some '-')) = true
  · rw [if_pos hline] at h
    obtain ⟨rfl, text, rfl⟩ := head_eq hline
    obtain ⟨skipped, htext, hnewline, hnext⟩ := skipLine_spec text
    exact .inl (hblank (congrArg ('-' :: '-' :: ·) htext) (List.cons_ne_nil _ _)
      (.line hnewline hnext) h)
  rw [if_neg hline] at h
  by_cases hblock : (decide (c = '/') && decide (text.head? = some '*')) = true
  · rw [if_pos hblock] at h
    obtain ⟨rfl, text, rfl⟩ := head_eq hblock
    rw [List.tail_cons] at h
    cases hskip : skipBlock text with
    | none =>
      rw [hskip] at h
      cases h
    | some rest =>
      rw [hskip] at h
      obtain ⟨skipped, rfl, -, hskipped⟩ := exists_skipBlock hskip
      exact .inl (hblank rfl (List.cons_ne_nil _ _) (.block hskipped) h)
  rw [if_neg hblock] at h
  by_cases hdone : terminated.isSome = true
  · rw [if_pos hdone] at h
    cases h
  rw [if_neg hdone] at h
  have hitem {item rest : Str} {first : Option Str} (htext : c :: text = item ++ rest)
      (hne : item ≠ []) (hitem : Item item rest)
      (hscan : scan sql turns rest first terminated = .ok result) :
      ∃ item rest first', Turn sql turns (c :: text) terminated result item rest first' :=
    ⟨item, rest, first, htext, hne, hitem, fun hsome => absurd hsome hdone, hscan⟩
  by_cases hquote : isQuote c = true
  · rw [if_pos hquote] at h
    cases hskip : skipQuoted c text with
    | none =>
      rw [hskip] at h
      cases h
    | some rest =>
      rw [hskip] at h
      obtain ⟨skipped, rfl, -, hnext, hskipped⟩ := exists_skipQuoted hskip
      exact .inl (hitem rfl (List.cons_ne_nil _ _) (.quoted hquote hnext hskipped) h)
  rw [if_neg hquote] at h
  by_cases hbracket : c = '['
  · rw [if_pos hbracket] at h
    subst hbracket
    cases hskip : skipBracket text with
    | none =>
      rw [hskip] at h
      cases h
    | some rest =>
      rw [hskip] at h
      obtain ⟨skipped, rfl, -, hskipped⟩ := exists_skipBracket hskip
      exact .inl (hitem rfl (List.cons_ne_nil _ _) (.bracket hskipped) h)
  rw [if_neg hbracket] at h
  by_cases hsemicolon : c = ';'
  · rw [if_pos hsemicolon] at h
    exact .inr ⟨hsemicolon, Option.not_isSome_iff_eq_none.1 hdone, h⟩
  rw [if_neg hsemicolon] at h
  by_cases hid : isIdentifierByte c = true
  · rw [if_pos hid] at h
    split_ifs at h
    refine .inl (hitem (congrArg (c :: ·) (List.takeWhile_append_dropWhile).symm)
      (List.cons_ne_nil _ _) (.word fun d hd => ?_) h)
    rcases List.mem_cons.1 hd with rfl | hd
    · exact hid
    · exact List.mem_takeWhile_imp hd
  · rw [if_neg hid] at h
    refine .inl (hitem rfl (List.cons_ne_nil _ _) (.other (by simpa using hquote) hbracket
      hsemicolon (fun hdash hnext => hline ?_) fun hslash hnext => hblock ?_) h)
    · rw [hdash, hnext]
      rfl
    · rw [hslash, hnext]
      rfl

/-- Behind the semicolon there are spaces and comments, and nothing changes what was before it. -/
theorem scan_terminated {before : Str} (hturns : text.length ≤ turns)
    (h : scan sql turns text first (some before) = .ok result) :
    result.2 = some before ∧ Blanks text := by
  induction turns generalizing text first with
  | zero =>
    obtain rfl := List.length_eq_zero_iff.1 (Nat.le_zero.1 hturns)
    cases h
    exact ⟨rfl, .nil⟩
  | succ turns ih =>
    cases text with
    | nil =>
      cases h
      exact ⟨rfl, .nil⟩
    | cons c text =>
      rcases scan_cons h with ⟨item, rest, first', hturn⟩ | ⟨-, hnone, -⟩
      · have hlength := congrArg List.length hturn.text
        have hpos := List.length_pos_of_ne_nil hturn.ne_nil
        rw [List.length_append] at hlength
        obtain ⟨hresult, hblanks⟩ := ih (by omega) hturn.scan
        refine ⟨hresult, ?_⟩
        rw [hturn.text]
        exact .cons (hturn.blank rfl) hblanks
      · cases hnone

/-- The statement within a text: all of it, or what is before a semicolon. -/
def Divided (done text : Str) (result : Option Str × Option Str) : Prop :=
  result.2 = none ∧ Items text [] ∨
    ∃ body after, text = body ++ ';' :: after ∧ result.2 = some (done ++ body) ∧
      Items body (';' :: after) ∧ Blanks after

/-- An accepted text consists of items. -/
theorem scan_items (hsql : sql = done ++ text) (hturns : text.length ≤ turns)
    (h : scan sql turns text first none = .ok result) : Divided done text result := by
  induction turns generalizing text done first with
  | zero =>
    obtain rfl := List.length_eq_zero_iff.1 (Nat.le_zero.1 hturns)
    cases h
    exact .inl ⟨rfl, .nil⟩
  | succ turns ih =>
    cases text with
    | nil =>
      cases h
      exact .inl ⟨rfl, .nil⟩
    | cons c text =>
      rw [List.length_cons] at hturns
      rcases scan_cons h with ⟨item, rest, first', hturn⟩ | ⟨rfl, -, hscan⟩
      · have hlength := congrArg List.length hturn.text
        have hpos := List.length_pos_of_ne_nil hturn.ne_nil
        rw [List.length_append, List.length_cons] at hlength
        have hitem := hturn.passes
        rw [hturn.text]
        rcases ih (by rw [hsql, hturn.text, List.append_assoc]) (by omega) hturn.scan with
          ⟨hnone, hitems⟩ | ⟨body, after, rfl, hsome, hitems, hblanks⟩
        · refine .inl ⟨hnone, .cons ?_ hitems⟩
          rwa [List.append_nil]
        · refine .inr ⟨item ++ body, after, (List.append_assoc _ _ _).symm, ?_,
            .cons hitem hitems, hblanks⟩
          rw [hsome, List.append_assoc]
      · -- the end of the statement
        have hbefore : sql.take (sql.length - (text.length + 1)) = done := by
          rw [hsql, List.length_append, List.length_cons, Nat.add_sub_cancel, List.take_left]
        rw [hbefore] at hscan
        obtain ⟨hresult, hblanks⟩ := scan_terminated (by omega) hscan
        exact .inr ⟨[], text, rfl, by rw [hresult, List.append_nil], .nil, hblanks⟩

/-- What is accepted has been scanned. -/
theorem validate_ok {sql statement : Str} (h : validate sql = .ok statement) :
    ∃ first terminated, scan sql sql.length sql none none = .ok (first, terminated) ∧
      statement = Str.trim (terminated.getD sql) := by
  unfold validate at h
  split_ifs at h
  cases hscan : scan sql sql.length sql none none with
  | error error =>
    rw [hscan] at h
    cases h
  | ok result =>
    rw [hscan] at h
    dsimp only at h
    split_ifs at h
    exact ⟨result.1, result.2, rfl, (Except.ok.inj h).symm⟩

end Scan

end Awayuki.CustomSql
