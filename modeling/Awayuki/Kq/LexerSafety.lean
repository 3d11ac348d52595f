import Awayuki.Library.Outcome
import Awayuki.Kq.Lexeme

/-!
# KQ: the lexer never panics

Every position the lexer reads from lies between two characters: it is the length of what has been
read.  So no slice splits a character, and the lexer ends with a list of tokens or with an error.

* `CompileError.Placed`: the span of an error is a piece of the input, and line and column are
  those of its beginning;
* `ReadsTo`: a piece of the input has been read, from the position before it to the one after it;
* `tokenize_meets`: the tokens end with `end`, which comes once.
-/

namespace Awayuki.Kq

open Outcome

/-! ### Errors and their places -/

variable {steps : ℕ} {s input : Str}

/-- The characters after the last line break. -/
def lastLine (s : Str) : Str := s.rtakeWhile (· != '\n')

/-- The error is about the piece `between` of the input, and has the line and the column, both
from one, at which it begins. -/
def CompileError.Placed (input : Str) (error : CompileError) : Prop :=
  ∃ before between after, input = before ++ (between ++ after) ∧
    error.span = ⟨Str.len before, Str.len before + Str.len between⟩ ∧
    error.line = before.count '\n' + 1 ∧ error.column = (lastLine before).length + 1

/-- A failure that is an error in its place, and no panic. -/
def Failure.Placed (input : Str) : Failure → Prop
  | .compile error => error.Placed input
  | .panic => False

/-- The boundary at which the source stops is one between two characters. -/
theorem exists_split_floorBoundary (s : Str) (n : ℕ) :
    ∃ before after, s = before ++ after ∧ Str.floorBoundary s n = Str.len before := by
  induction s generalizing n with
  | nil => exact ⟨[], [], rfl, rfl⟩
  | cons c s ih =>
    by_cases hn : c.utf8Size ≤ n
    · obtain ⟨before, after, hsplit, hlen⟩ := ih (n - c.utf8Size)
      refine ⟨c :: before, after, by rw [hsplit]; rfl, ?_⟩
      rw [Str.floorBoundary, if_pos hn, hlen, Str.len_cons]
    · exact ⟨[], c :: s, rfl, by rw [Str.floorBoundary, if_neg hn]; rfl⟩

theorem len_eq_zero : Str.len s = 0 ↔ s = [] := by
  cases s with
  | nil => simp
  | cons c s =>
    have hpos := Char.utf8Size_pos c
    simp only [Str.len_cons, reduceCtorEq, iff_false]
    omega

/-- Of two places in a text, the later one comes a piece after the other. -/
theorem exists_between {before after before' after' : Str}
    (h : before ++ after = before' ++ after') (hle : Str.len before ≤ Str.len before') :
    ∃ between, before' = before ++ between := by
  rcases List.append_eq_append_iff.1 h with ⟨between, hbefore, -⟩ | ⟨between, hbefore, -⟩
  · exact ⟨between, hbefore⟩
  · rw [hbefore, Str.len_append] at hle
    obtain rfl : between = [] := len_eq_zero.1 (by omega)
    exact ⟨[], by simpa using hbefore.symm⟩

/-- Either there is no such character, or the text is split at the last one. -/
theorem rsplitOnce_cases (c : Char) (s : Str) :
    (Str.rsplitOnce c s = none ∧ c ∉ s) ∨
      ∃ a b, Str.rsplitOnce c s = some (a, b) ∧ s = a ++ c :: b ∧ c ∉ b := by
  induction s with
  | nil => exact Or.inl ⟨rfl, List.not_mem_nil⟩
  | cons d s ih =>
    rcases ih with ⟨hnone, hmem⟩ | ⟨a, b, hsome, rfl, hb⟩
    · rw [Str.rsplitOnce, hnone]
      by_cases hd : d = c
      · exact Or.inr ⟨[], s, if_pos hd, by rw [hd]; rfl, hmem⟩
      · refine Or.inl ⟨if_neg hd, ?_⟩
        rw [List.mem_cons, not_or]
        exact ⟨Ne.symm hd, hmem⟩
    · rw [Str.rsplitOnce, hsome]
      exact Or.inr ⟨d :: a, b, rfl, rfl, hb⟩

theorem lastLine_of_not_mem (h : '\n' ∉ s) : lastLine s = s := by
  rw [lastLine, List.rtakeWhile_eq_self_iff]
  intro c hc
  rw [bne_iff_ne]
  rintro rfl
  exact h hc

theorem lastLine_append (s : Str) {line : Str} (h : '\n' ∉ line) :
    lastLine (s ++ '\n' :: line) = line := by
  have hline : ∀ c ∈ line.reverse, (c != '\n') = true := by
    intro c hc
    rw [bne_iff_ne]
    rintro rfl
    exact h (List.mem_reverse.1 hc)
  rw [lastLine, List.rtakeWhile, List.reverse_append, List.reverse_cons, List.append_assoc,
    List.takeWhile_append_of_pos hline]
  simp

/-- An error is made at every place, and it is about that place. -/
theorem CompileError.at?_placed (input : Str) (span : Span) (message : Str) :
    ∃ error, CompileError.at? input span message = some error ∧ error.Placed input := by
  obtain ⟨before, after, hsplit, hstart⟩ := exists_split_floorBoundary input span.start
  obtain ⟨before', after', hsplit', hstop⟩ := exists_split_floorBoundary input span.stop
  have hspan : ∃ between after'', input = before ++ (between ++ after'') ∧
      max (Str.len before') (Str.len before) = Str.len before + Str.len between := by
    by_cases hle : Str.len before ≤ Str.len before'
    · obtain ⟨between, hbetween⟩ := exists_between (hsplit.symm.trans hsplit') hle
      refine ⟨between, after', by rw [hsplit', hbetween, List.append_assoc], ?_⟩
      rw [hbetween, Str.len_append]
      omega
    · exact ⟨[], after, by simpa using hsplit, by rw [Str.len_nil]; omega⟩
  obtain ⟨between, after'', hinput, hmax⟩ := hspan
  have htake : Str.takeBytes input (Str.len before) = some before := by
    rw [hsplit, Str.takeBytes_append]
  have hlast : Str.slice input (((Str.rsplitOnce '\n' before).map fun lines =>
      Str.len lines.1 + 1).getD 0) (Str.len before) = some (lastLine before) := by
    rcases rsplitOnce_cases '\n' before with ⟨hnone, hmem⟩ | ⟨a, b, hsome, hbefore, hb⟩
    · have hslice := Str.slice_append [] before after
      rw [hnone, lastLine_of_not_mem hmem, hsplit]
      simpa using hslice
    · have hslice := Str.slice_append (a ++ ['\n']) b after
      have hnewline : '\n'.utf8Size = 1 := rfl
      rw [hsome, hsplit, hbefore, lastLine_append a hb]
      simpa [hnewline, Nat.add_assoc, Nat.add_comm 1] using hslice
  refine ⟨⟨message, ⟨Str.len before, Str.len before + Str.len between⟩, before.count '\n' + 1,
    (lastLine before).length + 1⟩, ?_, before, between, after'', hinput, rfl, rfl, rfl⟩
  rw [CompileError.at?, hstart, hstop, htake]
  simp only [Option.bind_some, hlast, Option.map_some, hmax]

/-- What is reported is placed. -/
theorem failAt_meets {α : Type} (P : α → Prop) (span : Span) (message : String) :
    Meets (Failure.Placed input) P (failAt input span message) := by
  obtain ⟨error, herror, hplaced⟩ := CompileError.at?_placed input span message
  rw [failAt, herror]
  exact hplaced

/-! ### Reading on -/

/-- A piece of `rest` has been read, up to the position `stop`. -/
def ReadsTo (before rest : Str) (stop : ℕ) : Prop :=
  ∃ run rest', rest = run ++ rest' ∧ stop = Str.len before + Str.len run

variable {before rest : Str} {start stop : ℕ} {c : Char}

theorem readsTo_nil : ReadsTo before rest (Str.len before) := ⟨[], rest, rfl, rfl⟩

theorem ReadsTo.cons (h : ReadsTo (before ++ [c]) rest stop) : ReadsTo before (c :: rest) stop := by
  obtain ⟨run, rest', rfl, hstop⟩ := h
  refine ⟨c :: run, rest', rfl, ?_⟩
  rw [hstop, Str.len_append, Str.len_cons, Str.len_cons, Str.len_nil]
  omega

theorem len_concat : Str.len (before ++ [c]) = Str.len before + c.utf8Size := by simp

/-- Where the loop over the characters with `p` ends. -/
theorem advanceWhile_eq (before rest : Str) (p : Char → Bool) (hsteps : rest.length < steps) :
    advanceWhile (before ++ rest) p steps (Str.len before) =
      .ok (Str.len before + Str.len (rest.takeWhile p)) := by
  have hrest : ∀ c ∈ (rest.dropWhile p).head?, p c = false := by
    intro c hc
    have hnot := List.head?_dropWhile_not p rest
    rw [Option.mem_def.1 hc] at hnot
    simpa using hnot
  have hrun : ∀ c ∈ rest.takeWhile p, p c = true := fun c hc => List.mem_takeWhile_imp hc
  have hlength : (rest.takeWhile p).length < steps :=
    lt_of_le_of_lt (List.takeWhile_prefix p).length_le hsteps
  have hwhole := advanceWhile_append before steps hrun hrest hlength
  rwa [List.takeWhile_append_dropWhile] at hwhole

theorem readsTo_takeWhile (before rest : Str) (p : Char → Bool) :
    ReadsTo before rest (Str.len before + Str.len (rest.takeWhile p)) :=
  ⟨rest.takeWhile p, rest.dropWhile p, List.takeWhile_append_dropWhile.symm, rfl⟩

/-- The piece of the input between two positions. -/
theorem sliceOrPanic_takeWhile (p : Char → Bool) :
    sliceOrPanic (before ++ rest) (Str.len before)
      (Str.len before + Str.len (rest.takeWhile p)) = .ok (rest.takeWhile p) := by
  have hslice := sliceOrPanic_append before (rest.takeWhile p) (rest.dropWhile p)
  rwa [List.takeWhile_append_dropWhile] at hslice

/-! ### Tokens -/

theorem quotedLoop_meets (before rest : Str) (start : ℕ) (hsteps : rest.length < steps)
    (value : Str) : Meets (Failure.Placed (before ++ rest)) (fun read => ReadsTo before rest read.2)
      (quotedLoop (before ++ rest) start steps value (Str.len before)) := by
  induction steps generalizing before rest value with
  | zero => exact absurd hsteps (Nat.not_lt_zero _)
  | succ steps ih =>
    -- the loop goes on after one more character
    have hnext : ∀ (before : Str) (c : Char) (rest' value : Str), rest'.length < steps →
        Meets (Failure.Placed (before ++ c :: rest'))
          (fun read => ReadsTo before (c :: rest') read.2)
          (quotedLoop (before ++ c :: rest') start steps value
            (Str.len before + c.utf8Size)) := by
      intro before c rest' value hlength
      have hinner := ih (before ++ [c]) rest' hlength value
      rw [List.append_assoc, List.singleton_append, len_concat] at hinner
      exact hinner.mono fun read hread => hread.cons
    rw [quotedLoop, peek_append]
    cases rest with
    | nil => exact failAt_meets _ _ _
    | cons c rest =>
      have hlength : rest.length < steps := by simpa using hsteps
      show Meets _ _ (ite _ _ _)
      split_ifs with hquote hslash
      · exact ⟨[c], rest, rfl, by simp⟩
      · have hpeek : peek (before ++ c :: rest) (Str.len before + c.utf8Size) =
            .ok rest.head? := by
          simpa using peek_append_add before [c] rest
        rw [hpeek]
        cases rest with
        | nil => exact failAt_meets _ _ _
        | cons d rest =>
          have hafter := hnext (before ++ [c]) d rest
          rw [List.append_assoc, List.singleton_append, len_concat] at hafter
          have hshort : rest.length < steps := lt_of_le_of_lt (Nat.le_succ _) hlength
          show Meets _ _ (ite _ _ _)
          split_ifs
          · exact (hafter _ hshort).mono fun read hread => hread.cons
          · exact (hafter _ hshort).mono fun read hread => hread.cons
      · exact hnext before c rest _ hlength

/-- The literal whose opening quote has just been read. -/
theorem quoted_meets (before rest : Str) :
    Meets (Failure.Placed (before ++ '"' :: rest))
      (fun read => ReadsTo (before ++ ['"']) rest read.2)
      (quoted (before ++ '"' :: rest) (Str.len before)) := by
  have hquote : '"'.utf8Size = 1 := rfl
  have hloop := quotedLoop_meets (before ++ ['"']) rest (Str.len before)
    (by simp only [List.length_append, List.length_cons]; omega :
      rest.length < (before ++ '"' :: rest).length + 1) []
  rw [List.append_assoc, List.singleton_append, len_concat, hquote] at hloop
  exact hloop

/-- A token that is not `end` and ends behind its first character. -/
def Lexed (before : Str) (c : Char) (rest : Str) (token : TokenKind × ℕ) : Prop :=
  token.1 ≠ .end ∧ ReadsTo (before ++ [c]) rest token.2

theorem lexed_here {kind : TokenKind} (h : kind ≠ .end) :
    Lexed before c rest (kind, Str.len before + c.utf8Size) :=
  ⟨h, by rw [← len_concat]; exact readsTo_nil⟩

theorem markedLiteral_meets {delimiter : Char → Bool} {make : Str → TokenKind}
    {emptyMessage : String} (hc : c.utf8Size = 1) (hmake : ∀ value, make value ≠ .end) :
    Meets (Failure.Placed (before ++ c :: rest)) (Lexed before c rest)
      (markedLiteral (before ++ c :: rest) delimiter make emptyMessage (Str.len before)) := by
  have hinput : before ++ c :: rest = (before ++ [c]) ++ rest := by simp
  have hstart : Str.len before + 1 = Str.len (before ++ [c]) := by rw [len_concat, hc]
  rw [markedLiteral, hstart, hinput, peek_append]
  show Meets _ _ (ite _ _ _)
  split_ifs with hquote
  · cases rest with
    | nil => cases hquote
    | cons d rest =>
      obtain rfl : d = '"' := by simpa using hquote
      refine (quoted_meets (before ++ [c]) rest).bind fun read hread => ?_
      show Meets _ _ (ite _ _ _)
      split_ifs
      · exact failAt_meets _ _ _
      · exact ⟨hmake _, hread.cons⟩
  · rw [advanceWhile_eq (before ++ [c]) rest _ (by simp only [List.length_append]; omega)]
    show Meets _ _ (ite _ _ _)
    split_ifs
    · exact failAt_meets _ _ _
    · rw [sliceOrPanic_takeWhile]
      exact ⟨hmake _, readsTo_takeWhile _ _ _⟩

theorem takeWhile_cons_readsTo (before rest : Str) {p : Char → Bool} (hc : p c = true) :
    ReadsTo (before ++ [c]) rest (Str.len before + Str.len ((c :: rest).takeWhile p)) := by
  have hread := readsTo_takeWhile (before ++ [c]) rest p
  rw [len_concat] at hread
  rw [List.takeWhile_cons_of_pos hc, Str.len_cons, ← Nat.add_assoc]
  exact hread

theorem number_meets (hc : c.isDigit = true) :
    Meets (Failure.Placed (before ++ c :: rest)) (Lexed before c rest)
      (number (before ++ c :: rest) (Str.len before)) := by
  have hread := takeWhile_cons_readsTo before rest hc
  rw [number, advanceWhile_eq before (c :: rest) _
    (by simp only [List.length_append, List.length_cons]; omega)]
  refine Meets.bind (P := fun stop => stop = _) rfl ?_
  rintro stop rfl
  rw [sliceOrPanic_takeWhile]
  refine Meets.bind (P := fun _ => True) trivial fun digits _ => ?_
  split
  · exact failAt_meets _ _ _
  · split_ifs
    · exact ⟨by simp, hread⟩
    · exact ⟨by simp, hread⟩
    · exact failAt_meets _ _ _

/-- An operator whose second character, if it has one, is an ASCII one. -/
theorem oneOrTwo_meets {one : TokenKind} {two : List (Char × TokenKind)} (hone : one ≠ .end)
    (htwo : ∀ entry ∈ two, entry.1.utf8Size = 1 ∧ entry.2 ≠ .end) :
    Meets (Failure.Placed (before ++ c :: rest)) (Lexed before c rest)
      (oneOrTwo (before ++ c :: rest) (Str.len before + c.utf8Size) one two) := by
  have hpeek : peek (before ++ c :: rest) (Str.len before + c.utf8Size) = .ok rest.head? := by
    simpa using peek_append_add before [c] rest
  rw [oneOrTwo, hpeek]
  refine Meets.bind (P := fun next => next = rest.head?) rfl ?_
  rintro next rfl
  split
  next kind hlookup =>
    obtain ⟨d, hd, hkind⟩ := Option.bind_eq_some_iff.1 hlookup
    obtain ⟨rest', rfl⟩ : ∃ rest', rest = d :: rest' := List.head?_eq_some_iff.1 hd
    obtain ⟨first, second, rfl, -⟩ := List.lookup_eq_some_iff.1 hkind
    obtain ⟨hsize, hend⟩ := htwo (d, kind) (by simp)
    refine ⟨hend, [d], rest', rfl, ?_⟩
    dsimp only at hsize ⊢
    rw [len_concat, Str.len_cons, Str.len_nil, hsize]
  next => exact lexed_here hone

section

variable [CharTable] {limits : QueryLimits}

theorem identifier_meets (before rest : Str) (c : Char) :
    Meets (Failure.Placed (before ++ c :: rest)) (Lexed before c rest)
      (identifier (before ++ c :: rest) (Str.len before) c) := by
  have hinput : before ++ c :: rest = (before ++ [c]) ++ rest := by simp
  have hslice := sliceOrPanic_append before (c :: rest.takeWhile isIdentifierContinue)
    (rest.dropWhile isIdentifierContinue)
  rw [List.cons_append, List.takeWhile_append_dropWhile, Str.len_cons, ← Nat.add_assoc] at hslice
  have hrun := advanceWhile_eq (before ++ [c]) rest isIdentifierContinue
    (by simp only [List.length_append, List.length_cons]; omega :
      rest.length < (before ++ c :: rest).length + 1)
  rw [← hinput, len_concat] at hrun
  rw [identifier, hrun]
  refine Meets.bind (P := fun stop => stop = _) rfl ?_
  rintro stop rfl
  rw [hslice]
  refine ⟨by simp, ?_⟩
  rw [← len_concat]
  exact readsTo_takeWhile _ _ _

/-- Every token is read from the characters it begins with. -/
theorem lexToken_meets (before rest : Str) (c : Char) :
    Meets (Failure.Placed (before ++ c :: rest)) (Lexed before c rest)
      (lexToken (before ++ c :: rest) (Str.len before) c) := by
  unfold lexToken
  split
  case h_1 => exact (quoted_meets before rest).bind fun read hread => ⟨by simp, hread⟩
  case h_2 | h_3 => exact markedLiteral_meets rfl (by simp)
  case h_4 | h_5 | h_6 | h_7 | h_8 | h_9 | h_10 | h_11 | h_12 | h_13 =>
    exact lexed_here (by simp)
  case h_14 | h_15 | h_16 | h_17 | h_18 | h_19 | h_20 =>
    exact oneOrTwo_meets (by simp) (by decide)
  case h_21 =>
    split_ifs with hdigit
    · exact number_meets hdigit
    · exact identifier_meets before rest c
    · exact failAt_meets _ _ _

/-! ### Lists of tokens -/

/-- The list ends with `end`, which comes nowhere else. -/
def Closed (tokens : List Token) : Prop :=
  ∃ body last, tokens = body ++ [last] ∧ last.kind = .end ∧ ∀ token ∈ body, token.kind ≠ .end

omit [CharTable] in
theorem pushToken_meets (tokens : List Token) (token : Token) :
    Meets (Failure.Placed input) (· = tokens ++ [token])
      (pushToken input limits tokens token) := by
  unfold pushToken
  split_ifs
  · exact failAt_meets _ _ _
  · rfl

theorem tokenizeLoop_meets (before rest : Str) (hsteps : rest.length < steps) {tokens : List Token}
    (htokens : ∀ token ∈ tokens, token.kind ≠ .end) : Meets (Failure.Placed (before ++ rest)) Closed
      (tokenizeLoop (before ++ rest) limits steps tokens (Str.len before)) := by
  induction steps generalizing before rest tokens with
  | zero => exact absurd hsteps (Nat.not_lt_zero _)
  | succ steps ih =>
    rw [tokenizeLoop, peek_append]
    cases rest with
    | nil =>
      refine (pushToken_meets tokens _).mono ?_
      rintro _ rfl
      exact ⟨tokens, _, rfl, rfl, htokens⟩
    | cons c rest =>
      have hlength : rest.length < steps := by simpa using hsteps
      show Meets _ _ (ite _ _ _)
      split_ifs
      · have hspace := ih (before ++ [c]) rest hlength htokens
        rw [List.append_assoc, List.singleton_append, len_concat] at hspace
        exact hspace
      · refine (lexToken_meets before rest c).bind ?_
        rintro ⟨kind, stop⟩ ⟨hkind, run, rest', rfl, hstop⟩
        refine (pushToken_meets tokens _).bind ?_
        rintro _ rfl
        have hnext : ∀ token ∈ tokens ++ [⟨kind, ⟨Str.len before, stop⟩⟩],
            token.kind ≠ .end := by
          intro token htoken
          rcases List.mem_append.1 htoken with htoken | htoken
          · exact htokens token htoken
          · rw [List.mem_singleton.1 htoken]
            exact hkind
        have hgo := ih (before ++ c :: run) rest'
          (by rw [List.length_append] at hlength; omega) hnext
        have hplace : stop = Str.len (before ++ c :: run) := by
          dsimp only at hstop
          rw [hstop, len_concat, Str.len_append, Str.len_cons, Nat.add_assoc]
        rw [← hplace, List.append_assoc, List.cons_append] at hgo
        exact hgo

/-- The lexer ends with a list of tokens, or with an error in its place. -/
theorem tokenize_meets (input : Str) (limits : QueryLimits) :
    Meets (Failure.Placed input) Closed (tokenize input limits) :=
  tokenizeLoop_meets [] input (Nat.lt_succ_self _) (by simp)

end

end Awayuki.Kq
