import Awayuki.Kq.Lexer
import Awayuki.Kq.Value

/-!
# KQ: the text of tokens

How tokens are written, and that the lexer reads them back.

* `TokenKind.text` is the text of a token, `TokenKind.Spelled` says that it has one;
* `renderTokens` writes tokens with single spaces between them;
* `tokenize_renderTokens`: the lexer reads the tokens back.
-/

namespace Awayuki.Kq

/-! ### Text of tokens -/

def escape (c : Char) : Str := if c = '"' ∨ c = '\\' then ['\\', c] else [c]

/-- A string literal, with its quotes. -/
def quoteText (value : Str) : Str := '"' :: (value.flatMap escape ++ ['"'])

/-- How a token is written. -/
def TokenKind.text : TokenKind → Str
  | .identifier value => value
  | .string value => quoteText value
  | .account value => '@' :: quoteText value
  | .opaqueId value => '#' :: quoteText value
  | .number value => numberText value
  | .minMagnitude => numberText (2 ^ 63 : ℕ)
  | .leftParen => ['(']
  | .rightParen => [')']
  | .leftBracket => ['[']
  | .rightBracket => [']']
  | .comma => [',']
  | .dot => ['.']
  | .colon => [':']
  | .plus => ['+']
  | .minus => ['-']
  | .star => ['*']
  | .slash => ['/']
  | .bang => ['!']
  | .ampersand => ['&']
  | .pipe => ['|']
  | .equal => ['=', '=']
  | .notEqual => ['!', '=']
  | .less => ['<']
  | .lessEqual => ['<', '=']
  | .greater => ['>']
  | .greaterEqual => ['>', '=']
  | .arrowRight => ['-', '>']
  | .arrowLeft => ['<', '-']
  | .end => []

/-- An identifier of ASCII characters. -/
def isWord : Str → Bool
  | [] => false
  | c :: s => (c == '_' || c.isAlpha) && (c :: s).all fun d => d == '_' || d.isAlphanum

/-- The tokens that have a text. -/
def TokenKind.Spelled : TokenKind → Prop
  | .identifier value => isWord value = true
  | .account value | .opaqueId value => value ≠ []
  | .number value => 0 ≤ value ∧ value < 2 ^ 63
  | .end => False
  | _ => True

/-- Tokens with single spaces between them. -/
def renderTokens : List TokenKind → Str
  | [] => []
  | [kind] => kind.text
  | kind :: kinds => kind.text ++ ' ' :: renderTokens kinds

/-! ### Reading a text from a position on -/

theorem peek_append (before rest : Str) : peek (before ++ rest) before.len = .ok rest.head? := by
  rw [peek, Str.dropBytes_append]

theorem peek_append_add (before run rest : Str) :
    peek (before ++ (run ++ rest)) (before.len + run.len) = .ok rest.head? := by
  rw [← List.append_assoc, ← Str.len_append, peek_append]

theorem sliceOrPanic_append (before run rest : Str) :
    sliceOrPanic (before ++ (run ++ rest)) before.len (before.len + run.len) = .ok run := by
  rw [sliceOrPanic, Str.slice_append]

theorem advanceWhile_append {p : Char → Bool} (before : Str) {run rest : Str} (steps : ℕ)
    (hrun : ∀ c ∈ run, p c = true) (hrest : ∀ c ∈ rest.head?, p c = false)
    (hsteps : run.length < steps) :
    advanceWhile (before ++ (run ++ rest)) p steps before.len = .ok (before.len + run.len) := by
  induction run generalizing before steps with
  | nil =>
    obtain ⟨steps, rfl⟩ := Nat.exists_eq_succ_of_ne_zero (Nat.ne_of_gt hsteps)
    rw [List.nil_append, advanceWhile, peek_append]
    cases rest with
    | nil => rfl
    | cons c rest => simp [hrest c rfl, bind, Except.bind]
  | cons c run ih =>
    obtain ⟨steps, rfl⟩ := Nat.exists_eq_succ_of_ne_zero (Nat.ne_of_gt (Nat.zero_lt_of_lt hsteps))
    have hnext := ih (before ++ [c]) steps (fun d hd => hrun d (by simp [hd]))
      (by simpa using hsteps)
    rw [advanceWhile, peek_append]
    simp only [List.cons_append, List.head?_cons, bind, Except.bind, hrun c (by simp), if_true]
    simpa [Nat.add_assoc] using hnext

theorem quotedLoop_append (before value rest acc : Str) (start steps : ℕ)
    (hsteps : value.length < steps) :
    quotedLoop (before ++ (value.flatMap escape ++ '"' :: rest)) start steps acc before.len =
      .ok (acc ++ value, before.len + Str.len (value.flatMap escape) + 1) := by
  induction value generalizing before acc steps with
  | nil =>
    obtain ⟨steps, rfl⟩ := Nat.exists_eq_succ_of_ne_zero (Nat.ne_of_gt hsteps)
    rw [List.flatMap_nil, List.nil_append, quotedLoop, peek_append]
    simp [bind, Except.bind, Str.len, Char.utf8Size]
  | cons c value ih =>
    obtain ⟨steps, rfl⟩ := Nat.exists_eq_succ_of_ne_zero (Nat.ne_of_gt (Nat.zero_lt_of_lt hsteps))
    have hnext : ∀ (read : Str), quotedLoop (before ++ (read ++ (value.flatMap escape ++ '"' :: rest)))
        start steps (acc ++ [c]) (before.len + read.len) =
        .ok (acc ++ c :: value, before.len + (read.len + Str.len (value.flatMap escape)) + 1) := by
      intro read
      have := ih (before ++ read) (acc ++ [c]) steps (by simpa using hsteps)
      simpa [Nat.add_assoc] using this
    rw [List.flatMap_cons, Str.len_append, List.append_assoc, ← hnext, quotedLoop]
    by_cases hc : c = '"' ∨ c = '\\'
    · -- an escape: the backslash, then the character itself
      have hescape : escape c = ['\\', c] := if_pos hc
      have hsecond := peek_append_add before ['\\'] (c :: (value.flatMap escape ++ '"' :: rest))
      rw [hescape, peek_append]
      simp only [List.cons_append, List.nil_append, Str.len_cons, Str.len_nil, Nat.add_zero,
        List.head?_cons] at hsecond ⊢
      simp [bind, Except.bind, hsecond, hc, Nat.add_assoc]
    · have hescape : escape c = [c] := if_neg hc
      obtain ⟨hquote, hslash⟩ := not_or.1 hc
      rw [hescape, peek_append]
      simp [bind, Except.bind, hquote, hslash]

theorem quoted_append (before value rest : Str) :
    quoted (before ++ (quoteText value ++ rest)) before.len =
      .ok (value, before.len + (quoteText value).len) := by
  have hlength : value.length ≤ (value.flatMap escape).length := by
    induction value with
    | nil => exact le_rfl
    | cons c value ih =>
      have : 1 ≤ (escape c).length := by unfold escape; split_ifs <;> simp
      simp only [List.flatMap_cons, List.length_append, List.length_cons]
      omega
  have hloop := quotedLoop_append (before ++ ['"']) value rest [] before.len
    ((before ++ (quoteText value ++ rest)).length + 1)
    (by simp only [quoteText, List.length_append, List.length_cons]; omega)
  simpa [quoted, quoteText, Char.utf8Size, Nat.add_assoc, Nat.add_comm, Nat.add_left_comm] using hloop

/-! ### Reading a token -/

/-- What may follow a token: a space or nothing. -/
def Separated (rest : Str) : Prop := ∀ c ∈ rest.head?, c = ' '

variable {c : Char} {limits : QueryLimits} {value input : Str}

theorem markedLiteral_append {before rest : Str} {delimiter : Char → Bool} {make : Str → TokenKind}
    {message : String} {marker : Char} (hmarker : marker.utf8Size = 1) (hvalue : value ≠ []) :
    markedLiteral (before ++ (marker :: quoteText value ++ rest)) delimiter make message before.len =
      .ok (make value, before.len + Str.len (marker :: quoteText value)) := by
  have hquoted := quoted_append (before ++ [marker]) value rest
  have hpeek := peek_append_add before [marker] (quoteText value ++ rest)
  simp only [Str.len_append, Str.len_cons, Str.len_nil, Nat.add_zero, hmarker, List.append_assoc,
    List.cons_append, List.nil_append] at hquoted hpeek
  simp only [List.cons_append, markedLiteral, hpeek, hquoted, bind, Except.bind]
  simp [quoteText, hvalue, hmarker, Nat.add_assoc]

theorem isAlpha_facts (h : c.isAlpha = true) :
    c.toNat < 128 ∧ c.isDigit = false ∧ Str.isWhitespace c = false := by
  have hletter : 65 ≤ c.toNat ∧ c.toNat ≤ 90 ∨ 97 ≤ c.toNat ∧ c.toNat ≤ 122 := by
    rcases Bool.or_eq_true_iff.1 (show (c.isUpper || c.isLower) = true from h) with hupper | hlower
    · exact .inl (of_decide_eq_true hupper)
    · exact .inr ((Bool.and_eq_true_iff.1 hlower).imp of_decide_eq_true of_decide_eq_true)
  simp [Char.isDigit, Str.isWhitespace, UInt32.le_iff_toNat_le]
  omega

theorem isDigit_facts (h : c.isDigit = true) : c.toNat < 128 ∧ Str.isWhitespace c = false := by
  simp [Char.isDigit, Str.isWhitespace, UInt32.le_iff_toNat_le] at h ⊢
  omega

theorem ascii_of_wordChar (h : (c == '_' || c.isAlphanum) = true) : c.toNat < 128 := by
  simp only [Bool.or_eq_true, beq_iff_eq, Char.isAlphanum] at h
  rcases h with rfl | h | h
  · decide
  · exact (isAlpha_facts h).1
  · exact (isDigit_facts h).1

theorem digitValue_digit (h : c.isDigit = true) :
    Str.digitValue 10 c = some (c.toNat - '0'.toNat) := by
  have hlt : c.toNat - '0'.toNat < 10 := by
    simp [Char.isDigit, UInt32.le_iff_toNat_le] at h ⊢
    omega
  rw [Str.digitValue, if_pos h]
  simpa using hlt

theorem digitsValue_ofDigitChars {cs : Str} (h : ∀ c ∈ cs, c.isDigit = true) (n : ℕ) :
    cs.foldlM (fun n c => (Str.digitValue 10 c).map (10 * n + ·)) n =
      some (Nat.ofDigitChars 10 cs n) := by
  induction cs generalizing n with
  | nil => rfl
  | cons c cs ih =>
    rw [List.foldlM_cons, digitValue_digit (h c (by simp)), Nat.ofDigitChars_cons]
    exact ih (fun d hd => h d (by simp [hd])) _

/-- The digits of a number denote it. -/
theorem digitsValue_toDigits (n : ℕ) : Str.digitsValue 10 (Nat.toDigits 10 n) = some n := by
  rw [Str.digitsValue, digitsValue_ofDigitChars
    (fun c hc => Nat.isDigit_of_mem_toDigits (by decide) (by decide) hc), Nat.ofDigitChars_ten_toDigits]

theorem numberText_natCast (n : ℕ) : numberText n = Nat.toDigits 10 n := by
  simp [numberText, toString, Int.repr]

theorem pushToken_of_lt {tokens : List Token} {token : Token}
    (h : tokens.length < limits.maxTokens) :
    pushToken input limits tokens token = .ok (tokens ++ [token]) :=
  if_neg (Nat.not_le.2 h)

section

variable [CharTable]

/-- The lexer reads the text as the token and stops behind it. -/
def Lexes (kind : TokenKind) (text : Str) : Prop :=
  ∃ c tail, text = c :: tail ∧ Str.isWhitespace c = false ∧ ∀ before rest, Separated rest →
    lexToken (before ++ (text ++ rest)) before.len c = .ok (kind, before.len + text.len)

variable {kind : TokenKind}

theorem Lexes.of_char (hspace : Str.isWhitespace c = false)
    (h : ∀ input start, lexToken input start c = .ok (kind, start + c.utf8Size)) : Lexes kind [c] :=
  ⟨c, [], rfl, hspace, fun before rest _ => by simp [h]⟩

/-- An operator that may be the start of a longer one. -/
theorem Lexes.one {two : List (Char × TokenKind)} (hspace : Str.isWhitespace c = false)
    (htwo : two.lookup ' ' = none)
    (h : ∀ input start, lexToken input start c = oneOrTwo input (start + c.utf8Size) kind two) :
    Lexes kind [c] := by
  refine ⟨c, [], rfl, hspace, fun before rest hrest => ?_⟩
  have hpeek := peek_append_add before [c] rest
  simp only [Str.len_cons, Str.len_nil, Nat.add_zero] at hpeek
  rw [h, oneOrTwo, hpeek]
  cases rest with
  | nil => simp [bind, Except.bind]
  | cons d rest =>
    obtain rfl : d = ' ' := hrest d rfl
    simp [bind, Except.bind, htwo]

/-- An operator of two characters. -/
theorem Lexes.two {short : TokenKind} {d : Char} {two : List (Char × TokenKind)}
    (hspace : Str.isWhitespace c = false) (htwo : two.lookup d = some kind) (hd : d.utf8Size = 1)
    (h : ∀ input start, lexToken input start c = oneOrTwo input (start + c.utf8Size) short two) :
    Lexes kind [c, d] := by
  refine ⟨c, [d], rfl, hspace, fun before rest _ => ?_⟩
  have hpeek := peek_append_add before [c] (d :: rest)
  simp only [Str.len_cons, Str.len_nil, Nat.add_zero] at hpeek
  rw [h, oneOrTwo, show before ++ ([c, d] ++ rest) = before ++ ([c] ++ d :: rest) by simp, hpeek]
  simp [bind, Except.bind, htwo, hd, Nat.add_assoc]

theorem lexes_string (value : Str) : Lexes (.string value) (quoteText value) := by
  refine ⟨'"', value.flatMap escape ++ ['"'], rfl, by decide, fun before rest _ => ?_⟩
  simp only [lexToken, quoted_append, bind, Except.bind]

theorem lexes_account (h : value ≠ []) : Lexes (.account value) ('@' :: quoteText value) :=
  ⟨'@', quoteText value, rfl, by decide, fun _ _ _ => markedLiteral_append (by decide) h⟩

theorem lexes_opaqueId (h : value ≠ []) : Lexes (.opaqueId value) ('#' :: quoteText value) :=
  ⟨'#', quoteText value, rfl, by decide, fun _ _ _ => markedLiteral_append (by decide) h⟩

theorem lexToken_digit {start : ℕ} (hc : c.isDigit = true) :
    lexToken input start c = number input start := by
  unfold lexToken
  split
  case h_21 => rw [if_pos hc]
  all_goals exact absurd hc (by decide)

theorem isIdentifierContinue_of_word (h : (c == '_' || c.isAlphanum) = true) :
    isIdentifierContinue c = true := by
  rwa [isIdentifierContinue, CharTable.isAlphanumeric_ascii c (ascii_of_wordChar h)]

theorem lexToken_word {start : ℕ} (hc : (c == '_' || c.isAlpha) = true) :
    lexToken input start c = identifier input start c := by
  unfold lexToken
  split
  case h_21 =>
    have hfacts : c.toNat < 128 ∧ c.isDigit = false := by
      rcases Bool.or_eq_true_iff.1 hc with h | h
      · obtain rfl := beq_iff_eq.1 h
        decide
      · exact ⟨(isAlpha_facts h).1, (isAlpha_facts h).2.1⟩
    have hstart : isIdentifierStart c = true := by
      rwa [isIdentifierStart, CharTable.isAlphabetic_ascii c hfacts.1]
    rw [if_neg (by simp [hfacts.2]), if_pos hstart]
  all_goals exact absurd hc (by decide)

theorem lexes_word (h : isWord value = true) : Lexes (.identifier value) value := by
  cases value with
  | nil => cases h
  | cons c value =>
    obtain ⟨hc, hword⟩ := Bool.and_eq_true_iff.1 h
    have hcontinue : ∀ d ∈ value, isIdentifierContinue d = true := fun d hd =>
      isIdentifierContinue_of_word (List.all_eq_true.1 hword d (by simp [hd]))
    have hspace : Str.isWhitespace c = false := by
      rcases Bool.or_eq_true_iff.1 hc with h | h
      · obtain rfl := beq_iff_eq.1 h
        decide
      · exact (isAlpha_facts h).2.2
    refine ⟨c, value, rfl, hspace, fun before rest hrest => ?_⟩
    have hstop : ∀ d ∈ rest.head?, isIdentifierContinue d = false := fun d hd => by
      obtain rfl := hrest d hd
      rw [isIdentifierContinue, CharTable.isAlphanumeric_ascii _ (by decide)]
      decide
    have hadvance := advanceWhile_append (before ++ [c])
      ((before ++ (c :: value ++ rest)).length + 1) hcontinue hstop
      (by simp only [List.length_append, List.length_cons]; omega)
    have hslice := sliceOrPanic_append before (c :: value) rest
    simp only [Str.len_append, Str.len_cons, Str.len_nil, Nat.add_zero, List.append_assoc,
      List.cons_append, List.nil_append, ← Nat.add_assoc] at hadvance hslice
    rw [lexToken_word hc, identifier]
    simp only [List.cons_append, hadvance, hslice, bind, Except.bind, Str.len_cons,
      ← Nat.add_assoc]

theorem lexes_number {n : ℕ}
    (hkind : n < 2 ^ 63 ∧ kind = .number n ∨ n = 2 ^ 63 ∧ kind = .minMagnitude) :
    Lexes kind (Nat.toDigits 10 n) := by
  have hdigits : ∀ c ∈ Nat.toDigits 10 n, c.isDigit = true :=
    fun c hc => Nat.isDigit_of_mem_toDigits (by decide) (by decide) hc
  have hvalue := digitsValue_toDigits n
  have hne : Nat.toDigits 10 n ≠ [] := Nat.toDigits_ne_nil
  generalize Nat.toDigits 10 n = digits at hdigits hvalue hne
  cases digits with
  | nil => exact absurd rfl hne
  | cons c digits =>
    have hc := hdigits c (by simp)
    refine ⟨c, digits, rfl, (isDigit_facts hc).2, fun before rest hrest => ?_⟩
    have hstop : ∀ d ∈ rest.head?, d.isDigit = false := fun d hd => by
      obtain rfl := hrest d hd
      decide
    rw [lexToken_digit hc, number]
    simp only [advanceWhile_append before ((before ++ (c :: digits ++ rest)).length + 1)
      hdigits hstop (by simp only [List.length_append, List.length_cons]; omega), sliceOrPanic_append, bind,
      Except.bind, hvalue]
    rcases hkind with ⟨hlt, rfl⟩ | ⟨rfl, rfl⟩
    · rw [if_pos hlt]
    · rw [if_neg (lt_irrefl _), if_pos rfl]

/-- Every token that has a text is read back from it. -/
theorem lexes_text (h : kind.Spelled) : Lexes kind kind.text := by
  cases kind
  case identifier value => exact lexes_word h
  case string value => exact lexes_string value
  case account value => exact lexes_account h
  case opaqueId value => exact lexes_opaqueId h
  case number value =>
    obtain ⟨n, rfl⟩ := Int.eq_ofNat_of_zero_le h.1
    rw [TokenKind.text, numberText_natCast]
    exact lexes_number (.inl ⟨by exact_mod_cast h.2, rfl⟩)
  case minMagnitude =>
    rw [TokenKind.text, numberText_natCast]
    exact lexes_number (.inr ⟨rfl, rfl⟩)
  case ampersand | pipe => exact .one (by decide) (by decide) fun _ _ => rfl
  case bang | minus | less | greater => exact .one (by decide) (by decide) fun _ _ => rfl
  case equal | notEqual | lessEqual | greaterEqual | arrowRight | arrowLeft =>
    exact .two (by decide) (by decide) (by decide) fun _ _ => rfl
  case «end» => exact absurd h id
  all_goals exact .of_char (by decide) fun _ _ => rfl

/-! ### Reading tokens -/

theorem tokenizeLoop_step {text : Str} (before rest : Str) (tokens : List Token) (steps : ℕ)
    (hlex : Lexes kind text) (hrest : Separated rest) (hroom : tokens.length < limits.maxTokens) :
    tokenizeLoop (before ++ (text ++ rest)) limits (steps + 1) tokens before.len =
      tokenizeLoop (before ++ (text ++ rest)) limits steps
        (tokens ++ [⟨kind, ⟨before.len, before.len + text.len⟩⟩]) (before.len + text.len) := by
  obtain ⟨c, tail, rfl, hspace, htoken⟩ := hlex
  rw [tokenizeLoop, peek_append]
  simp only [List.cons_append, List.head?_cons, bind, Except.bind, hspace, Bool.false_eq_true,
    if_false]
  have := htoken before rest hrest
  rw [List.cons_append] at this
  rw [this]
  simp only [pushToken_of_lt hroom]

theorem tokenizeLoop_space (before rest : Str) (tokens : List Token) (steps : ℕ) :
    tokenizeLoop (before ++ ' ' :: rest) limits (steps + 1) tokens before.len =
      tokenizeLoop (before ++ ' ' :: rest) limits steps tokens (before.len + 1) := by
  rw [tokenizeLoop, peek_append]
  simp [bind, Except.bind, show Str.isWhitespace ' ' = true by decide, Char.utf8Size]

variable {kinds : List TokenKind}

/-- The lexer reads tokens written with spaces between them. -/
theorem tokenizeLoop_renderTokens (hkinds : ∀ kind ∈ kinds, kind.Spelled) (before : Str)
    (tokens : List Token) (steps : ℕ) (hsteps : 2 * kinds.length ≤ steps) (hpos : 0 < steps)
    (hroom : tokens.length + kinds.length < limits.maxTokens) :
    ∃ tokens', tokenizeLoop (before ++ renderTokens kinds) limits steps tokens before.len =
        .ok (tokens ++ tokens') ∧ tokens'.map Token.kind = kinds ++ [.end] := by
  induction kinds generalizing before tokens steps with
  | nil =>
    obtain ⟨steps, rfl⟩ := Nat.exists_eq_succ_of_ne_zero (Nat.ne_of_gt hpos)
    refine ⟨[⟨.end, ⟨before.len, before.len⟩⟩], ?_, rfl⟩
    rw [renderTokens, tokenizeLoop, peek_append]
    simpa [bind, Except.bind] using pushToken_of_lt hroom
  | cons kind kinds ih =>
    have hlex := lexes_text (hkinds kind (by simp))
    have hrest : ∀ k ∈ kinds, k.Spelled := fun k hk => hkinds k (by simp [hk])
    simp only [List.length_cons] at hsteps hroom
    obtain ⟨steps, rfl⟩ : ∃ k, steps = k + 2 := ⟨steps - 2, by omega⟩
    cases kinds with
    | nil =>
      have hstep := tokenizeLoop_step before [] tokens (steps + 1) hlex
        (fun _ h => by simp at h) (by omega : tokens.length < limits.maxTokens)
      have hend := ih hrest (before ++ kind.text)
        (tokens ++ [⟨kind, ⟨before.len, before.len + kind.text.len⟩⟩]) (steps + 1) (by simp)
        (Nat.succ_pos _) (by simpa using hroom)
      obtain ⟨tokens', hrun, hmap⟩ := hend
      refine ⟨⟨kind, ⟨before.len, before.len + kind.text.len⟩⟩ :: tokens', ?_, by simp [hmap]⟩
      simp only [renderTokens, List.append_nil, Str.len_append, List.append_assoc,
        List.singleton_append] at hstep hrun ⊢
      rw [hstep, hrun]
    | cons kind' kinds =>
      have hstep := tokenizeLoop_step before (' ' :: renderTokens (kind' :: kinds)) tokens
        (steps + 1) hlex
        (fun c h => by simpa using h.symm) (by omega : tokens.length < limits.maxTokens)
      have hspace := @tokenizeLoop_space limits _ (before ++ kind.text)
        (renderTokens (kind' :: kinds))
        (tokens ++ [⟨kind, ⟨before.len, before.len + kind.text.len⟩⟩]) steps
      obtain ⟨tokens', hrun, hmap⟩ := ih hrest (before ++ (kind.text ++ [' ']))
        (tokens ++ [⟨kind, ⟨before.len, before.len + kind.text.len⟩⟩]) steps
        (by simp only [List.length_cons] at hsteps ⊢; omega)
        (by simp only [List.length_cons] at hsteps; omega)
        (by simp only [List.length_append, List.length_cons, List.length_nil] at hroom ⊢; omega)
      refine ⟨⟨kind, ⟨before.len, before.len + kind.text.len⟩⟩ :: tokens', ?_, by simp [hmap]⟩
      simp only [Str.len_append, Str.len_cons, Str.len_nil, Nat.add_zero, List.append_assoc,
        List.cons_append, List.nil_append, show Char.utf8Size ' ' = 1 from rfl,
        ← Nat.add_assoc] at hstep hspace hrun
      rw [renderTokens, hstep, hspace, hrun]
      simp

theorem length_renderTokens (hkinds : ∀ kind ∈ kinds, kind.Spelled) :
    2 * kinds.length ≤ (renderTokens kinds).length + 1 := by
  induction kinds with
  | nil => simp
  | cons kind kinds ih =>
    have hlength : 1 ≤ kind.text.length := by
      obtain ⟨c, tail, htext, -⟩ := lexes_text (hkinds kind (by simp))
      simp [htext]
    have hrest := ih fun k hk => hkinds k (by simp [hk])
    cases kinds with
    | nil => simpa [renderTokens] using hlength
    | cons kind' kinds =>
      simp only [renderTokens, List.length_append, List.length_cons] at hrest ⊢
      omega

/-- The lexer reads the tokens of a text back. -/
theorem tokenize_renderTokens (hkinds : ∀ kind ∈ kinds, kind.Spelled)
    (hroom : kinds.length < limits.maxTokens) :
    ∃ tokens, tokenize (renderTokens kinds) limits = .ok tokens ∧
      tokens.map Token.kind = kinds ++ [.end] := by
  obtain ⟨tokens, hrun, hmap⟩ := tokenizeLoop_renderTokens hkinds [] []
    ((renderTokens kinds).length + 1) (length_renderTokens hkinds) (Nat.succ_pos _)
    (by simpa using hroom)
  exact ⟨tokens, hrun, hmap⟩

end

end Awayuki.Kq
