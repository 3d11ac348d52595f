import Mathlib.Tactic

/-!
# The lexical modes of SQL text

How SQLite reads a statement, character by character: strings and quoted identifiers, in which the
quote is doubled, identifiers in brackets, comments to the end of the line and comments in blocks.
The text ends at a zero character.

* `advance`, `run`: the mode after a character, after a text;
* `marks`: the parentheses, semicolons and parameters that are outside quotes and comments;
* `closer`, `balance`: where the parenthesis is closed that is open before a text;
* `closer_eq_length`: right after the text, exactly when the text is balanced.
-/

namespace SqlText

inductive Mode
  | code | word | dash | slash | line | block | star | quote (q : Char) | closed (q : Char)
  | bracket | ended
  deriving DecidableEq, Repr

inductive Mark
  | opens | closes | semicolon | parameter
  deriving DecidableEq, Repr

/-- The characters of identifiers, keywords and numbers. -/
def isIdChar (c : Char) : Bool := c.isAlphanum || c = '_' || c = '$' || 128 ≤ c.toNat

def isQuote (c : Char) : Bool := c ∈ "'\"`".toList

/-- The mode after a character outside quotes and comments. -/
def start (c : Char) : Mode :=
  if c = '-' then .dash
  else if c = '/' then .slash
  else if isQuote c then .quote c
  else if c = '[' then .bracket
  else if isIdChar c then .word
  else .code

def next : Mode → Char → Mode
  | .ended, _ => .ended
  | .line, c => if c = '\n' then .code else .line
  | .block, c => if c = '*' then .star else .block
  | .star, c => if c = '/' then .code else if c = '*' then .star else .block
  | .quote q, c => if c = q then .closed q else .quote q
  | .bracket, c => if c = ']' then .code else .bracket
  | .dash, c => if c = '-' then .line else start c
  | .slash, c => if c = '*' then .block else start c
  | .closed q, c => if c = q then .quote q else start c
  | .code, c | .word, c => start c

/-- The text ends at a zero character, wherever it is. -/
def advance (mode : Mode) (c : Char) : Mode := if c = '\x00' then .ended else next mode c

/-- Is the character outside quotes and comments? -/
def reads : Mode → Char → Bool
  | .code, _ | .word, _ => true
  | .dash, c => c ≠ '-'
  | .slash, c => c ≠ '*'
  | .closed q, c => c ≠ q
  | _, _ => false

/-- A dollar within a word belongs to the word. -/
def mark (mode : Mode) (c : Char) : Option Mark :=
  if !reads mode c then none
  else if c = '(' then some .opens
  else if c = ')' then some .closes
  else if c = ';' then some .semicolon
  else if c ∈ "?@#:".toList || c = '$' && mode ≠ .word then some .parameter
  else none

def run (mode : Mode) (text : List Char) : Mode := text.foldl advance mode

def marks : Mode → List Char → List (Option Mark)
  | _, [] => []
  | mode, c :: text => mark mode c :: marks (advance mode c) text

/-- Is the whole text outside quotes and comments? -/
def readsAll : Mode → List Char → Bool
  | _, [] => true
  | mode, c :: text => reads mode c && readsAll (advance mode c) text

variable {mode : Mode} {c : Char} {s t : List Char}

@[simp] theorem run_nil (mode : Mode) : run mode [] = mode := rfl

@[simp] theorem run_cons (mode : Mode) (c : Char) (s : List Char) :
    run mode (c :: s) = run (advance mode c) s := rfl

theorem run_append (mode : Mode) (s t : List Char) : run mode (s ++ t) = run (run mode s) t :=
  List.foldl_append

theorem marks_append (mode : Mode) (s t : List Char) :
    marks mode (s ++ t) = marks mode s ++ marks (run mode s) t := by
  induction s generalizing mode with
  | nil => rfl
  | cons c s ih =>
    rw [List.cons_append]
    exact congrArg (mark mode c :: ·) (ih _)

theorem length_marks (mode : Mode) (s : List Char) : (marks mode s).length = s.length := by
  induction s generalizing mode with
  | nil => rfl
  | cons c s ih => exact congrArg (· + 1) (ih _)

theorem next_of_reads (h : reads mode c = true) : next mode c = start c := by
  cases mode with
  | code => rfl
  | word => rfl
  | dash => exact if_neg (by simpa [reads] using h)
  | slash => exact if_neg (by simpa [reads] using h)
  | closed q => exact if_neg (by simpa [reads] using h)
  | line => cases h
  | block => cases h
  | star => cases h
  | quote q => cases h
  | bracket => cases h
  | ended => cases h

/-- What is read does not depend on what was before, up to a dollar. -/
theorem advance_of_reads (h : reads mode c = true) : advance mode c = advance .code c := by
  unfold advance
  rw [next_of_reads h]
  rfl

@[simp] theorem run_ended (s : List Char) : run .ended s = .ended := by
  induction s with
  | nil => rfl
  | cons c s ih =>
    have hended : advance .ended c = .ended := by
      unfold advance
      split_ifs <;> rfl
    rw [run_cons, hended, ih]

/-- Nothing is read behind a zero character. -/
theorem run_of_zero (h : '\x00' ∈ s) : run mode s = .ended := by
  obtain ⟨before, after, rfl⟩ := List.append_of_mem h
  rw [run_append, run_cons]
  exact run_ended after

theorem advance_of_ne_zero (h : c ≠ '\x00') : advance mode c = next mode c := if_neg h

/-! ### Parentheses -/

/-- The place of the parenthesis that closes one which is open before, with others open in it. -/
def closer : ℕ → List (Option Mark) → Option ℕ
  | _, [] => none
  | depth, m :: ms =>
    if m = some .closes then if depth = 0 then some 0 else (closer (depth - 1) ms).map (· + 1)
    else if m = some .opens then (closer (depth + 1) ms).map (· + 1)
    else (closer depth ms).map (· + 1)

/-- How many parentheses are open in the end, unless one is closed that was never opened. -/
def balance : ℕ → List (Option Mark) → Option ℕ
  | depth, [] => some depth
  | depth, m :: ms =>
    if m = some .closes then if depth = 0 then none else balance (depth - 1) ms
    else if m = some .opens then balance (depth + 1) ms
    else balance depth ms

variable {ms ms' : List (Option Mark)} {depth depth' : ℕ}

theorem closer_append_of_balance (h : balance depth ms = some depth') :
    closer depth (ms ++ ms') = (closer depth' ms').map (· + ms.length) := by
  induction ms generalizing depth with
  | nil =>
    cases h
    simp
  | cons m ms ih =>
    have hplace (place : ℕ) (hplace : balance place ms = some depth') :
        (closer place (ms ++ ms')).map (· + 1) =
          (closer depth' ms').map (· + (m :: ms).length) := by
      rw [ih hplace, Option.map_map]
      rfl
    unfold balance at h
    rw [List.cons_append, closer]
    split_ifs at h ⊢
    · exact hplace _ h
    · exact hplace _ h
    · exact hplace _ h

/-- A parenthesis that is closed and never opened closes the one before. -/
theorem closer_append_of_balance_none (ms' : List (Option Mark)) (h : balance depth ms = none) :
    ∃ place < ms.length, closer depth (ms ++ ms') = some place := by
  induction ms generalizing depth with
  | nil => cases h
  | cons m ms ih =>
    have hplace (depth : ℕ) (hnone : balance depth ms = none) :
        ∃ place < (m :: ms).length, (closer depth (ms ++ ms')).map (· + 1) = some place := by
      obtain ⟨place, hlt, hclose⟩ := ih hnone
      exact ⟨place + 1, Nat.succ_lt_succ hlt, by rw [hclose]; rfl⟩
    unfold balance at h
    rw [List.cons_append, closer]
    split_ifs at h ⊢
    · exact ⟨0, Nat.succ_pos _, rfl⟩
    · exact hplace _ h
    · exact hplace _ h
    · exact hplace _ h

/-- The parenthesis before a text is closed by the one after it exactly when the text is
balanced. -/
theorem closer_eq_length : closer 0 (ms ++ some .closes :: ms') = some ms.length ↔
    balance 0 ms = some 0 := by
  cases hbalance : balance 0 ms with
  | none =>
    obtain ⟨place, hlt, hclose⟩ := closer_append_of_balance_none (some .closes :: ms') hbalance
    rw [hclose]
    simp
    omega
  | some depth =>
    rw [closer_append_of_balance hbalance]
    cases depth with
    | zero => simp [closer]
    | succ depth =>
      rw [closer, if_pos rfl, if_neg (Nat.succ_ne_zero depth)]
      simp
      intro place hplace
      omega

end SqlText
