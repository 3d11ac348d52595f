import Awayuki.Kq.Parser

/-!
# KQ: the grammar of expressions

Derivation trees over tokens.  The seven levels of binary operators are numbered by their height,
from `*` and `/` at height 1 to `|` at height 7; prefix operators and primary expressions have
height 0.  An operator of height `g` has a left operand of a lower height and a right operand of
height at most `g`: every operator groups to the right.

* `Cst.yield` is the token sequence of a tree, `Cst.build` its expression;
* `Cst.WF` says that the tree is a derivation of the grammar, `Cst.depth` and `Cst.Within` what
  the limits of the compiler say of it;
* `Cst.unique`: a token sequence has at most one derivation.
-/

namespace Awayuki.Kq

/-! ### Operators -/

variable {h g : ℕ}

/-- The operators of one height. -/
def heightOperator : ℕ → Token → Option BinaryOp
  | 1 => multiplicativeOperator
  | 2 => additiveOperator
  | 3 => matchOperator
  | 4 => comparisonOperator
  | 5 => equalityOperator
  | 6 => andOperator
  | 7 => orOperator
  | _ => fun _ => none

def BinaryOp.height : BinaryOp → ℕ
  | .multiply | .divide => 1
  | .add | .subtract => 2
  | .regex | .startsWith | .endsWith | .contains | .in => 3
  | .less | .lessEqual | .greater | .greaterEqual => 4
  | .equal | .notEqual => 5
  | .and => 6
  | .or => 7

/-- The operators that are words, by their lower-cased names. -/
def operatorWords : List (Str × BinaryOp) :=
  [("or".toList, .or), ("and".toList, .and), ("regex".toList, .regex), ("match".toList, .regex),
    ("startswith".toList, .startsWith), ("startwith".toList, .startsWith),
    ("endswith".toList, .endsWith), ("endwith".toList, .endsWith), ("contains".toList, .contains),
    ("in".toList, .in)]

/-- The binary operator that a token stands for. -/
def Token.binaryOperator (token : Token) : Option BinaryOp :=
  match token.kind with
  | .star => some .multiply
  | .slash => some .divide
  | .plus => some .add
  | .minus => some .subtract
  | .arrowRight => some .contains
  | .arrowLeft => some .in
  | .less => some .less
  | .lessEqual => some .lessEqual
  | .greater => some .greater
  | .greaterEqual => some .greaterEqual
  | .equal => some .equal
  | .notEqual => some .notEqual
  | .ampersand => some .and
  | .pipe => some .or
  | .identifier value => operatorWords.lookup value.toAsciiLowercase
  | _ => none

/-- The height of the operator that a token stands for, and 0 for other tokens. -/
def Token.height (token : Token) : ℕ := token.binaryOperator.elim 0 BinaryOp.height

theorem isKeyword_identifier (value : Str) (span : Span) (keyword : String) :
    Token.isKeyword keyword ⟨.identifier value, span⟩ =
      (value.toAsciiLowercase == Str.toAsciiLowercase keyword) := rfl

/-- A word is an operator by its lower-cased form. -/
theorem heightOperator_toAsciiLowercase (g : ℕ) (value : Str) (span : Span) :
    heightOperator g ⟨.identifier value, span⟩ =
      heightOperator g ⟨.identifier value.toAsciiLowercase, ⟨0, 0⟩⟩ := by
  have hkeyword : ∀ keyword, Token.isKeyword keyword ⟨.identifier value, span⟩ =
      Token.isKeyword keyword ⟨.identifier value.toAsciiLowercase, ⟨0, 0⟩⟩ := fun keyword => by
    rw [isKeyword_identifier, isKeyword_identifier, Str.toAsciiLowercase_idem]
  match g with
  | 3 => simp [heightOperator, matchOperator, hkeyword]
  | 6 => simp [heightOperator, andOperator, hkeyword]
  | 7 => simp [heightOperator, orOperator, hkeyword]
  | 0 | 1 | 2 | 4 | 5 | _ + 8 => rfl

/-- The words among the operators, level by level. -/
theorem heightOperator_identifier (g : ℕ) (value : Str) (span : Span) :
    heightOperator g ⟨.identifier value, span⟩ =
      (operatorWords.lookup value.toAsciiLowercase).filter (·.height = g) := by
  by_cases hword : value.toAsciiLowercase ∈ operatorWords.map Prod.fst
  · have hwords : ∀ w ∈ operatorWords.map Prod.fst, ∀ g < 8,
        heightOperator g ⟨.identifier w, ⟨0, 0⟩⟩ =
          (operatorWords.lookup w).filter (·.height = g) := by decide
    have hhigh : ∀ w ∈ operatorWords.map Prod.fst, ∀ op ∈ operatorWords.lookup w, op.height < 8 := by
      decide
    rw [heightOperator_toAsciiLowercase]
    rcases lt_or_ge g 8 with hg | hg
    · exact hwords _ hword g hg
    · obtain ⟨g, rfl⟩ := Nat.exists_eq_add_of_le' hg
      refine (Option.filter_eq_none_iff.2 fun op hop => ?_).symm
      have := hhigh _ hword op hop
      simp only [decide_eq_true_eq]
      omega
  · have hkeyword : ∀ w ∈ ["or", "and", "regex", "match", "startswith", "startwith", "endswith",
        "endwith", "contains", "in"], Token.isKeyword w ⟨.identifier value, span⟩ = false := by
      intro w hw
      have hlower : ∀ w ∈ ["or", "and", "regex", "match", "startswith", "startwith", "endswith",
          "endwith", "contains", "in"], Str.toAsciiLowercase w ∈ operatorWords.map Prod.fst := by
        decide
      rw [isKeyword_identifier, beq_eq_false_iff_ne]
      exact fun heq => hword (heq ▸ hlower w hw)
    have hlookup : operatorWords.lookup value.toAsciiLowercase = none := by
      refine List.lookup_eq_none_iff.2 fun entry hentry => ?_
      exact bne_iff_ne.2 fun heq => hword (heq ▸ List.mem_map_of_mem hentry)
    rw [hlookup]
    simp only [List.forall_mem_cons] at hkeyword
    match g with
    | 3 => simp [heightOperator, matchOperator, hkeyword]
    | 6 => simp [heightOperator, andOperator, hkeyword]
    | 7 => simp [heightOperator, orOperator, hkeyword]
    | 0 | 1 | 2 | 4 | 5 | _ + 8 => rfl

/-- The level of an operator is its height. -/
theorem heightOperator_eq (g : ℕ) (token : Token) :
    heightOperator g token = token.binaryOperator.filter (·.height = g) := by
  obtain ⟨kind, span⟩ := token
  cases kind
  case identifier value => exact heightOperator_identifier g value span
  all_goals
    match g with
    | 0 | 1 | 2 | 3 | 4 | 5 | 6 | 7 => rfl
    | g + 8 => simp [heightOperator, Token.binaryOperator, BinaryOp.height, Option.filter]

variable {token : Token} {op : BinaryOp}

theorem heightOperator_eq_some :
    heightOperator g token = some op ↔ token.binaryOperator = some op ∧ op.height = g := by
  rw [heightOperator_eq, Option.filter_eq_some_iff]
  simp

theorem BinaryOp.height_pos (op : BinaryOp) : 0 < op.height := by
  cases op <;> decide

theorem BinaryOp.height_le (op : BinaryOp) : op.height ≤ 7 := by
  cases op <;> decide

theorem Token.height_of_binaryOperator (h : token.binaryOperator = some op) :
    token.height = op.height := by
  rw [Token.height, h, Option.elim_some]

theorem heightOperator_eq_none (hg : 0 < g) : heightOperator g token = none ↔ token.height ≠ g := by
  rw [heightOperator_eq, Token.height]
  cases token.binaryOperator with
  | none => simp only [Option.filter_none, Option.elim_none, true_iff]; omega
  | some op => simp [Option.filter_eq_none_iff]

/-! ### Derivation trees -/

mutual

/-- A derivation of an expression, with every token. -/
inductive Cst
  | atom (token : Token)
  | path (first : Token) (components : List (Token × Token))
  | unit («open» close : Token)
  | group («open» : Token) (inner : Cst) (close : Token)
  | emptySet («open» close : Token)
  | set («open» : Token) (items : CstItems) (close : Token)
  | unary (operator : Token) (operand : Cst)
  | minimum (minus magnitude : Token)
  | binary (left : Cst) (operator : Token) (right : Cst)

/-- The items of a set, of which there is at least one; the last may have a comma. -/
inductive CstItems
  | last (item : Cst) (comma : Option Token)
  | cons (item : Cst) (comma : Token) (items : CstItems)

end

mutual

variable {P : Cst → Prop} {Q : CstItems → Prop}

/-- Induction over derivations, together with the items of their sets. -/
theorem Cst.induct (atom : ∀ t, P (.atom t)) (path : ∀ t ps, P (.path t ps))
    (unit : ∀ o c, P (.unit o c)) (group : ∀ o i c, P i → P (.group o i c))
    (emptySet : ∀ o c, P (.emptySet o c)) (set : ∀ o is c, Q is → P (.set o is c))
    (unary : ∀ t i, P i → P (.unary t i)) (minimum : ∀ t m, P (.minimum t m))
    (binary : ∀ l t r, P l → P r → P (.binary l t r)) (last : ∀ i c, P i → Q (.last i c))
    (cons : ∀ i c is, P i → Q is → Q (.cons i c is)) : ∀ c, P c
  | .atom t => atom t
  | .path t ps => path t ps
  | .unit o c => unit o c
  | .group o i c => group o i c
      (Cst.induct atom path unit group emptySet set unary minimum binary last cons i)
  | .emptySet o c => emptySet o c
  | .set o is c => set o is c
      (CstItems.induct atom path unit group emptySet set unary minimum binary last cons is)
  | .unary t i => unary t i
      (Cst.induct atom path unit group emptySet set unary minimum binary last cons i)
  | .minimum t m => minimum t m
  | .binary l t r => binary l t r
      (Cst.induct atom path unit group emptySet set unary minimum binary last cons l)
      (Cst.induct atom path unit group emptySet set unary minimum binary last cons r)

theorem CstItems.induct (atom : ∀ t, P (.atom t)) (path : ∀ t ps, P (.path t ps))
    (unit : ∀ o c, P (.unit o c)) (group : ∀ o i c, P i → P (.group o i c))
    (emptySet : ∀ o c, P (.emptySet o c)) (set : ∀ o is c, Q is → P (.set o is c))
    (unary : ∀ t i, P i → P (.unary t i)) (minimum : ∀ t m, P (.minimum t m))
    (binary : ∀ l t r, P l → P r → P (.binary l t r)) (last : ∀ i c, P i → Q (.last i c))
    (cons : ∀ i c is, P i → Q is → Q (.cons i c is)) : ∀ is, Q is
  | .last i c => last i c
      (Cst.induct atom path unit group emptySet set unary minimum binary last cons i)
  | .cons i c is => cons i c is
      (Cst.induct atom path unit group emptySet set unary minimum binary last cons i)
      (CstItems.induct atom path unit group emptySet set unary minimum binary last cons is)

end

/-- The tokens of the components of a path, with their dots. -/
def componentTokens (components : List (Token × Token)) : List Token :=
  components.flatMap fun component => [component.1, component.2]

mutual

/-- The tokens of a derivation. -/
def Cst.yield : Cst → List Token
  | .atom token => [token]
  | .path first components => first :: componentTokens components
  | .unit «open» close => [«open», close]
  | .group «open» inner close => «open» :: inner.yield ++ [close]
  | .emptySet «open» close => [«open», close]
  | .set «open» items close => «open» :: items.yield ++ [close]
  | .unary operator operand => operator :: operand.yield
  | .minimum minus magnitude => [minus, magnitude]
  | .binary left operator right => left.yield ++ operator :: right.yield

def CstItems.yield : CstItems → List Token
  | .last item comma => item.yield ++ comma.toList
  | .cons item comma items => item.yield ++ comma :: items.yield

end

/-- The height of a derivation: that of its binary operator, if it is one. -/
def Cst.height : Cst → ℕ
  | .binary _ operator _ => operator.height
  | _ => 0

/-- The identifier that a token is. -/
def Token.word (token : Token) : Option Str :=
  match token.kind with
  | .identifier value => some value
  | _ => none

/-- The expression of one token. -/
def atomExpr (token : Token) : Option Expr :=
  match token.kind with
  | .number value => some (.mk (.number value) .NUMBER token.span)
  | .string value | .account value => some (.mk (.text value) .TEXT token.span)
  | .opaqueId value => some (.mk (.identity value) .IDENTITY token.span)
  | .star => some (.mk (.field .ourAccounts) .SET token.span)
  | .identifier value =>
    if value.eqIgnoreAsciiCase "true" ∨ value.eqIgnoreAsciiCase "false" then
      some (.mk (.bool (value.eqIgnoreAsciiCase "true")) .BOOL token.span)
    else none
  | _ => none

mutual

/-- Is the tree a derivation of the grammar? -/
def Cst.WF : Cst → Prop
  | .atom token => (atomExpr token).isSome
  | .path first components => first.word.isSome ∧ atomExpr first = none ∧
      unaryOperator first = none ∧ ∀ c ∈ components, c.1.kind = .dot ∧ c.2.word.isSome
  | .unit «open» close => «open».kind = .leftParen ∧ close.kind = .rightParen
  | .group «open» inner close =>
      «open».kind = .leftParen ∧ inner.WF ∧ close.kind = .rightParen
  | .emptySet «open» close => «open».kind = .leftBracket ∧ close.kind = .rightBracket
  | .set «open» items close =>
      «open».kind = .leftBracket ∧ items.WF ∧ close.kind = .rightBracket
  | .unary operator operand =>
      (unaryOperator operator).isSome ∧ operand.WF ∧ operand.height = 0
  | .minimum minus magnitude => minus.kind = .minus ∧ magnitude.kind = .minMagnitude
  | .binary left operator right => left.WF ∧ right.WF ∧ 0 < operator.height ∧
      left.height < operator.height ∧ right.height ≤ operator.height

def CstItems.WF : CstItems → Prop
  | .last item comma => item.WF ∧ ∀ token ∈ comma, token.kind = .comma
  | .cons item comma items => item.WF ∧ comma.kind = .comma ∧ items.WF

end

/-! ### Where a derivation ends -/

/-- The next token cannot continue an expression of height at most `h`. -/
def Follow (h : ℕ) (rest : List Token) : Prop :=
  ∀ token ∈ rest.head?, token.kind ≠ .dot ∧ (token.height = 0 ∨ h < token.height)

variable {rest : List Token}

theorem Follow.mono {h' : ℕ} (hh : h ≤ h') (hrest : Follow h' rest) :
    Follow h rest := fun token htoken => by
  have := hrest token htoken
  exact ⟨this.1, by omega⟩

theorem Follow.cons (hkind : token.kind ≠ .dot) (hheight : token.height = 0 ∨ h < token.height) :
    Follow h (token :: rest) := fun t ht => by
  obtain rfl : token = t := by simpa using ht
  exact ⟨hkind, hheight⟩

/-- An operator follows an expression of a lower height. -/
theorem Follow.operator (hheight : h < token.height) : Follow h (token :: rest) := by
  refine Follow.cons (fun hkind => ?_) (.inr hheight)
  have : token.height = 0 := by simp [Token.height, Token.binaryOperator, hkind]
  omega

/-- A token that is neither an operator nor a dot follows every expression. -/
theorem Follow.closing {kind : TokenKind} (htoken : token.kind = kind)
    (hkind : kind = .rightParen ∨ kind = .rightBracket ∨ kind = .comma ∨ kind = .end) :
    Follow h (token :: rest) := by
  rcases hkind with rfl | rfl | rfl | rfl <;>
    exact Follow.cons (by simp [htoken])
      (.inl (by simp [Token.height, Token.binaryOperator, htoken]))

/-- The kinds of tokens that end a group or a set, or come second in `-9223372036854775808`:
no expression starts with one. -/
def TokenKind.IsClosing (kind : TokenKind) : Prop :=
  kind = .rightParen ∨ kind = .rightBracket ∨ kind = .comma ∨ kind = .minMagnitude

theorem atomExpr_closing (h : token.kind.IsClosing) : atomExpr token = none := by
  rcases h with h | h | h | h <;> simp [atomExpr, h]

theorem unaryOperator_closing (h : token.kind.IsClosing) : unaryOperator token = none := by
  rcases h with h | h | h | h <;> simp [unaryOperator, Token.isKeyword, h]

theorem word_closing (h : token.kind.IsClosing) : token.word = none := by
  rcases h with h | h | h | h <;> simp [Token.word, h]

/-- A derivation starts with a token that closes nothing. -/
theorem Cst.yield_head (c : Cst) : c.WF → ∃ token rest, c.yield = token :: rest ∧
    ¬ token.kind.IsClosing := by
  refine Cst.induct (P := fun c => c.WF → ∃ token rest, c.yield = token :: rest ∧
    ¬ token.kind.IsClosing) (Q := fun _ => True)
    ?atom ?path ?unit ?group ?emptySet ?set ?unary ?minimum ?binary ?last ?cons c
  case atom =>
    intro t wf
    exact ⟨t, [], rfl, fun h => by simp [WF, atomExpr_closing h] at wf⟩
  case path =>
    intro t ps wf
    exact ⟨t, _, rfl, fun h => by simp [WF, word_closing h] at wf⟩
  case unit =>
    intro o c wf
    exact ⟨o, _, rfl, by simp [wf.1, TokenKind.IsClosing]⟩
  case group =>
    intro o i c _ wf
    exact ⟨o, _, rfl, by simp [wf.1, TokenKind.IsClosing]⟩
  case emptySet =>
    intro o c wf
    exact ⟨o, _, rfl, by simp [wf.1, TokenKind.IsClosing]⟩
  case set =>
    intro o is c _ wf
    exact ⟨o, _, rfl, by simp [wf.1, TokenKind.IsClosing]⟩
  case unary =>
    intro t i _ wf
    exact ⟨t, _, rfl, fun h => by simp [WF, unaryOperator_closing h] at wf⟩
  case minimum =>
    intro t m wf
    exact ⟨t, _, rfl, by simp [wf.1, TokenKind.IsClosing]⟩
  case binary =>
    intro l t r ihl _ wf
    obtain ⟨token, rest, hyield, hhead⟩ := ihl wf.1
    exact ⟨token, rest ++ t :: r.yield, by simp [yield, hyield], hhead⟩
  case last => exact fun _ _ _ => trivial
  case cons => exact fun _ _ _ _ _ => trivial

variable {is : CstItems}

theorem CstItems.yield_head (wf : is.WF) : ∃ token rest,
    is.yield = token :: rest ∧ ¬ token.kind.IsClosing := by
  cases is with
  | last item comma =>
    obtain ⟨token, rest, hyield, hhead⟩ := item.yield_head wf.1
    exact ⟨token, rest ++ comma.toList, by simp [yield, hyield], hhead⟩
  | cons item comma items =>
    obtain ⟨token, rest, hyield, hhead⟩ := item.yield_head wf.1
    exact ⟨token, rest ++ comma :: items.yield, by simp [yield, hyield], hhead⟩

/-! ### Derivations are unique -/

/-- Two derivations at the front of one token sequence are the same and end at the same place. -/
def Cst.Decided (c c' : Cst) : Prop :=
  ∀ (h : ℕ) (rest rest' : List Token), c.WF → c'.WF → c.height ≤ h → c'.height ≤ h →
    Follow h rest → Follow h rest' → c.yield ++ rest = c'.yield ++ rest' → c = c' ∧ rest = rest'

/-- The same of the items of a set and its closing bracket. -/
def CstItems.Decided (is is' : CstItems) : Prop :=
  ∀ (close close' : Token) (rest rest' : List Token), is.WF → is'.WF →
    close.kind = .rightBracket → close'.kind = .rightBracket →
    is.yield ++ close :: rest = is'.yield ++ close' :: rest' →
    is = is' ∧ close = close' ∧ rest = rest'

variable {c c' : Cst}

theorem Cst.Decided.symm (h : c.Decided c') : c'.Decided c :=
  fun g rest rest' wf wf' hg hg' hrest hrest' heq =>
    let ⟨htree, htail⟩ := h g rest' rest wf' wf hg' hg hrest' hrest heq.symm
    ⟨htree.symm, htail.symm⟩

variable {l m : Cst} {t : Token}

/-- A derivation is no left operand of another that it is not lower than. -/
theorem Cst.decided_of_height_lt (ih : c.Decided l) (hlt : c.height < t.height) :
    c.Decided (.binary l t m) := by
  intro h rest rest' wf wf' _ hh' hrest _ heq
  obtain ⟨wfl, -, hpos, hl, -⟩ := wf'
  have hheight : (Cst.binary l t m).height = t.height := rfl
  rw [yield, List.append_assoc, List.cons_append] at heq
  obtain ⟨-, hnext⟩ := ih (t.height - 1) rest (t :: (m.yield ++ rest')) wf wfl (by omega) (by omega)
    (hrest.mono (by omega)) (.operator (by omega)) heq
  have := (hrest t (by simp [hnext])).2
  omega

/-- Two binary expressions of one height split at the same operator. -/
theorem Cst.decided_binary {l' m' : Cst} {t' : Token} (ihl : l.Decided l') (ihm : m.Decided m')
    (hheight : t.height = t'.height) : (Cst.binary l t m).Decided (.binary l' t' m') := by
  intro h rest rest' wf wf' hh hh' hrest hrest' heq
  obtain ⟨wfl, wfm, hpos, hl, hm⟩ := wf
  obtain ⟨wfl', wfm', hpos', hl', hm'⟩ := wf'
  have hheight₁ : (Cst.binary l t m).height = t.height := rfl
  simp only [yield, List.append_assoc, List.cons_append] at heq
  obtain ⟨rfl, hnext⟩ := ihl (t.height - 1) _ _ wfl wfl' (by omega) (by omega)
    (.operator (by omega)) (.operator (by omega)) heq
  obtain ⟨rfl, htail⟩ := List.cons.inj hnext
  obtain ⟨rfl, rfl⟩ := ihm h _ _ wfm wfm' (by omega) (by omega) hrest hrest' htail
  exact ⟨rfl, rfl⟩

variable {rest' : List Token}

/-- The components of a path end where no dot follows. -/
theorem componentTokens_decided {cs cs' : List (Token × Token)}
    (hcs : ∀ c ∈ cs, c.1.kind = .dot ∧ c.2.word.isSome)
    (hcs' : ∀ c ∈ cs', c.1.kind = .dot ∧ c.2.word.isSome)
    (hrest : ∀ token ∈ rest.head?, token.kind ≠ .dot)
    (hrest' : ∀ token ∈ rest'.head?, token.kind ≠ .dot)
    (heq : componentTokens cs ++ rest = componentTokens cs' ++ rest') :
    cs = cs' ∧ rest = rest' := by
  induction cs generalizing cs' with
  | nil =>
    cases cs' with
    | nil => exact ⟨rfl, by simpa [componentTokens] using heq⟩
    | cons c' cs' =>
      simp only [componentTokens, List.flatMap_nil, List.flatMap_cons, List.nil_append,
        List.cons_append] at heq
      exact absurd (hcs' c' (by simp)).1 (hrest c'.1 (by simp [heq]))
  | cons c cs ih =>
    cases cs' with
    | nil =>
      simp only [componentTokens, List.flatMap_nil, List.flatMap_cons, List.nil_append,
        List.cons_append] at heq
      exact absurd (hcs c (by simp)).1 (hrest' c.1 (by simp [← heq]))
    | cons c' cs' =>
      simp only [componentTokens, List.flatMap_cons, List.nil_append, List.cons_append,
        List.cons.injEq] at heq
      obtain ⟨h₁, h₂, heq⟩ := heq
      obtain ⟨rfl, rfl⟩ := ih (fun c hc => hcs c (by simp [hc])) (fun c hc => hcs' c (by simp [hc]))
        heq
      exact ⟨by rw [Prod.ext h₁ h₂], rfl⟩

/-- What an expression that is not binary starts with. -/
inductive Start
  | atom | word | group | set | operator
  deriving DecidableEq

def Token.start (token : Token) : Option Start :=
  match token.kind with
  | .leftParen => some .group
  | .leftBracket => some .set
  | _ =>
    if (atomExpr token).isSome then some .atom
    else if (unaryOperator token).isSome then some .operator
    else if token.word.isSome then some .word
    else none

def Cst.start : Cst → Start
  | .atom _ => .atom
  | .path _ _ => .word
  | .unit _ _ | .group _ _ _ => .group
  | .emptySet _ _ | .set _ _ _ => .set
  | .unary _ _ | .minimum _ _ => .operator
  | .binary left _ _ => left.start

/-- A prefix operator is no expression of its own. -/
theorem atomExpr_of_unaryOperator (h : (unaryOperator token).isSome) : atomExpr token = none := by
  obtain ⟨kind, span⟩ := token
  cases kind
  case identifier value =>
    have hlower : value.toAsciiLowercase = Str.toAsciiLowercase "not" ∨
        value.toAsciiLowercase = Str.toAsciiLowercase "caseful" := by
      by_contra hne
      simp_all [unaryOperator, isKeyword_identifier]
    have hwords : ∀ w ∈ ["not", "caseful"], Str.toAsciiLowercase w ≠ Str.toAsciiLowercase "true" ∧
        Str.toAsciiLowercase w ≠ Str.toAsciiLowercase "false" := by
      decide
    rcases hlower with hlower | hlower <;>
      simp only [atomExpr, Str.eqIgnoreAsciiCase_iff, hlower]
    · exact if_neg (not_or.2 (hwords "not" (by simp)))
    · exact if_neg (not_or.2 (hwords "caseful" (by simp)))
  all_goals simp_all [unaryOperator, atomExpr, Token.isKeyword]

theorem Token.start_of_paren (h : token.kind = .leftParen) : token.start = some .group := by
  simp [Token.start, h]

theorem Token.start_of_bracket (h : token.kind = .leftBracket) : token.start = some .set := by
  simp [Token.start, h]

theorem Token.start_of_atom (h : (atomExpr token).isSome) : token.start = some .atom := by
  unfold Token.start
  split
  next hkind => simp [atomExpr, hkind] at h
  next hkind => simp [atomExpr, hkind] at h
  next => rw [if_pos h]

theorem Token.start_of_operator (h : (unaryOperator token).isSome) :
    token.start = some .operator := by
  unfold Token.start
  split
  next hkind => simp [unaryOperator, Token.isKeyword, hkind] at h
  next hkind => simp [unaryOperator, Token.isKeyword, hkind] at h
  next => rw [atomExpr_of_unaryOperator h, if_neg (by simp), if_pos h]

theorem Token.start_of_word (hword : token.word.isSome) (hatom : atomExpr token = none)
    (hoperator : unaryOperator token = none) : token.start = some .word := by
  unfold Token.start
  split
  next hkind => simp [Token.word, hkind] at hword
  next hkind => simp [Token.word, hkind] at hword
  next => simp [hatom, hoperator, hword]

theorem unaryOperator_minus (h : token.kind = .minus) : unaryOperator token = some .negate := by
  simp [unaryOperator, Token.isKeyword, h]

/-- The first token of a derivation tells what it is. -/
theorem Cst.start_head (c : Cst) : c.WF → ∀ (token : Token) (rest rest' : List Token),
    c.yield ++ rest = token :: rest' → token.start = some c.start := by
  refine Cst.induct (P := fun c => c.WF → ∀ (token : Token) (rest rest' : List Token),
    c.yield ++ rest = token :: rest' → token.start = some c.start) (Q := fun _ => True)
    ?atom ?path ?unit ?group ?emptySet ?set ?unary ?minimum ?binary ?last ?cons c
  case binary =>
    intro l t r ihl _ wf token rest rest' heq
    exact ihl wf.1 token (t :: r.yield ++ rest) rest' (by simpa [yield] using heq)
  case last => exact fun _ _ _ => trivial
  case cons => exact fun _ _ _ _ _ => trivial
  all_goals intros
  case atom t wf token rest rest' heq =>
    obtain rfl := (List.cons.inj heq).1
    exact Token.start_of_atom wf
  case path t ps wf token rest rest' heq =>
    obtain rfl := (List.cons.inj heq).1
    exact Token.start_of_word wf.1 wf.2.1 wf.2.2.1
  case unit o c wf token rest rest' heq =>
    obtain rfl := (List.cons.inj heq).1
    exact Token.start_of_paren wf.1
  case group o i c _ wf token rest rest' heq =>
    obtain rfl := (List.cons.inj heq).1
    exact Token.start_of_paren wf.1
  case emptySet o c wf token rest rest' heq =>
    obtain rfl := (List.cons.inj heq).1
    exact Token.start_of_bracket wf.1
  case set o is c _ wf token rest rest' heq =>
    obtain rfl := (List.cons.inj heq).1
    exact Token.start_of_bracket wf.1
  case unary t i _ wf token rest rest' heq =>
    obtain rfl := (List.cons.inj heq).1
    exact Token.start_of_operator wf.1
  case minimum t m wf token rest rest' heq =>
    obtain rfl := (List.cons.inj heq).1
    exact Token.start_of_operator (by rw [unaryOperator_minus wf.1]; rfl)

/-- A derivation does not start in the middle of another's closing tokens. -/
theorem Cst.not_closing (wf : c.WF) (heq : c.yield ++ rest = token :: rest') :
    ¬ token.kind.IsClosing := by
  obtain ⟨t, ts, hyield, hhead⟩ := c.yield_head wf
  rw [hyield] at heq
  exact (List.cons.inj heq).1 ▸ hhead

theorem CstItems.not_closing (wf : is.WF) (heq : is.yield ++ rest = token :: rest') :
    ¬ token.kind.IsClosing := by
  obtain ⟨t, ts, hyield, hhead⟩ := is.yield_head wf
  rw [hyield] at heq
  exact (List.cons.inj heq).1 ▸ hhead

theorem Cst.height_binary_ne_zero (wf : (Cst.binary l t m).WF) : (Cst.binary l t m).height ≠ 0 :=
  Nat.ne_of_gt wf.2.2.1

/-- Derivations that are not binary, once their parts are decided. -/
theorem Cst.decided_primary (hc : c.height = 0) (hc' : c'.height = 0)
    (ih : ∀ i i' : Cst, sizeOf i + sizeOf i' < sizeOf c + sizeOf c' → i.Decided i')
    (ihs : ∀ is is' : CstItems, sizeOf is + sizeOf is' < sizeOf c + sizeOf c' → is.Decided is') :
    c.Decided c' := by
  intro h rest rest' wf wf' _ _ hrest hrest' heq
  have hstart : c.start = c'.start := by
    obtain ⟨token, ts, hyield, -⟩ := c.yield_head wf
    rw [hyield] at heq
    have h₁ := c.start_head wf token [] ts (by simp [hyield])
    have h₂ := c'.start_head wf' token rest' _ heq.symm
    exact Option.some.inj (h₁.symm.trans h₂)
  cases c with
  | atom t =>
    cases c' with
    | atom t' => simpa [yield] using heq
    | binary => exact absurd hc' (height_binary_ne_zero wf')
    | _ => cases hstart
  | path t ps =>
    cases c' with
    | path t' ps' =>
      obtain ⟨rfl, htail⟩ := List.cons.inj heq
      obtain ⟨rfl, rfl⟩ := componentTokens_decided wf.2.2.2 wf'.2.2.2 (fun t ht => (hrest t ht).1)
        (fun t ht => (hrest' t ht).1) htail
      exact ⟨rfl, rfl⟩
    | binary => exact absurd hc' (height_binary_ne_zero wf')
    | _ => cases hstart
  | unit o e =>
    cases c' with
    | unit o' e' => simpa [yield, and_assoc] using heq
    | group o' i' e' =>
      simp only [yield, List.cons_append, List.append_assoc, List.cons.injEq] at heq
      exact absurd (.inl wf.2) (not_closing wf'.2.1 heq.2.symm)
    | binary => exact absurd hc' (height_binary_ne_zero wf')
    | _ => cases hstart
  | group o i e =>
    cases c' with
    | unit o' e' =>
      simp only [yield, List.cons_append, List.append_assoc, List.cons.injEq] at heq
      exact absurd (.inl wf'.2) (not_closing wf.2.1 heq.2)
    | group o' i' e' =>
      simp only [yield, List.cons_append, List.append_assoc, List.nil_append,
        List.cons.injEq] at heq
      obtain ⟨rfl, hnext⟩ := ih i i' (by simp; omega) (max i.height i'.height) _ _ wf.2.1 wf'.2.1
        (le_max_left _ _) (le_max_right _ _) (.closing wf.2.2 (.inl rfl))
        (.closing wf'.2.2 (.inl rfl)) heq.2
      obtain ⟨rfl, rfl⟩ := List.cons.inj hnext
      exact ⟨by rw [heq.1], rfl⟩
    | binary => exact absurd hc' (height_binary_ne_zero wf')
    | _ => cases hstart
  | emptySet o e =>
    cases c' with
    | emptySet o' e' => simpa [yield, and_assoc] using heq
    | set o' is' e' =>
      simp only [yield, List.cons_append, List.append_assoc, List.cons.injEq] at heq
      exact absurd (.inr (.inl wf.2)) (CstItems.not_closing wf'.2.1 heq.2.symm)
    | binary => exact absurd hc' (height_binary_ne_zero wf')
    | _ => cases hstart
  | set o is e =>
    cases c' with
    | emptySet o' e' =>
      simp only [yield, List.cons_append, List.append_assoc, List.cons.injEq] at heq
      exact absurd (.inr (.inl wf'.2)) (CstItems.not_closing wf.2.1 heq.2)
    | set o' is' e' =>
      simp only [yield, List.cons_append, List.append_assoc, List.nil_append,
        List.cons.injEq] at heq
      obtain ⟨rfl, rfl, rfl⟩ := ihs is is' (by simp; omega) _ _ _ _ wf.2.1 wf'.2.1 wf.2.2 wf'.2.2
        heq.2
      exact ⟨by rw [heq.1], rfl⟩
    | binary => exact absurd hc' (height_binary_ne_zero wf')
    | _ => cases hstart
  | unary t i =>
    cases c' with
    | unary t' i' =>
      obtain ⟨rfl, htail⟩ := List.cons.inj heq
      obtain ⟨rfl, rfl⟩ := ih i i' (by simp; omega) h _ _ wf.2.1 wf'.2.1 (by rw [wf.2.2]; omega)
        (by rw [wf'.2.2]; omega) hrest hrest' htail
      exact ⟨rfl, rfl⟩
    | minimum t' m' =>
      simp only [yield, List.cons_append, List.cons.injEq] at heq
      exact absurd (.inr (.inr (.inr wf'.2))) (not_closing wf.2.1 heq.2)
    | binary => exact absurd hc' (height_binary_ne_zero wf')
    | _ => cases hstart
  | minimum t m =>
    cases c' with
    | unary t' i' =>
      simp only [yield, List.cons_append, List.cons.injEq] at heq
      exact absurd (.inr (.inr (.inr wf.2))) (not_closing wf'.2.1 heq.2.symm)
    | minimum t' m' => simpa [yield, and_assoc] using heq
    | binary => exact absurd hc' (height_binary_ne_zero wf')
    | _ => cases hstart
  | binary => exact absurd hc (height_binary_ne_zero wf)

variable {comma : Option Token} {close : Token}

/-- What follows the last item of a set. -/
theorem Follow.last (hcomma : ∀ token ∈ comma, token.kind = .comma)
    (hclose : close.kind = .rightBracket) : Follow h (comma.toList ++ close :: rest) := by
  cases comma with
  | none => exact .closing hclose (.inr (.inl rfl))
  | some token => exact .closing (hcomma token rfl) (.inr (.inr (.inl rfl)))

/-- A set does not go on after its last item. -/
theorem CstItems.last_ne_cons {comma' : Token} {js : CstItems} (hclose : close.kind = .rightBracket)
    (hcomma' : comma'.kind = .comma) (wf : js.WF) :
    comma.toList ++ close :: rest ≠ comma' :: (js.yield ++ rest') := by
  intro heq
  cases comma with
  | none =>
    obtain ⟨rfl, -⟩ := List.cons.inj heq
    simp [hclose] at hcomma'
  | some comma => exact not_closing wf (List.cons.inj heq).2.symm (.inr (.inl hclose))

/-- The items of two sets, once each of them is decided. -/
theorem CstItems.decided_step {is' : CstItems}
    (ih : ∀ i i' : Cst, sizeOf i + sizeOf i' < sizeOf is + sizeOf is' → i.Decided i')
    (ihs : ∀ js js' : CstItems, sizeOf js + sizeOf js' < sizeOf is + sizeOf is' →
      js.Decided js') : is.Decided is' := by
  intro close close' rest rest' wf wf' hclose hclose' heq
  have hhead : ∀ {i i' : Cst} {ts ts' : List Token},
      sizeOf i + sizeOf i' < sizeOf is + sizeOf is' → i.WF → i'.WF →
      (∀ h, Follow h ts) → (∀ h, Follow h ts') → i.yield ++ ts = i'.yield ++ ts' →
      i = i' ∧ ts = ts' := fun {i i' ts ts'} hsize wf wf' hts hts' heq =>
    ih i i' hsize (max i.height i'.height) ts ts' wf wf' (le_max_left _ _) (le_max_right _ _)
      (hts _) (hts' _) heq
  cases is with
  | last i comma =>
    cases is' with
    | last i' comma' =>
      simp only [yield, List.append_assoc] at heq
      obtain ⟨rfl, htail⟩ := hhead (by simp; omega) wf.1 wf'.1 (fun _ => .last wf.2 hclose)
        (fun _ => .last wf'.2 hclose') heq
      cases comma with
      | none =>
        cases comma' with
        | none => exact ⟨rfl, List.cons.inj htail⟩
        | some comma' =>
          have := wf'.2 comma' rfl
          simp [← (List.cons.inj htail).1, hclose] at this
      | some comma =>
        cases comma' with
        | none =>
          have := wf.2 comma rfl
          simp [(List.cons.inj htail).1, hclose'] at this
        | some comma' =>
          obtain ⟨rfl, hclosing⟩ := List.cons.inj htail
          exact ⟨rfl, List.cons.inj hclosing⟩
    | cons i' comma' js' =>
      simp only [yield, List.append_assoc, List.cons_append] at heq
      obtain ⟨-, htail⟩ := hhead (by simp; omega) wf.1 wf'.1 (fun _ => .last wf.2 hclose)
        (fun _ => .closing wf'.2.1 (.inr (.inr (.inl rfl)))) heq
      exact absurd htail (last_ne_cons hclose wf'.2.1 wf'.2.2)
  | cons i comma js =>
    cases is' with
    | last i' comma' =>
      simp only [yield, List.append_assoc, List.cons_append] at heq
      obtain ⟨-, htail⟩ := hhead (by simp; omega) wf.1 wf'.1
        (fun _ => .closing wf.2.1 (.inr (.inr (.inl rfl)))) (fun _ => .last wf'.2 hclose') heq
      exact absurd htail.symm (last_ne_cons hclose' wf.2.1 wf.2.2)
    | cons i' comma' js' =>
      simp only [yield, List.append_assoc, List.cons_append] at heq
      obtain ⟨rfl, htail⟩ := hhead (by simp; omega) wf.1 wf'.1
        (fun _ => .closing wf.2.1 (.inr (.inr (.inl rfl))))
        (fun _ => .closing wf'.2.1 (.inr (.inr (.inl rfl)))) heq
      obtain ⟨rfl, hitems⟩ := List.cons.inj htail
      obtain ⟨rfl, hrest⟩ := ihs js js' (by simp; omega) _ _ _ _ wf.2.2 wf'.2.2 hclose hclose' hitems
      exact ⟨rfl, hrest⟩

/-- Every two derivations are decided, by induction on their size. -/
theorem Cst.decided_below (n : ℕ) :
    (∀ c c' : Cst, sizeOf c + sizeOf c' < n → c.Decided c') ∧
      ∀ is is' : CstItems, sizeOf is + sizeOf is' < n → is.Decided is' := by
  induction n with
  | zero => exact ⟨fun _ _ h => absurd h (Nat.not_lt_zero _),
      fun _ _ h => absurd h (Nat.not_lt_zero _)⟩
  | succ n ih =>
    obtain ⟨ih, ihs⟩ := ih
    refine ⟨fun c c' hsize => ?_, fun is is' hsize => CstItems.decided_step
      (fun i i' h => ih i i' (by omega)) (fun js js' h => ihs js js' (by omega))⟩
    rcases lt_trichotomy c.height c'.height with hlt | heq | hgt
    · cases c' with
      | binary l t m => exact decided_of_height_lt (ih _ _ (by simp at hsize; omega)) hlt
      | _ => exact absurd hlt (Nat.not_lt_zero _)
    · by_cases hzero : c.height = 0
      · exact decided_primary hzero (heq ▸ hzero) (fun i i' h => ih i i' (by omega))
          (fun js js' h => ihs js js' (by omega))
      · cases c with
        | binary l t m =>
          cases c' with
          | binary l' t' m' =>
            simp only [binary.sizeOf_spec] at hsize
            exact decided_binary (ih l l' (by omega)) (ih m m' (by omega)) heq
          | _ => exact absurd heq hzero
        | _ => exact absurd rfl hzero
    · cases c with
      | binary l t m => exact (decided_of_height_lt (ih _ _ (by simp at hsize; omega)) hgt).symm
      | _ => exact absurd hgt (Nat.not_lt_zero _)

/-- The tokens of a derivation determine it. -/
theorem Cst.unique (wf : c.WF) (wf' : c'.WF) (heq : c.yield = c'.yield) : c = c' :=
  ((decided_below _).1 c c' (Nat.lt_succ_self _) (max c.height c'.height) [] [] wf wf'
    (le_max_left _ _) (le_max_right _ _) (fun _ h => by simp at h) (fun _ h => by simp at h)
    (by simpa using heq)).1

/-- A derivation of the tokens from the grammar. -/
structure Derivation (tokens : List Token) where
  tree : Cst
  wf : tree.WF
  yield_eq : tree.yield = tokens

/-- The grammar is unambiguous. -/
instance (tokens : List Token) : Subsingleton (Derivation tokens) where
  allEq := fun ⟨c, wf, hyield⟩ ⟨c', wf', hyield'⟩ => by
    obtain rfl := Cst.unique wf wf' (hyield.trans hyield'.symm)
    rfl

end Awayuki.Kq
