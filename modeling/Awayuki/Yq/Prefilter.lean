import Awayuki.Yq.Filter
import Awayuki.Library.Sql
import Awayuki.Library.Like

/-!
# YQ: the SQL prefilter

`build_sql_prefilter` of `services/yq_filter.rs`: the condition with which a query asks SQLite for
the rows that it may match.

* `SqlAtom`: the conditions on one column, with the text that the code gives them and what SQLite
  makes of them;
* `translateSafePredicate`, `buildSqlPrefilter`: the translation;
* `translateSafePredicate_sound`: a row of a status that an expression holds for is accepted;
* `sql_prefilter_superset`: so is a row of a status that a query matches.
-/

namespace Awayuki.Yq

variable {args : List Expression} {symbol : String} {a b : Expression} {s : Str}
  {provider : VariableProvider} {operator : String}

inductive SqlPrefilterValue
  | text (value : Str)
  | integer (value : ℤ)
  deriving DecidableEq

/-! ### Conditions on columns -/

/-- Columns that are compared with a text. -/
inductive TextColumn
  | visibility | language | serverDomain | inReplyToId | spoilerText
  deriving DecidableEq

inductive CountColumn
  | favouritesCount | reblogsCount | repliesCount
  deriving DecidableEq

inductive AccountColumn
  | username | acct | displayName
  deriving DecidableEq

inductive AccountFlag
  | bot | locked
  deriving DecidableEq

inductive ViewerFlag
  | bookmarked | favourited | reblogged | muted | pinned
  deriving DecidableEq

/-- Columns that are there or `NULL`. -/
inductive OptionalColumn
  | inReplyToId | reblogOfId | pollJson | cardJson
  deriving DecidableEq

inductive SqlAtom
  | text (column : TextColumn)
  | count (column : CountColumn)
  | contentLike
  | account (column : AccountColumn)
  | accountFlag (flag : AccountFlag)
  | viewerFlag (flag : ViewerFlag)
  | present (column : OptionalColumn)
  | sensitive
  | hasMedia
  | hasCw
  deriving DecidableEq

def TextColumn.name : TextColumn → String
  | visibility => "visibility"
  | language => "language"
  | serverDomain => "server_domain"
  | inReplyToId => "in_reply_to_id"
  | spoilerText => "spoiler_text"

def TextColumn.value (s : StatusRow) : TextColumn → Option Str
  | visibility => some s.visibility
  | language => s.language
  | serverDomain => some s.serverDomain
  | inReplyToId => s.inReplyToId
  | spoilerText => some s.spoilerText

def CountColumn.name : CountColumn → String
  | favouritesCount => "favourites_count"
  | reblogsCount => "reblogs_count"
  | repliesCount => "replies_count"

def CountColumn.value (s : StatusRow) : CountColumn → ℤ
  | favouritesCount => s.favouritesCount
  | reblogsCount => s.reblogsCount
  | repliesCount => s.repliesCount

def AccountColumn.name : AccountColumn → String
  | username => "username"
  | acct => "acct"
  | displayName => "display_name"

def AccountColumn.value (a : DbAccount) : AccountColumn → Str
  | username => a.username
  | acct => a.acct
  | displayName => a.displayName

def AccountFlag.name : AccountFlag → String
  | bot => "bot"
  | locked => "locked"

def AccountFlag.value (a : DbAccount) : AccountFlag → Bool
  | bot => a.bot
  | locked => a.locked

def ViewerFlag.name : ViewerFlag → String
  | bookmarked => "bookmarked"
  | favourited => "favourited"
  | reblogged => "reblogged"
  | muted => "muted"
  | pinned => "pinned"

def ViewerFlag.value (s : StatusRow) : ViewerFlag → Option Bool
  | bookmarked => s.bookmarked
  | favourited => s.favourited
  | reblogged => s.reblogged
  | muted => s.muted
  | pinned => s.pinned

def OptionalColumn.name : OptionalColumn → String
  | inReplyToId => "in_reply_to_id"
  | reblogOfId => "reblog_of_id"
  | pollJson => "poll_json"
  | cardJson => "card_json"

def OptionalColumn.value (s : StatusRow) : OptionalColumn → Option Str
  | inReplyToId => s.inReplyToId
  | reblogOfId => s.reblogOfId
  | pollJson => s.pollJson
  | cardJson => s.cardJson

/-- A condition on the account of a status. -/
def existsAccount (condition : String) : String :=
  "EXISTS (SELECT 1 FROM accounts ya WHERE ya.id = s.account_id AND " ++
    "ya.server_domain = s.server_domain AND ya." ++ condition ++ ")"

/-- The text of a condition. -/
def SqlAtom.clause : SqlAtom → String
  | text column => "s." ++ column.name ++ " = ?"
  | count column => "s." ++ column.name ++ " = ?"
  | contentLike => "s.content LIKE ? ESCAPE '\\'"
  | account column => existsAccount (column.name ++ " = ?")
  | accountFlag flag => existsAccount (flag.name ++ " != 0")
  | viewerFlag flag => "COALESCE(s." ++ flag.name ++ ", 0) != 0"
  | present column => "s." ++ column.name ++ " IS NOT NULL"
  | sensitive => "s.sensitive != 0"
  | hasMedia => "s.media_attachments_json IS NOT NULL AND s.media_attachments_json != '' AND " ++
      "s.media_attachments_json != '[]'"
  | hasCw => "s.spoiler_text != ''"

/-- How many placeholders a condition has. -/
def SqlAtom.arity : SqlAtom → ℕ
  | text _ | count _ | contentLike | account _ => 1
  | _ => 0

/-- A text as SQLite's `LIKE` reads it, up to its first NUL character. -/
def cString (s : Str) : Str := s.takeWhile (· ≠ '\x00')

/-- The accounts with the key of the author of a status. -/
def authors (accounts : List DbAccount) (s : StatusRow) : List DbAccount :=
  accounts.filter fun ya => ya.id = s.accountId ∧ ya.serverDomain = s.serverDomain

/-- What SQLite makes of a condition on a row. -/
def SqlAtom.holds (accounts : List DbAccount) (s : StatusRow) (atom : SqlAtom)
    (bindings : List SqlPrefilterValue) : Option Bool :=
  match atom, bindings with
  | text column, [.text value] => Sql.eq3 (column.value s) value
  | count column, [.integer value] => Sql.eq3 (some (column.value s)) value
  | contentLike, [.text pattern] =>
    some (Like.like Char.toLower '\\' (cString pattern) (cString s.content))
  | account column, [.text value] =>
    some ((authors accounts s).any fun ya => column.value ya = value)
  | accountFlag flag, [] => some ((authors accounts s).any fun ya => flag.value ya)
  | viewerFlag flag, [] => some ((flag.value s).getD false)
  | present column, [] => some (column.value s).isSome
  | sensitive, [] => some s.sensitive
  | hasMedia, [] =>
    let column := s.mediaAttachmentsJson
    Sql.and3 (some column.isSome)
      (Sql.and3 (Sql.not3 (Sql.eq3 column [])) (Sql.not3 (Sql.eq3 column "[]".toList)))
  | hasCw, [] => Sql.not3 (Sql.eq3 (some s.spoilerText) [])
  | _, _ => none

/-! ### The translation -/

/-- A condition with a value for each of its placeholders. -/
abbrev SqlPredicate := Sql.Filled SqlAtom.arity SqlPrefilterValue

def MAX_ANCHORS : ℕ := 64

/-- The loop of `raw_html_subsequence_like_pattern`: what it appends to the pattern, and how many
anchors there are in the end. -/
def patternLoop (anchorCount : ℕ) : Str → Str × ℕ
  | [] => ([], anchorCount)
  | c :: rest =>
    -- An entity may have brought these characters in.
    if isEntityDecoded c then patternLoop anchorCount rest
    else
      let anchor := (if c = '%' ∨ c = '_' ∨ c = '\\' then ['\\', c] else [c]) ++ ['%']
      if anchorCount + 1 ≥ MAX_ANCHORS then (anchor, anchorCount + 1)
      else
        let (pattern, anchorCount) := patternLoop (anchorCount + 1) rest
        (anchor ++ pattern, anchorCount)

def rawHtmlSubsequenceLikePattern (needle : Str) : Option Str :=
  if '\x00' ∈ needle then none
  else
    let (pattern, anchorCount) := patternLoop 0 needle
    if anchorCount > 0 then some ('%' :: pattern) else none

def containsPredicate (haystack needle : Expression) : Option SqlPredicate :=
  match haystack, needle with
  | .symbol symbol, .string needle =>
    if symbol = "text" ∨ symbol = "content" then
      (rawHtmlSubsequenceLikePattern needle).map fun pattern =>
        .atom .contentLike [.text pattern] rfl
    else none
  | _, _ => none

def stringEqualityPredicate (symbol : String) (value : Str) : Option SqlPredicate :=
  match symbol with
  | "visibility" => some (.atom (.text .visibility) [.text value] rfl)
  | "language" | "lang" => some (.atom (.text .language) [.text value] rfl)
  | "server_domain" | "domain" => some (.atom (.text .serverDomain) [.text value] rfl)
  | "in_reply_to_id" => some (.atom (.text .inReplyToId) [.text value] rfl)
  -- An empty CW is nil.
  | "spoiler_text" | "cw" =>
    if value ≠ [] then some (.atom (.text .spoilerText) [.text value] rfl) else none
  | "user" | "username" => some (.atom (.account .username) [.text value] rfl)
  | "acct" => some (.atom (.account .acct) [.text value] rfl)
  | "display_name" => some (.atom (.account .displayName) [.text value] rfl)
  | _ => none

def integerEqualityPredicate (symbol : String) (value : ℤ) : Option SqlPredicate :=
  match symbol with
  | "favourites_count" | "fav_count" => some (.atom (.count .favouritesCount) [.integer value] rfl)
  | "reblogs_count" | "boost_count" => some (.atom (.count .reblogsCount) [.integer value] rfl)
  | "replies_count" => some (.atom (.count .repliesCount) [.integer value] rfl)
  | _ => none

def equalityPredicate (variable_ value : Expression) : Option SqlPredicate :=
  match variable_, value with
  | .symbol symbol, .string value => stringEqualityPredicate symbol value
  | .symbol symbol, .integer value => integerEqualityPredicate symbol value
  | _, _ => none

def booleanPredicate (symbol : String) : Option SqlPredicate :=
  match symbol with
  | "sensitive" => some (.atom .sensitive [] rfl)
  | "bookmarked" => some (.atom (.viewerFlag .bookmarked) [] rfl)
  | "favourited" | "faved" => some (.atom (.viewerFlag .favourited) [] rfl)
  | "reblogged" | "boosted" => some (.atom (.viewerFlag .reblogged) [] rfl)
  | "muted" => some (.atom (.viewerFlag .muted) [] rfl)
  | "pinned" => some (.atom (.viewerFlag .pinned) [] rfl)
  | "is_reply" => some (.atom (.present .inReplyToId) [] rfl)
  | "is_reblog" | "is_boost" => some (.atom (.present .reblogOfId) [] rfl)
  | "has_media" => some (.atom .hasMedia [] rfl)
  | "has_poll" => some (.atom (.present .pollJson) [] rfl)
  | "has_card" => some (.atom (.present .cardJson) [] rfl)
  | "has_cw" => some (.atom .hasCw [] rfl)
  | "bot" => some (.atom (.accountFlag .bot) [] rfl)
  | "locked" => some (.atom (.accountFlag .locked) [] rfl)
  | _ => none

mutual

def translateSafePredicate : Expression → Option SqlPredicate
  | .symbol symbol => booleanPredicate symbol
  | .list (.symbol operator :: args) =>
    match operator with
    | "and" | "&" => combinePredicates .and args
    | "or" | "|" => combinePredicates .or args
    -- A variable that is missing is an error, but `NULL` in SQL: `not` is not pushed down.
    | "not" | "!" => none
    | "equals" | "eq" | "=" | "==" =>
      match args with
      | [a, b] => (equalityPredicate a b).or (equalityPredicate b a)
      | _ => none
    | "contains" | "in" =>
      match args with
      | [haystack, needle] => containsPredicate haystack needle
      | _ => none
    | _ => none
  | _ => none

/-- All of the expressions must translate, and there must be one. -/
def combinePredicates (connective : Sql.Connective) : List Expression → Option SqlPredicate
  | [] => none
  | e :: es => (translateSafePredicate e).bind fun predicate =>
      (translateAll es).map fun predicates => .junction connective (predicate :: predicates)

def translateAll : List Expression → Option (List SqlPredicate)
  | [] => some []
  | e :: es => (translateSafePredicate e).bind fun predicate =>
      (translateAll es).map (predicate :: ·)

end

mutual

def collectSafeConjuncts : Expression → List SqlPredicate
  | .list (.symbol "and" :: args) => collectAll args
  | e => (translateSafePredicate e).toList

def collectAll : List Expression → List SqlPredicate
  | [] => []
  | e :: es => collectSafeConjuncts e ++ collectAll es

end

/-- The condition of a query, if it has one. -/
def buildSqlPrefilter (expression : Expression) : Option SqlPredicate :=
  match collectSafeConjuncts expression with
  | [] => none
  | predicates => some (.junction .and predicates)

mutual

/-- The text of a condition. -/
def clause : Sql.Condition SqlAtom → String
  | .atom a => a.clause
  | .junction .and parts => " AND ".intercalate (clauses parts)
  | .junction .or parts => " OR ".intercalate (clauses parts)

def clauses : List (Sql.Condition SqlAtom) → List String
  | [] => []
  | part :: parts => ("(" ++ clause part ++ ")") :: clauses parts

end

theorem count_intercalate (separator : String) (h : separator.toList.count '?' = 0)
    (texts : List String) : (separator.intercalate texts).toList.count '?' =
      (texts.map fun text => text.toList.count '?').sum := by
  induction texts with
  | nil => rfl
  | cons text texts ih =>
    by_cases hnil : texts = []
    · simp [hnil]
    · rw [String.intercalate_cons_of_ne_nil hnil, String.toList_append, String.toList_append,
        List.count_append, List.count_append, h, ih, List.map_cons, List.sum_cons, add_zero]

theorem count_atom (a : SqlAtom) : a.clause.toList.count '?' = a.arity := by
  rcases a with (column | column | _ | column | flag | flag | column | _ | _ | _)
  any_goals cases column
  any_goals cases flag
  all_goals decide +kernel

mutual

theorem count_clause : ∀ condition : Sql.Condition SqlAtom,
    (clause condition).toList.count '?' = condition.placeholders SqlAtom.arity
  | .atom a => by
    rw [clause, count_atom]
    rfl
  | .junction .and parts => by
    rw [clause, count_intercalate _ (by decide)]
    exact count_clauses parts
  | .junction .or parts => by
    rw [clause, count_intercalate _ (by decide)]
    exact count_clauses parts

theorem count_clauses : ∀ parts : List (Sql.Condition SqlAtom),
    ((clauses parts).map fun text => text.toList.count '?').sum =
      Sql.Condition.placeholdersAll SqlAtom.arity parts
  | [] => rfl
  | part :: parts => by
    have hpart : ("(" ++ clause part ++ ")").toList.count '?' = part.placeholders SqlAtom.arity := by
      rw [String.toList_append, String.toList_append, List.count_append, List.count_append,
        count_clause part]
      exact Nat.zero_add _
    rw [clauses, List.map_cons, List.sum_cons, hpart, count_clauses parts]
    rfl

end

/-- The text of a condition has a placeholder for each value that is bound, and no others. -/
theorem placeholders_bound (predicate : SqlPredicate) :
    (clause predicate.condition).toList.count '?' = predicate.bindings.length :=
  (count_clause predicate.condition).trans predicate.filled.symm

/-! ### What the evaluator accepts -/

variable {evaluate : VariableProvider → Expression → Option Expression} {status : StatusRow}
  {account : Option DbAccount} {accounts : List DbAccount} {predicate : SqlPredicate}
  {value : Expression}

/-- A row is accepted by a condition. -/
abbrev Accepts (accounts : List DbAccount) (status : StatusRow) (predicate : SqlPredicate) : Prop :=
  predicate.Accepts (SqlAtom.holds accounts status)

/-- The variables of a status. -/
abbrev provided [SerdeJson] (status : StatusRow) (account : Option DbAccount) : VariableProvider :=
  MastodonVariableProvider.get ⟨status, account⟩

theorem value_of_symbol (yq : YqSemantics evaluate) {name : String}
    (h : evaluate provider (.symbol name) = some value) (ht : name ≠ "t") (hnil : name ≠ "nil") :
    provider name = some value := by
  cases hget : provider name with
  | none =>
    rw [yq.missing hget ht hnil] at h
    cases h
  | some value' => exact (yq.symbol hget).symm.trans h

theorem isNil_boolToExpr {b : Bool} : (boolToExpr b).isNil = !b := by cases b <;> rfl

/-- The account that a variable is read from is the author of the status. -/
theorem any_authors {p : DbAccount → Bool} (haccount : ∀ a ∈ account, a ∈ authors accounts status)
    {f : DbAccount → Expression} (h : account.map f = some value)
    (hp : ∀ a, f a = value → p a = true) : (authors accounts status).any p = true := by
  obtain ⟨a, rfl, ha⟩ := Option.map_eq_some_iff.1 h
  exact List.any_eq_true.2 ⟨a, haccount a rfl, hp a ha⟩

/-- A variable that is a truth value and not nil is true. -/
theorem true_of_boolToExpr {b : Bool} (h : some (boolToExpr b) = some value)
    (hnil : value.isNil = false) : b = true := by
  obtain rfl := Option.some.inj h
  simpa [isNil_boolToExpr] using hnil

theorem holds_hasMedia (h : hasMedia status = true) :
    SqlAtom.hasMedia.holds accounts status [] = some true := by
  unfold hasMedia at h
  show Sql.and3 _ (Sql.and3 _ _) = some true
  cases hmedia : status.mediaAttachmentsJson with
  | none => simp [hmedia] at h
  | some j =>
    obtain ⟨hlist, hempty⟩ : j ≠ "[]".toList ∧ j ≠ [] := by simpa [hmedia] using h
    simp only [Sql.and3_eq_true, Sql.not3, Sql.eq3, Option.map_some, Option.isSome_some,
      decide_eq_false hlist, decide_eq_false hempty, Bool.not_false, and_self]

theorem booleanPredicate_sound [SerdeJson] (yq : YqSemantics evaluate)
    (haccount : ∀ a ∈ account, a ∈ authors accounts status)
    (h : booleanPredicate symbol = some predicate)
    (hholds : Holds evaluate (provided status account) (.symbol symbol)) :
    Accepts accounts status predicate := by
  obtain ⟨value, hvalue, hnil⟩ := hholds
  have hget : provided status account symbol = some value := by
    refine value_of_symbol yq hvalue ?_ ?_ <;> rintro rfl <;> cases h
  unfold booleanPredicate at h
  split at h <;> cases h <;> refine Sql.Filled.accepts_atom.2 ?_
  -- Columns of the status.
  case h_1 | h_2 | h_3 | h_4 | h_5 | h_6 | h_7 | h_8 | h_9 | h_10 | h_11 | h_13 | h_14 =>
    exact congrArg some (true_of_boolToExpr hget hnil)
  case h_12 => exact holds_hasMedia (true_of_boolToExpr hget hnil)
  case h_15 =>
    have hcw := true_of_boolToExpr hget hnil
    simpa [SqlAtom.holds, Sql.not3, Sql.eq3] using hcw
  -- Columns of the author.
  case h_16 | h_17 =>
    exact congrArg some (any_authors haccount hget fun a ha =>
      true_of_boolToExpr (congrArg some ha) hnil)

theorem accepts_text {column : TextColumn} {text : Str} (h : column.value status = some text) :
    Accepts accounts status (.atom (.text column) [.text text] rfl) :=
  Sql.Filled.accepts_atom.2 (Sql.eq3_eq_true.2 h)

theorem string_inj {text : Str} (h : some (Expression.string s) = some (.string text)) :
    s = text := by cases h; rfl

theorem optStrToExpr_eq_string {s : Option Str} {text : Str}
    (h : some (optStrToExpr s) = some (.string text)) : s = some text := by
  unfold optStrToExpr at h
  cases s with
  | none => cases h
  | some s =>
    simp only at h
    split_ifs at h
    · exact congrArg some (string_inj h)
    · cases h

theorem stringEqualityPredicate_sound [SerdeJson] (yq : YqSemantics evaluate)
    (haccount : ∀ a ∈ account, a ∈ authors accounts status) {text : Str}
    (h : stringEqualityPredicate symbol text = some predicate)
    (hvalue : evaluate (provided status account) (.symbol symbol) = some (.string text)) :
    Accepts accounts status predicate := by
  have hget : provided status account symbol = some (.string text) := by
    refine value_of_symbol yq hvalue ?_ ?_ <;> rintro rfl <;> cases h
  have hcw (hcw : provided status account "cw" = some (.string text)) :
      status.spoilerText = text := by
    have hsplit : (if status.spoilerText = [] then some Expression.nil
        else some (.string status.spoilerText)) = some (.string text) := hcw
    split_ifs at hsplit
    · cases hsplit
    · exact string_inj hsplit
  have hauthor {column : AccountColumn}
      (hget : account.map (fun a => Expression.string (column.value a)) = some (.string text)) :
      Accepts accounts status (.atom (.account column) [.text text] rfl) :=
    Sql.Filled.accepts_atom.2 (congrArg some (any_authors haccount hget fun a ha =>
      decide_eq_true (string_inj (congrArg some ha))))
  unfold stringEqualityPredicate at h
  split at h
  case h_7 | h_8 =>
    split_ifs at h
    cases h
    exact accepts_text (congrArg some (hcw hget))
  all_goals cases h
  case h_1 | h_4 | h_5 => exact accepts_text (congrArg some (string_inj hget))
  case h_2 | h_3 | h_6 => exact accepts_text (optStrToExpr_eq_string hget)
  case h_9 | h_10 | h_11 | h_12 => exact hauthor hget

theorem integerEqualityPredicate_sound [SerdeJson] (yq : YqSemantics evaluate) {n : ℤ}
    (h : integerEqualityPredicate symbol n = some predicate)
    (hvalue : evaluate (provided status account) (.symbol symbol) = some (.integer n)) :
    Accepts accounts status predicate := by
  have hget : provided status account symbol = some (.integer n) := by
    refine value_of_symbol yq hvalue ?_ ?_ <;> rintro rfl <;> cases h
  unfold integerEqualityPredicate at h
  split at h <;> cases h
  all_goals
    refine Sql.Filled.accepts_atom.2 (Sql.eq3_eq_true.2 ?_)
    cases hget
    rfl

theorem equalityPredicate_sound [SerdeJson] (yq : YqSemantics evaluate)
    (haccount : ∀ a ∈ account, a ∈ authors accounts status)
    (h : equalityPredicate a b = some predicate)
    (ha : evaluate (provided status account) a = some value)
    (hb : evaluate (provided status account) b = some value) :
    Accepts accounts status predicate := by
  unfold equalityPredicate at h
  split at h
  · obtain rfl := Option.some.inj (yq.string.symm.trans hb)
    exact stringEqualityPredicate_sound yq haccount h ha
  · obtain rfl := Option.some.inj (yq.integer.symm.trans hb)
    exact integerEqualityPredicate_sound yq h ha
  · cases h

/-! ### Texts that contain a needle -/

/-- The pattern asks for characters of the needle, in order. -/
theorem patternLoop_spec (anchorCount : ℕ) (needle : Str) :
    ∃ anchors, anchors.Sublist (needle.filter fun c => !isEntityDecoded c) ∧
      (patternLoop anchorCount needle).1 = Like.anchored '\\' anchors := by
  induction needle generalizing anchorCount with
  | nil => exact ⟨[], List.Sublist.refl _, rfl⟩
  | cons c rest ih =>
    obtain ⟨anchors, hsub, hpattern⟩ := ih (anchorCount + 1)
    unfold patternLoop
    by_cases hc : isEntityDecoded c = true
    · simp only [hc, if_true]
      rw [List.filter_cons_of_neg (by simp [hc])]
      exact ih anchorCount
    · rw [if_neg hc, List.filter_cons_of_pos (by simpa using hc)]
      by_cases hmax : anchorCount + 1 ≥ MAX_ANCHORS
      · refine ⟨[c], List.singleton_sublist.2 List.mem_cons_self, ?_⟩
        simp only [if_pos hmax]
        simp [Like.anchored, Like.literal]
      · refine ⟨c :: anchors, hsub.cons_cons c, ?_⟩
        simp only [if_neg hmax, hpattern]
        simp [Like.anchored, Like.literal]

theorem cString_of_not_mem (h : '\x00' ∉ s) : cString s = s := by
  unfold cString
  rw [List.takeWhile_eq_self_iff]
  intro c hc
  exact decide_eq_true fun heq => h (heq ▸ hc)

/-- A status whose plain text contains the needle matches the pattern. -/
theorem like_of_contains {content needle pattern : Str} (hcontent : '\x00' ∉ content)
    (hpattern : rawHtmlSubsequenceLikePattern needle = some pattern)
    (hcontains : (htmlToPlainText content).contains needle = true) :
    Like.like Char.toLower '\\' (cString pattern) (cString content) = true := by
  obtain ⟨anchors, hsub, hloop⟩ := patternLoop_spec 0 needle
  have hanchored : '\x00' ∉ needle ∧ pattern = '%' :: Like.anchored '\\' anchors := by
    rw [← hloop]
    unfold rawHtmlSubsequenceLikePattern at hpattern
    split_ifs at hpattern with hneedle
    refine ⟨hneedle, ?_⟩
    simp only at hpattern
    split_ifs at hpattern
    exact (Option.some.inj hpattern).symm
  obtain ⟨hneedle, rfl⟩ := hanchored
  have hanchors : anchors.Sublist content :=
    (hsub.trans ((Str.contains_iff.1 hcontains).sublist.filter _)).trans
      (filter_htmlToPlainText content)
  have hnul : '\x00' ∉ '%' :: Like.anchored '\\' anchors := by
    intro hmem
    obtain hmem | hmem := List.mem_cons.1 hmem
    · cases hmem
    · obtain hmem | hmem | hmem := Like.mem_anchored hmem
      · cases hmem
      · cases hmem
      · exact hneedle (List.mem_filter.1 (hsub.subset hmem)).1
  rw [cString_of_not_mem hnul, cString_of_not_mem hcontent]
  exact Like.like_anchored (by decide) hanchors

theorem containsPredicate_sound [SerdeJson] (yq : YqSemantics evaluate)
    (hcontent : '\x00' ∉ status.content) (hoperator : operator ∈ ["contains", "in"])
    (h : containsPredicate a b = some predicate)
    (hholds : Holds evaluate (provided status account) (.list [.symbol operator, a, b])) :
    Accepts accounts status predicate := by
  unfold containsPredicate at h
  split at h
  · rename_i symbol needle
    split_ifs at h with hsymbol
    obtain ⟨pattern, hpattern, rfl⟩ := Option.map_eq_some_iff.1 h
    have htext : provided status account symbol =
        some (.string (htmlToPlainText status.content)) := by
      rcases hsymbol with rfl | rfl <;> rfl
    refine Sql.Filled.accepts_atom.2 (congrArg some (like_of_contains hcontent hpattern ?_))
    exact yq.contains hoperator hholds (yq.symbol htext) yq.string
  · cases h

/-! ### The translation is sound -/

theorem combinePredicates_eq_some {connective : Sql.Connective}
    (h : combinePredicates connective args = some predicate) :
    ∃ predicates, translateAll args = some predicates ∧
      predicate = .junction connective predicates := by
  cases args with
  | nil =>
    rw [combinePredicates] at h
    cases h
  | cons e es =>
    rw [combinePredicates] at h
    obtain ⟨first, hfirst, h⟩ := Option.bind_eq_some_iff.1 h
    obtain ⟨rest, hrest, rfl⟩ := Option.map_eq_some_iff.1 h
    refine ⟨first :: rest, ?_, rfl⟩
    rw [translateAll, hfirst, Option.bind_some, hrest, Option.map_some]

/-- The expressions and their conditions correspond. -/
theorem mem_of_translateAll {predicates : List SqlPredicate}
    (h : translateAll args = some predicates) :
    (∀ predicate ∈ predicates, ∃ e ∈ args, translateSafePredicate e = some predicate) ∧
      ∀ e ∈ args, ∃ predicate ∈ predicates, translateSafePredicate e = some predicate := by
  induction args generalizing predicates with
  | nil =>
    rw [translateAll] at h
    cases h
    simp
  | cons e es ih =>
    rw [translateAll] at h
    obtain ⟨first, hfirst, h⟩ := Option.bind_eq_some_iff.1 h
    obtain ⟨rest, hrest, rfl⟩ := Option.map_eq_some_iff.1 h
    obtain ⟨hpredicates, hargs⟩ := ih hrest
    constructor
    · refine List.forall_mem_cons.2 ⟨⟨e, List.mem_cons_self, hfirst⟩, fun predicate hmem => ?_⟩
      obtain ⟨e', he', htranslated⟩ := hpredicates predicate hmem
      exact ⟨e', List.mem_cons_of_mem _ he', htranslated⟩
    · refine List.forall_mem_cons.2 ⟨⟨first, List.mem_cons_self, hfirst⟩, fun e' he' => ?_⟩
      obtain ⟨predicate, hmem, htranslated⟩ := hargs e' he'
      exact ⟨predicate, List.mem_cons_of_mem _ hmem, htranslated⟩

/-- A row of a status that an expression holds for is accepted by its condition. -/
def Sound [SerdeJson] (evaluate : VariableProvider → Expression → Option Expression)
    (status : StatusRow) (account : Option DbAccount) (accounts : List DbAccount)
    (e : Expression) : Prop :=
  ∀ predicate, translateSafePredicate e = some predicate →
    Holds evaluate (provided status account) e → Accepts accounts status predicate

theorem combinePredicates_and_sound [SerdeJson]
    (hsound : ∀ e ∈ args, Sound evaluate status account accounts e)
    (h : combinePredicates .and args = some predicate)
    (hholds : ∀ arg ∈ args, Holds evaluate (provided status account) arg) :
    Accepts accounts status predicate := by
  obtain ⟨predicates, hall, rfl⟩ := combinePredicates_eq_some h
  refine Sql.Filled.accepts_all.2 fun part hpart => ?_
  obtain ⟨e, he, htranslated⟩ := (mem_of_translateAll hall).1 part hpart
  exact hsound e he part htranslated (hholds e he)

theorem combinePredicates_or_sound [SerdeJson]
    (hsound : ∀ e ∈ args, Sound evaluate status account accounts e)
    (h : combinePredicates .or args = some predicate)
    (hholds : ∃ arg ∈ args, Holds evaluate (provided status account) arg) :
    Accepts accounts status predicate := by
  obtain ⟨predicates, hall, rfl⟩ := combinePredicates_eq_some h
  obtain ⟨e, he, hholds⟩ := hholds
  obtain ⟨part, hpart, htranslated⟩ := (mem_of_translateAll hall).2 e he
  exact Sql.Filled.accepts_any.2 ⟨part, hpart, hsound e he part htranslated hholds⟩

/-- Either operand of an equality may be the variable. -/
theorem equality_sound [SerdeJson] (yq : YqSemantics evaluate)
    (haccount : ∀ a ∈ account, a ∈ authors accounts status)
    (hoperator : operator ∈ ["equals", "eq", "=", "=="]) (h : (match args with
      | [a, b] => (equalityPredicate a b).or (equalityPredicate b a)  
      | _ => none) = some predicate)
    (hholds : Holds evaluate (provided status account) (.list (.symbol operator :: args))) :
    Accepts accounts status predicate := by
  split at h
  · obtain ⟨value, ha, hb⟩ := yq.equals hoperator hholds
    obtain h | ⟨-, h⟩ := Option.or_eq_some_iff.1 h
    · exact equalityPredicate_sound yq haccount h ha hb
    · exact equalityPredicate_sound yq haccount h hb ha
  · cases h

theorem contains_sound [SerdeJson] (yq : YqSemantics evaluate) (hcontent : '\x00' ∉ status.content)
    (hoperator : operator ∈ ["contains", "in"]) (h : (match args with
      | [haystack, needle] => containsPredicate haystack needle  
      | _ => none) = some predicate)
    (hholds : Holds evaluate (provided status account) (.list (.symbol operator :: args))) :
    Accepts accounts status predicate := by
  split at h
  · exact containsPredicate_sound yq hcontent hoperator h hholds
  · cases h

theorem translateSafePredicate_sound [SerdeJson] (yq : YqSemantics evaluate)
    (hcontent : '\x00' ∉ status.content) (haccount : ∀ a ∈ account, a ∈ authors accounts status)
    (e : Expression) : Sound evaluate status account accounts e := by
  induction e using Expression.induct with
  | atom e hatom =>
    intro predicate h hholds
    unfold translateSafePredicate at h
    split at h
    · exact booleanPredicate_sound yq haccount h hholds
    · cases hatom
    · cases h
  | list items ih =>
    intro predicate h hholds
    unfold translateSafePredicate at h
    split at h
    · rename_i heq
      cases heq
    · rename_i operator args heq
      cases heq
      have hargs : ∀ e ∈ args, Sound evaluate status account accounts e :=
        fun e he => ih e (List.mem_cons_of_mem _ he)
      split at h
      -- `and`, `&`
      · exact combinePredicates_and_sound hargs h (yq.and (by simp) hholds)
      · exact combinePredicates_and_sound hargs h (yq.and (by simp) hholds)
      -- `or`, `|`
      · exact combinePredicates_or_sound hargs h (yq.or (by simp) hholds)
      · exact combinePredicates_or_sound hargs h (yq.or (by simp) hholds)
      · cases h
      · cases h
      -- The four names of equality.
      · exact equality_sound yq haccount (by simp) h hholds
      · exact equality_sound yq haccount (by simp) h hholds
      · exact equality_sound yq haccount (by simp) h hholds
      · exact equality_sound yq haccount (by simp) h hholds
      · exact contains_sound yq hcontent (by simp) h hholds
      · exact contains_sound yq hcontent (by simp) h hholds
      · cases h
    · cases h

/-! ### Queries -/

theorem collectSafeConjuncts_sound [SerdeJson] (yq : YqSemantics evaluate)
    (hcontent : '\x00' ∉ status.content) (haccount : ∀ a ∈ account, a ∈ authors accounts status)
    (e : Expression) (hholds : Holds evaluate (provided status account) e) :
    ∀ predicate ∈ collectSafeConjuncts e, Accepts accounts status predicate := by
  have hsingle (e : Expression) (hholds : Holds evaluate (provided status account) e) :
      ∀ predicate ∈ (translateSafePredicate e).toList, Accepts accounts status predicate := by
    intro predicate hmem
    exact translateSafePredicate_sound yq hcontent haccount e predicate
      (Option.mem_toList.1 hmem) hholds
  have hall {args : List Expression}
      (hargs : ∀ e ∈ args, ∀ predicate ∈ collectSafeConjuncts e, Accepts accounts status predicate) :
      ∀ predicate ∈ collectAll args, Accepts accounts status predicate := by
    induction args with
    | nil =>
      rw [collectAll]
      simp
    | cons e es ih =>
      rw [collectAll]
      obtain ⟨hfirst, hrest⟩ := List.forall_mem_cons.1 hargs
      exact List.forall_mem_append.2 ⟨hfirst, ih hrest⟩
  induction e using Expression.induct with
  | atom e hatom =>
    unfold collectSafeConjuncts
    split
    · cases hatom
    · exact hsingle e hholds
  | list items ih =>
    unfold collectSafeConjuncts
    split
    · rename_i args heq
      cases heq
      -- Every conjunct holds.
      exact hall fun e he =>
        ih e (List.mem_cons_of_mem _ he) (yq.and (by simp) hholds e he)
    · exact hsingle _ hholds

/-- Every status that a query matches, with its author as its account, is in a row that the
condition of the query accepts. -/
theorem sql_prefilter_superset [SerdeJson]
    (evaluate : VariableProvider → Expression → Option Expression) (yq : YqSemantics evaluate)
    (db : Database) (query : Expression) (status : StatusRow) (hcontent : '\x00' ∉ status.content)
    (hmatches : Evaluator.matches evaluate query status (db.account? status.authorKey) = true) :
    ∀ predicate ∈ buildSqlPrefilter query, Accepts db.accounts status predicate := by
  have haccount : ∀ a ∈ db.account? status.authorKey, a ∈ authors db.accounts status := by
    intro a ha
    obtain ⟨hmem, hkey⟩ := Database.account?_eq_some.1 ha
    obtain ⟨hid, hserver⟩ := Prod.ext_iff.1 hkey
    exact List.mem_filter.2 ⟨hmem, decide_eq_true ⟨hid, hserver⟩⟩
  have hconjuncts := collectSafeConjuncts_sound yq hcontent haccount query (matches_iff.1 hmatches)
  intro predicate hpredicate
  unfold buildSqlPrefilter at hpredicate
  split at hpredicate
  · cases hpredicate
  · obtain rfl := Option.some.inj hpredicate
    exact Sql.Filled.accepts_all.2 hconjuncts

/-! ### A sample query -/

/-- Equality of texts, numbers and nil. -/
def sameAtom : Expression → Expression → Bool
  | .string a, .string b => decide (a = b)
  | .integer a, .integer b => decide (a = b)
  | .list [], .list [] => true
  | _, _ => false

mutual

/-- An evaluator of the functions that conditions are made from. -/
def sampleEvaluate (provider : VariableProvider) : Expression → Option Expression
  | .symbol name =>
    match provider name with
    | some value => some value
    | none => if name = "t" then some .t else if name = "nil" then some .nil else none
  | .list [] => some .nil
  | .list (.symbol operator :: args) =>
    match operator with
    | "and" | "&" => (sampleAll provider args).map boolToExpr
    | "or" | "|" => (sampleAny provider args).map boolToExpr
    | "equals" | "eq" | "=" | "==" =>
      match args with
      | [a, b] => (sampleEvaluate provider a).bind fun x =>
          (sampleEvaluate provider b).map fun y => boolToExpr (sameAtom x y)
      | _ => none
    | "contains" | "in" =>
      match args with
      | [a, b] =>
        match sampleEvaluate provider a, sampleEvaluate provider b with
        | some (.string haystack), some (.string needle) =>
          some (boolToExpr (haystack.contains needle))
        | _, _ => none
      | _ => none
    | _ => none
  | .list _ => none
  | e => some e

def sampleAll (provider : VariableProvider) : List Expression → Option Bool
  | [] => some true
  | e :: es => (sampleEvaluate provider e).bind fun value =>
      (sampleAll provider es).map fun all => !value.isNil && all

def sampleAny (provider : VariableProvider) : List Expression → Option Bool
  | [] => some false
  | e :: es => (sampleEvaluate provider e).bind fun value =>
      (sampleAny provider es).map fun any => !value.isNil || any

end

theorem true_of_map {x : Option Bool}
    (h : ∃ value, x.map boolToExpr = some value ∧ value.isNil = false) : x = some true := by
  obtain ⟨value, hmap, hnil⟩ := h
  obtain ⟨b, rfl, rfl⟩ := Option.map_eq_some_iff.1 hmap
  exact congrArg some (true_of_boolToExpr rfl hnil)

theorem holds_of_sampleAll (h : sampleAll provider args = some true) :
    ∀ arg ∈ args, Holds sampleEvaluate provider arg := by
  induction args with
  | nil => simp
  | cons e es ih =>
    rw [sampleAll] at h
    obtain ⟨value, hvalue, h⟩ := Option.bind_eq_some_iff.1 h
    obtain ⟨all, hall, hboth⟩ := Option.map_eq_some_iff.1 h
    obtain ⟨hnil, rfl⟩ : value.isNil = false ∧ all = true := by simpa using hboth
    exact List.forall_mem_cons.2 ⟨⟨value, hvalue, hnil⟩, ih hall⟩

theorem holds_of_sampleAny (h : sampleAny provider args = some true) :
    ∃ arg ∈ args, Holds sampleEvaluate provider arg := by
  induction args with
  | nil => cases h
  | cons e es ih =>
    rw [sampleAny] at h
    obtain ⟨value, hvalue, h⟩ := Option.bind_eq_some_iff.1 h
    obtain ⟨any, hany, heither⟩ := Option.map_eq_some_iff.1 h
    obtain hnil | rfl : value.isNil = false ∨ any = true := by simpa using heither
    · exact ⟨e, List.mem_cons_self, value, hvalue, hnil⟩
    · obtain ⟨arg, hmem, hholds⟩ := ih hany
      exact ⟨arg, List.mem_cons_of_mem _ hmem, hholds⟩

theorem eq_of_sameAtom (h : sameAtom a b = true) : a = b := by
  unfold sameAtom at h
  split at h
  · rw [of_decide_eq_true h]
  · rw [of_decide_eq_true h]
  · rfl
  · cases h

theorem value_of_equality {x y : Option Expression}
    (h : ∃ value, (x.bind fun a => y.map fun b => boolToExpr (sameAtom a b)) = some value ∧
      value.isNil = false) : ∃ value, x = some value ∧ y = some value := by
  obtain ⟨value, hbind, hnil⟩ := h
  obtain ⟨a, ha, hmap⟩ := Option.bind_eq_some_iff.1 hbind
  obtain ⟨b, hb, rfl⟩ := Option.map_eq_some_iff.1 hmap
  have hsame : sameAtom a b = true := true_of_boolToExpr rfl hnil
  exact ⟨a, ha, by rw [hb, eq_of_sameAtom hsame]⟩

theorem sampleEvaluate_semantics : YqSemantics sampleEvaluate where
  symbol h := by rw [sampleEvaluate, h]
  missing h ht hnil := by simp [sampleEvaluate, h, ht, hnil]
  string := by simp [sampleEvaluate]
  integer := by simp [sampleEvaluate]
  and := by
    intro provider operator args hoperator h
    simp only [List.mem_cons, List.not_mem_nil, or_false] at hoperator
    rcases hoperator with rfl | rfl <;> rw [Holds, sampleEvaluate] at h <;>
      exact holds_of_sampleAll (true_of_map h)
  or := by
    intro provider operator args hoperator h
    simp only [List.mem_cons, List.not_mem_nil, or_false] at hoperator
    rcases hoperator with rfl | rfl <;> rw [Holds, sampleEvaluate] at h <;>
      exact holds_of_sampleAny (true_of_map h)
  equals := by
    intro provider operator a b hoperator h
    simp only [List.mem_cons, List.not_mem_nil, or_false] at hoperator
    rcases hoperator with rfl | rfl | rfl | rfl <;> rw [Holds, sampleEvaluate] at h <;>
      exact value_of_equality h
  contains := by
    intro provider operator a b haystack needle hoperator h ha hb
    simp only [List.mem_cons, List.not_mem_nil, or_false] at hoperator
    rcases hoperator with rfl | rfl <;> rw [Holds, sampleEvaluate] at h <;>
      simp only [ha, hb] at h <;>
      obtain ⟨value, hvalue, hnil⟩ := h <;>
      exact true_of_boolToExpr hvalue hnil

/-- `(and (= visibility "public") (or (contains text "fish & chips") favourited))` -/
def sampleQuery : Expression :=
  .list [.symbol "and",
    .list [.symbol "=", .symbol "visibility", .string "public"],
    .list [.symbol "or",
      .list [.symbol "contains", .symbol "text", .string "fish & chips"],
      .symbol "favourited"]]

/-- A public post whose HTML has the needle in pieces. -/
def sampleStatus : StatusRow :=
  { DbStatus.plain "1" "alpha.example" "10" with
    content := "<p><b>Fish</b>: fish &amp; <i>chi</i>ps</p>".toList }

example : (buildSqlPrefilter sampleQuery).map (fun p => (clause p.condition, p.bindings)) =
    some ("(s.visibility = ?) AND ((s.content LIKE ? ESCAPE '\\') OR " ++
        "(COALESCE(s.favourited, 0) != 0))",
      [.text "public", .text "%f%i%s%h%c%h%i%p%s%"]) := by decide +kernel

theorem sql_prefilter_superset_fish : (buildSqlPrefilter sampleQuery).isSome = true ∧
    ∀ predicate ∈ buildSqlPrefilter sampleQuery, Accepts [] sampleStatus predicate := by
  let := rejectingJson
  have hmatches : Evaluator.matches sampleEvaluate sampleQuery sampleStatus none = true := by
    decide +kernel
  exact ⟨by decide +kernel, sql_prefilter_superset sampleEvaluate sampleEvaluate_semantics
    (.ofStatuses [] List.nodup_nil) sampleQuery sampleStatus (by decide) hmatches⟩

end Awayuki.Yq
