import Awayuki.Db.Models

/-!
# YQ: the filter on one status

`services/yq_filter.rs`: the variables that a status gives a query, and when a query matches.

* `Expression`: what the code looks at of the expressions of the `yq` crate;
* `MastodonVariableProvider.get`: the variables;
* `YqSemantics`: what is documented of the evaluator of the crate, which is a parameter;
* `filter_htmlToPlainText`: the plain text of a status has no characters that its HTML has not,
  but for those that entities stand for.
-/

namespace Awayuki.Yq

/-- Symbols, atoms and lists of expressions; `other` are the atoms of other kinds. -/
inductive Expression
  | symbol (name : String)
  | string (value : Str)
  | integer (value : ℤ)
  | other (atom : Str)
  | list (items : List Expression)

namespace Expression

def nil : Expression := .list []

def t : Expression := .symbol "t"

def isNil : Expression → Bool
  | .list [] => true
  | _ => false

/-- `Expression::iter`, which has nothing to go through in an atom. -/
def iter : Expression → List Expression
  | .list items => items
  | _ => []

mutual

/-- Induction on expressions: a property of a list may be proved from that of its items. -/
theorem induct {motive : Expression → Prop} (atom : ∀ e : Expression, e.iter = [] → motive e)
    (list : ∀ items, (∀ e ∈ items, motive e) → motive (.list items)) : ∀ e, motive e
  | .symbol _ => atom _ rfl
  | .string _ => atom _ rfl
  | .integer _ => atom _ rfl
  | .other _ => atom _ rfl
  | .list items => list items (inductAll atom list items)

theorem inductAll {motive : Expression → Prop} (atom : ∀ e : Expression, e.iter = [] → motive e)
    (list : ∀ items, (∀ e ∈ items, motive e) → motive (.list items)) :
    ∀ items : List Expression, ∀ e ∈ items, motive e
  | [] => fun _ h => absurd h List.not_mem_nil
  | e :: items => List.forall_mem_cons.2 ⟨induct atom list e, inductAll atom list items⟩

end

end Expression

/-- A row of `statuses` with the columns that only YQ reads. -/
structure StatusRow extends DbStatus where
  pinned : Option Bool := none
  favourited : Option Bool := none
  reblogged : Option Bool := none
  muted : Option Bool := none
  bookmarked : Option Bool := none
  deriving DecidableEq

/-! ### Variables -/

/-- The loop over the characters; `inTag` tells whether a tag is open. -/
def stripTags (inTag : Bool) : Str → Str
  | [] => []
  | c :: rest =>
    if c = '<' then stripTags true rest
    else if c = '>' then stripTags false rest
    else if inTag then stripTags inTag rest
    else c :: stripTags inTag rest

def htmlToPlainText (html : Str) : Str :=
  (((((stripTags false html).replace "&nbsp;" " ").replace "&amp;" "&").replace "&lt;" "<").replace
    "&gt;" ">").replace "&quot;" "\"" |>.trim

def boolToExpr (b : Bool) : Expression := if b then .t else .nil

def optStrToExpr (s : Option Str) : Expression :=
  match s with
  | some s => if s ≠ [] then .string s else .nil
  | none => .nil

def statusApplicationName [SerdeJson] (status : StatusRow) : Option Str :=
  ((status.applicationJson.bind SerdeJson.application).map fun application =>
    application.name.trim).filter (· ≠ [])

structure MastodonVariableProvider where
  status : StatusRow
  account : Option DbAccount

abbrev VariableProvider := String → Option Expression

/-- Does the column of the attachments list any? -/
def hasMedia (status : StatusRow) : Bool :=
  (status.mediaAttachmentsJson.map fun j => decide (j ≠ "[]".toList) && !j.isEmpty).getD false

def MastodonVariableProvider.get [SerdeJson] (self : MastodonVariableProvider) :
    VariableProvider := fun symbol =>
  match symbol with
  | "text" | "content" => some (.string (htmlToPlainText self.status.content))
  | "raw_content" => some (.string self.status.content)
  | "visibility" => some (.string self.status.visibility)
  | "language" | "lang" => some (optStrToExpr self.status.language)
  | "application" | "application_name" | "source" | "source_app" =>
    some (optStrToExpr (statusApplicationName self.status))
  | "spoiler_text" | "cw" =>
    if self.status.spoilerText = [] then some .nil else some (.string self.status.spoilerText)
  | "sensitive" => some (boolToExpr self.status.sensitive)
  | "favourites_count" | "fav_count" => some (.integer self.status.favouritesCount)
  | "reblogs_count" | "boost_count" => some (.integer self.status.reblogsCount)
  | "replies_count" => some (.integer self.status.repliesCount)
  | "bookmarked" => some (boolToExpr (self.status.bookmarked.getD false))
  | "favourited" | "faved" => some (boolToExpr (self.status.favourited.getD false))
  | "reblogged" | "boosted" => some (boolToExpr (self.status.reblogged.getD false))
  | "muted" => some (boolToExpr (self.status.muted.getD false))
  | "pinned" => some (boolToExpr (self.status.pinned.getD false))
  | "is_reply" => some (boolToExpr self.status.inReplyToId.isSome)
  | "is_reblog" | "is_boost" => some (boolToExpr self.status.reblogOfId.isSome)
  | "has_media" => some (boolToExpr (hasMedia self.status))
  | "has_poll" => some (boolToExpr self.status.pollJson.isSome)
  | "has_card" => some (boolToExpr self.status.cardJson.isSome)
  | "has_cw" => some (boolToExpr (!self.status.spoilerText.isEmpty))
  | "in_reply_to_id" => some (optStrToExpr self.status.inReplyToId)
  | "user" | "username" => self.account.map fun a => .string a.username
  | "acct" => self.account.map fun a => .string a.acct
  | "display_name" => self.account.map fun a => .string a.displayName
  | "bot" => self.account.map fun a => boolToExpr a.bot
  | "locked" => self.account.map fun a => boolToExpr a.locked
  | "server_domain" | "domain" => some (.string self.status.serverDomain)
  | _ => none

/-! ### The evaluator -/

section Evaluator

-- `Context::evaluate` with a variable provider; `none` is an error.
variable (evaluate : VariableProvider → Expression → Option Expression)

/-- An expression evaluates to something other than nil. -/
def Holds (provider : VariableProvider) (e : Expression) : Prop :=
  ∃ value, evaluate provider e = some value ∧ value.isNil = false

/-- `Evaluator::matches` -/
def Evaluator.matches [SerdeJson] (query : Expression) (status : StatusRow)
    (account : Option DbAccount) : Bool :=
  match evaluate (MastodonVariableProvider.get ⟨status, account⟩) query with
  | some result => !result.isNil
  | none => false

/-- The documented meaning of variables, constants, `and`, `or`, equality and `contains`. -/
structure YqSemantics : Prop where
  symbol {provider : VariableProvider} {name : String} {value : Expression} :
    provider name = some value → evaluate provider (.symbol name) = some value
  missing {provider : VariableProvider} {name : String} :
    provider name = none → name ≠ "t" → name ≠ "nil" → evaluate provider (.symbol name) = none
  string {provider : VariableProvider} {value : Str} :
    evaluate provider (.string value) = some (.string value)
  integer {provider : VariableProvider} {value : ℤ} :
    evaluate provider (.integer value) = some (.integer value)
  and {provider : VariableProvider} {operator : String} {args : List Expression} :
    operator ∈ ["and", "&"] → Holds evaluate provider (.list (.symbol operator :: args)) →
      ∀ arg ∈ args, Holds evaluate provider arg
  or {provider : VariableProvider} {operator : String} {args : List Expression} :
    operator ∈ ["or", "|"] → Holds evaluate provider (.list (.symbol operator :: args)) →
      ∃ arg ∈ args, Holds evaluate provider arg
  equals {provider : VariableProvider} {operator : String} {a b : Expression} :
    operator ∈ ["equals", "eq", "=", "=="] →
      Holds evaluate provider (.list [.symbol operator, a, b]) →
        ∃ value, evaluate provider a = some value ∧ evaluate provider b = some value
  contains {provider : VariableProvider} {operator : String} {a b : Expression}
      {haystack needle : Str} :
    operator ∈ ["contains", "in"] → Holds evaluate provider (.list [.symbol operator, a, b]) →
      evaluate provider a = some (.string haystack) →
        evaluate provider b = some (.string needle) → haystack.contains needle = true

end Evaluator

theorem matches_iff [SerdeJson] {evaluate : VariableProvider → Expression → Option Expression}
    {query : Expression} {status : StatusRow} {account : Option DbAccount} :
    Evaluator.matches evaluate query status account = true ↔
      Holds evaluate (MastodonVariableProvider.get ⟨status, account⟩) query := by
  unfold Evaluator.matches Holds
  cases evaluate (MastodonVariableProvider.get ⟨status, account⟩) query <;> simp

/-! ### Plain text -/

/-- The characters that an entity may stand for. -/
def isEntityDecoded (c : Char) : Bool := c = ' ' || c = '&' || c = '<' || c = '>' || c = '"'

theorem stripTags_sublist (inTag : Bool) (html : Str) : (stripTags inTag html).Sublist html := by
  induction html generalizing inTag with
  | nil => exact List.Sublist.refl _
  | cons c rest ih =>
    unfold stripTags
    split_ifs
    · exact (ih true).cons c
    · exact (ih false).cons c
    · exact (ih inTag).cons c
    · exact (ih inTag).cons_cons c

/-- The other characters of the plain text are in the HTML, in the same order. -/
theorem filter_htmlToPlainText (html : Str) :
    ((htmlToPlainText html).filter fun c => !isEntityDecoded c).Sublist html := by
  -- Every entity is replaced by characters that it stands for.
  have hreplace {s t old new : Str} (hnew : new.filter (fun c => !isEntityDecoded c) = [])
      (h : (s.filter fun c => !isEntityDecoded c).Sublist t) :
      ((s.replace old new).filter fun c => !isEntityDecoded c).Sublist t :=
    (Str.filter_replace hnew s).trans h
  refine ((Str.trim_sublist _).filter _).trans ?_
  refine hreplace (by decide) (hreplace (by decide) (hreplace (by decide) (hreplace (by decide)
    (hreplace (by decide) ?_))))
  exact List.filter_sublist.trans (stripTags_sublist false html)

end Awayuki.Yq
