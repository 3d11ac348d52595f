import Awayuki.Kq.FieldValue

/-!
# KQ: source branches and matching

`source_branches` lists the ways in which one source matches a row.  A source that several login
accounts match has one branch without a viewer, so that the `viewer` fields are never computed
from two accounts' states; `bookmarks` and `favourites` keep one branch for each account.
`matches` asks for a branch of some source under which the predicate is true.
-/

namespace Awayuki.Kq

variable [Icu]

/-! ### Memberships and mentions -/

def membershipMatches (context : EvaluationContext) (timelineType : Str)
    (accountAcct parameter : Option Str) : Bool :=
  context.memberships.any fun membership =>
    membership.timelineType.eqIgnoreAsciiCase timelineType &&
      (accountAcct.all fun acct => selectorEqual membership.accountAcct acct) &&
      parameter.all fun expected => membership.parameter.any fun actual =>
        if timelineType = "hashtag".toList then selectorEqual (cleanTag actual) (cleanTag expected)
        else actual == expected

/-- Does one mention name the login account? -/
def mentionNamesLogin (status : DbStatus) (login : LoginAccountIdentity) (mention : Mention) :
    Bool :=
  status.serverDomain.eqIgnoreAsciiCase login.serverDomain &&
      identityEqual mention.id login.accountId ||
    selectorEqual (statusScopedAcct mention.acct status) (loginProviderAcct login)

variable [SerdeJson]

def mentionsLoginAccount (context : EvaluationContext) (login : LoginAccountIdentity) : Bool :=
  match effectiveStatus context with
  | none => false
  | some status =>
    (status.inReplyToAccountId.any fun id => identityEqual id login.accountId) &&
        status.serverDomain.eqIgnoreAsciiCase login.serverDomain ||
      match parseOptionalArray SerdeJson.mentions status.mentionsJson with
      | .values mentions => mentions.any (mentionNamesLogin status login)
      | .invalid => false

/-! ### Login accounts -/

/-- `selected_login_accounts`: all of them without arguments, else those that some argument
selects, once for each provider account. -/
def selectedLoginAccounts (arguments : List Str) (loginAccounts : List LoginAccountIdentity) :
    List LoginAccountIdentity :=
  if arguments.isEmpty then loginAccounts
  else Keyed.firsts (fun account => Icu.fold (loginProviderAcct account))
    (arguments.flatMap fun selector =>
      loginAccounts.filter fun account => loginAccountMatchesSelector account selector)

def accountSourceMatches (kind : SourceKind) (context : EvaluationContext)
    (account : LoginAccountIdentity) : Bool :=
  let rawAcct := account.acct
  match kind with
  | .home => membershipMatches context "home" rawAcct none
  | .public => membershipMatches context "public" rawAcct none
  | .localPublic => membershipMatches context "local" rawAcct none
  | .mentions => mentionsLoginAccount context account
  | .direct =>
    match effectiveStatus context with
    | none => false
    | some status =>
      status.visibility.eqIgnoreAsciiCase "direct" &&
        (membershipMatches context "home" rawAcct none ||
          membershipMatches context "direct" rawAcct none ||
          (authorAccount context).any (fun author => accountMatchesLogin author status account) ||
          mentionsLoginAccount context account)
  | .bookmarks => viewerState context rawAcct (·.bookmarked) == .true
  | .favourites => viewerState context rawAcct (·.favourited) == .true
  | _ => false

/-! ### Branches -/

def unscopedBranch (isMatch : Bool) : List SourceBranch := if isMatch then [⟨none⟩] else []

/-- `collapse_implicit_account_scopes`, by the accounts' names. -/
def collapseImplicitAccountScopes (matching : List LoginAccountIdentity) : List SourceBranch :=
  match matching with
  | [] => []
  | [account] => [⟨some account.acct⟩]
  | _ => [⟨none⟩]

def collapseMembershipScopes (matching : List Str) : List SourceBranch :=
  match Keyed.firsts Icu.fold matching with
  | [] => []
  | [acct] => [⟨some acct⟩]
  | _ => [⟨none⟩]

/-- The login accounts that an account source matches, each once. -/
def matchingLoginAccounts (source : SourceSpec) (context : EvaluationContext) :
    List LoginAccountIdentity :=
  Keyed.firsts (fun account => Icu.fold account.acct)
    ((selectedLoginAccounts source.arguments context.loginAccounts).filter
      (accountSourceMatches source.kind context))

def accountSourceBranches (source : SourceSpec) (context : EvaluationContext) :
    List SourceBranch :=
  let matching := matchingLoginAccounts source context
  if source.kind = .bookmarks ∨ source.kind = .favourites then
    matching.map fun account => ⟨some account.acct⟩
  else collapseImplicitAccountScopes matching

/-- The branches of one argument of a `list` source. -/
def listArgumentBranches (context : EvaluationContext) (argument : Str) : List SourceBranch :=
  let (accountSelector, listId) := splitScopedListId argument
  collapseMembershipScopes
    (((selectedLoginAccounts accountSelector.toList context.loginAccounts).filter fun account =>
      membershipMatches context "list" account.acct (some listId)).map (·.acct))

def listSourceBranches (source : SourceSpec) (context : EvaluationContext) : List SourceBranch :=
  source.arguments.flatMap (listArgumentBranches context)

def hashtagSourceBranches (context : EvaluationContext) (tag : Str) : List SourceBranch :=
  collapseMembershipScopes
    ((context.memberships.filter fun membership =>
      membership.timelineType.eqIgnoreAsciiCase "hashtag" &&
        membership.parameter.any (hashtagParameterMatches · tag) &&
        context.loginAccounts.any fun account =>
          selectorEqual account.acct membership.accountAcct).map (·.accountAcct))

/-- `search_haystack`: the texts a `search` source looks into, one a line. -/
def searchHaystack (status : DbStatus) (account : Option DbAccount) : Str :=
  Str.join "\n" <|
    [htmlToPlainText status.content, status.spoilerText, status.uri, status.url.getD []] ++
      account.elim [] (fun account => [statusAccountAcct account status, account.displayName]) ++
      match parseOptionalArray SerdeJson.tags status.tagsJson with
      | .values tags => tags.map (·.name)
      | .invalid => []

/-- Does one argument of a `search` (`broad`) or `track` source match? -/
def textArgumentMatches (context : EvaluationContext) (broad : Bool) (needle : Str) : Bool :=
  match effectiveStatus context with
  | none => false
  | some status =>
    if broad then insensitiveContains (searchHaystack status (authorAccount context)) needle
    else insensitiveContains (htmlToPlainText status.content) needle

def textSourceBranches (source : SourceSpec) (context : EvaluationContext) (broad : Bool) :
    List SourceBranch :=
  (source.arguments.filter (textArgumentMatches context broad)).map fun _ => ⟨none⟩

def conversationSourceMatches (context : EvaluationContext) : Bool :=
  containsStatusKey context.conversationKeys (statusKey context.wrapper.status) ||
    context.effective.any fun effective =>
      containsStatusKey context.conversationKeys (statusKey effective.status)

def authorMatchesSelector (context : EvaluationContext) (selector : Str) : Bool :=
  context.wrapper.account.any fun account =>
    accountMatchesSelector account context.wrapper.status selector

def sourceBranches (source : SourceSpec) (context : EvaluationContext) : List SourceBranch :=
  match source.kind with
  | .local => unscopedBranch source.arguments.isEmpty
  | .search => textSourceBranches source context true
  | .track => textSourceBranches source context false
  | .conversation => unscopedBranch (conversationSourceMatches context)
  | .user => (source.arguments.filter (authorMatchesSelector context)).map fun _ => ⟨none⟩
  | .hashtag => source.arguments.flatMap (hashtagSourceBranches context)
  | .list => listSourceBranches source context
  | .home | .mentions | .direct | .public | .localPublic | .bookmarks | .favourites =>
    accountSourceBranches source context

/-! ### What the branches depend on -/

/-- The sources that match through saved login accounts. -/
def SourceKind.usesLoginAccounts : SourceKind → Bool
  | .home | .list | .mentions | .direct | .public | .localPublic | .hashtag | .bookmarks
  | .favourites => true
  | _ => false

/-- The sources for which `query_requirements` asks for memberships. -/
def SourceKind.usesMemberships : SourceKind → Bool
  | .local | .user | .conversation => false
  | _ => true

section

variable {source : SourceSpec} {context context' : EvaluationContext}
  (hwrapper : context'.wrapper = context.wrapper)
  (heffective : context'.effective = context.effective)

omit [Icu] [SerdeJson] in
include heffective in
theorem effectiveStatus_congr : effectiveStatus context' = effectiveStatus context := by
  rw [effectiveStatus, effectiveStatus, heffective]

omit [Icu] [SerdeJson] in
include heffective in
theorem authorAccount_congr : authorAccount context' = authorAccount context := by
  rw [authorAccount, authorAccount, heffective]

omit [SerdeJson] in
theorem membershipMatches_congr (h : context'.memberships = context.memberships) :
    membershipMatches context' = membershipMatches context := by
  funext timelineType acct parameter
  rw [membershipMatches, membershipMatches, h]

include heffective in
/-- Only `bookmarks` and `favourites` look at the states. -/
theorem accountSourceMatches_congr (hmemberships : context'.memberships = context.memberships)
    (hkind : source.kind ≠ .bookmarks ∧ source.kind ≠ .favourites) :
    accountSourceMatches source.kind context' = accountSourceMatches source.kind context := by
  funext account
  cases hk : source.kind
  case bookmarks => exact absurd hk hkind.1
  case favourites => exact absurd hk hkind.2
  all_goals
    simp only [accountSourceMatches, mentionsLoginAccount, membershipMatches_congr hmemberships,
      effectiveStatus_congr heffective, authorAccount_congr heffective]

include hwrapper heffective in
/-- Contexts with the parts that a source uses in common have the same branches of it. -/
theorem sourceBranches_congr
    (hlogins : source.kind.usesLoginAccounts → context'.loginAccounts = context.loginAccounts)
    (hmemberships : source.kind.usesMemberships → context'.memberships = context.memberships)
    (hkeys : source.kind = .conversation →
      context'.conversationKeys = context.conversationKeys)
    (hmatching : source.kind = .bookmarks ∨ source.kind = .favourites →
      matchingLoginAccounts source context' = matchingLoginAccounts source context) :
    sourceBranches source context' = sourceBranches source context := by
  have haccount : source.kind.usesLoginAccounts → source.kind.usesMemberships →
      accountSourceBranches source context' = accountSourceBranches source context := by
    intro hl hm
    suffices h : matchingLoginAccounts source context' = matchingLoginAccounts source context by
      simp only [accountSourceBranches, h]
    by_cases hkind : source.kind = .bookmarks ∨ source.kind = .favourites
    · exact hmatching hkind
    · rw [matchingLoginAccounts, matchingLoginAccounts, hlogins hl,
        accountSourceMatches_congr heffective (hmemberships hm) (not_or.1 hkind)]
  cases hk : source.kind <;> simp only [sourceBranches, hk]
  case search | track =>
    have htext : textArgumentMatches context' = textArgumentMatches context := by
      funext broad needle
      simp only [textArgumentMatches, effectiveStatus_congr heffective,
        authorAccount_congr heffective]
    rw [textSourceBranches, textSourceBranches, htext]
  case conversation =>
    simp only [conversationSourceMatches, hwrapper, heffective, hkeys hk]
  case user =>
    have hauthor : authorMatchesSelector context' = authorMatchesSelector context := by
      funext selector
      simp only [authorMatchesSelector, hwrapper]
    rw [hauthor]
  case hashtag =>
    have hhashtag : hashtagSourceBranches context' = hashtagSourceBranches context := by
      funext tag
      simp only [hashtagSourceBranches, hmemberships (by rw [hk]; rfl), hlogins (by rw [hk]; rfl)]
    rw [hhashtag]
  case list =>
    have hlist : listArgumentBranches context' = listArgumentBranches context := by
      funext argument
      simp only [listArgumentBranches, membershipMatches_congr (hmemberships (by rw [hk]; rfl)),
        hlogins (by rw [hk]; rfl)]
    rw [listSourceBranches, listSourceBranches, hlist]
  case home | mentions | direct | «public» | localPublic | bookmarks | favourites =>
    exact haccount (by rw [hk]; rfl) (by rw [hk]; rfl)

end

/-! ### Matching -/

variable [RegexCrate]

/-- `Evaluator::eval` in a context and a branch. -/
def eval (expression : Expr) (context : EvaluationContext) (branch : SourceBranch) : Value :=
  evalWith (fun field => fieldValue field context branch) expression

/-- `Evaluator::matches`. -/
def Evaluator.matches (sources : List SourceSpec) (predicate : Expr) (context : EvaluationContext) :
    Bool :=
  sources.any fun source => (sourceBranches source context).any fun branch =>
    (eval predicate context branch).truth == .true

theorem Evaluator.matches_iff {sources : List SourceSpec} {predicate : Expr} {context : EvaluationContext} :
    Evaluator.matches sources predicate context = true ↔
      ∃ source ∈ sources, ∃ branch ∈ sourceBranches source context,
        (eval predicate context branch).truth = .true := by
  simp [Evaluator.matches]

end Awayuki.Kq
