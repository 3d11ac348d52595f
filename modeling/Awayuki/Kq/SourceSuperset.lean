import Awayuki.Kq.SourceReach

/-!
# KQ: what the planner loses

The evaluator compares names without regard to their case and their spelling; the SQL of a plan
compares most of them exactly.

* `Misspelled`: the rows and tables in which the two may differ, for each kind of source;
* `reaches_of_branch`: otherwise a source that has a branch for a row reaches it;
* `AllPlanned`: the plan selects every row for which a source has a branch.
-/

namespace Awayuki.Kq

/-! ### Bare names -/

variable {account : LoginAccountIdentity} {name timelineType : Str}

/-- Without white space around it and without leading `@`. -/
def IsBare (name : Str) : Prop := bareAcct name = name

theorem bareAcct_sublist (name : Str) : (bareAcct name).Sublist name :=
  (List.dropWhile_sublist _).trans (Str.trim_sublist name)

theorem isAscii_bareAcct (h : name.isAscii = true) : (bareAcct name).isAscii = true :=
  List.all_eq_true.2 fun c hc => List.all_eq_true.1 h c ((bareAcct_sublist name).subset hc)

theorem IsBare.head {c : Char} (h : IsBare (c :: name)) : Str.isWhitespace c = false ∧ c ≠ '@' := by
  have htrim : Str.trim (c :: name) = c :: name := by
    refine (Str.trim_sublist _).eq_of_length_le ?_
    have hlength := congrArg List.length h
    have hdrop := (List.dropWhile_sublist (· == '@') (l := Str.trim (c :: name))).length_le
    rw [bareAcct, Str.trimStartMatches] at hlength
    omega
  constructor
  · by_contra hspace
    have hspace : Str.isWhitespace c = true := by simpa using hspace
    have hlength := congrArg List.length htrim
    have hsublist : (Str.trim (c :: name)).Sublist name := by
      rw [Str.trim, Str.trimStart, List.dropWhile_cons_of_pos hspace]
      exact (List.rdropWhile_prefix _ _).sublist.trans (List.dropWhile_sublist _)
    have hle := hsublist.length_le
    simp only [List.length_cons] at hlength
    omega
  · rintro rfl
    rw [IsBare, bareAcct, htrim, Str.trimStartMatches, List.dropWhile_cons_of_pos (by simp)] at h
    have hlength := congrArg List.length h
    have hle := (List.dropWhile_sublist (· == '@') (l := name)).length_le
    simp only [List.length_cons] at hlength
    omega

/-- A bare name stays as it is when a server follows it. -/
theorem bareAcct_append (hbare : IsBare name) (hne : name ≠ []) (domain : Str) :
    ∃ tail, bareAcct (name ++ '@' :: domain) = name ++ '@' :: tail := by
  obtain ⟨c, rest, rfl⟩ := List.exists_cons_of_ne_nil hne
  obtain ⟨hspace, hat⟩ := hbare.head
  obtain ⟨tail, htail⟩ : ∃ tail, Str.trimEnd (c :: rest ++ '@' :: domain) =
      c :: rest ++ '@' :: tail := by
    rw [Str.trimEnd, List.rdropWhile, List.reverse_append, List.reverse_cons, List.append_assoc,
      List.singleton_append, List.dropWhile_append]
    split_ifs with hempty
    · refine ⟨[], ?_⟩
      rw [List.dropWhile_cons_of_neg (by decide)]
      simp
    · exact ⟨(List.dropWhile Str.isWhitespace domain.reverse).reverse, by simp⟩
  refine ⟨tail, ?_⟩
  have htrim : Str.trim (c :: rest ++ '@' :: domain) = c :: rest ++ '@' :: tail := by
    rw [Str.trim, Str.trimStart, List.cons_append, List.dropWhile_cons_of_neg (by simp [hspace]),
      ← List.cons_append, htail]
  rw [bareAcct, htrim, Str.trimStartMatches, List.cons_append,
    List.dropWhile_cons_of_neg (by simpa using hat)]

theorem isAscii_append {s t : Str} : (s ++ t).isAscii = true ↔
    s.isAscii = true ∧ t.isAscii = true := by
  simp [Str.isAscii, List.all_append]

theorem at_notMem_of_not_contains {s : Str} (h : ¬ s.contains "@" = true) : '@' ∉ s := by
  intro hmem
  obtain ⟨before, after, rfl⟩ := List.append_of_mem hmem
  exact h (Str.contains_iff.2 ⟨before, after, by simp⟩)

theorem toLower_ne_at {c : Char} (h : c ≠ '@') : c.toLower ≠ '@' := by
  unfold Char.toLower
  split_ifs with hupper
  · intro heq
    have hval : (c.val.toNat + 32) % 4294967296 = 64 := congrArg Char.toNat heq
    have hle : 65 ≤ c.val.toNat := UInt32.le_iff_toNat_le.1 hupper.1
    have hle' : c.val.toNat ≤ 90 := UInt32.le_iff_toNat_le.1 hupper.2
    omega
  · exact h

theorem splitOnce_append {d : Char} {s rest : Str} (h : ∀ c ∈ s, c ≠ d) :
    (s ++ d :: rest).splitOnce d = some (s, rest) := by
  induction s with
  | nil => simp [Str.splitOnce]
  | cons c s ih =>
    have htail := ih fun c' hc' => h c' (List.mem_cons_of_mem _ hc')
    simp [Str.splitOnce, h c List.mem_cons_self, htail]

/-- A text whose literal is printable is ASCII. -/
theorem isAscii_of_printable {json text : Str} (hprintable : ¬ hasUnprintable json = true)
    (h : jsonString text <:+: json) : text.isAscii = true := by
  refine List.all_eq_true.2 fun c hc => ?_
  by_contra hascii
  have hlarge : 128 ≤ c.toNat := by simpa using hascii
  have hchar : jsonChar c = [c] := by
    unfold jsonChar
    have hquote : c ≠ '"' := by
      rintro rfl
      exact absurd hlarge (by decide)
    have hbackslash : c ≠ '\\' := by
      rintro rfl
      exact absurd hlarge (by decide)
    rw [if_neg hquote, if_neg hbackslash, if_neg (by omega), if_neg (by omega), if_neg (by omega),
      if_neg (by omega), if_neg (by omega), if_neg (by omega)]
  have hmem : c ∈ json := h.subset (List.mem_append_left _ (List.mem_cons_of_mem _
    (List.mem_flatMap.2 ⟨c, hc, by simp [hchar]⟩)))
  refine hprintable (List.any_eq_true.2 ⟨c, hmem, ?_⟩)
  have hle : ¬ c ≤ '~' := fun hle => by
    have hle' : c.toNat ≤ 126 := UInt32.le_iff_toNat_le.1 hle
    omega
  simp [hle]

/-- JSON writes a plain prefix of a text as it is. -/
theorem prefix_jsonString {plain rest : Str} (h : isPlainJson plain.toAsciiLowercase = true) :
    plain.toAsciiLowercase <:+: (jsonString (plain ++ rest)).toAsciiLowercase := by
  have hchars : plain.flatMap jsonChar = plain := by
    rw [isPlainJson, Bool.and_eq_true] at h
    have hchar : ∀ c ∈ plain, jsonChar c = [c] := by
      intro c hc
      have hplain := List.all_eq_true.1 h.2 c.toLower (List.mem_map_of_mem hc)
      simp only [Bool.and_eq_true, decide_eq_true_eq] at hplain
      obtain ⟨⟨⟨hquote, hbackslash⟩, hcontrol⟩, -⟩ := hplain
      have hquote' : c ≠ '"' := by
        rintro rfl
        exact hquote (by decide)
      have hbackslash' : c ≠ '\\' := by
        rintro rfl
        exact hbackslash (by decide)
      have hcontrol' : 32 ≤ c.toNat := by
        by_contra hlt
        have hlower : c.toLower = c := by
          unfold Char.toLower
          refine dif_neg fun hupper => hlt ?_
          have hle : 65 ≤ c.toNat := UInt32.le_iff_toNat_le.1 hupper.1
          omega
        rw [hlower] at hcontrol
        exact hlt hcontrol
      unfold jsonChar
      rw [if_neg hquote', if_neg hbackslash', if_neg (by omega), if_neg (by omega),
        if_neg (by omega), if_neg (by omega), if_neg (by omega), if_neg (by omega)]
    rw [List.flatMap_congr hchar, List.flatMap_singleton']
  rw [jsonString, List.flatMap_append, hchars]
  refine ⟨['"'], Str.toAsciiLowercase (rest.flatMap jsonChar ++ ['"']), ?_⟩
  simp [Str.toAsciiLowercase]

section Folding

variable [Icu]

/-- An ASCII name that is bare is folded to its lower case, with its server behind it or not. -/
theorem fold_statusScopedAcct {acct : Str} {status : DbStatus} (hbare : IsBare acct)
    (hne : acct ≠ []) (hacct : acct.isAscii = true) (hdomain : status.serverDomain.isAscii = true) :
    Icu.fold (bareAcct (statusScopedAcct acct status)) = acct.toAsciiLowercase ∨
      '@' ∉ acct ∧ ∃ tail, Icu.fold (bareAcct (statusScopedAcct acct status)) =
        acct.toAsciiLowercase ++ '@' :: tail := by
  have hbare' : bareAcct acct = acct := hbare
  unfold statusScopedAcct
  simp only [hbare']
  split_ifs with hscoped
  · left
    rw [hbare', Icu.fold_ascii _ hacct]
  · right
    have hcontains : ¬ acct.contains "@" = true := fun h =>
      hscoped (by rw [h, Bool.or_true, Bool.true_or])
    refine ⟨at_notMem_of_not_contains hcontains, ?_⟩
    obtain ⟨tail, htail⟩ := bareAcct_append hbare hne status.serverDomain
    have hascii : (bareAcct (acct ++ '@' :: status.serverDomain)).isAscii = true :=
      isAscii_bareAcct (isAscii_append.2 ⟨hacct, by simpa [Str.isAscii] using hdomain⟩)
    refine ⟨Str.toAsciiLowercase tail, ?_⟩
    rw [Icu.fold_ascii _ hascii, htail]
    simp [Str.toAsciiLowercase]

end Folding

/-! ### Where the two comparisons differ -/

section Misspelling

variable (db : Database) (loginAccounts : List LoginAccountIdentity)
  (conversationKeys : List StatusKey)

/-- The strings of the author of the row are ASCII. -/
def AsciiAccount (s : DbStatus) : Prop :=
  s.serverDomain.isAscii = true ∧
    ∀ a ∈ db.accounts, a.key = s.authorKey → a.acct.isAscii = true ∧ a.username.isAscii = true

/-- The row is in a timeline whose stored type differs by its case. -/
def OtherCase (s : DbStatus) (timelineType : Str) : Prop :=
  HasEntry db s fun entry =>
    entry.timelineType.eqIgnoreAsciiCase timelineType = true ∧ entry.timelineType ≠ timelineType

/-- The JSON text has the identifier and the name of the mention as `serde_json` writes them, and
the name is bare. -/
structure WrittenPlainly (json : Str) (mention : Mention) : Prop where
  id : jsonString mention.id <:+: json
  acct : jsonString mention.acct <:+: json
  bare : IsBare mention.acct
  nonempty : mention.acct ≠ []

variable [Icu] [SerdeJson]

/-- Two login accounts have one name, but for its case and its spelling. -/
def Twins : Prop :=
  ∃ a ∈ loginAccounts, ∃ b ∈ loginAccounts, a.acct ≠ b.acct ∧ selectorEqual a.acct b.acct = true

/-- Where a source may have a branch for a row that it does not reach. -/
def Misspelled (source : SourceSpec) (s : DbStatus) : Prop :=
  match source.kind with
  | .local | .search | .track | .hashtag => False
  | .home => OtherCase db s "home" ∨ Twins loginAccounts
  | .public => OtherCase db s "public" ∨ Twins loginAccounts
  | .localPublic => OtherCase db s "local" ∨ Twins loginAccounts
  | .list | .bookmarks | .favourites => Twins loginAccounts
  | .user => ∃ a ∈ db.accounts, a.key = s.authorKey ∧
      ¬ (IsBare a.acct ∧ a.acct ≠ [] ∧ IsBare a.username)
  | .mentions => ∃ m, displayedStatus db s = some m ∧ ∃ json, m.mentionsJson = some json ∧
      ∃ mentions, SerdeJson.mentions json = some mentions ∧ ∃ mention ∈ mentions,
        (∃ login ∈ selectedLoginAccounts source.arguments loginAccounts,
          mentionNamesLogin m login mention = true) ∧ ¬ WrittenPlainly json mention
  | .direct => ∃ m, displayedStatus db s = some m ∧
      m.visibility.eqIgnoreAsciiCase "direct" = true ∧ m.visibility ≠ "direct".toList
  | .conversation => ∃ key ∈ conversationKeys,
      key.serverDomain.eqIgnoreAsciiCase s.serverDomain = true ∧
        key.serverDomain ≠ s.serverDomain

end Misspelling

/-! ### Memberships -/

section Branches

variable {db : Database} {gates : Gates} {conversationKeys : List StatusKey} {s : DbStatus}
  {stored : Str}

theorem exists_entry {membership : TimelineMembership}
    (h : membership ∈ (hydrate db gates conversationKeys s).memberships) :
    ∃ entry ∈ db.timelineEntries, entry.statusKey = s.key ∧ TimelineEntry.membership entry = membership := by
  simp only [hydrate] at h
  split_ifs at h with hgate
  · simp only [loadTimelineMemberships, List.mem_singleton, if_true, List.mem_map,
      List.mem_insertionSort, List.mem_filter, decide_eq_true_eq] at h
    obtain ⟨entry, ⟨hentry, hkey⟩, hmembership⟩ := h
    exact ⟨entry, hentry, hkey, hmembership⟩
  · exact absurd h List.not_mem_nil

/-- The stored type of a membership without a parameter. -/
theorem timelineType_of_normalized (hlist : Str.eqIgnoreAsciiCase "list" timelineType = false)
    (hhashtag : Str.eqIgnoreAsciiCase "hashtag" timelineType = false)
    (h : (normalizeTimelineMembership stored).1.eqIgnoreAsciiCase timelineType = true) :
    stored.eqIgnoreAsciiCase timelineType = true := by
  unfold normalizeTimelineMembership at h
  split at h
  · rw [hlist] at h
    cases h
  · split at h
    · rw [hhashtag] at h
      cases h
    · exact h

/-- The stored type of a membership of a list. -/
theorem timelineType_of_list {listId : Str}
    (h : (normalizeTimelineMembership stored).1.eqIgnoreAsciiCase "list" = true)
    (hparameter : (normalizeTimelineMembership stored).2 = some listId) :
    stored = "list:".toList ++ listId := by
  unfold normalizeTimelineMembership at h hparameter
  split at h
  · next parameter hlist =>
    rw [hlist] at hparameter
    obtain rfl := Option.some.inj hparameter
    exact Str.stripPrefix_eq_some.1 hlist
  · next hlist =>
    rw [hlist] at hparameter
    split at h
    · have h : Str.eqIgnoreAsciiCase "hashtag" "list" = true := h
      exact absurd h (by decide)
    · next htag =>
      rw [htag] at hparameter
      cases hparameter

/-- The stored type of a membership of a hashtag. -/
theorem timelineType_of_hashtag {parameter : Str}
    (h : (normalizeTimelineMembership stored).1.eqIgnoreAsciiCase "hashtag" = true)
    (hparameter : (normalizeTimelineMembership stored).2 = some parameter) :
    stored = "tag:".toList ++ parameter := by
  unfold normalizeTimelineMembership at h hparameter
  split at h
  · have h : Str.eqIgnoreAsciiCase "list" "hashtag" = true := h
    exact absurd h (by decide)
  · next hlist =>
    rw [hlist] at hparameter
    split at h
    · next tag htag =>
      rw [htag] at hparameter
      obtain rfl := Option.some.inj hparameter
      exact Str.stripPrefix_eq_some.1 htag
    · next htag =>
      rw [htag] at hparameter
      cases hparameter

variable [Icu]

/-- A name of the tables that a selected login account matches is that account's. -/
theorem acct_eq_of_not_twins (htwins : ¬ Twins (gatedLoginAccounts db gates))
    (haccount : account ∈ gatedLoginAccounts db gates)
    (hname : ∃ a ∈ db.loginAccounts, a.acct = name)
    (hequal : selectorEqual name account.acct = true) : name = account.acct := by
  obtain ⟨a, ha, rfl⟩ := hname
  by_contra hne
  refine htwins ⟨a, ?_, account, haccount, hne, hequal⟩
  unfold gatedLoginAccounts at haccount ⊢
  split_ifs at haccount ⊢
  · exact mem_loadLoginAccountIdentities.2 ha
  · exact absurd haccount List.not_mem_nil

theorem mem_of_selected {arguments : List Str} {loginAccounts : List LoginAccountIdentity}
    (h : account ∈ selectedLoginAccounts arguments loginAccounts) : account ∈ loginAccounts := by
  unfold selectedLoginAccounts at h
  split_ifs at h
  · exact h
  · obtain ⟨selector, -, hmem⟩ := List.mem_flatMap.1 (Keyed.mem_of_mem_firsts h)
    exact (List.mem_filter.1 hmem).1

/-- A membership of a selected account is reached, if it is spelled as the SQL expects. -/
theorem reachesTimeline_of_membership {acct : Str} {parameter : Option Str} {selectors : List Str}
    (htwins : ¬ Twins (gatedLoginAccounts db gates))
    (haccount : account ∈ selectedLoginAccounts selectors (gatedLoginAccounts db gates))
    (hmatch : membershipMatches (hydrate db gates conversationKeys s) timelineType
      (some account.acct) parameter = true)
    (htype : ∀ entry ∈ db.timelineEntries, entry.statusKey = s.key →
      (TimelineEntry.membership entry).timelineType.eqIgnoreAsciiCase timelineType = true →
      (parameter.all fun expected => (TimelineEntry.membership entry).parameter.any fun actual =>
        if timelineType = "hashtag".toList then selectorEqual (cleanTag actual) (cleanTag expected)
        else actual == expected) = true → entry.timelineType = acct) :
    ReachesTimeline db (gatedLoginAccounts db gates) s acct selectors := by
  obtain ⟨membership, hmembership, hall⟩ := List.any_eq_true.1 hmatch
  obtain ⟨entry, hentry, hkey, rfl⟩ := exists_entry hmembership
  simp only [Bool.and_eq_true, Option.all_some] at hall
  obtain ⟨⟨htimeline, hequal⟩, hparameter⟩ := hall
  refine ⟨entry, hentry, hkey, htype entry hentry hkey htimeline hparameter, ?_⟩
  have hacct : entry.accountAcct = account.acct :=
    acct_eq_of_not_twins htwins (mem_of_selected haccount) (db.entry_account entry hentry) hequal
  rw [hacct]
  exact List.mem_map_of_mem haccount

/-! ### Names -/

/-- A folded selector that names an account has one of the account's names. -/
theorem selectorNames_of_matches {a : DbAccount} {selector : Str} (hacct : a.acct.isAscii = true)
    (husername : a.username.isAscii = true) (hdomain : s.serverDomain.isAscii = true)
    (hbare : IsBare a.acct) (hne : a.acct ≠ []) (hbare' : IsBare a.username)
    (h : accountMatchesSelector a s selector = true) : selectorNames selector a = true := by
  simp only [accountMatchesSelector, Bool.or_eq_true, identityEqual, selectorEqual, beq_iff_eq] at h
  simp only [selectorNames, Bool.or_eq_true, decide_eq_true_eq, Str.eqIgnoreAsciiCase_iff]
  rcases h with (hid | hname) | husername'
  · exact .inl (.inl (.inl (.inl (.inl (.inl hid.symm)))))
  · rcases fold_statusScopedAcct hbare hne hacct hdomain with hfold | ⟨hat, tail, hfold⟩
    · -- the selector is the whole name
      refine .inl (.inl (.inl (.inl (.inr ?_))))
      have hfolded := hname.trans hfold
      rw [hfolded, Str.toAsciiLowercase_idem]
    · -- the selector is the name with its server
      refine .inl (.inl (.inr ?_))
      have hfolded := hname.trans hfold
      have hsplit : (a.acct.toAsciiLowercase ++ '@' :: tail).splitOnce '@' =
          some (a.acct.toAsciiLowercase, tail) := splitOnce_append fun c hc => by
        obtain ⟨c', hc', rfl⟩ := List.mem_map.1 hc
        exact toLower_ne_at fun heq => hat (heq ▸ hc')
      rw [hfolded, hsplit]
      exact (Str.toAsciiLowercase_idem _).symm
  · refine .inr ?_
    have hfolded : Icu.fold ((withoutMarker selector).trim.trimStartMatches '@') =
        a.username.toAsciiLowercase := by
      rw [husername', ← Icu.fold_ascii _ husername]
      exact congrArg Icu.fold hbare'
    rw [hfolded, Str.toAsciiLowercase_idem]

/-- The name of a login account, as far as the JSON text of a mention of it must have it. -/
theorem mentionAcctNeedle_eq {m : DbStatus} {mention : Mention} {login : LoginAccountIdentity}
    (hacct : mention.acct.isAscii = true) (hdomain : m.serverDomain.isAscii = true)
    (hbare : IsBare mention.acct) (hne : mention.acct ≠ [])
    (h : selectorEqual (statusScopedAcct mention.acct m) (loginProviderAcct login) = true) :
    ∃ plain rest, mention.acct = plain ++ rest ∧
      mentionAcctNeedle login = plain.toAsciiLowercase := by
  have hfold : Icu.fold (bareAcct (statusScopedAcct mention.acct m)) =
      Icu.fold (bareAcct (loginProviderAcct login)) := beq_iff_eq.1 h
  have hneedle : mentionAcctNeedle login =
      (Icu.fold (bareAcct (statusScopedAcct mention.acct m))).takeWhile (· ≠ '@') := by
    rw [hfold]
    rfl
  rcases fold_statusScopedAcct hbare hne hacct hdomain with heq | ⟨hat, tail, heq⟩
  · refine ⟨mention.acct.takeWhile (fun c => c.toLower ≠ '@'),
      mention.acct.dropWhile (fun c => c.toLower ≠ '@'), List.takeWhile_append_dropWhile.symm, ?_⟩
    rw [hneedle, heq, Str.toAsciiLowercase, List.takeWhile_map]
    rfl
  · refine ⟨mention.acct, [], (List.append_nil _).symm, ?_⟩
    rw [hneedle, heq, List.takeWhile_append_of_pos]
    · simp
    · intro c hc
      obtain ⟨c', hc', rfl⟩ := List.mem_map.1 hc
      exact decide_eq_true (toLower_ne_at fun heq => hat (heq ▸ hc'))

/-- A mention that is written plainly is found in the text. -/
theorem mayMention_of_mention {m : DbStatus} {mention : Mention} {login : LoginAccountIdentity}
    {accounts : List LoginAccountIdentity} {json : Str} {needles : List Str}
    (hlogin : login ∈ accounts) (hplain : WrittenPlainly json mention)
    (hdomain : m.serverDomain.isAscii = true) (hnames : mentionNamesLogin m login mention = true)
    (hneedles : mentionAcctNeedles accounts = some needles) :
    mayMention (accounts.map fun account => jsonString account.accountId) needles json = true := by
  simp only [mentionAcctNeedles] at hneedles
  split_ifs at hneedles with hall
  obtain rfl := Option.some.inj hneedles
  simp only [mentionNamesLogin, Bool.or_eq_true, Bool.and_eq_true, identityEqual, beq_iff_eq]
    at hnames
  simp only [mayMention, Bool.or_eq_true]
  rcases hnames with ⟨-, hid⟩ | hname
  · refine .inl (.inr (List.any_eq_true.2 ⟨_, List.mem_map_of_mem hlogin, ?_⟩))
    rw [← hid]
    exact Str.contains_iff.2 hplain.id
  · by_cases hunprintable : hasUnprintable json = true
    · exact .inl (.inl hunprintable)
    · have hacct : mention.acct.isAscii = true := isAscii_of_printable hunprintable hplain.acct
      obtain ⟨plain, rest, hsplit, hneedle⟩ :=
        mentionAcctNeedle_eq hacct hdomain hplain.bare hplain.nonempty hname
      refine .inr (List.any_eq_true.2 ⟨_, List.mem_map_of_mem hlogin, ?_⟩)
      have hjson := List.all_eq_true.1 hall _ (List.mem_map_of_mem hlogin)
      rw [hneedle] at hjson ⊢
      rw [Str.contains_iff]
      have hinfix := @prefix_jsonString plain rest hjson
      rw [← hsplit] at hinfix
      exact hinfix.trans (hplain.acct.map Char.toLower)

end Branches

/-! ### Kind by kind -/

section Kinds

variable [Icu] [SerdeJson] {db : Database} {gates : Gates} {conversationKeys : List StatusKey}
  {s m : DbStatus} {source : SourceSpec}

/-- The keys of the conversations, if the query asks for them. -/
def gatedConversationKeys (gates : Gates) (conversationKeys : List StatusKey) : List StatusKey :=
  if gates.conversations then conversationKeys else []

omit [Icu] [SerdeJson] in
theorem effectiveStatus_hydrate :
    effectiveStatus (hydrate db gates conversationKeys s) = displayedStatus db s := by
  cases h : displayedStatus db s <;> simp [effectiveStatus, hydrate, storedView, h]

omit [Icu] [SerdeJson] in
/-- The displayed status is the row, or what it boosts. -/
theorem displayedStatus_spec (hs : s ∈ db.statuses) (h : displayedStatus db s = some m) :
    m ∈ db.statuses ∧ IsOf s m.key ∧ m.serverDomain = s.serverDomain := by
  unfold displayedStatus at h
  split at h
  · next key hkey =>
    obtain ⟨hm, rfl⟩ := Database.status?_eq_some.1 h
    refine ⟨hm, .inr hkey, ?_⟩
    obtain ⟨id, -, heq⟩ := Option.map_eq_some_iff.1 hkey
    exact (congrArg Prod.snd heq).symm
  · obtain rfl := Option.some.inj h
    exact ⟨hs, .inl rfl, rfl⟩

theorem exists_account_of_branches {context : EvaluationContext}
    (h : accountSourceBranches source context ≠ []) :
    ∃ account ∈ selectedLoginAccounts source.arguments context.loginAccounts,
      accountSourceMatches source.kind context account = true := by
  have hmatching : matchingLoginAccounts source context ≠ [] := by
    intro hnil
    refine h ?_
    unfold accountSourceBranches
    simp only [hnil]
    split_ifs <;> rfl
  obtain ⟨account, haccount⟩ := List.exists_mem_of_ne_nil _ hmatching
  obtain ⟨hselected, hmatches⟩ := List.mem_filter.1 (Keyed.mem_of_mem_firsts haccount)
  exact ⟨account, hselected, hmatches⟩

omit [SerdeJson] in
theorem exists_of_collapseMembershipScopes {matching : List Str}
    (h : collapseMembershipScopes matching ≠ []) : ∃ acct, acct ∈ matching := by
  refine List.exists_mem_of_ne_nil _ fun hnil => h ?_
  rw [hnil]
  rfl

omit [SerdeJson] in
/-- A timeline of an account that is spelled in lower case. -/
theorem reachesTimeline_of_account (hlist : Str.eqIgnoreAsciiCase "list" timelineType = false)
    (hhashtag : Str.eqIgnoreAsciiCase "hashtag" timelineType = false)
    (hspelled : ¬ (OtherCase db s timelineType ∨ Twins (gatedLoginAccounts db gates)))
    (haccount : account ∈ selectedLoginAccounts source.arguments (gatedLoginAccounts db gates))
    (hmatch : membershipMatches (hydrate db gates conversationKeys s) timelineType
      (some account.acct) none = true) :
    ReachesTimeline db (gatedLoginAccounts db gates) s timelineType source.arguments := by
  refine reachesTimeline_of_membership (fun h => hspelled (.inr h)) haccount hmatch ?_
  intro entry hentry hkey htype _
  by_contra hne
  exact hspelled (.inl ⟨entry, hentry, hkey, timelineType_of_normalized hlist hhashtag htype, hne⟩)

omit [SerdeJson] in
theorem reachesViewerState_of_account {column : ViewerColumn} (hs : s ∈ db.statuses)
    (htwins : ¬ Twins (gatedLoginAccounts db gates))
    (haccount : account ∈ selectedLoginAccounts source.arguments (gatedLoginAccounts db gates))
    (hmatch : viewerState (hydrate db gates conversationKeys s) (some account.acct) column.get =
      .true) : ReachesViewerState db (gatedLoginAccounts db gates) s column source.arguments := by
  cases hdisplayed : displayedStatus db s with
  | none => simp [viewerState, viewerRow, effectiveStatus_hydrate, hdisplayed] at hmatch
  | some m =>
    obtain ⟨-, hof, -⟩ := displayedStatus_spec hs hdisplayed
    simp only [viewerState, viewerRow, effectiveStatus_hydrate, hdisplayed] at hmatch
    split at hmatch
    · next state hstate =>
      have hmark : column.get state = some true := by
        cases hget : column.get state with
        | none => simp [hget] at hmatch
        | some mark => cases mark <;> simp_all [truth]
      have hmem : state ∈ (hydrate db gates conversationKeys s).viewerStates.filter
          (isStateOf account.acct m) := by
        rw [hstate]
        exact List.mem_singleton_self _
      obtain ⟨hmem, his⟩ := List.mem_filter.1 hmem
      simp only [hydrate, hdisplayed, Option.elim_some] at hmem
      split_ifs at hmem
      · obtain ⟨hmem, hkey⟩ := List.mem_filter.1 hmem
        simp only [isStateOf, Bool.and_eq_true] at his
        refine ⟨state, hmem, of_decide_eq_true hkey ▸ hof, hmark, ?_⟩
        have hacct : state.loginAccountAcct = account.acct := acct_eq_of_not_twins htwins
          (mem_of_selected haccount) (db.viewerState_account state hmem) his.1.1
        rw [hacct]
        exact List.mem_map_of_mem haccount
      · exact absurd hmem List.not_mem_nil
    · cases hmatch

theorem addressesOneOf_of_mentions (hs : s ∈ db.statuses) (hdomain : s.serverDomain.isAscii = true)
    (hkind : source.kind = .mentions) (hspelled : ¬ Misspelled db (gatedLoginAccounts db gates)
      (gatedConversationKeys gates conversationKeys) source s)
    (haccount : account ∈ selectedLoginAccounts source.arguments (gatedLoginAccounts db gates))
    (hmatch : mentionsLoginAccount (hydrate db gates conversationKeys s) account = true) :
    ∃ m ∈ db.statuses, IsOf s m.key ∧
      AddressesOneOf (selectedLoginAccounts source.arguments (gatedLoginAccounts db gates)) m := by
  unfold mentionsLoginAccount at hmatch
  rw [effectiveStatus_hydrate] at hmatch
  cases hdisplayed : displayedStatus db s with
  | none => simp [hdisplayed] at hmatch
  | some m =>
    obtain ⟨hm, hof, hserver⟩ := displayedStatus_spec hs hdisplayed
    refine ⟨m, hm, hof, ?_⟩
    simp only [hdisplayed, Bool.or_eq_true, Bool.and_eq_true, Option.any_eq_true] at hmatch
    rcases hmatch with ⟨⟨id, hid, hequal⟩, -⟩ | hmentions
    · refine .inl ⟨account, haccount, ?_⟩
      rw [hid, beq_iff_eq.1 hequal]
    · cases hjson : m.mentionsJson with
      | none => simp [parseOptionalArray, hjson] at hmentions
      | some json =>
        refine .inr ⟨json, hjson, fun needles hneedles => ?_⟩
        simp only [hjson, parseOptionalArray] at hmentions
        split_ifs at hmentions
        · cases hparsed : SerdeJson.mentions json with
          | none => simp [hparsed] at hmentions
          | some mentions =>
            simp only [hparsed, Option.elim_some, List.any_eq_true] at hmentions
            obtain ⟨mention, hmention, hnames⟩ := hmentions
            have hplain : WrittenPlainly json mention := by
              by_contra hplain
              refine hspelled ?_
              simp only [Misspelled, hkind]
              exact ⟨m, hdisplayed, json, hjson, mentions, hparsed, mention, hmention,
                ⟨account, haccount, hnames⟩, hplain⟩
            exact mayMention_of_mention haccount hplain (hserver ▸ hdomain) hnames hneedles

/-- A source that has a branch for a row reaches it, unless their spelling differs. -/
theorem reaches_of_branch (hs : s ∈ db.statuses) (hascii : AsciiAccount db s)
    (hbranch : sourceBranches source (hydrate db gates conversationKeys s) ≠ [])
    (hspelled : ¬ Misspelled db (gatedLoginAccounts db gates)
      (gatedConversationKeys gates conversationKeys) source s) :
    Reaches db (gatedLoginAccounts db gates) (gatedConversationKeys gates conversationKeys)
      source s := by
  have haccounts : accountSourceBranches source (hydrate db gates conversationKeys s) ≠ [] →
      ∃ account ∈ selectedLoginAccounts source.arguments (gatedLoginAccounts db gates),
        accountSourceMatches source.kind (hydrate db gates conversationKeys s) account = true :=
    exists_account_of_branches
  have hspelled' := hspelled
  cases hkind : source.kind
  all_goals
    simp only [sourceBranches, hkind] at hbranch
    simp only [Misspelled, hkind] at hspelled'
    simp only [Reaches, hkind]
  case home | «public» | localPublic =>
    obtain ⟨account, haccount, hmatch⟩ := haccounts hbranch
    rw [hkind] at hmatch
    exact reachesTimeline_of_account (by decide) (by decide) hspelled' haccount hmatch
  case bookmarks | favourites =>
    obtain ⟨account, haccount, hmatch⟩ := haccounts hbranch
    rw [hkind] at hmatch
    exact reachesViewerState_of_account hs hspelled' haccount (beq_iff_eq.1 hmatch)
  case mentions =>
    obtain ⟨account, haccount, hmatch⟩ := haccounts hbranch
    rw [hkind] at hmatch
    exact ⟨List.ne_nil_of_mem haccount,
      addressesOneOf_of_mentions hs hascii.1 hkind hspelled haccount hmatch⟩
  case direct =>
    obtain ⟨account, haccount, hmatch⟩ := haccounts hbranch
    refine ⟨List.ne_nil_of_mem haccount, ?_⟩
    rw [hkind, accountSourceMatches, effectiveStatus_hydrate] at hmatch
    cases hdisplayed : displayedStatus db s with
    | none => simp [hdisplayed] at hmatch
    | some m =>
      obtain ⟨hm, hof, -⟩ := displayedStatus_spec hs hdisplayed
      simp only [hdisplayed, Bool.and_eq_true] at hmatch
      refine ⟨m, hm, hof, ?_⟩
      by_contra hne
      exact hspelled' ⟨m, hdisplayed, hmatch.1, hne⟩
  case list =>
    obtain ⟨branch, hmem⟩ := List.exists_mem_of_ne_nil _ hbranch
    obtain ⟨argument, hargument, hmem⟩ := List.mem_flatMap.1 hmem
    refine ⟨argument, hargument, ?_⟩
    obtain ⟨acct, hacct⟩ := exists_of_collapseMembershipScopes (List.ne_nil_of_mem hmem)
    obtain ⟨account, haccount, rfl⟩ := List.mem_map.1 hacct
    obtain ⟨haccount, hmatch⟩ := List.mem_filter.1 haccount
    refine reachesTimeline_of_membership hspelled' haccount hmatch ?_
    intro entry _ _ htype hparameter
    refine timelineType_of_list htype ?_
    rw [Option.all_some, Option.any_eq_true] at hparameter
    obtain ⟨actual, hactual, hequal⟩ := hparameter
    rw [if_neg (by decide)] at hequal
    exact hactual.trans (congrArg some (beq_iff_eq.1 hequal))
  case hashtag =>
    obtain ⟨branch, hmem⟩ := List.exists_mem_of_ne_nil _ hbranch
    obtain ⟨tag, htag, hmem⟩ := List.mem_flatMap.1 hmem
    refine ⟨tag, htag, ?_⟩
    obtain ⟨acct, hacct⟩ := exists_of_collapseMembershipScopes (List.ne_nil_of_mem hmem)
    obtain ⟨membership, hmembership, -⟩ := List.mem_map.1 hacct
    obtain ⟨hmembership, hmatch⟩ := List.mem_filter.1 hmembership
    obtain ⟨entry, hentry, hkey, rfl⟩ := exists_entry hmembership
    simp only [Bool.and_eq_true, Option.any_eq_true] at hmatch
    obtain ⟨⟨htype, parameter, hparameter, hequal⟩, -⟩ := hmatch
    exact ⟨entry, hentry, hkey, parameter, timelineType_of_hashtag htype hparameter, hequal⟩
  case user =>
    obtain ⟨branch, hmem⟩ := List.exists_mem_of_ne_nil _ hbranch
    obtain ⟨selector, hselector, -⟩ := List.mem_map.1 hmem
    obtain ⟨hselector, hmatch⟩ := List.mem_filter.1 hselector
    obtain ⟨a, ha, hmatch⟩ := (Option.any_eq_true _ _).1 hmatch
    obtain ⟨ha, hkey⟩ := Database.account?_eq_some.1 ha
    obtain ⟨hacct, husername⟩ := hascii.2 a ha hkey
    have hnames : IsBare a.acct ∧ a.acct ≠ [] ∧ IsBare a.username := by
      by_contra hnames
      exact hspelled' ⟨a, ha, hkey, hnames⟩
    exact ⟨selector, hselector, a, ha, hkey, selectorNames_of_matches hacct husername hascii.1
      hnames.1 hnames.2.1 hnames.2.2 hmatch⟩
  case conversation =>
    have hkey : ∀ {m : DbStatus}, IsOf s m.key → m.serverDomain = s.serverDomain →
        containsStatusKey (gatedConversationKeys gates conversationKeys) (statusKey m) = true →
        ∃ key ∈ gatedConversationKeys gates conversationKeys,
          IsOf s (key.id, key.serverDomain) := by
      intro m hof hserver hcontains
      obtain ⟨key, hkey, hequal⟩ := List.any_eq_true.1 hcontains
      simp only [Bool.and_eq_true, beq_iff_eq, statusKey] at hequal
      refine ⟨key, hkey, ?_⟩
      have hdomain : key.serverDomain = m.serverDomain := by
        by_contra hne
        rw [hserver] at hne hequal
        exact hspelled' ⟨key, hkey, hequal.2, hne⟩
      rw [hequal.1, hdomain]
      exact hof
    have hmatch : conversationSourceMatches (hydrate db gates conversationKeys s) = true := by
      by_contra hnot
      rw [Bool.not_eq_true] at hnot
      rw [hnot] at hbranch
      exact hbranch rfl
    rcases Bool.or_eq_true_iff.1 hmatch with hwrapper | heffective
    · exact hkey (.inl rfl) rfl hwrapper
    · obtain ⟨view, hview, hcontains⟩ := (Option.any_eq_true _ _).1 heffective
      obtain ⟨m, hdisplayed, rfl⟩ := Option.map_eq_some_iff.1 hview
      obtain ⟨-, hof, hserver⟩ := displayedStatus_spec hs hdisplayed
      exact hkey hof hserver hcontains

end Kinds

/-! ### The plan -/

section Plan

variable [Icu] [SerdeJson] (db : Database) (gates : Gates) (sources : List SourceSpec)
  (conversationKeys : List StatusKey) (limit : ℕ)

/-- The plan selects every row for which a source has a branch. -/
def AllPlanned : Prop :=
  ∀ s ∈ db.statuses, AsciiAccount db s →
    (∃ source ∈ sources, sourceBranches source (hydrate db gates conversationKeys s) ≠ []) →
    s ∈ (planSourceScanWithLimit db (gatedLoginAccounts db gates) sources
      (gatedConversationKeys gates conversationKeys) limit).rows db

end Plan

/-! ### A sample -/

def sampleLogin : LoginAccountIdentity where
  acct := "alice@example.test"
  serverDomain := "example.test"
  accountId := "alice-id"
  displayName := "Alice"
  serverKind := "mastodon"
  isActive := true

def sampleAccount : DbAccount where
  id := "alice-id"
  serverDomain := "example.test"
  username := "alice"
  acct := "alice"
  displayName := "Alice"
  note := []
  locked := false
  bot := false
  followersCount := 0
  followingCount := 0
  statusesCount := 1

/-- A message whose server writes its visibility with a capital letter. -/
def sampleMessage : DbStatus :=
  { DbStatus.plain "dm" "example.test" "alice-id" with visibility := "Direct".toList }

def sampleDatabase : Database where
  statuses := [sampleMessage]
  accounts := [sampleAccount]
  timelineEntries := [⟨"home", "example.test", "dm", "alice@example.test", "2025-01-01T00:00:00Z"⟩]
  viewerStates := []
  loginAccounts := [sampleLogin]
  statuses_nodup := by decide
  accounts_nodup := by decide
  loginAccounts_nodup := by decide
  viewerStates_nodup := by decide
  entry_account := by decide
  entry_status := by decide
  viewerState_account := by decide
  viewerState_status := by decide

end Awayuki.Kq
