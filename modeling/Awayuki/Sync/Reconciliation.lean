import Awayuki.Sync.Startup

/-!
# What a full reconciliation keeps

A server serves a collection in pages, the cursor of a page being in the response before it.  The
scan of a generation is complete when every page was seen, and only then may the rest be cleared.

* `Collection`, `Collection.Serves`: the pages and the requests that they answer;
* `Ready`: at every moment the members have all pages before the cursor;
* `exists_scan`: the scan that nothing interrupts, which stops at an empty page;
* `keeps_served_iff`: everything served is kept, if nothing is served only after an empty page.
-/

namespace Awayuki.Sync

variable {scan : Scan} {page : Page}

/-- Pages with distinct cursors, of which only the last has none. -/
structure Collection where
  pages : List Response
  ends : ∃ init last, pages = init ++ [last] ∧ last.nextCursor = none
  distinct : (pages.map Response.nextCursor).Nodup

section Items

variable (phase : StartupSyncPhase) (domain : Str)

/-- The items of a page, as members. -/
def Response.keys (response : Response) : List EntityKey :=
  response.data.map fun status => (pageStatus phase status).key domain

end Items

/-- The cursor with which the page after these is asked for. -/
def cursorAfter (before : List Response) : Option Str := before.getLast?.bind Response.nextCursor

@[simp] theorem cursorAfter_nil : cursorAfter [] = none := rfl

@[simp] theorem cursorAfter_snoc (before : List Response) (response : Response) :
    cursorAfter (before ++ [response]) = response.nextCursor := by
  simp [cursorAfter]

namespace Collection

variable {c : Collection} {before after before' after' : List Response}
  {response response' : Response} {cursor : Option Str}

/-- Does the response answer a request with the cursor? -/
def Serves (c : Collection) (cursor : Option Str) (response : Response) : Prop :=
  ∃ before after, c.pages = before ++ response :: after ∧ cursorAfter before = cursor

/-- Only the last page has no cursor. -/
theorem nextCursor_eq_none (h : c.pages = before ++ response :: after) :
    response.nextCursor = none ↔ after = [] := by
  obtain ⟨init, last, hpages, hlast⟩ := c.ends
  constructor
  · intro hnone
    rcases List.eq_nil_or_concat after with rfl | ⟨after, last', rfl⟩
    · rfl
    · have heq : init ++ [last] = (before ++ response :: after) ++ [last'] := by
        rw [← hpages, h, List.append_assoc, List.cons_append, List.concat_eq_append]
      obtain ⟨-, hsame⟩ := List.append_inj' heq rfl
      cases hsame
      have hdistinct := c.distinct
      rw [h, List.map_append, List.map_cons, List.concat_eq_append, List.map_append] at hdistinct
      have hcons := List.nodup_cons.1 (List.nodup_append.1 hdistinct).2.1
      exact absurd (by simp [hnone, hlast]) hcons.1
  · rintro rfl
    obtain ⟨-, hsame⟩ := List.append_inj' (hpages.symm.trans h) rfl
    cases hsame
    exact hlast

theorem nextCursor_ne {p : Response} (h : c.pages = before ++ response :: after)
    (hp : p ∈ before) : p.nextCursor ≠ response.nextCursor := by
  have hdistinct := c.distinct
  rw [h, List.map_append, List.nodup_append] at hdistinct
  exact hdistinct.2.2 _ (List.mem_map_of_mem hp) _ (List.mem_map_of_mem List.mem_cons_self)

/-- A cursor tells what has been served before it. -/
theorem before_eq (h : c.pages = before ++ response :: after)
    (h' : c.pages = before' ++ response' :: after') (hcursor : cursorAfter before =
      cursorAfter before') : before = before' := by
  have hsplit : before ++ response :: after = before' ++ response' :: after' := h.symm.trans h'
  -- the longer one has the last page of the shorter one, or a last page without a cursor
  have hgo {b b' a' : List Response} {r' : Response} (hpages : c.pages = b' ++ r' :: a')
      (hsame : cursorAfter b = cursorAfter b') (extra : Response) (more : List Response)
      (hb' : b' = b ++ extra :: more) : False := by
    subst hb'
    obtain ⟨init, last, hlast⟩ : ∃ init last, extra :: more = init ++ [last] :=
      ⟨_, _, (List.dropLast_append_getLast (List.cons_ne_nil extra more)).symm⟩
    rw [hlast, ← List.append_assoc] at hpages hsame
    rw [cursorAfter_snoc] at hsame
    have hpages' : c.pages = (b ++ init) ++ last :: (r' :: a') := by simpa using hpages
    rcases List.eq_nil_or_concat b with rfl | ⟨b, final, rfl⟩
    · have hnil := (nextCursor_eq_none hpages').1 hsame.symm
      cases hnil
    · rw [List.concat_eq_append, cursorAfter_snoc] at hsame
      exact nextCursor_ne hpages' (by simp) hsame
  rcases List.append_eq_append_iff.1 hsplit with ⟨mid, hmid, -⟩ | ⟨mid, hmid, -⟩
  · cases mid with
    | nil => rw [hmid, List.append_nil]
    | cons extra more => exact (hgo h' hcursor extra more hmid).elim
  · cases mid with
    | nil => rw [hmid, List.append_nil]
    | cons extra more => exact (hgo h hcursor.symm extra more hmid).elim

end Collection

section Ready

variable (phase : StartupSyncPhase) (domain : Str) (c : Collection)

/-- Everything that is served. -/
def Collection.keys : List EntityKey := c.pages.flatMap (Response.keys phase domain)

/-- The pages before the first empty one. -/
def Collection.beforeEmpty : List Response := c.pages.takeWhile fun page => !page.data.isEmpty

/-- Is the collection what a full scan is served?  A head check may be answered in any way. -/
def Honest : Label → Prop
  | .respond request response => request.generation.isSome → c.Serves request.cursor response
  | _ => True

/-- Are the items of the pages members of the generation? -/
def Tables.Has (db : Tables) (generation : Str) (pages : List Response) : Prop :=
  ∀ page ∈ pages, ∀ key ∈ page.keys phase domain, (generation, key) ∈ db.members

def Stage.page? : Stage → Option (Scan × Page)
  | .saving scan page _ | .checkpointing scan page => some (scan, page)
  | _ => none

/-- The page is what the request of a full scan got. -/
def Fetched (scan : Scan) (page : Page) : Prop :=
  scan.page < 2 ^ 32 ∧ ∃ response, c.Serves scan.cursor response ∧
    page.members domain = response.keys phase domain ∧ page.nextCursor = response.nextCursor ∧
    page.statuses.isEmpty = response.data.isEmpty

/-- What the resumable scan relies on. -/
structure Ready (s : State) : Prop where
  inStep : s.InStep
  scanned : ∀ generation, s.db.generation = some generation → ∃ before response after,
    c.pages = before ++ response :: after ∧ cursorAfter before = s.db.resumeCursor ∧
      s.db.Has phase domain generation before
  fetched : ∀ scan page, s.stage.page? = some (scan, page) → scan.generation.isSome →
    Fetched phase domain c scan page
  complete : s.stage = .completing → ∀ generation, s.db.generation = some generation →
    s.db.Has phase domain generation c.pages

end Ready

@[simp] theorem page?_saveStage (scan : Scan) (page : Page) (unsaved : List Status) :
    (saveStage scan page unsaved).page? = some (scan, page) := by
  cases unsaved <;> rfl

theorem saveStage_ne_completing (scan : Scan) (page : Page) (unsaved : List Status) :
    saveStage scan page unsaved ≠ .completing := by
  cases unsaved <;> exact nofun

theorem afterCheckpoint_page? (scan : Scan) (page : Page) :
    (scan.afterCheckpoint page).page? = none := by
  unfold Scan.afterCheckpoint
  split_ifs
  · rfl
  · cases page.nextCursor with
    | none => rfl
    | some next =>
      show (ite _ _ _ : Stage).page? = none
      split_ifs <;> rfl

/-- A scan of a generation is over at an empty page or at the last. -/
theorem afterCheckpoint_eq_completing (hgeneration : scan.generation.isSome)
    (hmax : scan.page < scan.maxPages) (h : scan.afterCheckpoint page = .completing) :
    page.statuses.isEmpty ∨ page.nextCursor = none := by
  unfold Scan.afterCheckpoint at h
  split_ifs at h with hend
  · cases hempty : page.statuses.isEmpty with
    | true => exact .inl rfl
    | false =>
      rw [hempty, Bool.or_false, Bool.or_eq_true, decide_eq_true_eq] at hend
      rcases hend with hnone | hle
      · rw [Option.isNone_iff_eq_none] at hnone
        rw [hnone] at hgeneration
        cases hgeneration
      · omega
  · cases hcursor : page.nextCursor with
    | none => exact .inr rfl
    | some next =>
      rw [hcursor] at h
      replace h : (ite _ _ _ : Stage) = .completing := h
      split_ifs at h

theorem afterCheckpoint_of_isEmpty (h : page.statuses.isEmpty) :
    scan.afterCheckpoint page = .completing := by
  unfold Scan.afterCheckpoint
  rw [h, Bool.or_true, if_pos rfl]

theorem afterCheckpoint_of_none (h : page.nextCursor = none) :
    scan.afterCheckpoint page = .completing := by
  unfold Scan.afterCheckpoint
  rw [h]
  exact ite_self _

/-- A scan of a generation goes on at a cursor it has not seen. -/
theorem afterCheckpoint_of_some {next : Str} (hgeneration : scan.generation.isSome)
    (hmax : scan.page < scan.maxPages) (hstatuses : page.statuses.isEmpty = false)
    (hnext : page.nextCursor = some next) (hseen : next ∉ scan.seenCursors) :
    scan.afterCheckpoint page = .requesting { scan with
      cursor := some next
      seenCursors := insert next scan.seenCursors } := by
  have hnone : scan.generation.isNone = false := by
    rw [← Option.not_isSome, hgeneration]
    rfl
  unfold Scan.afterCheckpoint
  rw [hnone, hstatuses, decide_eq_false hmax.not_ge, Bool.false_or, Bool.false_or,
    if_neg Bool.false_ne_true, hnext]
  exact if_neg hseen

section Steps

variable {policy : StartupSyncPolicy} {phase : StartupSyncPhase} {domain : Str} {c : Collection}
  {s t : State} {label : Label}

theorem Scan.members_receive {response : Response} :
    (scan.receive phase response).members domain = response.keys phase domain := by
  simp [Page.members, Scan.receive, Response.keys, Function.comp_def]

/-- The pages before an empty page have the pages before the first one. -/
theorem Collection.beforeEmpty_subset {before after : List Response} {response : Response}
    (h : c.pages = before ++ response :: after) (hempty : response.data.isEmpty) :
    ∀ page ∈ c.beforeEmpty, page ∈ before := by
  intro page hpage
  unfold Collection.beforeEmpty at hpage
  rw [h] at hpage
  by_cases hall : ∀ p ∈ before, (!p.data.isEmpty) = true
  · rw [List.takeWhile_append_of_pos hall, List.takeWhile_cons_of_neg (by simp [hempty]),
      List.append_nil] at hpage
    exact hpage
  · push Not at hall
    obtain ⟨p, hp, hstop⟩ := hall
    rw [List.takeWhile_append, if_neg] at hpage
    · exact List.takeWhile_subset _ hpage
    · intro hlength
      have hsame := (List.takeWhile_prefix _).eq_of_length hlength
      rw [← hsame] at hp
      exact hstop (List.mem_takeWhile_imp (p := fun page : Response => !page.data.isEmpty) hp)

/-- The checkpoint of a page advances the pages that are members by that page. -/
theorem ready_checkpoint (hkeys : ∀ key ∈ c.keys phase domain,
      ∃ page ∈ c.beforeEmpty, key ∈ page.keys phase domain) {db db' : Tables}
    (hs : Ready phase domain c ⟨db, .checkpointing scan page⟩)
    (hinStep : State.InStep ⟨db', scan.afterCheckpoint page⟩)
    (hcommit : db.commitPageCheckpoint page.highWaterId page.nextCursor scan.generation
      (page.members domain) = some db') :
    Ready phase domain c ⟨db', scan.afterCheckpoint page⟩ := by
  obtain ⟨hgeneration, hresume, -, hmembers⟩ := Tables.commitPageCheckpoint_some hcommit
  have hfollows := hs.inStep scan rfl
  -- where the scan was, and what it has got there
  have hadvance (generation : Str) (hg : db.generation = some generation) :
      ∃ before response after, c.pages = before ++ response :: after ∧
        page.nextCursor = response.nextCursor ∧ response.data.isEmpty = page.statuses.isEmpty ∧
        scan.page < 2 ^ 32 ∧ db'.Has phase domain generation (before ++ [response]) := by
    have hsome : scan.generation = some generation := hfollows.generation.trans hg
    have hfull : scan.generation.isSome := by rw [hsome]; rfl
    obtain ⟨hpage, response, ⟨before, after, hpages, hcursor⟩, hkeys, hnext, hempty⟩ :=
      hs.fetched scan page rfl hfull
    obtain ⟨before', response', after', hpages', hcursor', hhas⟩ := hs.scanned generation hg
    obtain rfl : before = before' := Collection.before_eq hpages hpages'
      (hcursor.trans ((hfollows.full hfull).1.trans hcursor'.symm))
    refine ⟨before, response, after, hpages, hnext, hempty.symm, hpage, fun p hp key hkey => ?_⟩
    rw [hmembers]
    rcases List.mem_append.1 hp with hp | hp
    · exact .inl (hhas p hp key hkey)
    · obtain rfl := List.mem_singleton.1 hp
      exact .inr ⟨hsome, hkeys ▸ hkey⟩
  refine ⟨hinStep, fun generation hg => ?_, fun next page' h => ?_,
    fun hcomplete generation hg => ?_⟩
  · obtain ⟨before, response, after, hpages, hnext, -, -, hhas⟩ :=
      hadvance generation (hgeneration.symm.trans hg)
    cases after with
    | nil =>
      -- after the last page the scan would begin anew
      obtain ⟨first, rest, hfirst⟩ : ∃ first rest, c.pages = first :: rest :=
        List.exists_cons_of_ne_nil (by rw [hpages]; simp)
      refine ⟨[], first, rest, hfirst, ?_, fun p hp => absurd hp List.not_mem_nil⟩
      rw [cursorAfter_nil, hresume, hnext, (Collection.nextCursor_eq_none hpages).2 rfl]
    | cons following after =>
      refine ⟨before ++ [response], following, after, by simpa using hpages, ?_, hhas⟩
      rw [cursorAfter_snoc, hresume, hnext]
  · rw [afterCheckpoint_page?] at h
    cases h
  · obtain ⟨before, response, after, hpages, hnext, hempty, hpage, hhas⟩ :=
      hadvance generation (hgeneration.symm.trans hg)
    have hfull : scan.generation.isSome := by
      rw [hfollows.generation, hgeneration.symm.trans hg]
      rfl
    have hmax : scan.page < scan.maxPages := by
      rw [(hfollows.full hfull).2.2]
      unfold usizeMax
      omega
    rcases afterCheckpoint_eq_completing hfull hmax hcomplete with hend | hend
    · intro p hp key hkey
      obtain ⟨p', hp', hkey'⟩ := hkeys key (List.mem_flatMap.2 ⟨p, hp, hkey⟩)
      have hbefore := Collection.beforeEmpty_subset hpages (hempty.trans hend) p' hp'
      exact hhas p' (List.mem_append_left _ hbefore) key hkey'
    · obtain rfl := (Collection.nextCursor_eq_none hpages).1 (hnext.symm.trans hend)
      rw [hpages]
      exact hhas

/-- The other steps leave what is scanned as it is. -/
theorem ready_step (hkeys : ∀ key ∈ c.keys phase domain,
      ∃ page ∈ c.beforeEmpty, key ∈ page.keys phase domain)
    (h : Step policy phase domain s label t) (hhonest : Honest c label)
    (hs : Ready phase domain c s) : Ready phase domain c t := by
  have hinStep := inStep_step h hs.inStep
  cases h with
  | @prepare db now nextGeneration plan hplan =>
    have hpage : plan.scan.page? = none := by cases plan <;> rfl
    have hstage : plan.scan ≠ .completing := by cases plan <;> exact nofun
    refine ⟨hinStep, fun generation hg => ?_, fun scan page h => ?_,
      fun hcomplete => absurd hcomplete hstage⟩
    · cases hstarts : db.starts plan with
      | true =>
        obtain ⟨-, rfl, -⟩ | ⟨hnot, -⟩ | ⟨hnot, -⟩ := Tables.plan_cases hplan
        · obtain ⟨init, last, hpages, -⟩ := c.ends
          obtain ⟨first, rest, hfirst⟩ : ∃ first rest, c.pages = first :: rest :=
            List.exists_cons_of_ne_nil (by rw [hpages]; simp)
          refine ⟨[], first, rest, hfirst, ?_, fun p hp => absurd hp List.not_mem_nil⟩
          rw [Tables.preparePhaseAt_of_starts hstarts]
          rfl
        all_goals
          rw [hstarts] at hnot
          cases hnot
      | false =>
        rw [Tables.preparePhaseAt_of_not_starts hstarts] at hg ⊢
        obtain ⟨before, response, after, hpages, hcursor, hhas⟩ :=
          hs.scanned generation (by simpa using hg)
        exact ⟨before, response, after, hpages, by simpa using hcursor, hhas⟩
    · rw [hpage] at h
      cases h
  | @respond db scan response page hphase hpage =>
    refine ⟨hinStep, hs.scanned, fun scan' page' h hfull => ?_,
      fun hcomplete => absurd hcomplete (saveStage_ne_completing _ _ _)⟩
    rw [page?_saveStage] at h
    cases h
    subst hpage
    refine ⟨Nat.mod_lt _ (by decide), response, hhonest hfull, ?_, rfl, ?_⟩
    · exact Scan.members_receive
    · simp [Scan.receive]
  | @save db scan page batch unsaved hpos hmax =>
    refine ⟨hinStep, hs.scanned, fun scan' page' h hfull => ?_,
      fun hcomplete => absurd hcomplete (saveStage_ne_completing _ _ _)⟩
    rw [page?_saveStage] at h
    cases h
    exact hs.fetched scan page rfl hfull
  | @retry db scan page unsaved =>
    exact ⟨hinStep, hs.scanned, hs.fetched, nofun⟩
  | @checkpoint db db' scan page hcommit => exact ready_checkpoint hkeys hs hinStep hcommit
  | @complete db db' now hcommit =>
    have hnone := Tables.generation_completePhaseAt hcommit
    refine ⟨hinStep, fun generation hg => ?_, nofun, nofun⟩
    rw [show db'.generation = none from hnone] at hg
    cases hg
  | fail => exact ⟨hinStep, hs.scanned, nofun, nofun⟩
  | write => exact ⟨hinStep, hs.scanned, hs.fetched, hs.complete⟩

/-- Nothing is scanned yet. -/
structure State.Fresh (s : State) : Prop where
  idle : s.stage = .idle
  generation : s.db.generation = none

theorem Ready.of_fresh (h : s.Fresh) : Ready phase domain c s := by
  refine ⟨fun scan hscan => ?_, fun generation hg => ?_, fun scan page hpage => ?_,
    fun hcomplete => ?_⟩
  · rw [h.idle] at hscan
    cases hscan
  · rw [h.generation] at hg
    cases hg
  · rw [h.idle] at hpage
    cases hpage
  · rw [h.idle] at hcomplete
    cases hcomplete

/-! ### The scan that nothing interrupts -/

/-- The transactions of a page, a status each. -/
theorem exists_saves (policy : StartupSyncPolicy) (phase : StartupSyncPhase) (domain : Str)
    (c : Collection) (db : Tables) (scan : Scan) (page : Page) (unsaved : List Status) :
    ∃ labels db',
    Runs.Run (Step policy phase domain) ⟨db, saveStage scan page unsaved⟩ labels
      ⟨db', .checkpointing scan page⟩ ∧ (∀ label ∈ labels, Honest c label) ∧
        db'.state = db.state ∧ db'.members = db.members := by
  induction unsaved generalizing db with
  | nil => exact ⟨[], db, .nil _, by simp, rfl, rfl⟩
  | cons status unsaved ih =>
    obtain ⟨labels, db', hrun, hhonest, hstate, hmembers⟩ :=
      ih (db.saveBatch phase domain [status])
    have hsave : Step policy phase domain ⟨db, .saving scan page ([status] ++ unsaved)⟩
        (.save [status]) ⟨db.saveBatch phase domain [status], saveStage scan page unsaved⟩ :=
      .save (by simp) (show 1 ≤ 64 by omega)
    refine ⟨.save [status] :: labels, db', Runs.run_cons.2 ⟨_, hsave, hrun⟩, ?_, hstate, hmembers⟩
    rw [List.forall_mem_cons]
    exact ⟨trivial, hhonest⟩

/-- A page, from its request to its checkpoint. -/
theorem exists_page (policy : StartupSyncPolicy) (domain : Str) {db : Tables} {response : Response}
    (hphase : phase.supportsFullReconciliation) (hserves : c.Serves scan.cursor response)
    (hstate : db.state.isSome) : ∃ labels db',
    Runs.Run (Step policy phase domain) ⟨db, .requesting scan⟩ labels
      ⟨db', scan.next.afterCheckpoint (scan.next.receive phase response)⟩ ∧
      (∀ label ∈ labels, Honest c label) ∧ db'.state.isSome ∧ db'.generation = db.generation ∧
      ∀ generation key, (generation, key) ∈ db'.members ↔ (generation, key) ∈ db.members ∨
        scan.generation = some generation ∧ key ∈ response.keys phase domain := by
  obtain ⟨labels, db₁, hrun, hhonest, hstate₁, hmembers₁⟩ :=
    exists_saves policy phase domain c db scan.next (scan.next.receive phase response)
      (scan.next.receive phase response).statuses
  obtain ⟨state, hsome⟩ := Option.isSome_iff_exists.1 (hstate₁ ▸ hstate)
  obtain ⟨db₂, hcommit⟩ : ∃ db₂, db₁.commitPageCheckpoint
      (scan.next.receive phase response).highWaterId (scan.next.receive phase response).nextCursor
      scan.next.generation ((scan.next.receive phase response).members domain) = some db₂ := by
    unfold Tables.commitPageCheckpoint
    rw [hsome]
    exact ⟨_, rfl⟩
  obtain ⟨hgeneration, -, -, hmembers⟩ := Tables.commitPageCheckpoint_some hcommit
  refine ⟨.respond scan response :: labels ++ [.checkpoint (scan.next.receive phase response)], db₂,
    .snoc (Runs.run_cons.2 ⟨_, .respond hphase rfl, hrun⟩) (.checkpoint hcommit), ?_, ?_, ?_, ?_⟩
  · intro label hlabel
    rw [List.mem_append, List.mem_cons, List.mem_singleton] at hlabel
    rcases hlabel with (rfl | hlabel) | rfl
    · exact fun _ => hserves
    · exact hhonest label hlabel
    · trivial
  · unfold Tables.commitPageCheckpoint at hcommit
    obtain ⟨state, -, rfl⟩ := Option.map_eq_some_iff.1 hcommit
    rfl
  · rw [hgeneration, Tables.generation, Tables.generation, hstate₁]
  · intro generation key
    rw [hmembers, hmembers₁]
    rw [Scan.members_receive]
    rfl

/-- The scan completes at the first empty page, or after the last. -/
theorem exists_scan (policy : StartupSyncPolicy) (domain : Str) (db : Tables) (scan : Scan)
    {generation : Str} (before : List Response) {after : List Response}
    (hphase : phase.supportsFullReconciliation) (hpages : c.pages = before ++ after)
    (hne : after ≠ []) (hcursor : cursorAfter before = scan.cursor)
    (hfull : scan.generation = some generation) (hmax : scan.maxPages = usizeMax)
    (hseen : ∀ cursor ∈ scan.seenCursors, ∃ p ∈ before, p.nextCursor = some cursor)
    (hgeneration : db.generation = some generation) (hstate : db.state.isSome) :
    ∃ labels db', Runs.Run (Step policy phase domain) ⟨db, .requesting scan⟩ labels
      ⟨db', .completing⟩ ∧ (∀ label ∈ labels, Honest c label) ∧ db'.state.isSome ∧
      db'.generation = some generation ∧ ∀ key, (generation, key) ∈ db'.members →
        (generation, key) ∈ db.members ∨
          ∃ p ∈ after.takeWhile fun page => !page.data.isEmpty, key ∈ p.keys phase domain := by
  induction after generalizing before db scan with
  | nil => exact absurd rfl hne
  | cons response after ih =>
    obtain ⟨labels, db', hrun, hhonest, hstate', hgeneration', hmembers⟩ :=
      exists_page policy domain hphase ⟨before, after, hpages, hcursor⟩ hstate
    have hempty : (scan.next.receive phase response).statuses.isEmpty = response.data.isEmpty := by
      simp [Scan.receive]
    cases hdata : response.data.isEmpty with
    | true =>
      rw [afterCheckpoint_of_isEmpty (hempty.trans hdata)] at hrun
      refine ⟨labels, db', hrun, hhonest, hstate', hgeneration'.trans hgeneration,
        fun key hkey => ?_⟩
      rcases (hmembers generation key).1 hkey with hkey | ⟨-, hkey⟩
      · exact .inl hkey
      · rw [Response.keys, List.isEmpty_iff.1 hdata] at hkey
        cases hkey
    | false =>
      rw [List.takeWhile_cons_of_pos (by simp [hdata])]
      cases hnext : response.nextCursor with
      | none =>
        rw [afterCheckpoint_of_none (show (scan.next.receive phase response).nextCursor = none from
          hnext)] at hrun
        refine ⟨labels, db', hrun, hhonest, hstate', hgeneration'.trans hgeneration,
          fun key hkey => ?_⟩
        rcases (hmembers generation key).1 hkey with hkey | ⟨-, hkey⟩
        · exact .inl hkey
        · exact .inr ⟨response, List.mem_cons_self, hkey⟩
      | some next =>
        have hpage : scan.next.page < scan.next.maxPages := by
          have := Nat.mod_lt (scan.page + 1) (show 2 ^ 32 > 0 by decide)
          show (scan.page + 1) % 2 ^ 32 < scan.maxPages
          rw [hmax]
          unfold usizeMax
          omega
        rw [afterCheckpoint_of_some (by simp [Scan.next, hfull]) hpage (hempty.trans hdata) hnext
          fun hmem => by
            obtain ⟨p, hp, hsame⟩ := hseen next hmem
            exact Collection.nextCursor_ne hpages hp (hsame.trans hnext.symm)] at hrun
        have hmore : after ≠ [] := fun hnil => by
          rw [(Collection.nextCursor_eq_none hpages).2 hnil] at hnext
          cases hnext
        obtain ⟨labels', db'', hrun', hhonest', hstate'', hgeneration'', hmembers'⟩ :=
          ih db' { scan.next with
              cursor := some next
              seenCursors := insert next scan.seenCursors } (before ++ [response])
            (by simpa using hpages) hmore (by rw [cursorAfter_snoc, hnext]) hfull hmax
            (fun cursor hcursor => by
              rcases Finset.mem_insert.1 hcursor with rfl | hcursor
              · exact ⟨response, by simp, hnext⟩
              · obtain ⟨p, hp, hsame⟩ := hseen cursor hcursor
                exact ⟨p, List.mem_append_left _ hp, hsame⟩)
            (hgeneration'.trans hgeneration) hstate'
        refine ⟨labels ++ labels', db'', hrun.append hrun', ?_, hstate'', hgeneration'',
          fun key hkey => ?_⟩
        · intro label hlabel
          rcases List.mem_append.1 hlabel with hlabel | hlabel
          · exact hhonest label hlabel
          · exact hhonest' label hlabel
        · rcases hmembers' key hkey with hkey | ⟨p, hp, hkey⟩
          · rcases (hmembers generation key).1 hkey with hkey | ⟨-, hkey⟩
            · exact .inl hkey
            · exact .inr ⟨response, List.mem_cons_self, hkey⟩
          · exact .inr ⟨p, List.mem_cons_of_mem _ hp, hkey⟩

end Steps

/-! ### What is kept -/

section Kept

variable (policy : StartupSyncPolicy) (phase : StartupSyncPhase) (domain : Str) (c : Collection)

/-- Whenever a generation is completed, what the server has served are its members, and their
entries and flags stay. -/
def KeepsServed : Prop :=
  ∀ s t u labels now generation, s.Fresh → Runs.Run (Step policy phase domain) s labels t →
    (∀ label ∈ labels, Honest c label) → Step policy phase domain t (.complete now) u →
    t.db.generation = some generation → ∀ key ∈ c.keys phase domain,
      (generation, key) ∈ t.db.members ∧ (key ∈ t.db.entries → key ∈ u.db.entries) ∧
        u.db.flag key = t.db.flag key

variable {policy phase domain c}

theorem ready_of_run {s t : State} {labels : List Label} (hkeys : ∀ key ∈ c.keys phase domain,
      ∃ page ∈ c.beforeEmpty, key ∈ page.keys phase domain)
    (hfresh : s.Fresh) (hrun : Runs.Run (Step policy phase domain) s labels t)
    (hhonest : ∀ label ∈ labels, Honest c label) : Ready phase domain c t := by
  induction hrun with
  | nil => exact .of_fresh hfresh
  | snoc run last ih =>
    rw [List.forall_mem_append] at hhonest
    exact ready_step hkeys last (hhonest.2 _ (List.mem_singleton.2 rfl)) (ih hhonest.1)

theorem keepsServed_of_beforeEmpty (hphase : phase.supportsFullReconciliation)
    (hkeys : ∀ key ∈ c.keys phase domain, ∃ page ∈ c.beforeEmpty, key ∈ page.keys phase domain) :
    KeepsServed policy phase domain c := by
  intro s t u labels now generation hfresh hrun hhonest hstep hgeneration key hkey
  have hready := ready_of_run hkeys hfresh hrun hhonest
  cases hstep with
  | @complete db db' now hcommit =>
    obtain ⟨page, hpage, hkey⟩ := List.mem_flatMap.1 hkey
    have hmember := hready.complete rfl generation hgeneration page hpage key hkey
    have hseen : db.seen generation key := by simpa [Tables.seen] using hmember
    obtain ⟨hentries, hflag⟩ := Tables.completePhaseAt_some key hphase hgeneration hcommit
    refine ⟨hmember, fun hentry => hentries.2 ⟨hentry, hseen⟩, ?_⟩
    exact hflag.trans (if_neg fun h => h.2 hseen)

/-- A first start, which nothing interrupts. -/
theorem beforeEmpty_of_keepsServed (hphase : phase.supportsFullReconciliation)
    (hkept : KeepsServed policy phase domain c) :
    ∀ key ∈ c.keys phase domain, ∃ page ∈ c.beforeEmpty, key ∈ page.keys phase domain := by
  intro key hkey
  let db : Tables := ⟨none, ∅, ∅, fun _ => none⟩
  have hplan : policy.plan phase db.state 0 [] = .fullReconcile [] none := by
    simp [db, StartupSyncPolicy.plan, hphase]
  have hstarts : db.starts (.fullReconcile [] none) = true := rfl
  have hprepare : Step policy phase domain ⟨db, .idle⟩ _ _ := .prepare hplan
  rw [Tables.preparePhaseAt_of_starts hstarts] at hprepare
  obtain ⟨init, last, hpages, -⟩ := c.ends
  obtain ⟨labels, db', hrun, hhonest, hstate, hgeneration, hmembers⟩ :=
    exists_scan policy domain
      { db with
        state := some { db.row with
          reconciliationGeneration := some []
          resumeCursor := none }
        members := ∅ }
      ⟨some [], none, none, usizeMax, ∅, 0⟩ [] hphase (List.nil_append c.pages).symm
      (by rw [hpages]; simp) rfl rfl rfl (by simp) rfl rfl
  obtain ⟨state, hsome⟩ := Option.isSome_iff_exists.1 hstate
  obtain ⟨db'', hcommit⟩ : ∃ db'', db'.completePhaseAt phase 0 = some db'' := by
    unfold Tables.completePhaseAt
    rw [hsome]
    exact ⟨_, rfl⟩
  obtain ⟨hmember, -, -⟩ := hkept ⟨db, .idle⟩ _ _ _ 0 [] ⟨rfl, rfl⟩
    (Runs.run_cons.2 ⟨_, hprepare, hrun⟩)
    (List.forall_mem_cons.2 ⟨trivial, hhonest⟩) (.complete hcommit) hgeneration key hkey
  rcases hmembers key hmember with hnone | hscanned
  · exact absurd hnone (Finset.notMem_empty _)
  · exact hscanned

/-- A reconciliation keeps what is served exactly when nothing is served only after an empty
page. -/
theorem reconciliation_keeps_served (policy : StartupSyncPolicy) (domain : Str) (c : Collection)
    (hphase : phase.supportsFullReconciliation) :
    KeepsServed policy phase domain c ↔
      ∀ key ∈ c.keys phase domain, ∃ page ∈ c.beforeEmpty, key ∈ page.keys phase domain :=
  ⟨beforeEmpty_of_keepsServed hphase, keepsServed_of_beforeEmpty hphase⟩

/-- Three pages, the second of them empty. -/
def sampleCollection : Collection where
  pages := [⟨[⟨"1", none, none, none, none⟩], some "a"⟩, ⟨[], some "b"⟩,
    ⟨[⟨"2", none, none, none, none⟩], none⟩]
  ends := ⟨[⟨[⟨"1", none, none, none, none⟩], some "a"⟩, ⟨[], some "b"⟩],
    ⟨[⟨"2", none, none, none, none⟩], none⟩, rfl, rfl⟩
  distinct := by decide

/-- The bookmark behind the empty page is cleared. -/
theorem not_reconciliation_keeps_served : ¬ ∀ policy domain c,
    KeepsServed policy .bookmarks domain c := by
  intro h
  have hkeys := beforeEmpty_of_keepsServed rfl (h ⟨0, 0⟩ "s" sampleCollection)
  revert hkeys
  decide

/-- Two pages and an empty last one. -/
def samplePages : Collection where
  pages := [⟨[⟨"1", none, none, none, none⟩], some "a"⟩,
    ⟨[⟨"2", none, none, none, none⟩], some "b"⟩, ⟨[], none⟩]
  ends := ⟨[⟨[⟨"1", none, none, none, none⟩], some "a"⟩,
    ⟨[⟨"2", none, none, none, none⟩], some "b"⟩], ⟨[], none⟩, rfl, rfl⟩
  distinct := by decide

theorem reconciliation_keeps_served_samplePages :
    KeepsServed ⟨0, 0⟩ .favourites "s" samplePages :=
  (reconciliation_keeps_served ⟨0, 0⟩ "s" samplePages rfl).2 (by decide)

end Kept

end Awayuki.Sync
