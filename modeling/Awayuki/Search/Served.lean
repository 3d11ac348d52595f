import Awayuki.Search.Convergence
import Awayuki.Search.Exactness

/-!
# Search: what the indexer leaves to it

The triggers of the tables, the workers of the indexer and the search together, from a database as
the migrations leave it.

* `CaughtUp`: the backfills have completed, while rows may be queued;
* `search_of_run`: a search then returns what its terms come upon.
-/

namespace Awayuki.Search

open SearchDb

variable {G : Type} [DecidableEq G] {icu : Segmenter} {randomblob : ℕ → G} {start s : System G}
  {events : List Event}

/-- The backfills have completed, and a search can go through the rows that are queued. -/
structure CaughtUp (db : Db G) : Prop where
  statuses : db.statuses.backfill.completed = true
  accounts : db.accounts.backfill.completed = true
  queuedStatuses :
    (db.statuses.queue.entries.filter fun e => e.2.action = .upsert).length ≤ pendingStatusScanLimit
  queuedAccounts : (db.accounts.queue.entries.filter fun e => e.2.action = .upsert).length ≤
    pendingAccountScanLimit

/-- After any changes of rows and any steps of workers that leave the indexes caught up, a search
within its limits returns the posts that its terms come upon. -/
theorem search_of_run (hfresh : Function.Injective randomblob)
    (hstart : start.Start (indexText icu) randomblob)
    (hrun : Run (indexText icu) randomblob start events s) {db : SearchDb G} (hdb : db.index = s.db)
    (hcaughtUp : CaughtUp s.db) {query : Str} (hfew : db.FewCandidatesPerTerm icu query)
    (hbudget : WithinBudget query) (hne : query.splitWhitespace ≠ [])
    (filter : StatusDisplayFilter) (startAfter : Option EntityKey) :
    ∃ rows : List DbStatus, rows.Pairwise (fun a b => orderKey b < orderKey a) ∧
      (∀ row, row ∈ rows ↔ db.Shown filter startAfter row ∧ db.Found icu query row) ∧
      ∀ limit offset, db.queryStatuses icu ⟨query, limit, offset, filter, startAfter⟩ =
        .ok (page (db.resolveCursor startAfter) limit offset rows) := by
  have hsound := (run_sound hfresh hstart.sound hrun).db
  rw [← hdb] at hsound hcaughtUp
  have hsettled : db.Settled icu :=
    { statuses := ⟨hsound.statuses, hcaughtUp.statuses, hcaughtUp.queuedStatuses⟩
      accounts := ⟨hsound.accounts, hcaughtUp.accounts, hcaughtUp.queuedAccounts⟩ }
  exact queryStatuses_eq hsettled hfew hbudget hne

/-- A post and its author have been written, and neither is indexed. -/
def queuedEvents : List Event :=
  [.write (.insertAccount (toLex sampleAuthor.key) (accountFields sampleAuthor) "1"),
    .write (.insertStatus (toLex samplePost.key) (statusFields samplePost) "1")]

def queuedSystem : System ℕ :=
  queuedEvents.foldl (step (indexText asciiSegmenter) id) emptyStart

def queuedDb : SearchDb ℕ where
  statuses := [samplePost]
  accounts := [sampleAuthor]
  index := queuedSystem.db
  statuses_nodup := sampleDb.statuses_nodup
  accounts_nodup := sampleDb.accounts_nodup
  status_account := sampleDb.status_account
  status_rows := @lookup_eq_get _ _ DbStatus.key statusFields [samplePost] (by decide)
  account_rows := @lookup_eq_get _ _ DbAccount.key accountFields [sampleAuthor] (by decide)

theorem search_of_run_queuedDb :
    ∃ rows : List DbStatus, rows.Pairwise (fun a b => orderKey b < orderKey a) ∧
      (∀ row, row ∈ rows ↔ queuedDb.Shown ⟨false, false, false⟩ none row ∧
        queuedDb.Found asciiSegmenter "ha-ha" row) ∧
      ∀ limit offset, queuedDb.queryStatuses asciiSegmenter
        ⟨"ha-ha", limit, offset, ⟨false, false, false⟩, none⟩ =
          .ok (page (queuedDb.resolveCursor none) limit offset rows) :=
  have hstart : emptyStart.Start (indexText asciiSegmenter) id :=
    ⟨.installed .empty .empty, fun _ => rfl⟩
  have hrun : Run (indexText asciiSegmenter) id emptyStart queuedEvents queuedSystem :=
    Runs.run_cons.2 ⟨_, rfl, Runs.run_cons.2 ⟨_, rfl, .nil _⟩⟩
  have hcaughtUp : CaughtUp queuedSystem.db :=
    ⟨by decide +kernel, by decide +kernel, by decide +kernel, by decide +kernel⟩
  search_of_run Function.injective_id hstart hrun rfl hcaughtUp (by decide +kernel)
    ⟨by decide +kernel, by decide +kernel⟩ (by decide +kernel) _ _

end Awayuki.Search
