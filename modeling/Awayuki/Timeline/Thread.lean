import Awayuki.Library.DepthFirst
import Awayuki.Timeline.Display

/-!
# Threads

`query_status_thread_statuses` of `application/desktop.rs` shows a status among the posts that it
answers and the replies to them.  One statement of `db/queries/read_models.rs` selects the rows: the
cached ancestors of the status, and what is below the last of them.  A row that a branch has already
come by ends the branch; the ids of a branch are kept as a text.

* `parentOf`, `ancestorAt`, `replies`: the graph of the replies;
* `selected`, `IsPage`: the rows of the statement, and those that its `LIMIT` leaves;
* `threadRoot`, `queryStatusThreadStatuses`: the list that is made of them;
* `ThreadView`: the list is the tree of the replies;
* `notOn_path`: what the text of a branch tells.
-/

namespace Awayuki.Timeline.Thread

open Display

/-! ### The graph -/

section

variable (db : List DbStatus)

/-- The status that one answers, if it is cached: `(id, server_domain)` is the key. -/
def parentOf (s : DbStatus) : Option DbStatus :=
  db.find? fun parent => s.inReplyToId = some parent.id ∧ parent.serverDomain = s.serverDomain

/-- The ancestor so many answers above. -/
def ancestorAt : ℕ → DbStatus → Option DbStatus
  | 0, s => some s
  | n + 1, s => (parentOf db s).bind (ancestorAt n)

/-- The cached replies to a status, by `(created_at, id)`. -/
def replies (s : DbStatus) : List DbStatus :=
  oldestFirst (db.filter fun child => parentOf db child = some s)

/-- A status that is among its own ancestors. -/
def OnCycle (s : DbStatus) : Prop := ∃ n, ancestorAt db (n + 1) s = some s

end

/-! ### The statement -/

/-- `char(31)` -/
def separator : Char := '\x1f'

/-- The text of a branch that begins at an id. -/
def startPath (id : Str) : Str := separator :: id ++ [separator]

def extendPath (path id : Str) : Str := path ++ id ++ [separator]

/-- `instr(path, char(31) || id || char(31)) = 0` -/
def notOn (path id : Str) : Bool := !Str.contains path (separator :: id ++ [separator])

section

variable (db : List DbStatus)

/-- The rows of `ancestors`. -/
def ancestors : ℕ → Str → DbStatus → List DbStatus
  | 0, _, s => [s]
  | depth + 1, path, s =>
    s :: match parentOf db s with
      | none => []
      | some parent =>
        if notOn path parent.id then ancestors depth (extendPath path parent.id) parent else []

/-- The join of a row of `descendants` with `statuses`. -/
def children (s : DbStatus) : List DbStatus :=
  db.filter fun child => child.inReplyToId = some s.id ∧ child.serverDomain = s.serverDomain

/-- The rows of `descendants`. -/
def descendants : ℕ → Str → DbStatus → List DbStatus
  | 0, _, s => [s]
  | depth + 1, path, s =>
    s :: ((children db s).filter fun child => notOn path child.id).flatMap fun child =>
      descendants depth (extendPath path child.id) child

/-- The row of `ancestors` that is the deepest. -/
def root (limit : ℕ) (requested : DbStatus) : DbStatus :=
  (ancestors db limit (startPath requested.id) requested).getLast?.getD requested

/-- The rows of `selected`, which a `UNION` makes distinct. -/
def selected (limit : ℕ) (requested : DbStatus) : List DbStatus :=
  (ancestors db limit (startPath requested.id) requested ++
    descendants db limit (startPath (root db limit requested).id) (root db limit requested)).dedup

end

/-- What the `LIMIT` may leave of the rows.  Without an `ORDER BY` it may be any of them, and they
may come in any order. -/
structure IsPage (rows : List DbStatus) (limit : ℕ) (page : List DbStatus) : Prop where
  nodup : page.Nodup
  subset : page ⊆ rows
  length : page.length = min limit rows.length

/-! ### The list -/

/-- The loop of `query_thread_status_page` that climbs to the root; it has no result if the fuel
does not last. -/
def threadRoot (page : List DbStatus) : ℕ → List Str → Str → Option Str
  | 0, _, _ => none
  | fuel + 1, seen, rootId =>
    if rootId ∈ seen then some rootId
    else
      match (page.find? fun s => s.id = rootId).bind (·.inReplyToId) with
      | none => some rootId
      | some parentId =>
        if page.any fun s => s.id = parentId then threadRoot page fuel (rootId :: seen) parentId
        else some rootId

/-- The list for the rows that the statement returned. -/
def queryStatusThreadStatuses (page : List DbStatus) (statusId : Str) : Option (List DbStatus) :=
  if page.isEmpty then some []
  else (threadRoot page (page.length + 1) [] statusId).map (orderThreadStatuses page)

/-- `limit.clamp(1, 500)` -/
def clampLimit (limit : ℕ) : ℕ := max 1 (min limit 500)

/-- A list that the query may return. -/
def ThreadResult (db : List DbStatus) (limit : ℕ) (requested : DbStatus) (list : List DbStatus) :
    Prop :=
  ∃ page, IsPage (selected db (clampLimit limit) requested) (clampLimit limit) page ∧
    queryStatusThreadStatuses page requested.id = some list

/-- The list is the tree of the replies, as far as the limit goes. -/
structure ThreadView (db : List DbStatus) (limit : ℕ) (requested : DbStatus)
    (list : List DbStatus) : Prop where
  nodup : (list.map (·.id)).Nodup
  ancestors : ∀ n < limit, ∀ s, ancestorAt db n requested = some s → s ∈ list
  parents : ∀ s parent, parentOf db s = some parent → s ∈ list → parent ∈ list →
    ¬ OnCycle db s → [parent, s].Sublist list
  siblings : ∀ s t parent, parentOf db s = some parent → parentOf db t = some parent →
    s ∈ list → t ∈ list → ¬ OnCycle db s → ¬ OnCycle db t → threadKey s < threadKey t →
      [s, t].Sublist list
  tree : ∀ n top, ancestorAt db n requested = some top → parentOf db top = none →
    {s | ∃ m, DepthFirst.Descends (replies db) top m s}.ncard ≤ limit →
      list = DepthFirst.listing (replies db) limit top

/-- The loop and the walk end, and the list that they make is the tree of the replies. -/
structure ShowsThread (db : List DbStatus) (limit : ℕ) (requested : DbStatus) : Prop where
  ends : ∀ page, IsPage (selected db (clampLimit limit) requested) (clampLimit limit) page →
    ∃ list, queryStatusThreadStatuses page requested.id = some list
  walkEnds : ∀ page : List DbStatus, ∀ fuel > page.length, ∀ walk id,
    appendThreadStatus page fuel walk id = appendThreadStatus page (page.length + 1) walk id
  view : ∀ list, ThreadResult db limit requested list → ThreadView db limit requested list

/-! ### The text of a branch -/

/-- The text of a branch that has come by the ids. -/
def pathText (ids : List Str) : Str := separator :: ids.flatMap (· ++ [separator])

theorem startPath_eq (id : Str) : startPath id = pathText [id] := by
  simp [startPath, pathText]

theorem extendPath_pathText (ids : List Str) (id : Str) :
    extendPath (pathText ids) id = pathText (ids ++ [id]) := by
  simp [extendPath, pathText]

/-- A text that begins with a separator is found after an id. -/
theorem infix_append_iff {id text rest : Str} (hid : separator ∉ id) :
    separator :: text <:+: id ++ rest ↔ separator :: text <:+: rest := by
  induction id with
  | nil => rfl
  | cons c id ih =>
    have hc := List.ne_of_not_mem_cons hid
    rw [List.cons_append, List.infix_cons_iff, ih (List.not_mem_of_not_mem_cons hid)]
    exact or_iff_right fun h => hc (List.cons_prefix_cons.1 h).1

theorem prefix_iff_eq {id id' rest : Str} (hid : separator ∉ id) (hid' : separator ∉ id') :
    id ++ [separator] <+: id' ++ separator :: rest ↔ id = id' := by
  induction id generalizing id' with
  | nil =>
    cases id' with
    | nil => simp
    | cons c id' =>
      have hc := List.ne_of_not_mem_cons hid'
      simp [hc]
  | cons c id ih =>
    have hc := List.ne_of_not_mem_cons hid
    cases id' with
    | nil => simp [Ne.symm hc]
    | cons c' id' =>
      rw [List.cons_append, List.cons_append, List.cons_prefix_cons,
        ih (List.not_mem_of_not_mem_cons hid) (List.not_mem_of_not_mem_cons hid'),
        List.cons.injEq]

/-- The text tells whether a branch has come by an id, if no id has a separator. -/
theorem notOn_path {ids : List Str} {id : Str} (hids : ∀ other ∈ ids, separator ∉ other)
    (hid : separator ∉ id) : notOn (pathText ids) id = true ↔ id ∉ ids := by
  have hinfix : separator :: id ++ [separator] <:+: pathText ids ↔ id ∈ ids := by
    unfold pathText
    induction ids with
    | nil =>
      rw [List.flatMap_nil]
      refine ⟨fun h => ?_, fun h => absurd h List.not_mem_nil⟩
      have := h.length_le
      simp at this
    | cons other ids ih =>
      have hother := hids other List.mem_cons_self
      have hrest := ih fun id hid => hids id (List.mem_cons_of_mem _ hid)
      rw [List.flatMap_cons, List.append_assoc, List.cons_append, List.infix_cons_iff,
        List.cons_prefix_cons, infix_append_iff hother, List.mem_cons]
      have hprefix : id ++ [separator] <+: other ++ separator :: ids.flatMap (· ++ [separator]) ↔
          id = other := prefix_iff_eq hid hother
      refine or_congr ?_ hrest
      rw [← hprefix]
      simp
  rw [← hinfix, ← Str.contains_iff, notOn, Bool.not_eq_true', Bool.not_eq_true]

end Awayuki.Timeline.Thread
