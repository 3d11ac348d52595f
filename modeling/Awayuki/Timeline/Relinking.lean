import Awayuki.Timeline.KeyIntegrity
import Awayuki.Library.Sweep

/-!
# Relinking quoted posts

The pass that ends a reduction lets every row embed the stored row of the post it quotes, at every
depth.  It takes the first row that the index lists for the post, and goes through the rows in the
order in which they came; so it needs the first row to be the post itself, and the rows that it
changes to come before those that embed them.

* `relinkNestedStatuses_eq`: the pass as a sweep over the rows;
* `Embedded`: a row whose quotes are the stored rows of their posts;
* `Relinkable`: what the pass needs;
* `quotes_embedded`: what it achieves.
-/

namespace Awayuki.Timeline

open MutableTimelineEntityState

variable {β : Type} {env : Platform} {s : MutableTimelineEntityState β}

/-! ### The pass -/

variable {entity quote row : TimelineStatus β} {key : StatusKey}
  {operations : List (TimelineEntityOperation β)}

/-- The row that a quote is linked to. -/
def linkTarget (env : Platform) (index : CanonicalIndex) (quote : TimelineStatus β) :
    Option StatusKey :=
  (index.get (canonicalStatusKey env quote.fields)).bind firstCanonicalAlias

/-- What a row is relinked to, given the rows as they are by then. -/
def relinked (env : Platform) (index : CanonicalIndex)
    (get : StatusKey → Option (TimelineStatus β)) (entity : TimelineStatus β) :
    TimelineStatus β :=
  match entity.quote with
  | none => entity
  | some quote =>
    match (linkTarget env index quote).bind get with
    | none => entity
    | some quote => .quoting entity.fields quote

theorem relinkEntity_eq (key : StatusKey) :
    relinkEntity env s key =
      { s with entities := s.entities.revise (relinked env s.canonicalIndex) key } := by
  unfold relinkEntity OrderedMap.revise relinked linkTarget
  cases hget : s.entities.get key with
  | none => rfl
  | some entity =>
    cases hquote : entity.quote with
    | none => simp only [hquote, OrderedMap.set_of_get hget]
    | some quote =>
      simp only [hquote]
      cases htarget : ((s.canonicalIndex.get (canonicalStatusKey env quote.fields)).bind
          firstCanonicalAlias).bind s.entities.get with
      | none => simp only [OrderedMap.set_of_get hget]
      | some target => rfl

theorem relinkNestedStatuses_eq : relinkNestedStatuses env s =
    { s with
      entities :=
        s.entities.keys.foldl (OrderedMap.revise (relinked env s.canonicalIndex)) s.entities } := by
  unfold relinkNestedStatuses
  generalize s.entities.keys = keys
  induction keys generalizing s with
  | nil => rfl
  | cons key keys ih => rw [List.foldl_cons, ih, relinkEntity_eq, List.foldl_cons]

theorem fields_relinked (index : CanonicalIndex) (get : StatusKey → Option (TimelineStatus β))
    (entity : TimelineStatus β) : (relinked env index get entity).fields = entity.fields := by
  unfold relinked
  split
  · rfl
  · split <;> rfl

theorem relinked_of_quote {index : CanonicalIndex} {get : StatusKey → Option (TimelineStatus β)}
    (hquote : entity.quote = some quote) (hrow : (linkTarget env index quote).bind get = some row) :
    relinked env index get entity = .quoting entity.fields row := by
  rw [relinked, hquote]
  simp only [hrow]

/-- Only the quote of a row is changed. -/
theorem get_relinkNestedStatuses (env : Platform) (s : MutableTimelineEntityState β)
    (key : StatusKey) :
    ∃ get, (relinkNestedStatuses env s).entities.get key =
      (s.entities.get key).map (relinked env s.canonicalIndex get) := by
  rw [relinkNestedStatuses_eq]
  by_cases hmem : key ∈ s.entities.keys
  · obtain ⟨before, after, hkeys⟩ := List.append_of_mem hmem
    refine ⟨(before.foldl (OrderedMap.revise (relinked env s.canonicalIndex)) s.entities).get, ?_⟩
    simp only [hkeys]
    exact OrderedMap.get_sweep (hkeys ▸ s.entities.nodup_keys)
  · refine ⟨fun _ => none, ?_⟩
    simp only [OrderedMap.get_sweep_of_not_mem hmem, OrderedMap.get_eq_none.2 hmem,
      Option.map_none]

/-! ### Embedded quotes -/

/-- At every depth the quoted post is embedded as it is stored, and not as a reblog or a
notification of it. -/
def Embedded (env : Platform) (entities : OrderedMap StatusKey (TimelineStatus β)) :
    TimelineStatus β → Prop
  | .plain _ => True
  | .quoting _ quote =>
    statusKey env quote.fields = canonicalStatusKey env quote.fields ∧
      entities.get (statusKey env quote.fields) = some quote ∧ Embedded env entities quote

/-- Rows still quote the posts that they quoted, and embed them. -/
structure Relinked (env : Platform) (before after : OrderedMap StatusKey (TimelineStatus β)) :
    Prop where
  same : ∀ {key entity quote entity'}, before.get key = some entity → entity.quote = some quote →
    after.get key = some entity' → ∃ quote', entity'.quote = some quote' ∧
      canonicalStatusKey env quote'.fields = canonicalStatusKey env quote.fields
  embedded : ∀ {key entity}, after.get key = some entity → Embedded env after entity

/-- Quotes are embedded at every depth when those of the stored rows are. -/
theorem Embedded.of_rows {entities : OrderedMap StatusKey (TimelineStatus β)}
    (h : ∀ {key entity quote}, entities.get key = some entity → entity.quote = some quote →
      statusKey env quote.fields = canonicalStatusKey env quote.fields ∧
        entities.get (statusKey env quote.fields) = some quote)
    (hget : entities.get key = some entity) : Embedded env entities entity := by
  induction entity generalizing key with
  | plain fields => trivial
  | quoting fields quote ih =>
    obtain ⟨hplain, hstored⟩ := h hget rfl
    exact ⟨hplain, hstored, ih hstored⟩

/-! ### What the pass needs -/

/-- Every nested copy in a row is the stored row that it would be linked to. -/
def Current (env : Platform) (s : MutableTimelineEntityState β) : TimelineStatus β → Prop
  | .plain _ => True
  | .quoting _ quote =>
    (linkTarget env s.canonicalIndex quote).bind s.entities.get = some quote ∧
      Current env s quote

/-- The first row listed for a quoted post is the post's own, and it comes before the row that
quotes it or needs no change. -/
def Linkable (env : Platform) (s : MutableTimelineEntityState β) (key : StatusKey)
    (quote : TimelineStatus β) : Prop :=
  let target := canonicalStatusKey env quote.fields
  linkTarget env s.canonicalIndex quote = some target ∧
    ∃ row ∈ s.entities.get target, identity env row.fields = (target, target) ∧
      (s.entities.keys.idxOf target < s.entities.keys.idxOf key ∨ Current env s row)

/-- Every quote of a stored row can be relinked. -/
def Relinkable (env : Platform) (s : MutableTimelineEntityState β) : Prop :=
  ∀ e ∈ s.entities.entries, ∀ quote ∈ e.2.quote, Linkable env s e.1 quote

instance decidableCurrent [DecidableEq β] : (row : TimelineStatus β) →
    Decidable (Current env s row)
  | .plain _ => instDecidableTrue
  | .quoting _ quote => @instDecidableAnd _ _ inferInstance (decidableCurrent quote)

instance [DecidableEq β] (key : StatusKey) (quote : TimelineStatus β) :
    Decidable (Linkable env s key quote) :=
  inferInstanceAs (Decidable (_ ∧ ∃ row ∈ s.entities.get _, _ ∧ (_ ∨ _)))

instance [DecidableEq β] : Decidable (Relinkable env s) :=
  inferInstanceAs (Decidable (∀ e ∈ s.entities.entries, ∀ quote ∈ e.2.quote, _))

/-- A row without stale copies is left alone, whenever its turn comes. -/
theorem get_of_current {keys : List StatusKey} (hget : s.entities.get key = some row)
    (hcurrent : Current env s row) :
    (keys.foldl (OrderedMap.revise (relinked env s.canonicalIndex)) s.entities).get key =
      some row := by
  refine OrderedMap.get_sweep_of_fixed (fun get hkept row hrow => ?_) hget hcurrent
  cases row with
  | plain fields => rfl
  | quoting fields quote =>
    obtain ⟨hlink, hquote⟩ := hrow
    obtain ⟨target, htarget, hstored⟩ := Option.bind_eq_some_iff.1 hlink
    refine relinked_of_quote rfl ?_
    rw [htarget]
    exact hkept target quote hstored hquote

/-- A row that quotes a post embeds the post's row as the pass leaves it. -/
theorem relinked_row (hget : s.entities.get key = some entity) (hquote : entity.quote = some quote)
    (hlinkable : Linkable env s key quote) : let target := canonicalStatusKey env quote.fields
    ∃ row, (relinkNestedStatuses env s).entities.get key = some (.quoting entity.fields row) ∧
      (relinkNestedStatuses env s).entities.get target = some row ∧
      identity env row.fields = (target, target) := by
  intro target
  obtain ⟨hlink, row, hrow, hidentity, hwhen⟩ := hlinkable
  obtain ⟨before, after, hkeys⟩ := List.append_of_mem (OrderedMap.mem_keys_of_get hget)
  have hnodup : (before ++ key :: after).Nodup := hkeys ▸ s.entities.nodup_keys
  rw [relinkNestedStatuses_eq]
  simp only
  -- When its turn comes, the row of the post is as it stays.
  have hsettled : (s.entities.keys.foldl
      (OrderedMap.revise (relinked env s.canonicalIndex)) s.entities).get target =
      (before.foldl (OrderedMap.revise (relinked env s.canonicalIndex)) s.entities).get target := by
    obtain hbefore | hcurrent := hwhen
    · rw [hkeys] at hbefore ⊢
      refine OrderedMap.get_sweep_of_mem_before hnodup ?_
      by_contra hnot
      have hkey : key ∉ before := fun hmem =>
        (List.nodup_append.1 hnodup).2.2 key hmem key List.mem_cons_self rfl
      rw [List.idxOf_append_of_notMem hnot, List.idxOf_append_of_notMem hkey,
        List.idxOf_cons_self] at hbefore
      omega
    · rw [get_of_current hrow hcurrent, get_of_current hrow hcurrent]
  have hidentity' : ((s.entities.keys.foldl
      (OrderedMap.revise (relinked env s.canonicalIndex)) s.entities).get target).map
        TimelineStatus.fields = some row.fields := by
    rw [OrderedMap.map_get_sweep (fields_relinked s.canonicalIndex)]
    exact congrArg (Option.map _) hrow
  obtain ⟨row', hrow', hfields⟩ := Option.map_eq_some_iff.1 hidentity'
  refine ⟨row', ?_, hrow', by rw [hfields]; exact hidentity⟩
  rw [hkeys, OrderedMap.get_sweep hnodup, hget, Option.map_some]
  refine congrArg some (relinked_of_quote hquote ?_)
  rw [hlink]
  exact hsettled.symm.trans hrow'

theorem relinked_relinkNestedStatuses (h : Relinkable env s) :
    Relinked env s.entities (relinkNestedStatuses env s).entities := by
  have hrow {key : StatusKey} {entity quote : TimelineStatus β}
      (hget : s.entities.get key = some entity) (hquote : entity.quote = some quote) :=
    relinked_row hget hquote (h (key, entity) (OrderedMap.get_eq_some.1 hget) quote hquote)
  constructor
  · intro key entity quote entity' hget hquote hget'
    obtain ⟨row, hrelinked, -, hidentity⟩ := hrow hget hquote
    obtain rfl := Option.some.inj (hget'.symm.trans hrelinked)
    exact ⟨row, rfl, congrArg Prod.snd hidentity⟩
  · refine fun hget => Embedded.of_rows ?_ hget
    intro key entity' quote' hget' hquote'
    obtain ⟨get, hsweep⟩ := get_relinkNestedStatuses env s key
    obtain ⟨entity, hget, rfl⟩ := Option.map_eq_some_iff.1 (hsweep.symm.trans hget')
    cases hquote : entity.quote with
    | none =>
      -- A row that quotes a post did so before.
      rw [relinked, hquote] at hquote'
      exact absurd (hquote.symm.trans hquote') (by simp)
    | some quote =>
      obtain ⟨row, hrelinked, hstored, hidentity⟩ := hrow hget hquote
      obtain heq := Option.some.inj (hget'.symm.trans hrelinked)
      rw [heq] at hquote'
      obtain rfl := Option.some.inj hquote'
      obtain ⟨hkey, hcanonical⟩ := Prod.ext_iff.1 hidentity
      simp only [identity] at hkey hcanonical
      exact ⟨hkey.trans hcanonical.symm, by rw [hkey]; exact hstored⟩

/-! ### Runs -/

/-- The rows when the relinking of a reduction begins. -/
def beforeRelinking (env : Platform) (s : TimelineEntityState β)
    (operations : List (TimelineEntityOperation β)) : MutableTimelineEntityState β :=
  applyOperations env operations.length s.toMutable operations

/-- Whenever a reduction of a run begins to relink, every quote can be relinked. -/
def RelinksMeet (env : Platform) (reductions : List (List (TimelineEntityOperation β))) : Prop :=
  ∀ done operations, done ++ [operations] <+: reductions → operations ≠ [] →
    Relinkable env (beforeRelinking env (reduceAll env done) operations)

theorem Relinked.prune (h : Relinked env s.entities (relinkNestedStatuses env s).entities) :
    Relinked env s.entities
      (pruneUnreferencedEntities env (relinkNestedStatuses env s)).entities := by
  constructor
  · intro key entity quote entity' hget hquote hget'
    exact h.same hget hquote (get_pruneUnreferencedEntities.1 hget').1
  · refine fun hget => Embedded.of_rows ?_ hget
    intro key entity quote hget hquote
    obtain ⟨hget, href⟩ := get_pruneUnreferencedEntities.1 hget
    have hembedded := h.embedded hget
    rw [TimelineStatus.eq_quoting hquote] at hembedded
    obtain ⟨hplain, hstored, -⟩ := hembedded
    -- The row of a post that a retained row quotes is retained.
    refine ⟨hplain, get_pruneUnreferencedEntities.2 ⟨hstored, href.next ?_ ?_⟩⟩
    · simp [quoteLink, hget, hquote]
    · simp [quoteLink, hstored]

theorem entities_reduce (previous : TimelineEntityState β) (hne : operations ≠ []) :
    (reduceTimelineEntities env previous operations).1.entities =
      (pruneUnreferencedEntities env (relinkNestedStatuses env
        (beforeRelinking env previous operations))).entities := by
  have hnonempty : ¬operations.isEmpty = true := by simpa using hne
  rw [reduceTimelineEntities, if_neg hnonempty]
  rfl

theorem Relinked.reduce (previous : TimelineEntityState β) (hne : operations ≠ [])
    (h : Relinkable env (beforeRelinking env previous operations)) :
    Relinked env (beforeRelinking env previous operations).entities
      (reduceTimelineEntities env previous operations).1.entities := by
  rw [entities_reduce previous hne]
  exact (relinked_relinkNestedStatuses h).prune

theorem reduceAll_concat (reductions : List (List (TimelineEntityOperation β)))
    (operations : List (TimelineEntityOperation β)) :
    reduceAll env (reductions ++ [operations]) =
      (reduceTimelineEntities env (reduceAll env reductions) operations).1 := by
  simp [reduceAll]

/-- In a run in which the quotes can be relinked whenever it is time to, every reduction leaves
every stored row quoting the posts that it quoted, and embedding their stored rows at every
depth. -/
theorem quotes_embedded (env : Platform) (reductions : List (List (TimelineEntityOperation β)))
    (operations : List (TimelineEntityOperation β))
    (h : RelinksMeet env (reductions ++ [operations])) :
    Relinked env (beforeRelinking env (reduceAll env reductions) operations).entities
      (reduceTimelineEntities env (reduceAll env reductions) operations).1.entities := by
  induction reductions using List.reverseRecOn generalizing operations with
  | nil =>
    by_cases hne : operations = []
    · subst hne
      constructor
      · intro key entity quote entity' hget
        cases hget
      · intro key entity hget
        cases hget
    · exact .reduce _ hne (h [] operations (List.prefix_refl _) hne)
  | append_singleton reductions last ih =>
    by_cases hne : operations = []
    · -- Nothing is reduced; the rows are those that the reduction before left.
      subst hne
      have hlast := ih last fun done operations hpre => h done operations
        (hpre.trans (List.prefix_append _ _))
      rw [reduceAll_concat]
      constructor
      · intro key entity quote entity' hget hquote hget'
        obtain rfl := Option.some.inj (hget.symm.trans hget')
        exact ⟨quote, hquote, rfl⟩
      · exact hlast.embedded
    · exact .reduce _ hne (h _ operations (List.prefix_refl _) hne)

/-- A sample post that quotes another. -/
def sampleQuote : TimelineStatus Unit := .quoting (samplePost "2" 2) (.plain (samplePost "1" 1))

/-- A reduction that shows rows in a column. -/
def sampleReduction (statuses : List (TimelineStatus Unit)) :
    List (TimelineEntityOperation Unit) := [.appendPage "home".toList statuses]

theorem quotes_embedded_sampleQuote :
    Relinked samplePlatform (beforeRelinking samplePlatform (reduceAll samplePlatform [])
        (sampleReduction [sampleQuote])).entities
      (reduceTimelineEntities samplePlatform (reduceAll samplePlatform [])
        (sampleReduction [sampleQuote])).1.entities := by
  refine quotes_embedded samplePlatform [] (sampleReduction [sampleQuote]) ?_
  intro done operations hpre hne
  cases done with
  | nil =>
    obtain rfl : operations = sampleReduction [sampleQuote] := by simpa using hpre
    decide +kernel
  | cons first done =>
    have hlength := hpre.length_le
    simp at hlength

/-- A notification of a post that was stored first is embedded in its place. -/
theorem not_quotes_embedded :
    ¬∀ (env : Platform) (reductions : List (List (TimelineEntityOperation Unit)))
      (operations : List (TimelineEntityOperation Unit)),
      Relinked env (beforeRelinking env (reduceAll env reductions) operations).entities
        (reduceTimelineEntities env (reduceAll env reductions) operations).1.entities := by
  intro h
  have hrelinked := h samplePlatform [sampleReduction [.plain sampleNotification]]
    (sampleReduction [sampleQuote])
  have hstored : (reduceTimelineEntities samplePlatform
      (reduceAll samplePlatform [sampleReduction [.plain sampleNotification]])
      (sampleReduction [sampleQuote])).1.entities.get
        (statusKey samplePlatform (samplePost "2" 2)) =
      some (.quoting (samplePost "2" 2) (.plain sampleNotification)) := by
    decide +kernel
  obtain ⟨hplain, -⟩ := hrelinked.embedded hstored
  revert hplain
  decide +kernel

end Awayuki.Timeline
