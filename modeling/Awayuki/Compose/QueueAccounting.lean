import Awayuki.Compose.MediaQueue
import Awayuki.Library.Runs

/-!
# Compose: what the media queue keeps track of

The slots that are taken are those of the attachments and of the uploads that are still to be
listed, nothing is added for another account, and the previews that have not been given back are
shown.  `replaceWithIds` counts the slots anew and forgets the uploads that are still to be listed.

* `Balanced`: what is to hold;
* `Sound`: the invariant; `Sound.keep`, `Sound.start`: the steps that take away and add;
* `misses`: the call of `replaceWithIds` that upsets it;
* `balanced_of_run`: runs.
-/

namespace Awayuki.Compose.MediaQueue

variable {a b : Attachment} {l : List Attachment} {uploaded : Uploaded} {n i url generation : ℕ}
  {acct : Str} {queued : List (ℕ × Source)} {p : ℕ → Bool} {next gone : List Attachment}
  {previewSrc : PreviewSrc} {source : Source} {label : Label} {s t : MediaQueue}
  {maxAttachments initial : ℕ}

/-- An upload that is listed under its own id. -/
def Listed (s : MediaQueue) (n : ℕ) : Prop := ∃ a ∈ s.attachments, a.id = .localId n

instance decidableListed : DecidablePred s.Listed :=
  fun n => inferInstanceAs (Decidable (∃ a ∈ s.attachments, a.id = .localId n))

/-- The uploads that have been accepted and are not listed. -/
def unlisted (s : MediaQueue) : List ℕ := s.pendingSlots.filter fun n => ¬ s.Listed n

structure Balanced (maxAttachments initial : ℕ) (s : MediaQueue) : Prop where
  slots : s.occupiedSlots = s.attachments.length + s.unlisted.length
  capacity : s.attachments.length ≤ max maxAttachments initial
  own : ∀ a ∈ s.attachments, ∀ actingAccountAcct generation,
    a.upload = some (actingAccountAcct, generation) →
      s.activeAcct = some actingAccountAcct ∧ s.generation = generation
  previews : s.unrendered = false →
    ∀ url, url ∈ s.objectUrls ↔ ∃ a ∈ s.attachments, a.previewSrc = .object url

/-! ### The invariant -/

/-- Two attachments are of different uploads and show different object URLs. -/
def Apart (a b : Attachment) : Prop :=
  (∀ n, a.id = .localId n → b.id ≠ .localId n) ∧
    ∀ url, a.previewSrc = .object url → b.previewSrc ≠ .object url

/-- The uploads of a loop. -/
def UploadLoop.ids (loop : UploadLoop) : List ℕ := loop.localId :: loop.queued.map Prod.fst

structure InFlight (s : MediaQueue) (loop : UploadLoop) : Prop where
  /-- An upload that has not been given up is that of an attachment. -/
  pending : loop.localId ∈ s.pendingSlots →
    s.Current loop.actingAccountAcct loop.generation loop.localId ∧
      ∃ a ∈ s.attachments, a.id = .localId loop.localId ∧ a.previewSrc = loop.previewSrc
  gone : loop.localId ∉ s.pendingSlots →
    ∀ url, loop.previewSrc = .object url → url ∉ s.ownedPreviews
  old : ∀ url, loop.previewSrc = .object url → url < s.nextUrl
  path : ∀ path, loop.source = .path path → loop.previewSrc = .remote []
  queued : ∀ n ∈ loop.queued.map Prod.fst, ¬ s.Listed n

structure Sound (maxAttachments initial : ℕ) (s : MediaQueue) : Prop where
  slots : s.occupiedSlots = s.attachments.length + s.unlisted.length
  capacity : s.occupiedSlots ≤ max maxAttachments initial
  pendingNodup : s.pendingSlots.Nodup
  pendingOld : ∀ n ∈ s.pendingSlots, n < s.nextLocalId
  listed : ∀ a ∈ s.attachments, ∀ n, a.id = .localId n → n ∈ s.pendingSlots
  apart : s.attachments.Pairwise Apart
  state : s.state = s.attachments
  own : ∀ a ∈ s.attachments, ∀ actingAccountAcct generation,
    a.upload = some (actingAccountAcct, generation) →
      s.activeAcct = some actingAccountAcct ∧ s.generation = generation
  urls : s.objectUrls = s.ownedPreviews
  owned : ∀ a ∈ s.attachments, ∀ url, a.previewSrc = .object url →
    url ∈ s.ownedPreviews ∧ url ∉ s.previewsPendingRevoke
  shown : ∀ url ∈ s.ownedPreviews,
    (∃ a ∈ s.attachments, a.previewSrc = .object url) ∨ url ∈ s.previewsPendingRevoke
  rendered : s.unrendered = false → s.previewsPendingRevoke = []
  old : ∀ url ∈ s.ownedPreviews, url < s.nextUrl
  revokeOld : ∀ url ∈ s.previewsPendingRevoke, url < s.nextUrl
  inFlight : ∀ loop ∈ s.loops, InFlight s loop
  ids : (s.loops.flatMap UploadLoop.ids).Nodup
  idsOld : ∀ n ∈ s.loops.flatMap UploadLoop.ids, n < s.nextLocalId

theorem Sound.balanced (h : Sound maxAttachments initial s) :
    Balanced maxAttachments initial s where
  slots := h.slots
  capacity := by
    have hslots := h.slots
    have hcapacity := h.capacity
    omega
  own := h.own
  previews hrendered url := by
    rw [h.urls]
    constructor
    · intro hurl
      refine (h.shown url hurl).resolve_right ?_
      rw [h.rendered hrendered]
      exact List.not_mem_nil
    · rintro ⟨a, ha, hpreview⟩
      exact (h.owned a ha url hpreview).1

/-! ### Attachments that are apart -/

theorem Apart.symm (h : Apart a b) : Apart b a :=
  ⟨fun n hb ha => h.1 n ha hb, fun url hb ha => h.2 url ha hb⟩

instance symm_apart : Std.Symm Apart := ⟨fun _ _ => Apart.symm⟩

theorem eq_of_localId (h : l.Pairwise Apart) (ha : a ∈ l) (hb : b ∈ l) (hida : a.id = .localId n)
    (hidb : b.id = .localId n) : a = b := by
  by_contra hne
  exact (h.forall ha hb hne).1 n hida hidb

theorem eq_of_object (h : l.Pairwise Apart) (ha : a ∈ l) (hb : b ∈ l)
    (hpa : a.previewSrc = .object url) (hpb : b.previewSrc = .object url) : a = b := by
  by_contra hne
  exact (h.forall ha hb hne).2 url hpa hpb

/-! ### Steps that take attachments away -/

/-- What is still unlisted when attachments are dropped together with their slots. -/
theorem unlisted_keep (hpending : t.pendingSlots = s.pendingSlots.filter p)
    (hp : ∀ n ∈ s.pendingSlots,
      p n = true ↔ ∀ a ∈ s.attachments, a.id = .localId n → a ∈ t.attachments)
    (hsub : t.attachments ⊆ s.attachments) : t.unlisted = s.unlisted := by
  unfold unlisted
  rw [hpending, List.filter_filter]
  refine List.filter_congr fun n hn => ?_
  rw [Bool.eq_iff_iff]
  simp only [Bool.and_eq_true, decide_eq_true_eq]
  rw [hp n hn]
  constructor
  · rintro ⟨hnone, hkept⟩ ⟨a, ha, hid⟩
    exact hnone ⟨a, hkept a ha hid, hid⟩
  · intro hnone
    refine ⟨?_, fun a ha hid => absurd ⟨a, ha, hid⟩ hnone⟩
    rintro ⟨a, ha, hid⟩
    exact hnone ⟨a, hsub ha, hid⟩

theorem Sound.keep (h : Sound maxAttachments initial s) (hsub : t.attachments ⊆ s.attachments)
    (hapart : t.attachments.Pairwise Apart) (hstate : t.state = t.attachments)
    (hrendered : t.unrendered = true)
    (hslots : t.occupiedSlots = t.attachments.length + s.unlisted.length)
    (hcapacity : t.occupiedSlots ≤ s.occupiedSlots)
    (hpending : t.pendingSlots = s.pendingSlots.filter p) (hp : ∀ n ∈ s.pendingSlots,
      p n = true ↔ ∀ a ∈ s.attachments, a.id = .localId n → a ∈ t.attachments)
    (howned : ∀ url, url ∈ t.ownedPreviews ↔
      url ∈ s.ownedPreviews ∧ ∀ a ∈ s.attachments, a.previewSrc = .object url → a ∈ t.attachments)
    (hurls : t.objectUrls = t.ownedPreviews)
    (hrevoke : t.previewsPendingRevoke = s.previewsPendingRevoke)
    (hsame : t.generation = s.generation ∧ t.activeAcct = s.activeAcct ∧ t.nextUrl = s.nextUrl ∧
      t.nextLocalId = s.nextLocalId) (hloops : t.loops = s.loops) :
    Sound maxAttachments initial t := by
  obtain ⟨hgeneration, hacct, hnextUrl, hnextId⟩ := hsame
  have hmem : ∀ n, n ∈ t.pendingSlots ↔ n ∈ s.pendingSlots ∧
      ∀ a ∈ s.attachments, a.id = .localId n → a ∈ t.attachments := by
    intro n
    rw [hpending, List.mem_filter]
    exact and_congr_right (hp n)
  refine
    { slots := ?_, capacity := hcapacity.trans h.capacity, pendingNodup := ?_, pendingOld := ?_,
      listed := ?_, apart := hapart, state := hstate, own := ?_, urls := hurls, owned := ?_,
      shown := ?_, rendered := ?_, old := ?_, revokeOld := ?_, inFlight := ?_, ids := ?_,
      idsOld := ?_ }
  · rw [hslots, unlisted_keep hpending hp hsub]
  · rw [hpending]
    exact h.pendingNodup.filter _
  · intro n hn
    rw [hnextId]
    exact h.pendingOld n ((hmem n).1 hn).1
  · intro a ha n hid
    refine (hmem n).2 ⟨h.listed a (hsub ha) n hid, fun b hb hidb => ?_⟩
    rw [eq_of_localId h.apart hb (hsub ha) hidb hid]
    exact ha
  · intro a ha
    rw [hacct, hgeneration]
    exact h.own a (hsub ha)
  · intro a ha url hpreview
    obtain ⟨hurl, hnot⟩ := h.owned a (hsub ha) url hpreview
    rw [hrevoke]
    refine ⟨(howned url).2 ⟨hurl, fun b hb hpb => ?_⟩, hnot⟩
    rw [eq_of_object h.apart hb (hsub ha) hpb hpreview]
    exact ha
  · intro url hurl
    obtain ⟨hold, hkept⟩ := (howned url).1 hurl
    rw [hrevoke]
    refine (h.shown url hold).imp_left ?_
    rintro ⟨a, ha, hpreview⟩
    exact ⟨a, hkept a ha hpreview, hpreview⟩
  · rw [hrendered]
    exact fun hfalse => absurd hfalse (by decide)
  · intro url hurl
    rw [hnextUrl]
    exact h.old url ((howned url).1 hurl).1
  · rw [hrevoke, hnextUrl]
    exact h.revokeOld
  · intro loop hloop
    have hin := h.inFlight loop (hloops ▸ hloop)
    refine { pending := ?_, gone := ?_, old := ?_, path := hin.path, queued := ?_ }
    · intro hn
      obtain ⟨hold, hkept⟩ := (hmem _).1 hn
      obtain ⟨⟨hgen, hac, -⟩, a, ha, hid, hpreview⟩ := hin.pending hold
      exact ⟨⟨hgeneration ▸ hgen, hacct ▸ hac, hn⟩, a, hkept a ha hid, hid, hpreview⟩
    · intro hn url hpreview hurl
      obtain ⟨hurl, hkept⟩ := (howned url).1 hurl
      by_cases hold : loop.localId ∈ s.pendingSlots
      · obtain ⟨-, a, ha, hid, hpa⟩ := hin.pending hold
        refine hn ((hmem _).2 ⟨hold, fun b hb hidb => ?_⟩)
        rw [eq_of_localId h.apart hb ha hidb hid]
        exact hkept a ha (hpa.trans hpreview)
      · exact hin.gone hold url hpreview hurl
    · rw [hnextUrl]
      exact hin.old
    · rintro n hn ⟨a, ha, hid⟩
      exact hin.queued n hn ⟨a, hsub ha, hid⟩
  · rw [hloops]
    exact h.ids
  · rw [hloops, hnextId]
    exact h.idsOld

/-- The attachments are shown in another order. -/
theorem Sound.permute (h : Sound maxAttachments initial s) (hperm : next.Perm s.attachments) :
    Sound maxAttachments initial (s.setAttachments next) := by
  refine h.keep (p := fun _ => true) hperm.subset ?_ rfl rfl ?_ le_rfl ?_ ?_ ?_ h.urls rfl
    ⟨rfl, rfl, rfl, rfl⟩ rfl
  · exact (hperm.pairwise_iff fun h => h.symm).2 h.apart
  · show s.occupiedSlots = next.length + s.unlisted.length
    rw [hperm.length_eq]
    exact h.slots
  · exact (List.filter_eq_self.2 fun _ _ => rfl).symm
  · exact fun n _ => iff_of_true rfl fun a ha _ => hperm.symm.subset ha
  · exact fun url => (and_iff_left fun a ha _ => hperm.symm.subset ha).symm

theorem exists_revokeOwnedPreview (s : MediaQueue) (previewSrc : PreviewSrc) :
    ∃ urls, s.revokeOwnedPreview previewSrc = { s with
        ownedPreviews := s.ownedPreviews.filter fun url => previewSrc ≠ PreviewSrc.object url
        objectUrls := urls } ∧
      (s.objectUrls = s.ownedPreviews →
        urls = s.ownedPreviews.filter fun url => previewSrc ≠ PreviewSrc.object url) := by
  cases previewSrc with
  | remote src =>
    have hall : s.ownedPreviews.filter (fun url => PreviewSrc.remote src ≠ .object url) =
        s.ownedPreviews := List.filter_eq_self.2 fun url _ => rfl
    rw [hall]
    exact ⟨s.objectUrls, rfl, id⟩
  | object url =>
    have howned : s.ownedPreviews.filter (· ≠ url) =
        s.ownedPreviews.filter fun other => PreviewSrc.object url ≠ .object other := by
      refine List.filter_congr fun other _ => ?_
      rw [Bool.eq_iff_iff]
      simp only [decide_eq_true_eq]
      exact not_congr ⟨fun heq => heq ▸ rfl, fun heq => (PreviewSrc.object.inj heq).symm⟩
    rw [← howned]
    refine ⟨_, rfl, fun heq => ?_⟩
    rw [heq]
    refine List.filter_congr fun other hother => ?_
    rw [Bool.eq_iff_iff]
    simp only [decide_eq_true_eq, not_and]
    exact ⟨fun hmem heq => hmem heq (heq ▸ hother), fun hne heq => absurd heq hne⟩

/-- What is given up with attachments that are dropped. -/
structure Dropped (gone : List Attachment) (s t : MediaQueue) : Prop where
  same : ∃ pending owned revoke urls, t = { s with
    pendingSlots := pending
    ownedPreviews := owned
    previewsPendingRevoke := revoke
    objectUrls := urls }
  pending : t.pendingSlots =
    s.pendingSlots.filter fun n => ∀ a ∈ gone, a.id ≠ AttachmentId.localId n
  owned : t.ownedPreviews =
    s.ownedPreviews.filter fun url => ∀ a ∈ gone, a.previewSrc ≠ PreviewSrc.object url
  revoke : t.previewsPendingRevoke =
    s.previewsPendingRevoke.filter fun url => ∀ a ∈ gone, a.previewSrc ≠ PreviewSrc.object url
  urls : s.objectUrls = s.ownedPreviews → t.objectUrls = t.ownedPreviews

theorem dropped_nil (s : MediaQueue) : Dropped [] s s where
  same := ⟨_, _, _, _, rfl⟩
  pending := (List.filter_eq_self.2 fun _ _ => by simp).symm
  owned := (List.filter_eq_self.2 fun _ _ => by simp).symm
  revoke := (List.filter_eq_self.2 fun _ _ => by simp).symm
  urls h := h

/-- One attachment more is dropped. -/
theorem Dropped.cons (h : Dropped gone (s.drop a) t) : Dropped (a :: gone) s t := by
  obtain ⟨urls', hrevoked, hurls'⟩ := exists_revokeOwnedPreview { s with
    pendingSlots := s.pendingSlots.filter fun n => a.id ≠ AttachmentId.localId n
    previewsPendingRevoke :=
      s.previewsPendingRevoke.filter fun url => a.previewSrc ≠ PreviewSrc.object url } a.previewSrc
  have hall : ∀ {β : Type} (l : List β) (bad : β → Attachment → Prop)
      [∀ b a, Decidable (bad b a)],
      (l.filter fun b => ¬ bad b a).filter (fun b => ∀ a ∈ gone, ¬ bad b a) =
        l.filter fun b => ∀ a' ∈ a :: gone, ¬ bad b a' := by
    intro β l bad _
    rw [List.filter_filter]
    refine List.filter_congr fun b _ => ?_
    rw [Bool.eq_iff_iff]
    simp only [Bool.and_eq_true, decide_eq_true_eq, List.forall_mem_cons]
    exact and_comm
  unfold drop at h
  rw [hrevoked] at h
  obtain ⟨⟨pending, owned, revoke, urls, ht⟩, hpending, howned, hrevoke, hurls⟩ := h
  exact
    { same := ⟨pending, owned, revoke, urls, ht⟩
      pending := hpending.trans (hall s.pendingSlots fun n a => a.id = .localId n)
      owned := howned.trans (hall s.ownedPreviews fun url a => a.previewSrc = .object url)
      revoke := hrevoke.trans (hall s.previewsPendingRevoke fun url a =>
        a.previewSrc = .object url)
      urls := fun heq => hurls (hurls' heq) }

theorem dropped_foldl (gone : List Attachment) (s : MediaQueue) :
    Dropped gone s (gone.foldl drop s) := by
  induction gone generalizing s with
  | nil => exact dropped_nil s
  | cons a gone ih => exact (ih (s.drop a)).cons

/-- The attachments that are left when some are dropped. -/
theorem Sound.dropAll (h : Sound maxAttachments initial s) {occupied : ℕ}
    (hdropped : Dropped gone s t) (hgone : gone ⊆ s.attachments) (hsub : next ⊆ s.attachments)
    (hapart : next.Pairwise Apart) (hsplit : ∀ a ∈ s.attachments,
      (∃ n, a.id = .localId n) ∨ (∃ url, a.previewSrc = .object url) → (a ∈ next ↔ a ∉ gone))
    (hslots : occupied = next.length + s.unlisted.length) (hcapacity : occupied ≤ s.occupiedSlots) :
    Sound maxAttachments initial ({ t with occupiedSlots := occupied }.setAttachments next) := by
  obtain ⟨⟨pending, owned, revoke, urls, ht⟩, hpending, howned, hrevoke, hurls⟩ := hdropped
  refine h.keep (p := fun n => ∀ a ∈ gone, a.id ≠ AttachmentId.localId n) hsub hapart rfl rfl
    hslots hcapacity hpending ?_ ?_ (hurls h.urls) ?_ ?_ ?_
  · intro n _
    rw [decide_eq_true_eq]
    constructor
    · intro hnone a ha hid
      exact (hsplit a ha (.inl ⟨n, hid⟩)).2 fun hmem => hnone a hmem hid
    · intro hkept a ha hid
      exact (hsplit a (hgone ha) (.inl ⟨n, hid⟩)).1 (hkept a (hgone ha) hid) ha
  · intro url
    show url ∈ t.ownedPreviews ↔ _
    rw [howned, List.mem_filter, decide_eq_true_eq]
    refine and_congr_right fun _ => ⟨fun hnone a ha hpreview => ?_, fun hkept a ha hpreview => ?_⟩
    · exact (hsplit a ha (.inr ⟨url, hpreview⟩)).2 fun hmem => hnone a hmem hpreview
    · exact (hsplit a (hgone ha) (.inr ⟨url, hpreview⟩)).1 (hkept a (hgone ha) hpreview) ha
  · show t.previewsPendingRevoke = _
    rw [hrevoke]
    refine List.filter_eq_self.2 fun url hurl => ?_
    rw [decide_eq_true_eq]
    exact fun a ha hpreview => (h.owned a (hgone ha) url hpreview).2 hurl
  · rw [ht]
    exact ⟨rfl, rfl, rfl, rfl⟩
  · rw [ht]
    rfl

/-- One attachment is dropped. -/
theorem Sound.dropOne (h : Sound maxAttachments initial s) {rest : List Attachment}
    (hdropped : Dropped [a] s t) (hperm : (a :: rest).Perm s.attachments) :
    Sound maxAttachments initial
      ({ t with occupiedSlots := s.occupiedSlots - 1 }.setAttachments rest) := by
  have hapart := (hperm.pairwise_iff fun h => h.symm).2 h.apart
  rw [List.pairwise_cons] at hapart
  have hlength := hperm.length_eq
  have hslots := h.slots
  rw [List.length_cons] at hlength
  refine h.dropAll hdropped ?_ ?_ hapart.2 ?_ ?_ (Nat.sub_le _ _)
  · exact List.cons_subset.2 ⟨hperm.subset List.mem_cons_self, List.nil_subset _⟩
  · exact fun b hb => hperm.subset (List.mem_cons_of_mem _ hb)
  · intro b hb hown
    rw [List.mem_singleton]
    constructor
    · rintro hrest rfl
      rcases hown with ⟨n, hid⟩ | ⟨url, hpreview⟩
      · exact (hapart.1 b hrest).1 n hid hid
      · exact (hapart.1 b hrest).2 url hpreview hpreview
    · intro hne
      exact (List.mem_cons.1 (hperm.symm.subset hb)).resolve_left hne
  · omega

theorem Sound.remove (h : Sound maxAttachments initial s) (index : ℕ) :
    Sound maxAttachments initial (s.remove index) := by
  unfold MediaQueue.remove
  split
  · exact h
  · next target htarget =>
    obtain ⟨hindex, rfl⟩ := List.getElem?_eq_some_iff.1 htarget
    exact h.dropOne (dropped_nil _).cons (List.getElem_cons_eraseIdx_perm hindex)

/-! ### `replaceWithIds` -/

theorem currentById_eq_some {id : AttachmentId} (h : currentById l id = some a) :
    ∃ before after, l = before ++ a :: after ∧ a.id = id ∧ ∀ b ∈ after, b.id ≠ id := by
  obtain ⟨hid, before, after, hl, hbefore⟩ := List.find?_eq_some_iff_append.1 h
  refine ⟨after.reverse, before.reverse, ?_, by simpa using hid, fun b hb => ?_⟩
  · rw [← List.reverse_reverse l, hl]
    simp
  · simpa using hbefore b (List.mem_reverse.1 hb)

theorem mem_retained {seen ids : List AttachmentId} (h : a ∈ retained l seen ids) :
    a.id ∈ ids ∧ a.id ∉ seen ∧ currentById l a.id = some a := by
  induction ids generalizing seen with
  | nil => cases h
  | cons id ids ih =>
    rw [retained] at h
    split_ifs at h with hseen
    · obtain ⟨hids, hrest⟩ := ih h
      exact ⟨List.mem_cons_of_mem _ hids, hrest⟩
    · rcases List.mem_append.1 h with h | h
      · have hcurrent : currentById l id = some a := by simpa using h
        obtain ⟨-, -, -, rfl, -⟩ := currentById_eq_some hcurrent
        exact ⟨List.mem_cons_self, hseen, hcurrent⟩
      · obtain ⟨hids, hnot, hcurrent⟩ := ih h
        exact ⟨List.mem_cons_of_mem _ hids, fun hmem => hnot (List.mem_cons_of_mem _ hmem),
          hcurrent⟩

theorem pairwise_retained (l : List Attachment) (seen ids : List AttachmentId) :
    (retained l seen ids).Pairwise fun a b => a.id ≠ b.id := by
  induction ids generalizing seen with
  | nil => exact .nil
  | cons id ids ih =>
    rw [retained]
    split_ifs
    · exact ih seen
    · refine List.pairwise_append.2 ⟨?_, ih (id :: seen), fun a ha b hb heq => ?_⟩
      · cases currentById l id with
        | none => exact .nil
        | some a => exact List.pairwise_singleton _ a
      · have hcurrent : currentById l id = some a := by simpa using ha
        obtain ⟨-, -, -, hid, -⟩ := currentById_eq_some hcurrent
        refine (mem_retained hb).2.1 ?_
        rw [← heq, hid]
        exact List.mem_cons_self

/-- `replaceWithIds` forgets the uploads that are not listed, and the preview of an attachment
whose id another one behind it has. -/
def forgets (s : MediaQueue) (ids : List AttachmentId) : Bool :=
  !s.unlisted.isEmpty || !decide (s.attachments.Pairwise fun a b =>
    a.id = b.id → a.id ∈ ids → a.previewSrc.isObject = false)

theorem Sound.replaceWithIds (h : Sound maxAttachments initial s) {ids : List AttachmentId}
    (hcalm : s.forgets ids = false) : Sound maxAttachments initial (s.replaceWithIds ids) := by
  simp only [forgets, Bool.or_eq_false_iff, Bool.not_eq_false', List.isEmpty_iff,
    decide_eq_true_eq] at hcalm
  obtain ⟨hunlisted, hdistinct⟩ := hcalm
  have hsub : retained s.attachments [] ids ⊆ s.attachments := by
    intro a ha
    obtain ⟨before, after, hl, -, -⟩ := currentById_eq_some (mem_retained ha).2.2
    rw [hl]
    exact List.mem_append_right _ List.mem_cons_self
  have hids := pairwise_retained s.attachments [] ids
  have hslots := h.slots
  rw [hunlisted] at hslots
  unfold MediaQueue.replaceWithIds
  refine h.dropAll (dropped_foldl _ s) List.filter_sublist.subset hsub ?_ ?_ ?_ ?_
  · refine hids.imp_of_mem fun {a b} ha hb hne => ?_
    exact h.apart.forall (hsub ha) (hsub hb) fun heq => hne (heq ▸ rfl)
  · intro a ha hown
    rw [List.mem_filter, not_and]
    simp only [decide_eq_true_eq, not_not]
    constructor
    · exact fun hmem _ => List.mem_map_of_mem hmem
    · intro hmem
      obtain ⟨b, hb, hid⟩ := List.mem_map.1 (hmem ha)
      obtain ⟨hidsb, -, hcurrent⟩ := mem_retained hb
      obtain ⟨before, after, hl, -, hafter⟩ := currentById_eq_some hcurrent
      by_cases heq : a = b
      · rwa [heq]
      · rcases hown with ⟨n, hidn⟩ | ⟨url, hpreview⟩
        · exact absurd (eq_of_localId h.apart ha (hsub hb) hidn (hid.trans hidn)) heq
        · have hbefore : a ∈ before := by
            rw [hl] at ha
            rcases List.mem_append.1 ha with ha | ha
            · exact ha
            · rcases List.mem_cons.1 ha with rfl | ha
              · exact absurd rfl heq
              · exact absurd hid.symm (hafter a ha)
          rw [hl, List.pairwise_append] at hdistinct
          have hremote := hdistinct.2.2 a hbefore b List.mem_cons_self hid.symm (hid ▸ hidsb)
          rw [hpreview] at hremote
          cases hremote
  · rw [hunlisted]
    rfl
  · rw [hslots]
    have hnodup : (retained s.attachments [] ids).Nodup :=
      List.Pairwise.imp (fun hne heq => hne (congrArg Attachment.id heq)) hids
    exact (hnodup.subperm hsub).length_le

/-! ### Uploads -/

/-- Uploads that have been queued and not been started. -/
structure Queued (s : MediaQueue) (ids : List ℕ) : Prop where
  nodup : ids.Nodup
  old : ∀ n ∈ ids, n < s.nextLocalId
  unlisted : ∀ n ∈ ids, ¬ s.Listed n
  fresh : ∀ n ∈ ids, n ∉ s.loops.flatMap UploadLoop.ids

/-- An upload is given a new attachment. -/
theorem Sound.start (h : Sound maxAttachments initial s)
    (hqueued : Queued s (n :: queued.map Prod.fst)) (hcurrent : s.Current acct generation n)
    (ha : a.id = .localId n ∧ a.previewSrc = previewSrc ∧ a.upload = some (acct, generation))
    (hpath : ∀ path, source = .path path → previewSrc = .remote [])
    (hattachments : t.attachments = s.attachments ++ [a]) (hstate : t.state = t.attachments)
    (hunrendered : t.unrendered = true)
    (hsame : t.generation = s.generation ∧ t.activeAcct = s.activeAcct ∧
      t.occupiedSlots = s.occupiedSlots ∧ t.pendingSlots = s.pendingSlots ∧
      t.previewsPendingRevoke = s.previewsPendingRevoke ∧ t.nextLocalId = s.nextLocalId)
    (hurls : t.objectUrls = t.ownedPreviews)
    (howned : ∀ url, url ∈ t.ownedPreviews ↔ url ∈ s.ownedPreviews ∨ previewSrc = .object url)
    (hnew : ∀ url, previewSrc = .object url → s.nextUrl ≤ url ∧ url < t.nextUrl ∧
      url ∉ s.previewsPendingRevoke) (hnextUrl : s.nextUrl ≤ t.nextUrl)
    (hloops : t.loops = s.loops ++ [⟨acct, generation, n, source, previewSrc, queued⟩]) :
    Sound maxAttachments initial t := by
  obtain ⟨hgeneration, hacct, hoccupied, hpending, hrevoke, hnextId⟩ := hsame
  obtain ⟨hid, hpreview, hupload⟩ := ha
  obtain ⟨hgen, hac, hn⟩ := hcurrent
  have hnot : ¬ s.Listed n := hqueued.unlisted n List.mem_cons_self
  have hlisted : ∀ m, t.Listed m ↔ s.Listed m ∨ m = n := by
    intro m
    unfold Listed
    rw [hattachments]
    constructor
    · rintro ⟨b, hb, hidb⟩
      rcases List.mem_append.1 hb with hb | hb
      · exact .inl ⟨b, hb, hidb⟩
      · rw [List.mem_singleton.1 hb, hid] at hidb
        exact .inr (AttachmentId.localId.inj hidb).symm
    · rintro (⟨b, hb, hidb⟩ | rfl)
      · exact ⟨b, List.mem_append_left _ hb, hidb⟩
      · exact ⟨a, List.mem_append_right _ (List.mem_singleton_self a), hid⟩
  have hmem : ∀ b, b ∈ t.attachments ↔ b ∈ s.attachments ∨ b = a := by
    intro b
    rw [hattachments, List.mem_append, List.mem_singleton]
  refine
    { slots := ?_, capacity := ?_, pendingNodup := ?_, pendingOld := ?_, listed := ?_,
      apart := ?_, state := hstate, own := ?_, urls := hurls, owned := ?_, shown := ?_,
      rendered := ?_, old := ?_, revokeOld := ?_, inFlight := ?_, ids := ?_, idsOld := ?_ }
  · -- one upload fewer is unlisted, one attachment more is there
    have hunlisted : t.unlisted = s.unlisted.erase n := by
      rw [unlisted, unlisted, hpending, (h.pendingNodup.filter _).erase_eq_filter,
        List.filter_filter]
      refine List.filter_congr fun m _ => ?_
      rw [Bool.eq_iff_iff]
      simp [hlisted, and_comm]
    have hin : n ∈ s.unlisted := List.mem_filter.2 ⟨hn, by simpa using hnot⟩
    have hpositive := List.length_pos_of_mem hin
    rw [hoccupied, hattachments, hunlisted, List.length_append, List.length_singleton,
      List.length_erase_of_mem hin, h.slots]
    omega
  · rw [hoccupied]
    exact h.capacity
  · rw [hpending]
    exact h.pendingNodup
  · rw [hpending, hnextId]
    exact h.pendingOld
  · intro b hb m hidb
    rw [hpending]
    rcases (hmem b).1 hb with hb | rfl
    · exact h.listed b hb m hidb
    · rw [hid] at hidb
      exact AttachmentId.localId.inj hidb ▸ hn
  · rw [hattachments]
    refine List.pairwise_append.2 ⟨h.apart, List.pairwise_singleton _ a, fun b hb c hc => ?_⟩
    rw [List.mem_singleton.1 hc]
    refine ⟨fun m hidb hidc => ?_, fun url hpb hpa => ?_⟩
    · rw [hid] at hidc
      exact hnot ⟨b, hb, by rw [hidb, hidc]⟩
    · have hlt := h.old url (h.owned b hb url hpb).1
      have hle := (hnew url (hpreview ▸ hpa)).1
      omega
  · intro b hb acct' generation' hup
    rw [hacct, hgeneration]
    rcases (hmem b).1 hb with hb | rfl
    · exact h.own b hb acct' generation' hup
    · rw [hupload] at hup
      cases hup
      exact ⟨hac, hgen.symm⟩
  · intro b hb url hpb
    rw [hrevoke, howned]
    rcases (hmem b).1 hb with hb | rfl
    · exact (h.owned b hb url hpb).imp_left .inl
    · rw [hpreview] at hpb
      exact ⟨.inr hpb, (hnew url hpb).2.2⟩
  · intro url hurl
    rw [hrevoke]
    rcases (howned url).1 hurl with hurl | hurl
    · refine (h.shown url hurl).imp_left ?_
      rintro ⟨b, hb, hpb⟩
      exact ⟨b, (hmem b).2 (.inl hb), hpb⟩
    · exact .inl ⟨a, (hmem a).2 (.inr rfl), hpreview.trans hurl⟩
  · rw [hunrendered]
    exact fun hfalse => absurd hfalse (by decide)
  · intro url hurl
    rcases (howned url).1 hurl with hurl | hurl
    · exact (h.old url hurl).trans_le hnextUrl
    · exact (hnew url hurl).2.1
  · rw [hrevoke]
    exact fun url hurl => (h.revokeOld url hurl).trans_le hnextUrl
  · intro loop hloop
    rw [hloops] at hloop
    rcases List.mem_append.1 hloop with hold | hlast
    · have hin := h.inFlight loop hold
      refine { pending := ?_, gone := ?_, old := ?_, path := hin.path, queued := ?_ }
      · rw [hpending]
        intro hpend
        obtain ⟨⟨hg, hc, -⟩, b, hb, hidb, hpb⟩ := hin.pending hpend
        exact ⟨⟨hgeneration ▸ hg, hacct ▸ hc, hpending ▸ hpend⟩, b, (hmem b).2 (.inl hb), hidb, hpb⟩
      · rw [hpending]
        intro hpend url hpl hurl
        rcases (howned url).1 hurl with hurl | hurl
        · exact hin.gone hpend url hpl hurl
        · have hlt := hin.old url hpl
          have hle := (hnew url hurl).1
          omega
      · exact fun url hpl => (hin.old url hpl).trans_le hnextUrl
      · intro m hm hlist
        rcases (hlisted m).1 hlist with hlist | rfl
        · exact hin.queued m hm hlist
        · refine hqueued.fresh m List.mem_cons_self (List.mem_flatMap.2 ⟨loop, hold, ?_⟩)
          exact List.mem_cons_of_mem _ hm
    · rw [List.mem_singleton.1 hlast]
      refine { pending := ?_, gone := ?_, old := ?_, path := hpath, queued := ?_ }
      · rw [hpending]
        exact fun hpend => ⟨⟨hgeneration ▸ hgen, hacct ▸ hac, hpending ▸ hpend⟩, a,
          (hmem a).2 (.inr rfl), hid, hpreview⟩
      · rw [hpending]
        exact fun hpend => absurd hn hpend
      · exact fun url hpl => (hnew url hpl).2.1
      · intro m hm hlist
        rcases (hlisted m).1 hlist with hlist | rfl
        · exact hqueued.unlisted m (List.mem_cons_of_mem _ hm) hlist
        · exact (List.nodup_cons.1 hqueued.nodup).1 hm
  · rw [hloops, List.flatMap_append, List.nodup_append']
    refine ⟨h.ids, ?_, ?_⟩
    · rw [List.flatMap_singleton]
      exact hqueued.nodup
    · rw [List.flatMap_singleton]
      exact fun m hm hm' => hqueued.fresh m hm' hm
  · rw [hloops, hnextId, List.flatMap_append, List.flatMap_singleton]
    intro m hm
    rcases List.mem_append.1 hm with hm | hm
    · exact h.idsOld m hm
    · exact hqueued.old m hm

theorem Sound.startUpload (h : Sound maxAttachments initial s)
    (hqueued : Queued s (n :: queued.map Prod.fst)) (hcurrent : s.Current acct generation n) :
    Sound maxAttachments initial (s.startUpload acct generation n source queued) := by
  cases source with
  | file file =>
    refine h.start hqueued hcurrent ⟨rfl, rfl, rfl⟩ (fun _ hpath => by cases hpath) rfl rfl rfl
      ⟨rfl, rfl, rfl, rfl, rfl, rfl⟩ ?_ (fun url => ?_) (fun url hurl => ?_) (Nat.le_succ _) rfl
    · show s.nextUrl :: s.objectUrls = s.nextUrl :: s.ownedPreviews
      rw [h.urls]
    · show url ∈ s.nextUrl :: s.ownedPreviews ↔ _
      rw [List.mem_cons, or_comm, PreviewSrc.object.injEq, eq_comm]
    · cases hurl
      exact ⟨le_rfl, Nat.lt_succ_self _, fun hmem => absurd (h.revokeOld _ hmem) (lt_irrefl _)⟩
  | path path =>
    refine h.start hqueued hcurrent ⟨rfl, rfl, rfl⟩ (fun _ _ => rfl) rfl rfl rfl
      ⟨rfl, rfl, rfl, rfl, rfl, rfl⟩ h.urls (fun url => ?_) (fun url hurl => by cases hurl) le_rfl
      rfl
    exact (or_iff_left fun hpath => by cases hpath).symm

/-- A loop goes on with what it has queued. -/
theorem Sound.resume (h : Sound maxAttachments initial s)
    (hqueued : Queued s (queued.map Prod.fst)) :
    Sound maxAttachments initial (s.resume acct generation queued) := by
  induction queued with
  | nil => exact h
  | cons upload queued ih =>
    unfold MediaQueue.resume
    split_ifs with hcurrent
    · exact h.startUpload hqueued hcurrent
    · refine ih ⟨(List.nodup_cons.1 hqueued.nodup).2, ?_, ?_, ?_⟩
      · exact fun n hn => hqueued.old n (List.mem_cons_of_mem _ hn)
      · exact fun n hn => hqueued.unlisted n (List.mem_cons_of_mem _ hn)
      · exact fun n hn => hqueued.fresh n (List.mem_cons_of_mem _ hn)

/-- Slots are reserved. -/
theorem Sound.reserve (h : Sound maxAttachments initial s) {ids : List ℕ} (hnodup : ids.Nodup)
    (hids : ∀ n ∈ ids, s.nextLocalId ≤ n ∧ n < s.nextLocalId + ids.length)
    (havailable : ids.length ≤ maxAttachments - s.occupiedSlots) :
    Sound maxAttachments initial { s with
      nextLocalId := s.nextLocalId + ids.length
      pendingSlots := s.pendingSlots ++ ids
      occupiedSlots := s.occupiedSlots + ids.length } := by
  have hfresh : ∀ n ∈ ids, ¬ s.Listed n := by
    rintro n hn ⟨a, ha, hid⟩
    have hlt := h.pendingOld n (h.listed a ha n hid)
    have hle := (hids n hn).1
    omega
  refine
    { slots := ?_, capacity := ?_, pendingNodup := ?_, pendingOld := ?_, listed := ?_,
      apart := h.apart, state := h.state, own := h.own, urls := h.urls, owned := h.owned,
      shown := h.shown, rendered := h.rendered, old := h.old, revokeOld := h.revokeOld,
      inFlight := ?_, ids := h.ids, idsOld := ?_ }
  · have hunlisted : (s.pendingSlots ++ ids).filter (fun n => ¬ s.Listed n) =
        s.unlisted ++ ids := by
      have hall : (ids.filter fun n => ¬ s.Listed n) = ids :=
        List.filter_eq_self.2 fun n hn => decide_eq_true (hfresh n hn)
      rw [List.filter_append, hall]
      rfl
    show s.occupiedSlots + ids.length =
      s.attachments.length + ((s.pendingSlots ++ ids).filter fun n => ¬ s.Listed n).length
    rw [hunlisted, List.length_append, h.slots]
    omega
  · have hcapacity := h.capacity
    show s.occupiedSlots + ids.length ≤ max maxAttachments initial
    omega
  · refine List.nodup_append'.2 ⟨h.pendingNodup, hnodup, fun n hn hn' => ?_⟩
    have hlt := h.pendingOld n hn
    have hle := (hids n hn').1
    omega
  · intro n hn
    rcases List.mem_append.1 hn with hn | hn
    · exact (h.pendingOld n hn).trans_le (Nat.le_add_right _ _)
    · exact (hids n hn).2
  · exact fun a ha n hid => List.mem_append_left _ (h.listed a ha n hid)
  · intro loop hloop
    have hin := h.inFlight loop hloop
    have hold : loop.localId ∈ s.pendingSlots ++ ids → loop.localId ∈ s.pendingSlots := by
      intro hmem
      refine (List.mem_append.1 hmem).resolve_right fun hn => ?_
      have hlt := h.idsOld loop.localId (List.mem_flatMap.2 ⟨loop, hloop, List.mem_cons_self⟩)
      have hle := (hids _ hn).1
      omega
    refine { pending := ?_, gone := ?_, old := hin.old, path := hin.path, queued := hin.queued }
    · intro hn
      obtain ⟨⟨hgen, hacct, -⟩, hlisted⟩ := hin.pending (hold hn)
      exact ⟨⟨hgen, hacct, hn⟩, hlisted⟩
    · exact fun hn => hin.gone fun hmem => hn (List.mem_append_left _ hmem)
  · exact fun n hn => (h.idsOld n hn).trans_le (Nat.le_add_right _ _)

theorem Sound.upload (h : Sound maxAttachments initial s) (render : Render)
    (sources : List Source) :
    Sound maxAttachments initial (s.upload maxAttachments render sources) := by
  unfold MediaQueue.upload
  split
  · exact h
  · next acct _ =>
    split_ifs
    · exact h
    · dsimp only
      have htaken := List.length_take_le (maxAttachments - s.occupiedSlots) sources
      generalize sources.take (maxAttachments - s.occupiedSlots) = taken at htaken ⊢
      have hids : (taken.mapIdx fun i source => (s.nextLocalId + i, source)).map Prod.fst =
          List.range' s.nextLocalId taken.length :=
        List.ext_getElem (by simp) fun i hi hi' => by simp
      have hbound : ∀ n ∈ List.range' s.nextLocalId taken.length,
          s.nextLocalId ≤ n ∧ n < s.nextLocalId + taken.length := by
        intro n hn
        rwa [List.mem_range'_1] at hn
      have hnodup : (List.range' s.nextLocalId taken.length).Nodup := List.nodup_range'
      have hreserved := h.reserve hnodup (by rwa [List.length_range'])
        (by rwa [List.length_range'])
      rw [List.length_range'] at hreserved
      rw [hids, List.length_mapIdx]
      refine hreserved.resume ?_
      rw [hids]
      refine ⟨hnodup, fun n hn => (hbound n hn).2, ?_, fun n hn hmem => ?_⟩
      · rintro n hn ⟨a, ha, hid⟩
        have hlt := h.pendingOld n (h.listed a ha n hid)
        have hle := (hbound n hn).1
        omega
      · have hlt := h.idsOld n hmem
        have hle := (hbound n hn).1
        omega

/-! ### The end of an upload -/

variable {loop : UploadLoop}

theorem flatMap_ids_perm {loops : List UploadLoop} (hloop : loops[i]? = some loop) :
    (UploadLoop.ids loop ++ (loops.eraseIdx i).flatMap UploadLoop.ids).Perm
      (loops.flatMap UploadLoop.ids) := by
  obtain ⟨hi, rfl⟩ := List.getElem?_eq_some_iff.1 hloop
  rw [← List.flatMap_cons]
  exact (List.getElem_cons_eraseIdx_perm hi).flatMap_right _

/-- A loop is taken out while it goes on. -/
theorem Sound.takeOut (h : Sound maxAttachments initial s) (hloop : s.loops[i]? = some loop) :
    Sound maxAttachments initial { s with loops := s.loops.eraseIdx i } ∧
      Queued { s with loops := s.loops.eraseIdx i } (loop.queued.map Prod.fst) ∧
      loop.localId ∉ (s.loops.eraseIdx i).flatMap UploadLoop.ids := by
  have hperm := flatMap_ids_perm hloop
  have hnodup := hperm.nodup_iff.2 h.ids
  rw [List.nodup_append'] at hnodup
  obtain ⟨hids, hrest, hdisjoint⟩ := hnodup
  have hmem : loop ∈ s.loops := List.mem_of_getElem? hloop
  refine ⟨?_, ?_, hdisjoint List.mem_cons_self⟩
  · exact
      { h with
        inFlight := fun other hother =>
          let hin := h.inFlight other (List.mem_of_mem_eraseIdx hother)
          ⟨hin.pending, hin.gone, hin.old, hin.path, hin.queued⟩
        ids := hrest
        idsOld := fun n hn => h.idsOld n (hperm.subset (List.mem_append_right _ hn)) }
  · refine ⟨(List.nodup_cons.1 hids).2, fun n hn => ?_, (h.inFlight loop hmem).queued,
      fun n hn => hdisjoint (List.mem_cons_of_mem _ hn)⟩
    exact h.idsOld n (hperm.subset (List.mem_append_left _ (List.mem_cons_of_mem _ hn)))

theorem revokeOwnedPreview_of_gone (h : ∀ url, previewSrc = .object url → url ∉ s.ownedPreviews) :
    s.revokeOwnedPreview previewSrc = s := by
  cases previewSrc with
  | remote src => rfl
  | object url =>
    have hurl := h url rfl
    have howned : s.ownedPreviews.filter (· ≠ url) = s.ownedPreviews :=
      List.filter_eq_self.2 fun other hother => decide_eq_true fun heq => hurl (heq ▸ hother)
    have hurls : s.objectUrls.filter (fun other => ¬ (other = url ∧ url ∈ s.ownedPreviews)) =
        s.objectUrls := List.filter_eq_self.2 fun _ _ => decide_eq_true fun hmem => hurl hmem.2
    show { s with ownedPreviews := _, objectUrls := _ } = s
    rw [howned, hurls]

theorem settled_of_localId (a : Attachment) : (settled loop uploaded a).id = .mediaId uploaded.id ∧
      (settled loop uploaded a).upload = a.upload := by
  unfold settled
  split <;> exact ⟨rfl, rfl⟩

/-- What an attachment shows when its upload has been answered. -/
theorem settled_previewSrc : (settled loop uploaded a).previewSrc = .object url ↔
      (∃ file, loop.source = .file file) ∧ loop.previewSrc = .object url ∧
        replacedPreview loop uploaded = [] := by
  unfold settled replacedPreview
  cases hsource : loop.source with
  | path path => simp
  | file file =>
    cases hpreview : loop.previewSrc with
    | remote src => cases hremote : remotePreview file uploaded <;> simp [hremote]
    | object other => cases hremote : remotePreview file uploaded <;> simp [hremote]

theorem mem_replacedPreview (h : url ∈ replacedPreview loop uploaded) :
    loop.previewSrc = .object url := by
  unfold replacedPreview at h
  split at h
  · next other _ hpreview =>
    split_ifs at h
    · rw [hpreview, List.mem_singleton.1 h]
    · cases h
  · cases h

/-- An upload that has not been given up is answered. -/
theorem Sound.settle (h : Sound maxAttachments initial s) (hin : InFlight s loop)
    (hn : loop.localId ∈ s.pendingSlots) (hothers : loop.localId ∉ s.loops.flatMap UploadLoop.ids) :
    Sound maxAttachments initial (s.settle loop uploaded) := by
  obtain ⟨-, a, ha, hid, hpreview⟩ := hin.pending hn
  have hsame : ∀ b ∈ s.attachments, b.id = .localId loop.localId → b = a :=
    fun b hb hidb => eq_of_localId h.apart hb ha hidb hid
  let f (b : Attachment) : Attachment :=
    if b.id = .localId loop.localId then settled loop uploaded b else b
  have hlocal : ∀ b n, (f b).id = .localId n → f b = b ∧ n ≠ loop.localId := by
    intro b n hfb
    by_cases hb : b.id = .localId loop.localId
    · have hf : f b = settled loop uploaded b := if_pos hb
      rw [hf, (settled_of_localId b).1] at hfb
      cases hfb
    · have hf : f b = b := if_neg hb
      rw [hf] at hfb
      exact ⟨hf, fun heq => hb (heq ▸ hfb)⟩
  have hobject : ∀ b ∈ s.attachments, ∀ url, (f b).previewSrc = .object url →
      b.previewSrc = .object url ∧ url ∉ replacedPreview loop uploaded := by
    intro b hb url hfb
    by_cases hidb : b.id = .localId loop.localId
    · have hf : f b = settled loop uploaded b := if_pos hidb
      rw [hf, settled_previewSrc] at hfb
      obtain ⟨-, hurl, hnone⟩ := hfb
      rw [hsame b hb hidb, hpreview, hnone]
      exact ⟨hurl, List.not_mem_nil⟩
    · have hf : f b = b := if_neg hidb
      rw [hf] at hfb
      refine ⟨hfb, fun hmem => hidb ?_⟩
      have hurl := mem_replacedPreview hmem
      rw [eq_of_object h.apart hb ha hfb (hpreview.trans hurl)]
      exact hid
  have hattachments : (s.settle loop uploaded).attachments = s.attachments.map f := rfl
  have hlisted : ∀ n, (s.settle loop uploaded).Listed n ↔ s.Listed n ∧ n ≠ loop.localId := by
    intro n
    constructor
    · rintro ⟨c, hc, hidc⟩
      obtain ⟨b, hb, rfl⟩ := List.mem_map.1 hc
      obtain ⟨hf, hne⟩ := hlocal b n hidc
      have hidb : (f b).id = .localId n := hidc
      rw [hf] at hidb
      exact ⟨⟨b, hb, hidb⟩, hne⟩
    · rintro ⟨⟨b, hb, hidb⟩, hne⟩
      have hf : f b = b := if_neg fun heq => hne (AttachmentId.localId.inj (hidb.symm.trans heq))
      exact ⟨f b, List.mem_map_of_mem hb, by rw [hf]; exact hidb⟩
  have hpending : ∀ n, n ∈ (s.settle loop uploaded).pendingSlots ↔
      n ∈ s.pendingSlots ∧ n ≠ loop.localId := by
    intro n
    show n ∈ s.pendingSlots.filter (· ≠ loop.localId) ↔ _
    rw [List.mem_filter, decide_eq_true_eq]
  refine
    { slots := ?_, capacity := h.capacity, pendingNodup := h.pendingNodup.filter _,
      pendingOld := fun n hn => h.pendingOld n ((hpending n).1 hn).1, listed := ?_, apart := ?_,
      state := rfl, own := ?_, urls := h.urls, owned := ?_, shown := ?_, rendered := ?_,
      old := h.old, revokeOld := ?_, inFlight := ?_, ids := h.ids, idsOld := h.idsOld }
  · have hunlisted : (s.settle loop uploaded).unlisted = s.unlisted := by
      show (s.pendingSlots.filter (· ≠ loop.localId)).filter _ = _
      rw [unlisted, List.filter_filter]
      refine List.filter_congr fun n _ => ?_
      rw [Bool.eq_iff_iff]
      simp only [Bool.and_eq_true, decide_eq_true_eq, hlisted, not_and_or, not_not]
      constructor
      · rintro ⟨hnot | heq, hne⟩
        · exact hnot
        · exact absurd heq hne
      · intro hnot
        refine ⟨.inl hnot, ?_⟩
        rintro rfl
        exact hnot ⟨a, ha, hid⟩
    rw [hunlisted, hattachments, List.length_map]
    exact h.slots
  · intro c hc n hidc
    obtain ⟨b, hb, rfl⟩ := List.mem_map.1 hc
    obtain ⟨hf, hne⟩ := hlocal b n hidc
    have hidb : (f b).id = .localId n := hidc
    rw [hf] at hidb
    exact (hpending n).2 ⟨h.listed b hb n hidb, hne⟩
  · rw [hattachments, List.pairwise_map]
    refine h.apart.imp_of_mem fun {b c} hb hc happart =>
      ⟨fun n hidb hidc => ?_, fun url hpb hpc => ?_⟩
    · have hfb := (hlocal b n hidb).1
      have hfc := (hlocal c n hidc).1
      rw [hfb] at hidb
      rw [hfc] at hidc
      exact happart.1 n hidb hidc
    · exact happart.2 url (hobject b hb url hpb).1 (hobject c hc url hpc).1
  · intro c hc acct generation hupload
    obtain ⟨b, hb, rfl⟩ := List.mem_map.1 hc
    refine h.own b hb acct generation (Eq.trans ?_ hupload)
    show b.upload = (f b).upload
    by_cases hidb : b.id = .localId loop.localId
    · have hf : f b = settled loop uploaded b := if_pos hidb
      rw [hf, (settled_of_localId b).2]
    · have hf : f b = b := if_neg hidb
      rw [hf]
  · intro c hc url hpc
    obtain ⟨b, hb, rfl⟩ := List.mem_map.1 hc
    obtain ⟨hurl, hnot⟩ := hobject b hb url hpc
    obtain ⟨howned, hrevoke⟩ := h.owned b hb url hurl
    exact ⟨howned, fun hmem => (List.mem_append.1 hmem).elim hrevoke hnot⟩
  · intro url hurl
    rcases h.shown url hurl with ⟨b, hb, hpb⟩ | hrevoke
    · by_cases hidb : b.id = .localId loop.localId
      · have hloop : loop.previewSrc = .object url := by rw [← hpreview, ← hsame b hb hidb, hpb]
        have hf : f b = settled loop uploaded b := if_pos hidb
        cases hsource : loop.source with
        | path path =>
          rw [hin.path path hsource] at hloop
          cases hloop
        | file file =>
          by_cases hnone : replacedPreview loop uploaded = []
          · refine .inl ⟨f b, List.mem_map_of_mem hb, ?_⟩
            rw [hf, settled_previewSrc]
            exact ⟨⟨file, hsource⟩, hloop, hnone⟩
          · refine .inr (List.mem_append_right _ ?_)
            obtain ⟨other, hother⟩ := List.exists_mem_of_ne_nil _ hnone
            have heq := hloop.symm.trans (mem_replacedPreview hother)
            rw [PreviewSrc.object.inj heq]
            exact hother
      · have hf : f b = b := if_neg hidb
        exact .inl ⟨f b, List.mem_map_of_mem hb, by rw [hf]; exact hpb⟩
    · exact .inr (List.mem_append_left _ hrevoke)
  · exact fun hfalse => by cases hfalse
  · intro url hurl
    rcases List.mem_append.1 hurl with hurl | hurl
    · exact h.revokeOld url hurl
    · exact hin.old url (mem_replacedPreview hurl)
  · intro other hother
    have hino := h.inFlight other hother
    have hne : other.localId ≠ loop.localId := fun heq =>
      hothers (List.mem_flatMap.2 ⟨other, hother, heq ▸ List.mem_cons_self⟩)
    refine { pending := ?_, gone := ?_, old := hino.old, path := hino.path, queued := ?_ }
    · intro hmem
      obtain ⟨⟨hgen, hacct, -⟩, b, hb, hidb, hpb⟩ := hino.pending ((hpending _).1 hmem).1
      have hf : f b = b := if_neg fun heq => hne (AttachmentId.localId.inj (hidb.symm.trans heq))
      refine ⟨⟨hgen, hacct, hmem⟩, f b, List.mem_map_of_mem hb, ?_⟩
      rw [hf]
      exact ⟨hidb, hpb⟩
    · exact fun hnot => hino.gone fun hmem => hnot ((hpending _).2 ⟨hmem, hne⟩)
    · exact fun n hn hlist => hino.queued n hn ((hlisted n).1 hlist).1

theorem Sound.completed (h : Sound maxAttachments initial s)
    (hstep : s.completed i uploaded = some t) : Sound maxAttachments initial t := by
  obtain ⟨loop, hloop, rfl⟩ := Option.map_eq_some_iff.1 hstep
  obtain ⟨hout, hqueued, hothers⟩ := h.takeOut hloop
  have hin : InFlight { s with loops := s.loops.eraseIdx i } loop :=
    let hin := h.inFlight loop (List.mem_of_getElem? hloop)
    ⟨hin.pending, hin.gone, hin.old, hin.path, hin.queued⟩
  dsimp only
  by_cases hn : loop.localId ∈ s.pendingSlots
  · rw [if_pos (hin.pending hn).1]
    refine (hout.settle hin hn hothers).resume
      ⟨hqueued.nodup, hqueued.old, fun n hn' hlisted => ?_, hqueued.fresh⟩
    obtain ⟨b, hb, hidb⟩ := hlisted
    obtain ⟨c, hc, rfl⟩ := List.mem_map.1 hb
    split_ifs at hidb with hidc
    · rw [(settled_of_localId c).1] at hidb
      cases hidb
    · exact hqueued.unlisted n hn' ⟨c, hc, hidb⟩
  · rw [if_neg fun hcurrent => hn hcurrent.2.2, revokeOwnedPreview_of_gone (hin.gone hn)]
    exact hout.resume hqueued

theorem perm_filter_localId (h : l.Pairwise Apart) (ha : a ∈ l) (hid : a.id = .localId n) :
    (a :: l.filter fun b => b.id ≠ .localId n).Perm l := by
  induction l with
  | nil => cases ha
  | cons b l ih =>
    obtain ⟨hb, hl⟩ := List.pairwise_cons.1 h
    by_cases hidb : b.id = .localId n
    · have hrest : l.filter (fun b => b.id ≠ AttachmentId.localId n) = l :=
        List.filter_eq_self.2 fun c hc => decide_eq_true ((hb c hc).1 n hidb)
      rw [List.filter_cons_of_neg (by simpa using hidb), hrest,
        eq_of_localId h ha List.mem_cons_self hid hidb]
    · have hmem : a ∈ l := (List.mem_cons.1 ha).resolve_left fun heq => hidb (heq ▸ hid)
      rw [List.filter_cons_of_pos (by simpa using hidb)]
      exact (List.Perm.swap _ _ _).trans ((ih hl hmem).cons b)

/-- The upload of an attachment fails. -/
theorem Sound.release (h : Sound maxAttachments initial s) (hin : InFlight s loop)
    (hn : loop.localId ∈ s.pendingSlots) :
    let s' := (s.revokeOwnedPreview loop.previewSrc).releasePendingSlot loop.localId
    Sound maxAttachments initial
      (s'.setAttachments (s'.attachments.filter (·.id ≠ .localId loop.localId))) := by
  obtain ⟨-, a, ha, hid, hpreview⟩ := hin.pending hn
  have hpending : s.pendingSlots.filter (· ≠ loop.localId) =
      s.pendingSlots.filter fun n => ∀ b ∈ [a], b.id ≠ AttachmentId.localId n := by
    refine List.filter_congr fun n _ => ?_
    rw [Bool.eq_iff_iff]
    simp only [decide_eq_true_eq, List.forall_mem_singleton, hid, ne_eq,
      AttachmentId.localId.injEq]
    exact not_congr eq_comm
  have hrevoke : s.previewsPendingRevoke =
      s.previewsPendingRevoke.filter fun url =>
        ∀ b ∈ [a], b.previewSrc ≠ PreviewSrc.object url := by
    refine (List.filter_eq_self.2 fun url hurl => ?_).symm
    simp only [decide_eq_true_eq, List.forall_mem_singleton]
    exact fun hpa => (h.owned a ha url hpa).2 hurl
  obtain ⟨urls, hrevoked, hurls⟩ := exists_revokeOwnedPreview s loop.previewSrc
  have howned : (s.ownedPreviews.filter fun url => loop.previewSrc ≠ PreviewSrc.object url) =
      s.ownedPreviews.filter fun url => ∀ b ∈ [a], b.previewSrc ≠ PreviewSrc.object url := by
    refine List.filter_congr fun url _ => ?_
    rw [Bool.eq_iff_iff]
    simp only [decide_eq_true_eq, List.forall_mem_singleton, hpreview]
  have hdropped : Dropped [a] s { s.revokeOwnedPreview loop.previewSrc with
      pendingSlots := s.pendingSlots.filter (· ≠ loop.localId) } := by
    rw [hrevoked]
    exact ⟨⟨_, _, _, _, rfl⟩, hpending, howned, hrevoke, hurls⟩
  have hreleased := h.dropOne hdropped (perm_filter_localId h.apart ha hid)
  rw [hrevoked] at hreleased ⊢
  dsimp only [releasePendingSlot]
  rw [if_pos hn]
  exact hreleased

theorem Sound.failed (h : Sound maxAttachments initial s) (hstep : s.failed i = some t) :
    Sound maxAttachments initial t := by
  obtain ⟨loop, hloop, rfl⟩ := Option.map_eq_some_iff.1 hstep
  obtain ⟨hout, hqueued, -⟩ := h.takeOut hloop
  have hin : InFlight { s with loops := s.loops.eraseIdx i } loop :=
    let hin := h.inFlight loop (List.mem_of_getElem? hloop)
    ⟨hin.pending, hin.gone, hin.old, hin.path, hin.queued⟩
  dsimp only
  by_cases hn : loop.localId ∈ s.pendingSlots
  · rw [if_pos (hin.pending hn).1]
    obtain ⟨urls, hrevoked, -⟩ :=
      exists_revokeOwnedPreview { s with loops := s.loops.eraseIdx i } loop.previewSrc
    have hreleased := hout.release hin hn
    rw [hrevoked] at hreleased ⊢
    dsimp only [releasePendingSlot] at hreleased ⊢
    rw [if_pos hn] at hreleased ⊢
    refine hreleased.resume ⟨hqueued.nodup, hqueued.old, fun n hn' hlisted => ?_, hqueued.fresh⟩
    obtain ⟨b, hb, hidb⟩ := hlisted
    exact hqueued.unlisted n hn' ⟨b, List.mem_of_mem_filter hb, hidb⟩
  · rw [if_neg fun hcurrent => hn hcurrent.2.2, revokeOwnedPreview_of_gone (hin.gone hn),
      releasePendingSlot, if_neg hn]
    exact hout.resume hqueued

/-! ### Steps -/

/-- Everything is given up. -/
theorem Sound.clear (h : Sound maxAttachments initial s) (activeAcct : Option Str) :
    Sound maxAttachments initial ({ s with activeAcct }.clear) where
  slots := rfl
  capacity := Nat.zero_le _
  pendingNodup := .nil
  pendingOld _ hn := by cases hn
  listed _ ha := by cases ha
  apart := .nil
  state := rfl
  own _ ha := by cases ha
  urls := by
    show s.objectUrls.filter (· ∉ s.ownedPreviews) = []
    rw [h.urls]
    exact List.filter_eq_nil_iff.2 fun url hurl => by simpa using hurl
  owned _ ha := by cases ha
  shown _ hurl := by cases hurl
  rendered _ := rfl
  old _ hurl := by cases hurl
  revokeOld _ hurl := by cases hurl
  inFlight loop hloop :=
    { pending := fun hn => by cases hn
      gone := fun _ _ _ hurl => by cases hurl
      old := (h.inFlight loop hloop).old
      path := (h.inFlight loop hloop).path
      queued := fun _ _ hlisted => by obtain ⟨_, ha, _⟩ := hlisted; cases ha }
  ids := h.ids
  idsOld := h.idsOld

/-- What revoking several object URLs leaves. -/
theorem foldl_revokeUrl (revoked : List ℕ) (s : MediaQueue) :
    ∃ urls, revoked.foldl revokeUrl s = { s with
        ownedPreviews := s.ownedPreviews.filter (· ∉ revoked), objectUrls := urls } ∧
      (s.objectUrls = s.ownedPreviews → urls = s.ownedPreviews.filter (· ∉ revoked)) := by
  induction revoked generalizing s with
  | nil =>
    have hall : s.ownedPreviews.filter (· ∉ ([] : List ℕ)) = s.ownedPreviews :=
      List.filter_eq_self.2 fun _ _ => by simp
    rw [hall]
    exact ⟨s.objectUrls, rfl, id⟩
  | cons url revoked ih =>
    obtain ⟨urls, heq, hurls⟩ := ih (s.revokeUrl url)
    have hboth : (s.revokeUrl url).ownedPreviews.filter (· ∉ revoked) =
        s.ownedPreviews.filter (· ∉ url :: revoked) := by
      show (s.ownedPreviews.filter _).filter _ = _
      rw [List.filter_filter]
      refine List.filter_congr fun other _ => ?_
      rw [Bool.eq_iff_iff]
      simp only [Bool.and_eq_true, decide_eq_true_eq, List.mem_cons, not_or]
      exact and_comm
    rw [hboth] at heq hurls
    refine ⟨urls, heq, fun hsame => hurls ?_⟩
    show s.objectUrls.filter _ = s.ownedPreviews.filter _
    rw [hsame]
    refine List.filter_congr fun other hother => ?_
    rw [Bool.eq_iff_iff]
    simp only [decide_eq_true_eq, not_and]
    exact ⟨fun hmem heq => hmem heq (heq ▸ hother), fun hne heq => absurd heq hne⟩

theorem Sound.layoutEffect (h : Sound maxAttachments initial s) :
    Sound maxAttachments initial s.layoutEffect := by
  unfold MediaQueue.layoutEffect
  split_ifs
  · obtain ⟨urls, heq, hurls⟩ :=
      foldl_revokeUrl s.previewsPendingRevoke { s with attachments := s.state }
    have hmem : ∀ url, url ∈ s.ownedPreviews.filter (· ∉ s.previewsPendingRevoke) ↔
        url ∈ s.ownedPreviews ∧ url ∉ s.previewsPendingRevoke := by
      intro url
      rw [List.mem_filter, decide_eq_true_eq]
    rw [heq, h.state]
    exact
      { h with
        state := rfl
        urls := hurls h.urls
        owned := fun a ha url hpreview =>
          ⟨(hmem url).2 (h.owned a ha url hpreview), List.not_mem_nil⟩
        shown := fun url hurl => .inl ((h.shown url ((hmem url).1 hurl).1).resolve_right
          ((hmem url).1 hurl).2)
        rendered := fun _ => rfl
        old := fun url hurl => h.old url ((hmem url).1 hurl).1
        revokeOld := fun _ hurl => by cases hurl
        inFlight := fun loop hloop =>
          let hin := h.inFlight loop hloop
          ⟨hin.pending, fun hn url hpreview hurl =>
            hin.gone hn url hpreview ((hmem url).1 hurl).1, hin.old, hin.path, hin.queued⟩ }
  · exact h

theorem moveQueueItem_perm (items : List Attachment) (source target : ℕ) :
    (moveQueueItem items source target).Perm items := by
  unfold moveQueueItem
  split_ifs with hsame
  · exact .refl _
  · split
    · exact .refl _
    · next item hitem =>
      obtain ⟨hsource, rfl⟩ := List.getElem?_eq_some_iff.1 hitem
      have hle : target ≤ (items.eraseIdx source).length := by
        rw [List.length_eraseIdx_of_lt hsource]
        omega
      exact (List.perm_insertIdx _ _ hle).trans (List.getElem_cons_eraseIdx_perm hsource)

/-- `replaceWithIds` is called while it forgets something. -/
def misses (s : MediaQueue) : Label → Bool
  | .replaceWithIds ids => s.forgets ids
  | .applyPluginMediaIds current ids => s.takesPluginMediaIds current ids && s.forgets ids
  | _ => false

def calmStep (maxAttachments : ℕ) (s : MediaQueue) (label : Label) : Option MediaQueue :=
  if s.misses label then none else s.step maxAttachments label

theorem step_of_calmStep (h : s.calmStep maxAttachments label = some t) :
    s.misses label = false ∧ s.step maxAttachments label = some t := by
  unfold calmStep at h
  split_ifs at h with hmisses
  exact ⟨by simpa using hmisses, h⟩

theorem Sound.step (h : Sound maxAttachments initial s)
    (hstep : s.calmStep maxAttachments label = some t) : Sound maxAttachments initial t := by
  obtain ⟨hcalm, hstep⟩ := step_of_calmStep hstep
  cases label with
  | uploadFiles render files =>
    cases hstep
    exact h.upload render _
  | uploadDroppedPaths render paths =>
    cases hstep
    exact h.upload render _
  | progress i =>
    obtain ⟨loop, -, hprogress⟩ := Option.bind_eq_some_iff.1 hstep
    split at hprogress
    · cases hprogress
    · split_ifs at hprogress
      · cases hprogress
        exact h.permute (.refl _)
      · cases hprogress
        exact h
  | completed i uploaded => exact h.completed hstep
  | failed i => exact h.failed hstep
  | remove index =>
    cases hstep
    exact h.remove index
  | move source target =>
    cases hstep
    unfold MediaQueue.move
    split_ifs
    · exact h
    · exact h.permute (moveQueueItem_perm _ _ _)
  | replaceWithIds ids =>
    cases hstep
    exact h.replaceWithIds hcalm
  | applyPluginMediaIds current ids =>
    cases hstep
    unfold MediaQueue.applyPluginMediaIds
    split_ifs with htakes
    · refine h.replaceWithIds ?_
      simpa [misses, htakes] using hcalm
    · exact h
  | clear =>
    cases hstep
    exact h.clear s.activeAcct
  | accountEffect activeAcct =>
    cases hstep
    unfold MediaQueue.accountEffect
    split_ifs
    · exact h
    · exact h.clear activeAcct
  | layoutEffect =>
    cases hstep
    exact h.layoutEffect

/-! ### Runs -/

theorem sound_create (maxAttachments : ℕ) (activeAcct : Option Str)
    (initialAttachments : List InitialAttachment) :
    Sound maxAttachments initialAttachments.length (create activeAcct initialAttachments) := by
  have hmem : ∀ a ∈ (create activeAcct initialAttachments).attachments,
      (∃ id, a.id = .mediaId id) ∧ (∃ src, a.previewSrc = .remote src) ∧ a.upload = none := by
    intro a ha
    obtain ⟨initial, -, rfl⟩ := List.mem_map.1 ha
    exact ⟨⟨_, rfl⟩, ⟨_, rfl⟩, rfl⟩
  have hlocal : ∀ a ∈ (create activeAcct initialAttachments).attachments, ∀ n,
      a.id ≠ .localId n := by
    intro a ha n hid
    obtain ⟨⟨id, hmedia⟩, -⟩ := hmem a ha
    rw [hmedia] at hid
    cases hid
  have hobject : ∀ a ∈ (create activeAcct initialAttachments).attachments, ∀ url,
      a.previewSrc ≠ .object url := by
    intro a ha url hpreview
    obtain ⟨-, ⟨src, hremote⟩, -⟩ := hmem a ha
    rw [hremote] at hpreview
    cases hpreview
  exact
    { slots := rfl
      capacity := by
        show (initialAttachments.map _).length ≤ _
        rw [List.length_map]
        exact le_max_right _ _
      pendingNodup := .nil
      pendingOld := fun _ hn => by cases hn
      listed := fun a ha n hid => absurd hid (hlocal a ha n)
      apart := List.pairwise_of_forall_mem_list fun a ha b _ =>
        ⟨fun n hid => absurd hid (hlocal a ha n), fun url hp => absurd hp (hobject a ha url)⟩
      state := rfl
      own := fun a ha acct generation hupload => by
        rw [(hmem a ha).2.2] at hupload
        cases hupload
      urls := rfl
      owned := fun a ha url hp => absurd hp (hobject a ha url)
      shown := fun _ hurl => by cases hurl
      rendered := fun _ => rfl
      old := fun _ hurl => by cases hurl
      revokeOld := fun _ hurl => by cases hurl
      inFlight := fun _ hloop => by cases hloop
      ids := .nil
      idsOld := fun _ hn => by cases hn }

/-- The media queue keeps its accounts as long as `replaceWithIds` forgets nothing. -/
theorem balanced_of_run {activeAcct : Option Str} {initialAttachments : List InitialAttachment}
    {labels : List Label}
    (hrun : Runs.Run (fun s label t => s.calmStep maxAttachments label = some t)
      (create activeAcct initialAttachments) labels s) :
    Balanced maxAttachments initialAttachments.length s := by
  have hsound : Sound maxAttachments initialAttachments.length s :=
    hrun.invariant (sound_create maxAttachments activeAcct initialAttachments)
      fun h hstep => h.step hstep
  exact hsound.balanced

/-! ### Uploads that are forgotten -/

def render : Render := { activeAcct := some "me".toList, editing := false, uploadSupported := true }

def restored (id : String) : InitialAttachment :=
  { id := id.toList, filename := "photo.png".toList, previewSrc := "https://media/photo".toList
    mediaType := "image".toList }

def answer (id : String) : Uploaded :=
  { id := id.toList, url := none, remoteUrl := none, previewUrl := some "https://media/new".toList
    mediaType := some "image".toList, type := none }

/-- A file is uploaded, and a plugin button then takes another order. -/
def reorderLabels : List Label :=
  [.uploadFiles render [⟨"cat.png".toList, "image/png".toList⟩], .completed 0 (answer "2"),
    .layoutEffect,
    .applyPluginMediaIds [.mediaId "1".toList, .mediaId "2".toList]
      [.mediaId "2".toList, .mediaId "1".toList]]

theorem balanced_reorder : ∃ s, Balanced 4 1 s := by
  have hsome : (reorderLabels.foldlM (calmStep 4)
      (create (some "me".toList) [restored "1"])).isSome = true := by decide +kernel
  exact ⟨_, balanced_of_run (Runs.run_iff_foldlM.2 (Option.some_get hsome).symm)⟩

/-- Of two files that are dropped the first one is taken away while it is uploaded, a plugin button
takes another order, and two more files are dropped. -/
def forgottenLabels : List Label :=
  [.uploadDroppedPaths render ["/a".toList, "/b".toList], .remove 2,
    .applyPluginMediaIds [.mediaId "1".toList, .mediaId "2".toList]
      [.mediaId "2".toList, .mediaId "1".toList],
    .failed 0, .uploadDroppedPaths render ["/c".toList, "/d".toList], .completed 1 (answer "3")]

theorem isSome_forgotten : (forgottenLabels.foldlM (fun (s : MediaQueue) label => s.step 4 label)
    (create (some "me".toList) [restored "1", restored "2"])).isSome = true := by
  decide +kernel

def forgotten : MediaQueue := (forgottenLabels.foldlM (fun (s : MediaQueue) label => s.step 4 label)
  (create (some "me".toList) [restored "1", restored "2"])).get isSome_forgotten

/-- There are five attachments in four slots. -/
theorem not_balanced : ¬ ∀ (maxAttachments : ℕ) (activeAcct : Option Str)
    (initialAttachments : List InitialAttachment) (labels : List Label) (s : MediaQueue),
    Runs.Run (fun s label t => s.step maxAttachments label = some t)
        (create activeAcct initialAttachments) labels s →
      Balanced maxAttachments initialAttachments.length s := by
  intro h
  have hbalanced := h 4 (some "me".toList) [restored "1", restored "2"] forgottenLabels forgotten
    (Runs.run_iff_foldlM.2 (Option.some_get isSome_forgotten).symm)
  exact absurd hbalanced.capacity (by decide +kernel)

end Awayuki.Compose.MediaQueue
