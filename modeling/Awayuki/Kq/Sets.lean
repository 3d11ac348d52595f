import Awayuki.Library.Collect
import Awayuki.Kq.Value

/-!
# KQ: sets

Membership in a set literal and in a sum of sets.  A set is collected with `scalarEqual`, which
compares texts without regard to case but a text with an identity verbatim, and so is not
transitive: `"A"` keeps `"a"` out of a set, and the identity `a` equals only the latter.

`Lost` says, by the order in which the spellings come, which scalars a set loses so.
-/

namespace Awayuki.Kq

open Collect (has collect)

/-! ### Equality of scalars -/

/-- The characters of a scalar. -/
def ScalarValue.spelling : ScalarValue → Str
  | .number value => numberText value
  | .text value | .identity value => value

theorem toDigits_injective : Function.Injective (Nat.toDigits 10) := by
  intro m n h
  have hread : ∀ k : ℕ, Nat.ofDigitChars 10 (Nat.toDigits 10 k) 0 = k := fun k =>
    Nat.ofDigitChars_ten_toDigits
  rw [← hread m, h, hread]

theorem numberText_ofNat (n : ℕ) : numberText (.ofNat n) = Nat.toDigits 10 n := by
  simp [numberText, toString, Int.repr]

theorem numberText_negSucc (n : ℕ) : numberText (.negSucc n) = '-' :: Nat.toDigits 10 (n + 1) := by
  simp [numberText, toString, Int.repr]

/-- No number without a sign is written like one that has it. -/
theorem toDigits_ne_minus (m : ℕ) (s : Str) : Nat.toDigits 10 m ≠ '-' :: s := by
  intro h
  have hminus : '-' ∈ Nat.toDigits 10 m := by rw [h]; exact List.mem_cons_self
  have hdigit := Nat.isDigit_of_mem_toDigits (by decide) (by decide) hminus
  exact absurd hdigit (by decide)

theorem numberText_injective : Function.Injective numberText := by
  intro m n h
  cases m with
  | ofNat m =>
    cases n with
    | ofNat n =>
      rw [numberText_ofNat, numberText_ofNat] at h
      rw [toDigits_injective h]
    | negSucc n =>
      rw [numberText_ofNat, numberText_negSucc] at h
      exact absurd h (toDigits_ne_minus m _)
  | negSucc m =>
    cases n with
    | ofNat n =>
      rw [numberText_ofNat, numberText_negSucc] at h
      exact absurd h.symm (toDigits_ne_minus n _)
    | negSucc n =>
      rw [numberText_negSucc, numberText_negSucc] at h
      have hsucc := toDigits_injective (List.cons.inj h).2
      rw [Nat.succ.inj hsucc]

section

variable [Icu]

theorem scalarEqual_refl (e : ScalarValue) : scalarEqual e e = true := by
  cases e with
  | number n => exact beq_self_eq_true n
  | text t => exact selectorEqual_refl t
  | identity a => exact beq_self_eq_true a

theorem scalarEqual_comm (e f : ScalarValue) : scalarEqual e f = scalarEqual f e := by
  cases e <;> cases f
  case text.text t u => exact selectorEqual_comm t u
  case number.number m n => exact Bool.beq_comm
  case identity.identity a b => exact Bool.beq_comm
  all_goals rfl

/-- An identity equals what is spelled as it is. -/
theorem scalarEqual_identity {e : ScalarValue} {a : Str} :
    scalarEqual e (.identity a) = true ↔ e.spelling = a := by
  cases e with
  | number n =>
    show (a == numberText n) = true ↔ numberText n = a
    rw [beq_iff_eq]
    exact eq_comm
  | text t =>
    show (a == t) = true ↔ t = a
    rw [beq_iff_eq]
    exact eq_comm
  | identity b =>
    show (b == a) = true ↔ b = a
    rw [beq_iff_eq]

theorem scalarEqual_number {e : ScalarValue} {n : ℤ} :
    scalarEqual e (.number n) = true ↔ e = .number n ∨ e = .identity (numberText n) := by
  cases e <;> simp [scalarEqual]

theorem scalarEqual_text {e : ScalarValue} {t : Str} :
    scalarEqual e (.text t) = true ↔
      (∃ u, e = .text u ∧ selectorEqual u t = true) ∨ e = .identity t := by
  cases e <;> simp [scalarEqual, identityEqual]

/-! ### Scalars that come into a set -/

/-- The first of the items with the given characters. -/
def firstSpelled (items : List ScalarValue) (u : Str) : Option ScalarValue :=
  items.find? fun e => e.spelling == u

/-- An identity with these characters comes into the set before any other scalar with them. -/
def heldByIdentity (base items : List ScalarValue) (u : Str) : Bool :=
  base.contains (.identity u) ||
    base.all (·.spelling != u) && firstSpelled items u == some (.identity u)

/-- Is the scalar a text that equals `c` and that no identity keeps out? -/
def opens (base items : List ScalarValue) (c : Str) : ScalarValue → Bool
  | .text u => selectorEqual u c && !heldByIdentity base items u
  | _ => false

/-- The text by which a set has `c`: the first that no identity keeps out. -/
def keptText (base items : List ScalarValue) (c : Str) : Option ScalarValue :=
  items.find? (opens base items c)

/-- Does the set have a text that equals `c`? -/
def hasText (values : List ScalarValue) (c : Str) : Bool :=
  values.any fun e => match e with
    | .text u => selectorEqual u c
    | _ => false

variable {base items before after : List ScalarValue} {e x : ScalarValue} {a c t u w : Str}

theorem hasText_iff : hasText base c = true ↔ ∃ u, .text u ∈ base ∧ selectorEqual u c = true := by
  rw [hasText, List.any_eq_true]
  constructor
  · rintro ⟨e, he, hec⟩
    cases e with
    | text u => exact ⟨u, he, hec⟩
    | number n => exact absurd hec Bool.false_ne_true
    | identity a => exact absurd hec Bool.false_ne_true
  · rintro ⟨u, hu, huc⟩
    exact ⟨.text u, hu, huc⟩

theorem hasText_eq_false :
    hasText base c = false ↔ ∀ u, .text u ∈ base → selectorEqual u c = false := by
  rw [← Bool.not_eq_true, hasText_iff]
  simp

theorem opens_text : opens base items c (.text u) = true ↔
    selectorEqual u c = true ∧ heldByIdentity base items u = false := by
  simp [opens]

theorem exists_text_of_opens (h : opens base items c e = true) : ∃ u, e = .text u := by
  cases e with
  | text u => exact ⟨u, rfl⟩
  | number n => exact absurd h Bool.false_ne_true
  | identity a => exact absurd h Bool.false_ne_true

/-- Two members of the result that equal each other, of which the base has neither, are one. -/
theorem eq_of_mem (hx : x ∈ collect scalarEqual base items)
    (he : e ∈ collect scalarEqual base items) (hxbase : x ∉ base) (hebase : e ∉ base)
    (hsame : scalarEqual x e = true) : x = e :=
  Collect.eq_of_mem_collect scalarEqual_comm hx he hxbase hebase hsame

/-! ### Identities in the result -/

omit [Icu] in
theorem heldByIdentity_iff : heldByIdentity base items u = true ↔ .identity u ∈ base ∨
    (∀ e ∈ base, e.spelling ≠ u) ∧ firstSpelled items u = some (.identity u) := by
  simp [heldByIdentity]

omit [Icu] in
theorem firstSpelled_mono (h : firstSpelled before u = some e) :
    firstSpelled (before ++ after) u = some e := by
  rw [firstSpelled] at h ⊢
  rw [List.find?_append, h]
  rfl

omit [Icu] in
theorem heldByIdentity_mono (after : List ScalarValue)
    (h : heldByIdentity base before u = true) :
    heldByIdentity base (before ++ after) u = true := by
  rw [heldByIdentity_iff] at h ⊢
  exact h.imp_right fun hfirst => ⟨hfirst.1, firstSpelled_mono hfirst.2⟩

/-- Up to the first scalar spelled `u`, no member of the result is spelled so. -/
theorem spelling_ne_of_firstSpelled (hbase : ∀ e ∈ base, e.spelling ≠ u)
    (hbefore : ∀ e ∈ before, ¬ (e.spelling == u) = true)
    (he : e ∈ collect scalarEqual base before) : e.spelling ≠ u := by
  rcases Collect.mem_collect he with he | he
  · exact hbase e he
  · simpa using hbefore e he

/-- Such an identity is in the result. -/
theorem identity_mem_of_held (h : heldByIdentity base items u = true) :
    .identity u ∈ collect scalarEqual base items := by
  rcases heldByIdentity_iff.1 h with h | ⟨hbase, hfirst⟩
  · exact Collect.base_subset_collect h
  · rw [firstSpelled, List.find?_eq_some_iff_append] at hfirst
    obtain ⟨-, before, after, rfl, hbefore⟩ := hfirst
    refine Collect.mem_collect_of_split ?_
    rw [← Bool.not_eq_true]
    intro hhas
    obtain ⟨e, he, hequal⟩ := Collect.has_iff.1 hhas
    exact spelling_ne_of_firstSpelled hbase (by simpa using hbefore) he
      (scalarEqual_identity.1 hequal)

/-- Such an identity keeps the text with its characters out. -/
theorem text_mem_base_of_held (h : heldByIdentity base items u = true)
    (htext : .text u ∈ collect scalarEqual base items) : .text u ∈ base := by
  by_contra hbase
  have hidentity := identity_mem_of_held h
  have hsame : scalarEqual (.text u) (.identity u) = true := scalarEqual_identity.2 rfl
  by_cases hin : .identity u ∈ base
  · rcases Collect.exists_split_of_mem_collect htext with htext | ⟨before, after, -, hnew⟩
    · exact hbase htext
    · have hhas : has scalarEqual (collect scalarEqual base before) (.text u) = true :=
        Collect.has_iff.2 ⟨.identity u, Collect.base_subset_collect hin,
          scalarEqual_text.2 (Or.inr rfl)⟩
      rw [hnew] at hhas
      exact Bool.false_ne_true hhas
  · have heq := eq_of_mem htext hidentity hbase hin hsame
    cases heq

/-- An identity in the result is the first with its characters, unless a text that equals them is
in the result as well. -/
theorem held_or_hasText_of_mem (h : .identity u ∈ collect scalarEqual base items) :
    heldByIdentity base items u = true ∨
      hasText (collect scalarEqual base items) u = true := by
  rcases Collect.exists_split_of_mem_collect h with h | ⟨before, after, rfl, hnew⟩
  · exact Or.inl (heldByIdentity_iff.2 (Or.inl h))
  have hnone : ∀ e ∈ collect scalarEqual base before, e.spelling ≠ u := by
    intro e he hspelling
    have hhas : has scalarEqual (collect scalarEqual base before) (.identity u) = true :=
      Collect.has_iff.2 ⟨e, he, scalarEqual_identity.2 hspelling⟩
    rw [hnew] at hhas
    exact Bool.false_ne_true hhas
  have hbase : ∀ e ∈ base, e.spelling ≠ u := fun e he =>
    hnone e (Collect.base_subset_collect he)
  cases hfirst : firstSpelled before u with
  | none =>
    left
    refine heldByIdentity_iff.2 (Or.inr ⟨hbase, ?_⟩)
    rw [firstSpelled] at hfirst ⊢
    rw [List.find?_append, hfirst]
    simp [ScalarValue.spelling]
  | some e =>
    right
    rw [firstSpelled, List.find?_eq_some_iff_append] at hfirst
    obtain ⟨hspelling, first, second, rfl, hbefore⟩ := hfirst
    have hspelled : e.spelling = u := by simpa using hspelling
    rcases Collect.mem_or_has_of_split scalarEqual base (rfl : first ++ e :: second = _) with he | hhas
    · exact absurd hspelled (hnone e he)
    obtain ⟨k, hk, hequal⟩ := Collect.has_iff.1 hhas
    have hkspelling : k.spelling ≠ u :=
      spelling_ne_of_firstSpelled hbase (by simpa using hbefore) hk
    -- what kept it out is spelled otherwise, so that both are texts
    cases e with
    | number n =>
      rcases scalarEqual_number.1 hequal with rfl | rfl
      · exact absurd hspelled hkspelling
      · exact absurd hspelled hkspelling
    | identity a => exact absurd ((scalarEqual_identity.1 hequal).trans hspelled) hkspelling
    | text t =>
      rcases scalarEqual_text.1 hequal with ⟨w, rfl, hw⟩ | rfl
      · refine hasText_iff.2 ⟨w, ?_, ?_⟩
        · rw [List.append_assoc]
          exact Collect.collect_subset_append hk
        · rw [← hspelled]
          exact hw
      · exact absurd hspelled hkspelling

/-! ### Texts in the result -/

/-- Of the texts that equal each other, the result has one at most. -/
theorem text_eq_of_mem (hbase : hasText base c = false)
    (hu : .text u ∈ collect scalarEqual base items) (huc : selectorEqual u c = true)
    (hw : .text w ∈ collect scalarEqual base items) (hwc : selectorEqual w c = true) : u = w := by
  have hnone : ∀ t, selectorEqual t c = true → .text t ∉ base := by
    intro t ht hmem
    rw [hasText_eq_false.1 hbase t hmem] at ht
    exact Bool.false_ne_true ht
  have hsame : scalarEqual (.text u) (.text w) = true :=
    selectorEqual_trans huc ((selectorEqual_comm c w).trans hwc)
  have heq := eq_of_mem hu hw (hnone u huc) (hnone w hwc) hsame
  exact ScalarValue.text.inj heq

theorem text_mem_of_keptText (hbase : hasText base c = false)
    (h : keptText base items c = some (.text u)) :
    .text u ∈ collect scalarEqual base items ∧ selectorEqual u c = true := by
  rw [keptText, List.find?_eq_some_iff_append] at h
  obtain ⟨hopens, before, after, hitems, hbefore⟩ := h
  obtain ⟨huc, hheld⟩ := opens_text.1 hopens
  refine ⟨?_, huc⟩
  have hno : ∀ w, selectorEqual w c = true → .text w ∉ collect scalarEqual base before := by
    intro w hwc hw
    have hwbase : .text w ∉ base := by
      intro hmem
      rw [hasText_eq_false.1 hbase w hmem] at hwc
      exact Bool.false_ne_true hwc
    have hwbefore := (Collect.mem_collect hw).resolve_left hwbase
    have hclosed : ¬ opens base items c (.text w) = true := by simpa using hbefore _ hwbefore
    rw [opens_text, not_and, Bool.not_eq_false] at hclosed
    apply hwbase
    refine text_mem_base_of_held (hclosed hwc) ?_
    rw [hitems]
    exact Collect.collect_subset_append hw
  rcases Collect.mem_or_has_of_split scalarEqual base hitems with hu | hhas
  · exact hu
  exfalso
  obtain ⟨k, hk, hequal⟩ := Collect.has_iff.1 hhas
  rcases scalarEqual_text.1 hequal with ⟨w, rfl, hw⟩ | rfl
  · exact hno w (selectorEqual_trans hw huc) hk
  · rcases held_or_hasText_of_mem hk with hheldbefore | htext
    · have hheldall := heldByIdentity_mono (.text u :: after) hheldbefore
      rw [← hitems, hheld] at hheldall
      exact Bool.false_ne_true hheldall
    · obtain ⟨w, hw, hwu⟩ := hasText_iff.1 htext
      exact hno w (selectorEqual_trans hwu huc) hw

/-- The text by which the result has `c`, if the base has none. -/
theorem text_mem_iff (hbase : hasText base c = false) :
    .text u ∈ collect scalarEqual base items ∧ selectorEqual u c = true ↔
      keptText base items c = some (.text u) := by
  constructor
  · rintro ⟨hu, huc⟩
    have hubase : .text u ∉ base := by
      intro hmem
      rw [hasText_eq_false.1 hbase u hmem] at huc
      exact Bool.false_ne_true huc
    have huitems := (Collect.mem_collect hu).resolve_left hubase
    have hopens : opens base items c (.text u) = true := by
      rw [opens_text]
      refine ⟨huc, ?_⟩
      by_contra hheld
      exact hubase (text_mem_base_of_held (by simpa using hheld) hu)
    cases hkept : keptText base items c with
    | none =>
      rw [keptText, List.find?_eq_none] at hkept
      exact absurd hopens (hkept _ huitems)
    | some e =>
      obtain ⟨w, rfl⟩ := exists_text_of_opens (List.find?_some hkept)
      obtain ⟨hw, hwc⟩ := text_mem_of_keptText hbase hkept
      rw [text_eq_of_mem hbase hw hwc hu huc]
  · exact text_mem_of_keptText hbase

theorem hasText_collect_iff (items : List ScalarValue) (hbase : hasText base c = false) :
    hasText (collect scalarEqual base items) c = true ↔ keptText base items c ≠ none := by
  rw [hasText_iff]
  constructor
  · rintro ⟨u, hu, huc⟩
    rw [(text_mem_iff hbase).1 ⟨hu, huc⟩]
    exact Option.some_ne_none _
  · intro hkept
    obtain ⟨e, he⟩ := Option.ne_none_iff_exists'.1 hkept
    obtain ⟨u, rfl⟩ := exists_text_of_opens (List.find?_some he)
    exact ⟨u, (text_mem_iff hbase).2 he⟩

/-- A text that equals one of the base comes not in. -/
theorem text_mem_base_of_hasText (hbase : hasText base u = true)
    (hu : .text u ∈ collect scalarEqual base items) : .text u ∈ base := by
  obtain ⟨w, hw, hwu⟩ := hasText_iff.1 hbase
  rcases Collect.exists_split_of_mem_collect hu with hu | ⟨before, after, -, hnew⟩
  · exact hu
  · have hhas : has scalarEqual (collect scalarEqual base before) (.text u) = true :=
      Collect.has_iff.2 ⟨.text w, Collect.base_subset_collect hw, hwu⟩
    rw [hnew] at hhas
    exact absurd hhas Bool.false_ne_true

/-! ### What a set loses -/

/-- A scalar that equals one of the items collected on top of `base` and none of the result. -/
def Lost (base items : List ScalarValue) (x : ScalarValue) : Prop :=
  has scalarEqual base x = false ∧
    match x with
    -- only texts are spelled so, and the text kept instead of them is another
    | .identity a => .text a ∈ items ∧ (∀ e ∈ items, e.spelling = a → e = .text a) ∧
        (hasText base a = true ∨ keptText base items a ≠ some (.text a))
    -- the identity spelled as the number is kept out by a text that is
    | .number n => .identity (numberText n) ∈ items ∧ .number n ∉ items ∧
        (.text (numberText n) ∈ base ∨
          hasText base (numberText n) = false ∧
            keptText base items (numberText n) = some (.text (numberText n)))
    -- each text that equals it is kept out by the identity with that text's characters
    | .text t => has scalarEqual items x = true ∧ keptText base items t = none ∧
        heldByIdentity base items t = false

theorem has_identity_eq_false : has scalarEqual base (.identity a) = false ↔
    ∀ e ∈ base, e.spelling ≠ a := by
  rw [← Bool.not_eq_true, Collect.has_iff]
  simp only [scalarEqual_identity, not_exists, not_and, ne_eq]

theorem has_number_eq_false {n : ℤ} : has scalarEqual base (.number n) = false ↔
    .number n ∉ base ∧ .identity (numberText n) ∉ base := by
  rw [← Bool.not_eq_true, Collect.has_iff]
  simp only [scalarEqual_number]
  constructor
  · exact fun h => ⟨fun hn => h ⟨_, hn, Or.inl rfl⟩, fun hn => h ⟨_, hn, Or.inr rfl⟩⟩
  · rintro ⟨hn, hi⟩ ⟨e, he, rfl | rfl⟩
    · exact hn he
    · exact hi he

theorem has_text_eq_false : has scalarEqual base (.text t) = false ↔
    hasText base t = false ∧ .identity t ∉ base := by
  rw [← Bool.not_eq_true, Collect.has_iff, ← Bool.not_eq_true (hasText base t), hasText_iff]
  simp only [scalarEqual_text]
  constructor
  · exact fun h => ⟨fun ⟨u, hu, hut⟩ => h ⟨_, hu, Or.inl ⟨u, rfl, hut⟩⟩,
      fun hi => h ⟨_, hi, Or.inr rfl⟩⟩
  · rintro ⟨ht, hi⟩ ⟨e, he, ⟨u, rfl, hut⟩ | rfl⟩
    · exact ht ⟨u, he, hut⟩
    · exact hi he

theorem not_has_of_lost (h : Lost base items x) :
    has scalarEqual items x = true ∧
      has scalarEqual (collect scalarEqual base items) x = false := by
  obtain ⟨hbase, h⟩ := h
  cases x with
  | identity a =>
    obtain ⟨htext, honly, hkept⟩ := h
    refine ⟨Collect.has_iff.2 ⟨_, htext, scalarEqual_identity.2 rfl⟩, ?_⟩
    rw [has_identity_eq_false] at hbase ⊢
    intro e he hspelling
    have hnew : e ∉ base := fun hmem => hbase e hmem hspelling
    obtain rfl := honly e ((Collect.mem_collect he).resolve_left hnew) hspelling
    by_cases hhas : hasText base a = true
    · exact hnew (text_mem_base_of_hasText hhas he)
    · have hnone : hasText base a = false := by simpa using hhas
      exact hkept.resolve_left hhas
        ((text_mem_iff hnone).1 ⟨he, selectorEqual_refl a⟩)
  | number n =>
    obtain ⟨hidentity, hnumber, hkept⟩ := h
    refine ⟨Collect.has_iff.2 ⟨_, hidentity, scalarEqual_number.2 (Or.inr rfl)⟩, ?_⟩
    rw [has_number_eq_false] at hbase ⊢
    refine ⟨fun hn => ?_, fun hi => ?_⟩
    · exact (Collect.mem_collect hn).elim hbase.1 hnumber
    · rcases hkept with htext | ⟨hnone, hkept⟩
      · rcases Collect.exists_split_of_mem_collect hi with hi | ⟨before, after, -, hnew⟩
        · exact hbase.2 hi
        · rw [has_identity_eq_false] at hnew
          exact hnew _ (Collect.base_subset_collect htext) rfl
      · obtain ⟨htext, -⟩ := (text_mem_iff hnone).2 hkept
        have htextbase : .text (numberText n) ∉ base := by
          intro hmem
          have hself := hasText_eq_false.1 hnone _ hmem
          rw [selectorEqual_refl] at hself
          exact Bool.noConfusion hself
        have heq := eq_of_mem htext hi htextbase hbase.2 (scalarEqual_identity.2 rfl)
        cases heq
  | text t =>
    obtain ⟨hhas, hkept, hheld⟩ := h
    refine ⟨hhas, ?_⟩
    rw [has_text_eq_false] at hbase ⊢
    have hnone : hasText (collect scalarEqual base items) t = false := by
      rw [← Bool.not_eq_true, hasText_collect_iff items hbase.1]
      exact not_not_intro hkept
    refine ⟨hnone, fun hi => ?_⟩
    rcases held_or_hasText_of_mem hi with h | h
    · rw [hheld] at h
      exact Bool.false_ne_true h
    · rw [hnone] at h
      exact Bool.false_ne_true h

theorem lost_of_not_has (hitems : has scalarEqual items x = true)
    (hnone : has scalarEqual (collect scalarEqual base items) x = false) : Lost base items x := by
  have hbase : has scalarEqual base x = false := by
    rw [← Bool.not_eq_true] at hnone ⊢
    exact fun h => hnone (Collect.has_mono Collect.base_subset_collect h)
  refine ⟨hbase, ?_⟩
  obtain ⟨e, he, hex⟩ := Collect.has_iff.1 hitems
  cases x with
  | identity a =>
    rw [has_identity_eq_false] at hnone
    rw [scalarEqual_identity] at hex
    have honly : ∀ f ∈ items, f.spelling = a → f = .text a := by
      intro f hf hspelling
      obtain ⟨k, hk, hkf⟩ := Collect.has_iff.1
        (Collect.has_collect_of_mem base scalarEqual_refl hf)
      cases f with
      | text u => exact congrArg ScalarValue.text hspelling
      | identity b => exact absurd ((scalarEqual_identity.1 hkf).trans hspelling) (hnone k hk)
      | number n =>
        rcases scalarEqual_number.1 hkf with rfl | rfl
        · exact (hnone _ hk hspelling).elim
        · exact (hnone _ hk hspelling).elim
    refine ⟨honly e he hex ▸ he, honly, ?_⟩
    by_cases hhas : hasText base a = true
    · exact Or.inl hhas
    · right
      intro hkept
      obtain ⟨htext, -⟩ := (text_mem_iff (by simpa using hhas)).2 hkept
      exact hnone _ htext rfl
  | number n =>
    have hnumber : .number n ∉ items := by
      intro hn
      have hhas := Collect.has_collect_of_mem base scalarEqual_refl hn
      rw [hnone] at hhas
      exact Bool.false_ne_true hhas
    have hidentity : .identity (numberText n) ∈ items := by
      rcases scalarEqual_number.1 hex with rfl | rfl
      · exact absurd he hnumber
      · exact he
    refine ⟨hidentity, hnumber, ?_⟩
    rw [has_number_eq_false] at hnone
    obtain ⟨k, hk, hkequal⟩ := Collect.has_iff.1
      (Collect.has_collect_of_mem base scalarEqual_refl hidentity)
    have hspelling := scalarEqual_identity.1 hkequal
    cases k with
    | number m =>
      obtain rfl : m = n := numberText_injective hspelling
      exact absurd hk hnone.1
    | identity b =>
      obtain rfl : b = numberText n := hspelling
      exact absurd hk hnone.2
    | text u =>
      obtain rfl : u = numberText n := hspelling
      by_cases hhas : hasText base (numberText n) = true
      · exact Or.inl (text_mem_base_of_hasText hhas hk)
      · have hno : hasText base (numberText n) = false := by simpa using hhas
        exact Or.inr ⟨hno, (text_mem_iff hno).1 ⟨hk, selectorEqual_refl _⟩⟩
  | text t =>
    rw [has_text_eq_false] at hbase hnone
    refine ⟨hitems, ?_, ?_⟩
    · by_contra hkept
      have hhas := (hasText_collect_iff items hbase.1).2 hkept
      rw [hnone.1] at hhas
      exact Bool.false_ne_true hhas
    · by_contra hheld
      exact hnone.2 (identity_mem_of_held (by simpa using hheld))

/-- Collecting keeps exactly the members, `Lost` ones apart. -/
theorem has_collect_eq_iff : has scalarEqual (collect scalarEqual base items) x =
    (has scalarEqual base x || has scalarEqual items x) ↔ ¬ Lost base items x := by
  constructor
  · intro h hlost
    obtain ⟨hitems, hnone⟩ := not_has_of_lost hlost
    rw [hnone, hitems, Bool.or_true] at h
    exact Bool.false_ne_true h
  · intro hlost
    rw [Bool.eq_iff_iff, Bool.or_eq_true]
    constructor
    · intro h
      obtain ⟨v, hv, hvx⟩ := Collect.has_iff.1 h
      exact (Collect.mem_collect hv).imp (fun hb => Collect.has_iff.2 ⟨v, hb, hvx⟩)
        fun hi => Collect.has_iff.2 ⟨v, hi, hvx⟩
    · rintro (h | h)
      · exact Collect.has_mono Collect.base_subset_collect h
      · by_contra hnone
        exact hlost (lost_of_not_has h (by simpa using hnone))

/-! ### Sets of the evaluator -/

/-- A scalar is looked up among the values of a set, from either side. -/
theorem lookup_set {v : Value} (hx : v.intoScalar = some x) (values : List ScalarValue) :
    isIn v (.set values) = .boolean (has scalarEqual values x) ∧
      contains (.set values) v = .boolean (has scalarEqual values x) := by
  cases v with
  | number n => cases hx; exact ⟨rfl, rfl⟩
  | text t caseful => cases hx; exact ⟨rfl, rfl⟩
  | identity a => cases hx; exact ⟨rfl, rfl⟩
  | unknown => exact absurd hx.symm (Option.some_ne_none _)
  | bool t => exact absurd hx.symm (Option.some_ne_none _)
  | set s => exact absurd hx.symm (Option.some_ne_none _)

omit [Icu] in
theorem boolean_injective : Function.Injective Value.boolean := by
  intro a b h
  cases a <;> cases b <;> first | rfl | cases h

variable [RegexCrate]

/-- A set literal of scalars collects their values. -/
theorem evalSet_scalars (fields : Field → Value) {items : List Expr} {values : List ScalarValue}
    (h : items.map (fun item => (evalWith fields item).intoScalar) = values.map some) :
    evalSet fields base items = .set (collect scalarEqual base values) := by
  induction items generalizing base values with
  | nil =>
    obtain rfl : values = [] := by simpa using h.symm
    simp [evalSet]
  | cons item items ih =>
    cases values with
    | nil => cases h
    | cons value values =>
      simp only [List.map_cons, List.cons.injEq] at h
      obtain ⟨hvalue, hrest⟩ := h
      have hstep : evalSet fields base (item :: items) =
          evalSet fields (pushUniqueScalar base value) items := by
        rw [evalSet]
        cases hitem : evalWith fields item with
        | number n => rw [hitem] at hvalue; cases hvalue; rfl
        | text t caseful => rw [hitem] at hvalue; cases hvalue; rfl
        | identity a => rw [hitem] at hvalue; cases hvalue; rfl
        | unknown => rw [hitem] at hvalue; cases hvalue
        | bool t => rw [hitem] at hvalue; cases hvalue
        | set s => rw [hitem] at hvalue; cases hvalue
      rw [hstep]
      exact ih hrest

/-- A set literal of scalars, and a sum of two sets, have exactly the members of their parts, by
either operator, unless the scalar is lost. -/
theorem set_membership_iff (fields : Field → Value) (items : List Expr)
    (values : List ScalarValue)
    (hvalues : items.map (fun item => (evalWith fields item).intoScalar) = values.map some)
    (types : ValueTypes) (span : Span) (v : Value) (x : ScalarValue)
    (hx : v.intoScalar = some x) (left right : List ScalarValue) :
    (isIn v (evalWith fields (.mk (.set items) types span)) =
          .boolean (values.any (scalarEqual · x)) ∧
        contains (evalWith fields (.mk (.set items) types span)) v =
          .boolean (values.any (scalarEqual · x)) ↔ ¬ Lost [] values x) ∧
      (isIn v (add (.set left) (.set right)) =
          .boolean (left.any (scalarEqual · x) || right.any (scalarEqual · x)) ∧
        contains (add (.set left) (.set right)) v =
          .boolean (left.any (scalarEqual · x) || right.any (scalarEqual · x)) ↔
        ¬ Lost left right x) := by
  have hmember : ∀ (base items : List ScalarValue) (b : Bool),
      isIn v (.set (collect scalarEqual base items)) = .boolean b ∧
        contains (.set (collect scalarEqual base items)) v = .boolean b ↔
      has scalarEqual (collect scalarEqual base items) x = b := by
    intro base items b
    rw [(lookup_set hx _).1, (lookup_set hx _).2, and_self]
    exact boolean_injective.eq_iff
  constructor
  · have hset : evalWith fields (.mk (.set items) types span) =
        .set (collect scalarEqual [] values) := by
      rw [evalWith, evalKind, evalSet_scalars fields hvalues]
    rw [hset, hmember]
    exact has_collect_eq_iff
  · have hsum : add (.set left) (.set right) = .set (collect scalarEqual left right) := rfl
    rw [hsum, hmember]
    exact has_collect_eq_iff

end

/-! ### The set `["A", "a"]` -/

section

attribute [local instance] asciiIcu noRegex

def sampleItems : List Expr :=
  [.mk (.text "A") .TEXT ⟨1, 4⟩, .mk (.text "a") .TEXT ⟨6, 9⟩]

def sampleSet : Value :=
  evalWith (fun _ => .unknown) (.mk (.set sampleItems) .SET ⟨0, 10⟩)

theorem set_membership_iff_sampleSet :
    isIn (.identity "A") sampleSet = .boolean true ∧
      ¬ Lost [] [.text "A", .text "a"] (.identity "A") := by
  have hiff := (set_membership_iff (fun _ => .unknown) sampleItems [.text "A", .text "a"] rfl .SET
    ⟨0, 10⟩ (.identity "A") (.identity "A") rfl [] []).1
  have hmember : isIn (.identity "A") sampleSet = .boolean true := by decide +kernel
  refine ⟨hmember, hiff.1 ⟨hmember, ?_⟩⟩
  decide +kernel

/-- The identity `a` equals the second item and is not in the set. -/
theorem not_set_membership : isIn (.identity "a") sampleSet ≠
    .boolean (([.text "A", .text "a"] : List ScalarValue).any (scalarEqual · (.identity "a"))) := by
  decide +kernel

end

end Awayuki.Kq
