import Mathlib.Tactic

/-!
# Patterns of `LIKE`

Texts against patterns in which `%` stands for any text and `_` for any character, and an escape
character takes the meaning of the next one away.  Characters are compared after folding.

* `like`: does a text match a pattern?
* `anchored`: the pattern of the texts with given characters in order;
* `like_anchored`: such texts match it.
-/

namespace Like

variable (fold : Char → Char) (escape : Char) {text pattern anchors : List Char} {c : Char}

def like : List Char → List Char → Bool
  | [], text => text.isEmpty
  | c :: pattern, text =>
    if c = '%' then text.tails.any (like pattern)
    else if c = escape then
      match pattern, text with
      | d :: pattern, t :: text => decide (fold d = fold t) && like pattern text
      | _, _ => false
    else
      match text with
      | [] => false
      | t :: text => (decide (c = '_') || decide (fold c = fold t)) && like pattern text

/-- A character that stands for itself. -/
def literal (c : Char) : List Char :=
  if c = '%' ∨ c = '_' ∨ c = escape then [escape, c] else [c]

/-- Characters in order, with anything around them, after the `%` that the pattern begins with. -/
def anchored (anchors : List Char) : List Char := anchors.flatMap fun c => literal escape c ++ ['%']

variable {fold escape}

theorem like_any : like fold escape ('%' :: pattern) text = true ↔
      ∃ suffix, suffix <:+ text ∧ like fold escape pattern suffix = true := by
  rw [like.eq_def]
  simp [List.mem_tails]

theorem like_literal (hescape : escape ≠ '%') (h : like fold escape pattern text = true) :
    like fold escape (literal escape c ++ pattern) (c :: text) = true := by
  unfold literal
  split_ifs with hspecial
  · show like fold escape (escape :: c :: pattern) (c :: text) = true
    rw [like.eq_def]
    simp [hescape, h]
  · obtain ⟨hany, -, hescaped⟩ := by simpa only [not_or] using hspecial
    show like fold escape (c :: pattern) (c :: text) = true
    rw [like.eq_def]
    simp [hany, hescaped, h]

theorem mem_anchored (h : c ∈ anchored escape anchors) : c = '%' ∨ c = escape ∨ c ∈ anchors := by
  obtain ⟨a, ha, hc⟩ := List.mem_flatMap.1 h
  obtain hc | hc := List.mem_append.1 hc
  · unfold literal at hc
    split_ifs at hc
    · obtain rfl | hc := List.mem_cons.1 hc
      · exact .inr (.inl rfl)
      · exact .inr (.inr (List.mem_singleton.1 hc ▸ ha))
    · exact .inr (.inr (List.mem_singleton.1 hc ▸ ha))
  · exact .inl (List.mem_singleton.1 hc)

/-- A text with the characters in order matches. -/
theorem like_anchored (hescape : escape ≠ '%') (h : anchors.Sublist text) :
    like fold escape ('%' :: anchored escape anchors) text = true := by
  induction anchors generalizing text with
  | nil => exact like_any.2 ⟨[], List.nil_suffix, by simp [anchored, like]⟩
  | cons c anchors ih =>
    obtain ⟨before, after, rfl, hmem, hafter⟩ := List.cons_sublist_iff.1 h
    obtain ⟨skipped, rest, rfl⟩ := List.append_of_mem hmem
    -- What comes before the character is skipped, the others follow it.
    have hrest := ih (hafter.trans (List.sublist_append_right rest after))
    refine like_any.2 ⟨c :: (rest ++ after), ⟨skipped, by simp⟩, ?_⟩
    have hpattern : anchored escape (c :: anchors) =
        literal escape c ++ '%' :: anchored escape anchors := by simp [anchored]
    rw [hpattern]
    exact like_literal hescape hrest

end Like
