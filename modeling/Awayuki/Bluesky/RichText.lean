import Awayuki.Kq.PlainTextBound
import Mathlib.Data.List.Sort

/-!
# Bluesky: HTML of a post's text

`text_with_facets_to_html` of `bluesky/convert.rs` with its helpers.  The facets of a post are byte
ranges of the text, as the network sends them; slicing at a place that is not a character boundary
is `none`, as the panic it would be.

* `Facet`, `Feature`: a range, and what it stands for;
* `linkify`, `textWithFacetsToHtml`: the conversions;
* `Segment`: the text and the links that a page is made of, and `page` what is written of them;
* `textWithFacetsToHtml_eq_page`: the conversion writes a page that shows the escaped text.
-/

variable {s : Str} {n : ℕ}

namespace Awayuki.Str

/-! ### Searching -/

variable {t : Str}

/-- `s.find(pattern)`, in bytes. -/
def find (pattern : Str) : Str → Option ℕ
  | [] => if pattern = [] then some 0 else none
  | c :: s =>
    if pattern.isPrefixOf (c :: s) then some 0 else (find pattern s).map (c.utf8Size + ·)

/-- `s.find(p)`, in bytes. -/
def findChar (p : Char → Bool) : Str → Option ℕ
  | [] => none
  | c :: s => if p c then some 0 else (findChar p s).map (c.utf8Size + ·)

/-- `s.replace(c, new)` -/
def replaceChar (c : Char) (new s : Str) : Str := s.flatMap fun d => if d = c then new else [d]

theorem exists_of_find {pattern : Str} (h : find pattern s = some n) :
    ∃ before after, s = before ++ after ∧ before.len = n ∧ pattern <+: after := by
  induction s generalizing n with
  | nil =>
    rw [find] at h
    split_ifs at h with hnil
    obtain rfl := Option.some.inj h
    exact ⟨[], [], rfl, rfl, by rw [hnil]⟩
  | cons c s ih =>
    rw [find] at h
    split_ifs at h with hhere
    · obtain rfl := Option.some.inj h
      exact ⟨[], c :: s, rfl, rfl, List.isPrefixOf_iff_prefix.1 hhere⟩
    · obtain ⟨m, hm, rfl⟩ := Option.map_eq_some_iff.1 h
      obtain ⟨before, after, rfl, rfl, hpattern⟩ := ih hm
      exact ⟨c :: before, after, rfl, len_cons c before, hpattern⟩

/-- The text up to the character that is found, or all of it. -/
theorem exists_of_findChar (p : Char → Bool) (s : Str) :
    ∃ before after, s = before ++ after ∧ before.len = (findChar p s).getD s.len ∧
      (∀ c ∈ before, p c = false) ∧ ∀ c rest, after = c :: rest → p c = true := by
  induction s with
  | nil =>
    exact ⟨[], [], rfl, rfl, fun c hc => absurd hc List.not_mem_nil,
      fun c rest h => absurd h (List.cons_ne_nil c rest).symm⟩
  | cons c s ih =>
    by_cases hc : p c = true
    · refine ⟨[], c :: s, rfl, ?_, fun d hd => absurd hd List.not_mem_nil, ?_⟩
      · rw [findChar, if_pos hc]
        rfl
      · intro d rest h
        rwa [← (List.cons.inj h).1]
    · obtain ⟨before, after, hsplit, hlen, hbefore, hafter⟩ := ih
      refine ⟨c :: before, after, by rw [hsplit]; rfl, ?_, ?_, hafter⟩
      · rw [findChar, if_neg hc, len_cons, hlen]
        cases findChar p s <;> simp
      · intro d hd
        rcases List.mem_cons.1 hd with rfl | hd
        · simpa using hc
        · exact hbefore d hd

theorem exists_of_dropBytes (h : dropBytes s n = some t) :
    ∃ before, s = before ++ t ∧ before.len = n := by
  induction s generalizing n with
  | nil =>
    cases n with
    | zero => exact ⟨[], Option.some.inj h, rfl⟩
    | succ n => cases h
  | cons c s ih =>
    cases n with
    | zero => exact ⟨[], Option.some.inj h, rfl⟩
    | succ n =>
      rw [dropBytes] at h
      split_ifs at h with hle
      obtain ⟨before, rfl, hlen⟩ := ih h
      refine ⟨c :: before, rfl, ?_⟩
      rw [len_cons]
      omega

theorem exists_of_takeBytes (h : takeBytes s n = some t) : ∃ after, s = t ++ after ∧ t.len = n := by
  induction s generalizing n t with
  | nil =>
    cases n with
    | zero =>
      obtain rfl := Option.some.inj h
      exact ⟨[], rfl, rfl⟩
    | succ n => cases h
  | cons c s ih =>
    cases n with
    | zero =>
      obtain rfl := Option.some.inj h
      exact ⟨c :: s, rfl, rfl⟩
    | succ n =>
      rw [takeBytes] at h
      split_ifs at h with hle
      obtain ⟨u, hu, rfl⟩ := Option.map_eq_some_iff.1 h
      obtain ⟨after, rfl, hlen⟩ := ih hu
      refine ⟨after, rfl, ?_⟩
      rw [len_cons]
      omega

theorem exists_of_slice {a b : ℕ} (h : slice s a b = some t) :
    ∃ before after, s = before ++ (t ++ after) ∧ before.len = a ∧ before.len + t.len = b := by
  rw [slice] at h
  split_ifs at h with hle
  obtain ⟨rest, hrest, htake⟩ := Option.bind_eq_some_iff.1 h
  obtain ⟨before, rfl, hbefore⟩ := exists_of_dropBytes hrest
  obtain ⟨after, rfl, hlen⟩ := exists_of_takeBytes htake
  refine ⟨before, after, rfl, hbefore, ?_⟩
  omega

theorem eq_nil_of_len (h : s.len = 0) : s = [] := by
  cases s with
  | nil => rfl
  | cons c s =>
    have hc := Char.utf8Size_pos c
    rw [len_cons] at h
    omega

/-- Of two beginnings of a text, the one that is not longer is the beginning of the other. -/
theorem exists_append_of_len_le {u v : Str} (h : s ++ t = u ++ v) (hle : s.len ≤ u.len) :
    ∃ w, u = s ++ w ∧ t = w ++ v := by
  rcases List.append_eq_append_iff.1 h with ⟨w, hu, ht⟩ | ⟨w, hs, hv⟩
  · exact ⟨w, hu, ht⟩
  · have hw : w = [] := by
      apply eq_nil_of_len
      rw [hs, len_append] at hle
      omega
    rw [hw, List.append_nil] at hs
    rw [hw, List.nil_append] at hv
    exact ⟨[], by rw [hs, List.append_nil], by rw [hv, List.nil_append]⟩

end Awayuki.Str

namespace Awayuki.RichText

/-! ### The code -/

variable {text : Str}

def BSKY_APP_HOST : Str := "bsky.app"

/-- May the character stand in a DID? -/
def isDidChar (c : Char) : Bool :=
  c.isAlphanum || c == '.' || c == '_' || c == ':' || c == '%' || c == '-'

/-- `atrium_api::types::string::Did`, which is only made of a valid one. -/
structure Did where
  value : Str
  valid : value.all isDidChar = true

/-- `urlencoding::encode`, which leaves letters, digits and four other characters, and writes any
other byte as `%` and two digits. -/
class UrlEncoding where
  encode : Str → Str
  encode_chars : ∀ s, ∀ c ∈ encode s,
    c.isAlphanum = true ∨ c = '-' ∨ c = '_' ∨ c = '.' ∨ c = '~' ∨ c = '%'

inductive Feature
  | link (uri : Str)
  | mention (did : Did)
  | tag (tag : Str)
  /-- A feature of a kind that the client does not know. -/
  | unknown

structure Facet where
  byteStart : ℕ
  byteEnd : ℕ
  features : List Feature

def escapeChar (c : Char) : Str :=
  if c = '&' then "&amp;"
  else if c = '<' then "&lt;"
  else if c = '>' then "&gt;"
  else if c = '"' then "&quot;"
  else if c = '\'' then "&#39;"
  else [c]

def htmlEscape (s : Str) : Str := s.flatMap escapeChar

/-- A link as the templates write it. -/
def anchor (address shown : Str) : Str :=
  "<a href=\"".toList ++ address ++
    "\" rel=\"nofollow noopener noreferrer\" target=\"_blank\">".toList ++ shown ++ "</a>".toList

/-- `find_url_start` -/
def findUrlStart (text : Str) : Option ℕ :=
  match Str.find "http://" text, Str.find "https://" text with
  | some i, some j => some (min i j)
  | some i, none => some i
  | none, j => j

def endsUrl (c : Char) : Bool := Str.isWhitespace c || c == '<' || c == '>'

/-- The loop of `linkify`, for at most `fuel` rounds. -/
def linkifyLoop : (fuel : ℕ) → (out rest : Str) → Option Str
  | 0, _, _ => none
  | fuel + 1, out, rest =>
    match findUrlStart rest with
    | none => some (out ++ rest)
    | some idx => do
      let before ← rest.takeBytes idx
      let after ← rest.dropBytes idx
      let stop := (after.findChar endsUrl).getD after.len
      let url ← after.takeBytes stop
      let rest ← after.dropBytes stop
      linkifyLoop fuel (out ++ before ++ anchor url url) rest

def linkify (text : Str) : Option Str := linkifyLoop (text.length + 1) [] text

/-- `text_to_html` -/
def textToHtml (text : Str) : Option Str :=
  if text = [] then some []
  else do
    let withLinks ← linkify (htmlEscape text)
    pure ("<p>".toList ++ Str.replaceChar '\n' "<br>" withLinks ++ "</p>".toList)

section

variable [UrlEncoding]

/-- Where a feature links to. -/
def Feature.address : Feature → Option Str
  | .link uri => some uri
  | .mention did => some ("https://".toList ++ BSKY_APP_HOST ++ "/profile/".toList ++ did.value)
  | .tag name =>
    some ("https://".toList ++ BSKY_APP_HOST ++ "/hashtag/".toList ++ UrlEncoding.encode name)
  | .unknown => none

/-- The first feature of a known kind makes a link of the range. -/
def facetToHtml (features : List Feature) (escapedSegment : Str) : Str :=
  match features.findSome? Feature.address with
  | some address => anchor (htmlEscape address) escapedSegment
  | none => escapedSegment

/-- One facet: a range that is not one of characters after the cursor is skipped. -/
def writeFacet (text : Str) (written : Str × ℕ) (facet : Facet) : Option (Str × ℕ) :=
  if facet.byteStart < written.2 ∨ facet.byteStart ≥ facet.byteEnd ∨ facet.byteEnd > text.len then
    some written
  else
    match Str.slice text facet.byteStart facet.byteEnd with
    | none => some written
    | some segment =>
      if written.2 < facet.byteStart then do
        let chunk := (Str.slice text written.2 facet.byteStart).getD []
        let links ← linkify (htmlEscape chunk)
        pure (written.1 ++ links ++ facetToHtml facet.features (htmlEscape segment), facet.byteEnd)
      else
        pure (written.1 ++ facetToHtml facet.features (htmlEscape segment), facet.byteEnd)

/-- What follows the last facet. -/
def writeRest (text : Str) (written : Str × ℕ) : Option Str :=
  if written.2 < text.len then do
    let links ← linkify (htmlEscape ((text.dropBytes written.2).getD []))
    pure (written.1 ++ links)
  else some written.1

/-- `text_with_facets_to_html` -/
def textWithFacetsToHtml (text : Str) (facets : List Facet) : Option Str :=
  if text = [] then some []
  else if facets = [] then textToHtml text
  else do
    let sorted := facets.insertionSort fun f g => f.byteStart ≤ g.byteStart
    let written ← sorted.foldlM (writeFacet text) ([], 0)
    let out ← writeRest text written
    pure ("<p>".toList ++ Str.replaceChar '\n' "<br>" out ++ "</p>".toList)

end

/-! ### Pages -/

/-- No character that could open a tag, close one or end an attribute. -/
def Clean (s : Str) : Prop := ∀ c ∈ s, c ≠ '<' ∧ c ≠ '>' ∧ c ≠ '"'

inductive Segment
  | text (s : Str)
  | link (address shown : Str)

namespace Segment

def render : Segment → Str
  | .text s => s
  | .link address shown => anchor address shown

def shown : Segment → Str
  | .text s => s
  | .link _ shown => shown

/-- What is not of the template is clean. -/
def Clean : Segment → Prop
  | .text s => RichText.Clean s
  | .link address shown => RichText.Clean address ∧ RichText.Clean shown

/-- No line break in the address. -/
def OneLine : Segment → Prop
  | .text _ => True
  | .link address _ => '\n' ∉ address

end Segment

/-- All that is written, before the line breaks. -/
def render (segments : List Segment) : Str := segments.flatMap Segment.render

/-- What a reader sees of it. -/
def shown (segments : List Segment) : Str := segments.flatMap Segment.shown

/-- The HTML; of no segments, nothing. -/
def page (segments : List Segment) : Str :=
  if segments = [] then []
  else "<p>".toList ++ Str.replaceChar '\n' "<br>" (render segments) ++ "</p>".toList

@[simp] theorem render_append (segments more : List Segment) :
    render (segments ++ more) = render segments ++ render more := List.flatMap_append

@[simp] theorem shown_append (segments more : List Segment) :
    shown (segments ++ more) = shown segments ++ shown more := List.flatMap_append

/-! ### Escaping -/

@[simp] theorem htmlEscape_append (s t : Str) :
    htmlEscape (s ++ t) = htmlEscape s ++ htmlEscape t := List.flatMap_append

theorem clean_escapeChar (c : Char) : Clean (escapeChar c) := by
  have hliterals : Clean "&amp;" ∧ Clean "&lt;" ∧ Clean "&gt;" ∧ Clean "&quot;" ∧
      Clean "&#39;" := by
    simp [Clean]
  obtain ⟨hamp, hlt, hgt, hquot, hapos⟩ := hliterals
  unfold escapeChar
  split_ifs with h1 h2 h3 h4 h5
  · exact hamp
  · exact hlt
  · exact hgt
  · exact hquot
  · exact hapos
  · intro d hd
    obtain rfl := List.mem_singleton.1 hd
    exact ⟨h2, h3, h4⟩

theorem clean_htmlEscape (s : Str) : Clean (htmlEscape s) := by
  intro c hc
  obtain ⟨d, -, hd⟩ := List.mem_flatMap.1 hc
  exact clean_escapeChar d c hd

theorem newline_mem_htmlEscape (h : '\n' ∈ htmlEscape s) : '\n' ∈ s := by
  obtain ⟨c, hc, hmem⟩ := List.mem_flatMap.1 h
  unfold escapeChar at hmem
  split_ifs at hmem
  · simp at hmem
  · simp at hmem
  · simp at hmem
  · simp at hmem
  · simp at hmem
  · rwa [List.mem_singleton.1 hmem]

/-- A character is left as it is, or written as an entity. -/
theorem escapeChar_cases (c : Char) : escapeChar c = [c] ∨
    Str.isWhitespace c = false ∧ ∃ name, escapeChar c = '&' :: (name ++ [';']) := by
  unfold escapeChar
  split_ifs with h1 h2 h3 h4 h5
  · exact Or.inr ⟨by rw [h1]; decide, "amp".toList, rfl⟩
  · exact Or.inr ⟨by rw [h2]; decide, "lt".toList, rfl⟩
  · exact Or.inr ⟨by rw [h3]; decide, "gt".toList, rfl⟩
  · exact Or.inr ⟨by rw [h4]; decide, "quot".toList, rfl⟩
  · exact Or.inr ⟨by rw [h5]; decide, "#39".toList, rfl⟩
  · exact Or.inl rfl

theorem htmlEscape_ne_nil (h : s ≠ []) : htmlEscape s ≠ [] := by
  intro hnil
  cases s with
  | nil => exact h rfl
  | cons c s =>
    have hfirst : escapeChar c = [] := List.flatMap_eq_nil_iff.1 hnil c List.mem_cons_self
    rcases escapeChar_cases c with hplain | ⟨-, name, hentity⟩
    · rw [hfirst] at hplain
      cases hplain
    · rw [hfirst] at hentity
      cases hentity

/-! ### What is written of a text -/

/-- The HTML is made of segments that show the escaped text; with `oneLine`, no link is broken. -/
def Writes (oneLine : Prop) (html escaped : Str) : Prop :=
  ∃ segments, html = render segments ∧ shown segments = escaped ∧
    ∀ segment ∈ segments, segment.Clean ∧ (oneLine → segment.OneLine)

section

variable {oneLine : Prop} {html html' escaped escaped' address : Str}

theorem writes_nil : Writes oneLine [] [] :=
  ⟨[], rfl, rfl, fun _ h => absurd h List.not_mem_nil⟩

theorem Writes.append (h : Writes oneLine html escaped) (h' : Writes oneLine html' escaped') :
    Writes oneLine (html ++ html') (escaped ++ escaped') := by
  obtain ⟨segments, rfl, rfl, hsegments⟩ := h
  obtain ⟨more, rfl, rfl, hmore⟩ := h'
  refine ⟨segments ++ more, (render_append _ _).symm, shown_append _ _, ?_⟩
  intro segment hsegment
  rcases List.mem_append.1 hsegment with hsegment | hsegment
  · exact hsegments segment hsegment
  · exact hmore segment hsegment

theorem writes_segment (segment : Segment) (hclean : segment.Clean)
    (hline : oneLine → segment.OneLine) : Writes oneLine segment.render segment.shown := by
  refine ⟨[segment], (List.append_nil _).symm, List.append_nil _, ?_⟩
  intro other hother
  obtain rfl := List.mem_singleton.1 hother
  exact ⟨hclean, hline⟩

theorem writes_text (hclean : Clean escaped) : Writes oneLine escaped escaped :=
  writes_segment (.text escaped) hclean fun _ => trivial

theorem writes_anchor (haddress : Clean address) (hline : oneLine → '\n' ∉ address)
    (hclean : Clean escaped) : Writes oneLine (anchor address escaped) escaped :=
  writes_segment (.link address escaped) ⟨haddress, hclean⟩ hline

end

/-! ### Links in a text -/

theorem exists_of_findUrlStart (h : findUrlStart text = some n) :
    ∃ before rest, text = before ++ 'h' :: rest ∧ before.len = n := by
  have hfind : ∀ pattern : Str, 'h' :: pattern.tail = pattern →
      Str.find pattern text = some n →
      ∃ before rest, text = before ++ 'h' :: rest ∧ before.len = n := by
    intro pattern hpattern hfound
    obtain ⟨before, after, rfl, hlen, more, rfl⟩ := Str.exists_of_find hfound
    rw [← hpattern]
    exact ⟨before, pattern.tail ++ more, rfl, hlen⟩
  unfold findUrlStart at h
  cases hhttp : Str.find "http://" text with
  | none =>
    rw [hhttp] at h
    exact hfind "https://" rfl h
  | some i =>
    cases hhttps : Str.find "https://" text with
    | none =>
      rw [hhttp, hhttps] at h
      obtain rfl := Option.some.inj h
      exact hfind "http://" rfl hhttp
    | some j =>
      rw [hhttp, hhttps] at h
      obtain rfl := Option.some.inj h
      rcases min_choice i j with hmin | hmin
      · exact hfind "http://" rfl (by rw [hhttp, hmin])
      · exact hfind "https://" rfl (by rw [hhttps, hmin])

/-- The loop comes to its end: each link takes a character at least from the rest. -/
theorem linkifyLoop_writes (oneLine : Prop) (fuel : ℕ) (out rest : Str)
    (hfuel : rest.length < fuel) (hclean : Clean rest) :
    ∃ links, linkifyLoop fuel out rest = some (out ++ links) ∧ Writes oneLine links rest := by
  induction fuel generalizing out rest with
  | zero => exact absurd hfuel (Nat.not_lt_zero _)
  | succ fuel ih =>
    rw [linkifyLoop]
    cases hurl : findUrlStart rest with
    | none => exact ⟨rest, rfl, writes_text hclean⟩
    | some idx =>
      obtain ⟨before, more, rfl, hbefore⟩ := exists_of_findUrlStart hurl
      obtain ⟨url, after, hsplit, hlen, hends, hafter⟩ :=
        Str.exists_of_findChar endsUrl ('h' :: more)
      have hcleanBefore : Clean before := fun c hc => hclean c (List.mem_append_left _ hc)
      have hcleanMore : Clean ('h' :: more) := fun c hc => hclean c (List.mem_append_right _ hc)
      have hcleanUrl : Clean url := fun c hc =>
        hcleanMore c (by rw [hsplit]; exact List.mem_append_left _ hc)
      have hcleanAfter : Clean after := fun c hc =>
        hcleanMore c (by rw [hsplit]; exact List.mem_append_right _ hc)
      have hurlLine : '\n' ∉ url := fun hmem => absurd (hends _ hmem) (by decide)
      have hshorter : after.length < fuel := by
        have hne : url ≠ [] := by
          rintro rfl
          exact absurd (hafter 'h' more hsplit.symm) (by decide)
        have hpos := List.length_pos_of_ne_nil hne
        have htotal := congrArg List.length hsplit
        rw [List.length_append] at htotal hfuel
        omega
      obtain ⟨links, hlinks, hwrites⟩ := ih (out ++ before ++ anchor url url) after hshorter
        hcleanAfter
      refine ⟨before ++ (anchor url url ++ links), ?_, ?_⟩
      · have htake : Str.takeBytes (before ++ 'h' :: more) idx = some before := by
          rw [← hbefore]
          exact Str.takeBytes_append _ _
        have hdrop : Str.dropBytes (before ++ 'h' :: more) idx = some ('h' :: more) := by
          rw [← hbefore]
          exact Str.dropBytes_append _ _
        have hurlTake : Str.takeBytes ('h' :: more)
            ((Str.findChar endsUrl ('h' :: more)).getD (Str.len ('h' :: more))) = some url := by
          rw [← hlen, hsplit]
          exact Str.takeBytes_append _ _
        have hurlDrop : Str.dropBytes ('h' :: more)
            ((Str.findChar endsUrl ('h' :: more)).getD (Str.len ('h' :: more))) = some after := by
          rw [← hlen, hsplit]
          exact Str.dropBytes_append _ _
        simp only [htake, hdrop, Option.bind_eq_bind, Option.bind_some, hurlTake, hurlDrop]
        rw [hlinks]
        simp only [List.append_assoc]
      · rw [hsplit]
        exact (writes_text hcleanBefore).append
          ((writes_anchor hcleanUrl (fun _ => hurlLine) hcleanUrl).append hwrites)

theorem linkify_writes (oneLine : Prop) (hclean : Clean text) :
    ∃ links, linkify text = some links ∧ Writes oneLine links text :=
  linkifyLoop_writes oneLine _ [] text (Nat.lt_succ_self _) hclean

/-! ### Facets -/

section

variable [UrlEncoding] {written : Str × ℕ}

/-- No link of the facets goes to an address with a line break. -/
def OneLineLinks (facets : List Facet) : Prop :=
  ∀ facet ∈ facets, ∀ uri, Feature.link uri ∈ facet.features → '\n' ∉ uri

theorem newline_not_mem_address {feature : Feature} {address : Str}
    (h : feature.address = some address) (hlink : ∀ uri, feature = .link uri → '\n' ∉ uri) :
    '\n' ∉ address := by
  cases feature with
  | link uri =>
    obtain rfl := Option.some.inj h
    exact hlink uri rfl
  | mention did =>
    rw [Feature.address, Option.some.injEq] at h
    rw [← h, List.mem_append]
    refine not_or.2 ⟨by decide, fun hmem => ?_⟩
    exact absurd (List.all_eq_true.1 did.valid _ hmem) (by decide)
  | tag name =>
    rw [Feature.address, Option.some.injEq] at h
    rw [← h, List.mem_append]
    refine not_or.2 ⟨by decide, fun hmem => ?_⟩
    exact absurd (UrlEncoding.encode_chars name _ hmem) (by decide)
  | unknown => cases h

theorem facetToHtml_writes {features : List Feature} {segment : Str} {oneLine : Prop}
    (hlinks : oneLine → ∀ uri, Feature.link uri ∈ features → '\n' ∉ uri) :
    Writes oneLine (facetToHtml features (htmlEscape segment)) (htmlEscape segment) := by
  unfold facetToHtml
  cases hfirst : features.findSome? Feature.address with
  | none => exact writes_text (clean_htmlEscape segment)
  | some address =>
    refine writes_anchor (clean_htmlEscape address) ?_ (clean_htmlEscape segment)
    intro hone hmem
    obtain ⟨feature, hfeature, haddress⟩ := List.exists_of_findSome?_eq_some hfirst
    refine newline_not_mem_address haddress ?_ (newline_mem_htmlEscape hmem)
    rintro uri rfl
    exact hlinks hone uri hfeature

/-- What is written when the cursor stands after the text `done`. -/
structure WrittenUpTo (oneLine : Prop) (text : Str) (written : Str × ℕ) : Prop where
  reached : ∃ before after, text = before ++ after ∧ before.len = written.2 ∧
    Writes oneLine written.1 (htmlEscape before)

/-- A facet is written without a panic, and what it passes over is not lost. -/
theorem writeFacet_writes {oneLine : Prop} {facet : Facet} (h : WrittenUpTo oneLine text written)
    (hlinks : oneLine → ∀ uri, Feature.link uri ∈ facet.features → '\n' ∉ uri) :
    ∃ written', writeFacet text written facet = some written' ∧
      WrittenUpTo oneLine text written' := by
  obtain ⟨before, after, hsplit, hcursor, hwrites⟩ := h.reached
  rw [writeFacet]
  by_cases hskip : facet.byteStart < written.2 ∨ facet.byteStart ≥ facet.byteEnd ∨
      facet.byteEnd > text.len
  · rw [if_pos hskip]
    exact ⟨written, rfl, h⟩
  · rw [if_neg hskip]
    cases hslice : Str.slice text facet.byteStart facet.byteEnd with
    | none => exact ⟨written, rfl, h⟩
    | some segment =>
      obtain ⟨upTo, later, htext, hstart, hend⟩ := Str.exists_of_slice hslice
      have hle : before.len ≤ upTo.len := by omega
      obtain ⟨chunk, rfl, -⟩ := Str.exists_append_of_len_le (hsplit.symm.trans htext) hle
      have hsegment : Writes oneLine (facetToHtml facet.features (htmlEscape segment))
          (htmlEscape segment) := facetToHtml_writes hlinks
      have hreached : text = (before ++ chunk ++ segment) ++ later := by
        rw [htext]
        simp
      rw [Str.len_append] at hstart hend
      have hlen : (before ++ chunk ++ segment).len = facet.byteEnd := by
        rw [Str.len_append, Str.len_append]
        exact hend
      dsimp only
      by_cases hgap : written.2 < facet.byteStart
      · rw [if_pos hgap]
        have hchunk : Str.slice text written.2 facet.byteStart = some chunk := by
          rw [htext, ← hcursor, ← hstart, List.append_assoc]
          exact Str.slice_append before chunk (segment ++ later)
        obtain ⟨links, hlinkify, hwritesLinks⟩ := linkify_writes oneLine (clean_htmlEscape chunk)
        refine ⟨_, by rw [hchunk, Option.getD_some, hlinkify]; rfl,
          ⟨_, later, hreached, hlen, ?_⟩⟩
        rw [htmlEscape_append, htmlEscape_append]
        exact (hwrites.append hwritesLinks).append hsegment
      · rw [if_neg hgap]
        have hnone : chunk = [] := Str.eq_nil_of_len (by omega)
        refine ⟨_, rfl, ⟨_, later, hreached, hlen, ?_⟩⟩
        rw [hnone, List.append_nil, htmlEscape_append]
        exact hwrites.append hsegment

theorem foldlM_writeFacet {oneLine : Prop} {facets : List Facet}
    (h : WrittenUpTo oneLine text written) (hlinks : oneLine → OneLineLinks facets) :
    ∃ written', facets.foldlM (writeFacet text) written = some written' ∧
      WrittenUpTo oneLine text written' := by
  induction facets generalizing written with
  | nil => exact ⟨written, rfl, h⟩
  | cons facet facets ih =>
    obtain ⟨next, hnext, hwritten⟩ := writeFacet_writes h fun hone =>
      hlinks hone facet List.mem_cons_self
    obtain ⟨last, hlast, hdone⟩ := ih hwritten fun hone other hother =>
      hlinks hone other (List.mem_cons_of_mem _ hother)
    refine ⟨last, ?_, hdone⟩
    rw [List.foldlM_cons, hnext, Option.bind_eq_bind, Option.bind_some]
    exact hlast

omit [UrlEncoding] in
theorem writeRest_writes {oneLine : Prop} (h : WrittenUpTo oneLine text written) :
    ∃ out, writeRest text written = some out ∧ Writes oneLine out (htmlEscape text) := by
  obtain ⟨before, after, hsplit, hcursor, hwrites⟩ := h.reached
  rw [writeRest]
  split_ifs with hmore
  · have hdrop : text.dropBytes written.2 = some after := by
      rw [hsplit, ← hcursor]
      exact Str.dropBytes_append before after
    obtain ⟨links, hlinkify, hwritesLinks⟩ := linkify_writes oneLine (clean_htmlEscape after)
    refine ⟨_, by rw [hdrop, Option.getD_some, hlinkify]; rfl, ?_⟩
    rw [hsplit, htmlEscape_append]
    exact hwrites.append hwritesLinks
  · have hnone : after = [] := by
      apply Str.eq_nil_of_len
      rw [hsplit, Str.len_append] at hmore
      omega
    rw [hnone, List.append_nil] at hsplit
    exact ⟨written.1, rfl, by rw [hsplit]; exact hwrites⟩

/-- The conversion does not panic and writes a page that shows the escaped text. -/
theorem textWithFacetsToHtml_eq_page (text : Str) (facets : List Facet) :
    ∃ segments, textWithFacetsToHtml text facets = some (page segments) ∧
      shown segments = htmlEscape text ∧
      ∀ segment ∈ segments, segment.Clean ∧ (OneLineLinks facets → segment.OneLine) := by
  have hpage : ∀ out, text ≠ [] → Writes (OneLineLinks facets) out (htmlEscape text) →
      ∃ segments, some ("<p>".toList ++ Str.replaceChar '\n' "<br>" out ++ "</p>".toList) =
        some (page segments) ∧ shown segments = htmlEscape text ∧
        ∀ segment ∈ segments, segment.Clean ∧ (OneLineLinks facets → segment.OneLine) := by
    rintro out hne ⟨segments, rfl, hshown, hsegments⟩
    refine ⟨segments, ?_, hshown, hsegments⟩
    have hsome : segments ≠ [] := by
      rintro rfl
      exact htmlEscape_ne_nil hne hshown.symm
    rw [page, if_neg hsome]
  rw [textWithFacetsToHtml]
  split_ifs with hempty hnone
  · refine ⟨[], rfl, by rw [hempty]; rfl, fun segment h => absurd h List.not_mem_nil⟩
  · obtain ⟨links, hlinkify, hwrites⟩ :=
      linkify_writes (OneLineLinks facets) (clean_htmlEscape text)
    rw [textToHtml, if_neg hempty, hlinkify]
    exact hpage links hempty hwrites
  · have hstart : WrittenUpTo (OneLineLinks facets) text ([], 0) :=
      ⟨[], text, rfl, rfl, writes_nil⟩
    have hsorted : OneLineLinks facets → OneLineLinks
        (facets.insertionSort fun f g => f.byteStart ≤ g.byteStart) := fun hone facet hfacet =>
      hone facet ((List.mem_insertionSort _).1 hfacet)
    obtain ⟨written, hwritten, hreached⟩ := foldlM_writeFacet hstart hsorted
    obtain ⟨out, hout, hwrites⟩ := writeRest_writes hreached
    dsimp only
    rw [hwritten, Option.bind_eq_bind, Option.bind_some, hout]
    exact hpage out hempty hwrites

end

end Awayuki.RichText
