import Awayuki.Kq.Value

/-!
# KQ: plain text of provider HTML

`html_to_plain_text` and its helpers.  Each loop over the characters is a recursion over the list
of those still to be read, and the inner loop of the source (over the characters of one tag or of
one entity) is a mode of that recursion.
-/

namespace Awayuki.Kq

/-! ### Tags -/

/-- `html_tag_name`: whether the tag closes, and its name in lower case. -/
def htmlTagName (rawTag : Str) : Bool × Str :=
  let trimmed := rawTag.trimStart
  let name : Str := (trimmed.trimStartMatches '/').takeWhile fun c => !(Str.isWhitespace c || c == '/')
  (trimmed.startsWith "/", name.toAsciiLowercase)

def isBlockTag (name : Str) : Bool :=
  (["address", "article", "aside", "blockquote", "div", "footer", "header", "li", "main", "nav",
    "ul", "ol", "p", "pre", "section", "table", "tr", "h1", "h2", "h3", "h4", "h5", "h6"].map
    String.toList).contains name

def pushNewline (output : Str) : Str :=
  if output.isEmpty || output.endsWith "\n" then output else output ++ ['\n']

/-- What one complete tag does to the text written so far and to the tag whose content is being
suppressed. -/
def applyTag (output : Str) (suppressedTag : Option Str) (tag : Str) : Str × Option Str :=
  let (closing, name) := htmlTagName tag
  match suppressedTag with
  | some suppressed =>
    if closing && suppressed == name then (output, none) else (output, some suppressed)
  | none =>
    if !closing && (name == "script".toList || name == "style".toList) then (output, some name)
    else if name == "br".toList then (output ++ ['\n'], none)
    else if closing && isBlockTag name then (pushNewline output, none)
    else (output, none)

/-- The main loop; `tag` holds the characters of the tag being read, if one is open. -/
def stripTags (output : Str) (suppressedTag tag : Option Str) : List Char → Str
  | [] =>
    match tag with
    | some tag => (applyTag output suppressedTag tag).1
    | none => output
  | c :: rest =>
    match tag with
    | some tag =>
      if c = '>' then
        let (output, suppressedTag) := applyTag output suppressedTag tag
        stripTags output suppressedTag none rest
      else stripTags output suppressedTag (some (if tag.len < 256 then tag ++ [c] else tag)) rest
    | none =>
      if c = '<' then stripTags output suppressedTag (some []) rest
      else
        let output := if suppressedTag.isNone then output ++ [c] else output
        if output.len ≥ MAX_DERIVED_TEXT_BYTES then output
        else stripTags output suppressedTag none rest

/-! ### Entities -/

/-- `char::from_u32`. -/
def charFromU32 (n : ℕ) : Option Char := if n.isValidChar then some (Char.ofNat n) else none

def namedEntities : List (Str × Char) :=
  [("nbsp", ' '), ("amp", '&'), ("lt", '<'), ("gt", '>'), ("quot", '"'), ("apos", '\''),
    ("#39", '\''), ("hellip", '…'), ("ndash", '–'), ("mdash", '—'), ("lsquo", '‘'),
    ("rsquo", '’'), ("ldquo", '“'), ("rdquo", '”'), ("copy", '©'), ("reg", '®'),
    ("trade", '™'), ("eacute", 'é')]

def decodeHtmlEntity (entity : Str) : Option Char :=
  match namedEntities.lookup entity with
  | some c => some c
  | none =>
    if entity.startsWith "#x" || entity.startsWith "#X" then
      (Str.parseU32 16 (entity.drop 2)).bind charFromU32
    else if entity.startsWith "#" then (Str.parseU32 10 (entity.drop 1)).bind charFromU32
    else none

/-- May the character continue an entity? -/
def isEntityChar (c : Char) : Bool := c.isAlphanum || c == '#' || c == 'x' || c == 'X'

/-- One pass over the entities; `entity` holds the characters after an open `&`. -/
def decodeHtmlEntitiesOnce (entity : Option Str) : List Char → Str
  | [] =>
    match entity with
    | some entity => '&' :: entity
    | none => []
  | c :: rest =>
    match entity with
    | none =>
      if c = '&' then decodeHtmlEntitiesOnce (some []) rest
      else c :: decodeHtmlEntitiesOnce none rest
    | some entity =>
      if entity.len ≤ 32 ∧ c = ';' then
        match decodeHtmlEntity entity with
        | some decoded => decoded :: decodeHtmlEntitiesOnce none rest
        | none => '&' :: entity ++ ';' :: decodeHtmlEntitiesOnce none rest
      else if entity.len ≤ 32 ∧ isEntityChar c then
        decodeHtmlEntitiesOnce (some (entity ++ [c])) rest
      -- not an entity after all: the character is read again outside of one
      else if c = '&' then '&' :: entity ++ decodeHtmlEntitiesOnce (some []) rest
      else '&' :: entity ++ c :: decodeHtmlEntitiesOnce none rest

/-- Entities may be escaped several times over; `rounds` passes are made at most. -/
def decodeNestedHtmlEntities (value : Str) : (rounds : ℕ) → Str
  | 0 => value
  | rounds + 1 =>
    let next := decodeHtmlEntitiesOnce none value
    if next = value then value else decodeNestedHtmlEntities next rounds

/-- `html_to_plain_text`. -/
def htmlToPlainText (html : Str) : Str :=
  (decodeNestedHtmlEntities (stripTags [] none none html).trim 8).trim

example : htmlToPlainText "<p>first<br>second</p><p>&amp;#34;third&amp;#34;</p>" =
    "first\nsecond\n\"third\"".toList := by decide +kernel

end Awayuki.Kq
