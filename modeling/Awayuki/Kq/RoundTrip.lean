import Awayuki.Kq.Printer
import Awayuki.Kq.Compile

/-!
# KQ: printing and parsing

The compiler reads back what is printed: the text of a well-typed expression within the limits
compiles to the expression, up to its places in the text.

* `WellTyped.spells`: the tokens of an expression have a derivation that builds it;
* `WellTyped.spelled`: each of them is read back by the lexer;
* `expression_round_trip`: both together, and every accepted token sequence has one derivation.
-/

namespace Awayuki.Kq

/-! ### Expressions without places -/

variable {ts : List Token} {op : BinaryOp} {token : Token} {value : Str}

@[simp] theorem Expr.types_eraseSpans (e : Expr) : e.eraseSpans.types = e.types := by
  obtain ⟨kind, types, span⟩ := e
  cases kind <;> rfl

variable {e e' : Expr}

theorem Expr.types_of_eraseSpans (h : e.eraseSpans = e'.eraseSpans) : e.types = e'.types := by
  rw [← e.types_eraseSpans, h, types_eraseSpans]

/-- The place of the whole expression does not matter. -/
theorem Expr.eraseSpans_mk (kind : ExprKind) (types : ValueTypes) (span span' : Span) :
    (Expr.mk kind types span).eraseSpans = (Expr.mk kind types span').eraseSpans := by
  cases kind <;> rfl

theorem Expr.eraseSpans_relabel (e : Expr) (span : Span) :
    (Expr.mk e.kind e.types span).eraseSpans = e.eraseSpans := by
  obtain ⟨kind, types, span'⟩ := e
  exact eraseSpans_mk kind types span span'

theorem Expr.kind_text_of_eraseSpans (h : e.eraseSpans = e'.eraseSpans)
    (he : e'.kind = .text value) : e.kind = .text value := by
  obtain ⟨kind', types', span'⟩ := e'
  obtain rfl : kind' = .text value := he
  obtain ⟨kind, types, span⟩ := e
  cases kind <;> simp_all [eraseSpans]

theorem eraseItemSpans_eq_map (items : List Expr) :
    eraseItemSpans items = items.map Expr.eraseSpans := by
  induction items with
  | nil => rfl
  | cons item items ih => rw [eraseItemSpans, ih, List.map_cons]

/-! ### Operators and fields as tokens -/

theorem binaryOperator_token (h : token.kind = op.token) : token.binaryOperator = some op := by
  cases op <;> simp [Token.binaryOperator, h, BinaryOp.token] <;> decide

theorem unaryOperator_token {op : UnaryOp} (h : token.kind = op.token) :
    unaryOperator token = some op := by
  cases op <;> simp [unaryOperator, h, UnaryOp.token, Token.isKeyword]
  decide

/-- A path starts with a word of its own, and consists of words. -/
theorem Field.path_words (f : Field) : ∃ part parts, f.path = part :: parts ∧
    (∀ w ∈ ["true", "false", "not", "caseful"], part.eqIgnoreAsciiCase w = false) ∧
    ∀ part ∈ f.path, isWord part = true := by
  have h : ∀ f ∈ Field.all, (f.path.head?.any fun part =>
      ["true", "false", "not", "caseful"].all fun w => !part.eqIgnoreAsciiCase w) = true ∧
        f.path.all isWord = true := by
    decide +kernel
  obtain ⟨hwords, hall⟩ := h f f.mem_all
  cases hpath : f.path with
  | nil => simp [hpath] at hwords
  | cons part parts =>
    rw [hpath] at hwords hall
    refine ⟨part, parts, rfl, fun w hw => ?_, fun p hp => List.all_eq_true.1 hall p hp⟩
    simpa using List.all_eq_true.1 hwords w hw

/-! ### The tokens of an expression are its derivation -/

variable {h : ℕ} {span : Span} {re : Option Regex} {types : ValueTypes} {l r : Expr}
  {items : List Expr}

theorem word_of_kind {part : Str} (h : token.kind = .identifier part) : token.word = some part := by
  simp only [Token.word, h]

/-- The tokens after the first of a path are its components. -/
theorem exists_components {parts : List Str}
    (hts : ts.map Token.kind = parts.flatMap fun part => [.dot, .identifier part]) :
    ∃ components : List (Token × Token), componentTokens components = ts ∧
      (∀ c ∈ components, c.1.kind = .dot ∧ c.2.word.isSome) ∧
      (components.map Prod.snd).filterMap Token.word = parts := by
  induction parts generalizing ts with
  | nil =>
    obtain rfl := List.map_eq_nil_iff.1 hts
    exact ⟨[], rfl, by simp, rfl⟩
  | cons part parts ih =>
    obtain ⟨dot, ts, rfl, hdot, hts⟩ := List.map_eq_cons_iff.1 hts
    obtain ⟨token, ts, rfl, htoken, hts⟩ := List.map_eq_cons_iff.1 hts
    obtain ⟨cs, rfl, hcs, hparts⟩ := ih hts
    have hword := word_of_kind htoken
    exact ⟨(dot, token) :: cs, rfl, List.forall_mem_cons.2 ⟨⟨hdot, by simp [hword]⟩, hcs⟩,
      by simp [hword, ← hparts]⟩

theorem Expr.height_of_chain (hne : op.height ≠ h) :
    (Expr.mk (.binary op l r re) types span).chain h = 0 :=
  if_neg hne

theorem itemsWithin_iff {limits : QueryLimits} :
    ItemsWithin limits items ↔ ∀ item ∈ items, item.Within limits := by
  induction items with
  | nil => simp [ItemsWithin]
  | cons item items ih => simp [ItemsWithin, ih]

section

variable [RegexCrate] (input : Str) (limits : QueryLimits)

/-- The tokens have a derivation that builds `e` and counts what `e` counts. -/
def Spells (h : ℕ) (e : Expr) (ts : List Token) : Prop :=
  ∃ c : Cst, c.WF ∧ c.yield = ts ∧ c.height ≤ h ∧ c.Within limits ∧ c.depth = e.depth h ∧
    c.chain h = e.chain h ∧
    ∃ e', c.build input limits = .ok e' ∧ e'.eraseSpans = e.eraseSpans

variable {input limits}

theorem Spells.atom (hatom : atomExpr token = some e') (herase : e'.eraseSpans = e.eraseSpans)
    (hdepth : e.depth h = 0) (hchain : e.chain h = 0) : Spells input limits h e [token] :=
  ⟨.atom token, by simp [Cst.WF, hatom], rfl, Nat.zero_le _, trivial, hdepth.symm, hchain.symm,
    e', Cst.build_atom hatom, herase⟩

theorem spells_bool {value : Bool}
    (hts : ts.map Token.kind = (Expr.mk (.bool value) .BOOL span).tokens h) :
    Spells input limits h (.mk (.bool value) .BOOL span) ts := by
  cases value with
  | true =>
    obtain ⟨token, rfl, hkind⟩ := List.map_eq_singleton_iff.1 hts
    have hatom : atomExpr token = some (.mk (.bool true) .BOOL token.span) := by
      simp only [atomExpr, hkind]
      rfl
    exact .atom hatom rfl rfl rfl
  | false =>
    obtain ⟨token, rfl, hkind⟩ := List.map_eq_singleton_iff.1 hts
    have hatom : atomExpr token = some (.mk (.bool false) .BOOL token.span) := by
      simp only [atomExpr, hkind]
      rfl
    exact .atom hatom rfl rfl rfl

theorem spells_number {value : ℤ}
    (hts : ts.map Token.kind = (Expr.mk (.number value) .NUMBER span).tokens h) :
    Spells input limits h (.mk (.number value) .NUMBER span) ts := by
  rw [Expr.tokens_number] at hts
  split_ifs at hts with hmin
  · obtain ⟨minus, ts, rfl, hminus, hts⟩ := List.map_eq_cons_iff.1 hts
    obtain ⟨magnitude, rfl, hmagnitude⟩ := List.map_eq_singleton_iff.1 hts
    exact ⟨.minimum minus magnitude, ⟨hminus, hmagnitude⟩, rfl, Nat.zero_le _, trivial, rfl, rfl,
      _, rfl, by rw [hmin]; rfl⟩
  · obtain ⟨token, rfl, hkind⟩ := List.map_eq_singleton_iff.1 hts
    have hatom : atomExpr token = some (.mk (.number value) .NUMBER token.span) := by
      simp only [atomExpr, hkind]
    exact .atom hatom rfl rfl rfl

theorem spells_text (hts : ts.map Token.kind = (Expr.mk (.text value) .TEXT span).tokens h) :
    Spells input limits h (.mk (.text value) .TEXT span) ts := by
  obtain ⟨token, rfl, hkind⟩ := List.map_eq_singleton_iff.1 hts
  have hatom : atomExpr token = some (.mk (.text value) .TEXT token.span) := by
    simp only [atomExpr, hkind]
  exact .atom hatom rfl rfl rfl

theorem spells_identity
    (hts : ts.map Token.kind = (Expr.mk (.identity value) .IDENTITY span).tokens h) :
    Spells input limits h (.mk (.identity value) .IDENTITY span) ts := by
  obtain ⟨token, rfl, hkind⟩ := List.map_eq_singleton_iff.1 hts
  have hatom : atomExpr token = some (.mk (.identity value) .IDENTITY token.span) := by
    simp only [atomExpr, hkind]
  exact .atom hatom rfl rfl rfl

theorem spells_field {field : Field}
    (hts : ts.map Token.kind = (Expr.mk (.field field) field.valueTypes span).tokens h) :
    Spells input limits h (.mk (.field field) field.valueTypes span) ts := by
  obtain ⟨part, parts, hpath, hwords, -⟩ := field.path_words
  rw [Expr.tokens_field, hpath, pathTokens] at hts
  obtain ⟨token, ts, rfl, htoken, hts⟩ := List.map_eq_cons_iff.1 hts
  obtain ⟨cs, rfl, hcs, hparts⟩ := exists_components hts
  have hword := word_of_kind htoken
  have hfield : resolveField ((token :: cs.map Prod.snd).filterMap Token.word) = some field := by
    simp only [List.filterMap_cons, hword, hparts]
    rw [← hpath, resolveField_path]
  have hatom : atomExpr token = none := by
    simp only [atomExpr, htoken, hwords "true" (by simp), hwords "false" (by simp)]
    rfl
  have hunary : unaryOperator token = none := by
    have hnot : token.isKeyword "not" = false := by
      simpa only [Token.isKeyword, htoken] using hwords "not" (by simp)
    have hcaseful : token.isKeyword "caseful" = false := by
      simpa only [Token.isKeyword, htoken] using hwords "caseful" (by simp)
    simp [unaryOperator, htoken, hnot, hcaseful]
  refine ⟨.path token cs, ⟨by simp [hword], hatom, hunary, hcs⟩, rfl, Nat.zero_le _, trivial, rfl,
    rfl, ?_⟩
  rw [Cst.build, pathExpr, hfield]
  exact ⟨_, rfl, rfl⟩

theorem spells_unary {op : UnaryOp} {operand : Expr}
    (ih : ∀ ts, ts.map Token.kind = operand.tokens 0 → Spells input limits 0 operand ts)
    (applies : operand.types.intersects (unaryTypes op) = true)
    (hts : ts.map Token.kind = (Expr.mk (.unary op operand) (unaryTypes op) span).tokens h) :
    Spells input limits h (.mk (.unary op operand) (unaryTypes op) span) ts := by
  rw [Expr.tokens_unary] at hts
  obtain ⟨token, ts, rfl, htoken, hts⟩ := List.map_eq_cons_iff.1 hts
  obtain ⟨c, wf, rfl, hheight, within, hdepth, -, e', hbuild, herase⟩ := ih ts hts
  have hop := unaryOperator_token htoken
  refine ⟨.unary token c, ⟨by simp [hop], wf, Nat.le_zero.1 hheight⟩, rfl, Nat.zero_le _, within,
    by simp [Cst.depth, Expr.depth, hdepth], rfl, ?_⟩
  have hmake : makeUnary input op e' token.span =
      .ok (.mk (.unary op e') (unaryTypes op) ⟨token.span.start, e'.span.stop⟩) := by
    rw [makeUnary, Expr.types_of_eraseSpans herase, if_pos applies]
  refine ⟨.mk (.unary op e') (unaryTypes op) ⟨token.span.start, e'.span.stop⟩, ?_, ?_⟩
  · simp only [Cst.build, hbuild, hop, hmake, bind, Except.bind]
  · simp only [Expr.eraseSpans, herase]

/-- The parser builds a binary expression from operands like the given ones. -/
theorem makeBinary_of_eraseSpans {l' r' : Expr} {span' : Span} (hl : l'.eraseSpans = l.eraseSpans)
    (hr : r'.eraseSpans = r.eraseSpans)
    (he : WellTyped limits (.mk (.binary op l r re) types span)) :
    makeBinary input limits op l' r' span' =
      .ok (.mk (.binary op l' r' re) types ⟨l'.span.start, r'.span.stop⟩) := by
  unfold makeBinary
  rw [Expr.types_of_eraseSpans hl, Expr.types_of_eraseSpans hr]
  cases he with
  | binary _ _ _ _ _ _ _ applies plain =>
    simp only [applies, if_neg plain, bind, Except.bind]
  | regex _ _ pattern regex _ _ _ _ applies literal short compiled =>
    have hcompile : compileRegex input limits r' = .ok regex := by
      simp only [compileRegex, Expr.kind_text_of_eraseSpans hr literal, if_neg (Nat.not_lt.2 short),
        compiled]
    simp [applies, hcompile, bind, Except.bind, Except.map]

/-- A binary expression without parentheses around it. -/
theorem spells_binary_bare (he : WellTyped limits (.mk (.binary op l r re) types span))
    (hwithin : (Expr.mk (.binary op l r re) types span).Within limits)
    (ihl : ∀ ts, ts.map Token.kind = l.tokens (op.height - 1) →
      Spells input limits (op.height - 1) l ts)
    (ihr : ∀ ts, ts.map Token.kind = r.tokens op.height → Spells input limits op.height r ts)
    (hop : op.height ≤ h) (hts : ts.map Token.kind =
      l.tokens (op.height - 1) ++ op.token :: r.tokens op.height) :
    Spells input limits h (.mk (.binary op l r re) types span) ts := by
  obtain ⟨ls, ts, rfl, hls, hts⟩ := List.map_eq_append_iff.1 hts
  obtain ⟨token, rs, rfl, htoken, hrs⟩ := List.map_eq_cons_iff.1 hts
  obtain ⟨cl, wfl, rfl, hheightl, withinl, hdepthl, -, el, hbuildl, herasel⟩ := ihl ls hls
  obtain ⟨cr, wfr, rfl, hheightr, withinr, hdepthr, hchainr, er, hbuildr, heraser⟩ := ihr rs hrs
  have hbinary := binaryOperator_token htoken
  have hheight : token.height = op.height := Token.height_of_binaryOperator hbinary
  have hpos := op.height_pos
  have hchain : ∀ g, (Cst.binary cl token cr).chain g =
      (Expr.mk (.binary op l r re) types span).chain g := by
    intro g
    simp only [Cst.chain, Expr.chain, hheight]
    split_ifs with hg
    · rw [← hg, hchainr]
    · rfl
  refine ⟨.binary cl token cr, ⟨wfl, wfr, by omega, by omega, by omega⟩, rfl, hheight.trans_le hop,
    ⟨withinl, withinr, ?_⟩, ?_, hchain h, ?_⟩
  · rw [hchain, hheight]
    exact hwithin.2.2
  · simp only [Cst.depth, Expr.depth, hdepthl, hdepthr, if_pos hop]
  · refine ⟨.mk (.binary op el er re) types ⟨el.span.start, er.span.stop⟩, ?_, ?_⟩
    · simp only [Cst.build, hbuildl, hbuildr, hbinary, bind, Except.bind]
      exact makeBinary_of_eraseSpans herasel heraser he
    · simp only [Expr.eraseSpans, herasel, heraser]

/-- An expression that is too high for its place stands in parentheses. -/
theorem Spells.group {«open» close : Token} (hopen : «open».kind = .leftParen)
    (hclose : close.kind = .rightParen) (hdepth : e.depth h = e.depth 7 + 1)
    (hchain : e.chain h = 0) (hspells : Spells input limits 7 e ts) :
    Spells input limits h e («open» :: ts ++ [close]) := by
  obtain ⟨c, wf, rfl, -, within, hdepthc, -, e', hbuild, herase⟩ := hspells
  refine ⟨.group «open» c close, ⟨hopen, wf, hclose⟩, rfl, Nat.zero_le _, within,
    by rw [Cst.depth, hdepthc, hdepth], hchain.symm, ?_⟩
  refine ⟨.mk e'.kind e'.types ⟨«open».span.start, close.span.stop⟩, ?_,
    (e'.eraseSpans_relabel _).trans herase⟩
  simp only [Cst.build, hbuild, bind, Except.bind]

theorem spells_binary (he : WellTyped limits (.mk (.binary op l r re) types span))
    (hwithin : (Expr.mk (.binary op l r re) types span).Within limits)
    (ihl : ∀ ts, ts.map Token.kind = l.tokens (op.height - 1) →
      Spells input limits (op.height - 1) l ts)
    (ihr : ∀ ts, ts.map Token.kind = r.tokens op.height → Spells input limits op.height r ts)
    (hts : ts.map Token.kind = (Expr.mk (.binary op l r re) types span).tokens h) :
    Spells input limits h (.mk (.binary op l r re) types span) ts := by
  rw [Expr.tokens] at hts
  split_ifs at hts with hop
  · exact spells_binary_bare he hwithin ihl ihr hop hts
  · rw [List.cons_append] at hts
    obtain ⟨«open», ts, rfl, hopen, hts⟩ := List.map_eq_cons_iff.1 hts
    obtain ⟨mid, last, rfl, hmid, hlast⟩ := List.map_eq_append_iff.1 hts
    obtain ⟨close, rfl, hclose⟩ := List.map_eq_singleton_iff.1 hlast
    refine Spells.group hopen hclose ?_ (Expr.height_of_chain (by omega))
      (spells_binary_bare he hwithin ihl ihr op.height_le hmid)
    rw [Expr.depth, Expr.depth, if_neg hop, if_pos op.height_le]

/-- The items of a set that has one. -/
theorem exists_items (hne : items ≠ [])
    (ih : ∀ item ∈ items, ∀ ts, ts.map Token.kind = item.tokens 7 → Spells input limits 7 item ts)
    (hscalar : ∀ item ∈ items,
      item.types.intersects (.NUMBER ||| .TEXT ||| .IDENTITY) = true)
    (hts : ts.map Token.kind = itemTokens items) :
    ∃ is : CstItems, is.WF ∧ is.yield = ts ∧ is.Within limits ∧ is.depth = itemDepth items ∧
      is.count = items.length ∧
      ∃ es, is.build input limits = .ok es ∧ es.map Expr.eraseSpans = items.map Expr.eraseSpans := by
  have hitem : ∀ {item e : Expr}, e.eraseSpans = item.eraseSpans →
      item.types.intersects (.NUMBER ||| .TEXT ||| .IDENTITY) = true →
      scalarItem input e = .ok e := fun {item e} herase htypes =>
    if_pos (by rwa [Expr.types_of_eraseSpans herase])
  induction items generalizing ts with
  | nil => exact absurd rfl hne
  | cons item items IH =>
    cases items with
    | nil =>
      obtain ⟨c, wf, rfl, -, within, hdepth, -, e, hbuild, herase⟩ := ih item (by simp) ts hts
      refine ⟨.last c none, ⟨wf, by simp⟩, by simp [CstItems.yield], within,
        by simp [CstItems.depth, itemDepth, hdepth], rfl, [e], ?_, by simp [herase]⟩
      simp only [CstItems.build, hbuild, hitem herase (hscalar item (by simp)), bind, Except.bind]
    | cons item' items =>
      rw [itemTokens] at hts
      · obtain ⟨first, ts, rfl, hfirst, hts⟩ := List.map_eq_append_iff.1 hts
        obtain ⟨comma, rest, rfl, hcomma, hrest⟩ := List.map_eq_cons_iff.1 hts
        obtain ⟨c, wf, rfl, -, within, hdepth, -, e, hbuild, herase⟩ :=
          ih item (by simp) first hfirst
        obtain ⟨is, wfis, rfl, withinis, hdepthis, hcount, es, hbuildis, heraseis⟩ :=
          IH (List.cons_ne_nil _ _) (fun i hi => ih i (by simp [hi]))
            (fun i hi => hscalar i (by simp [hi])) hrest
        refine ⟨.cons c comma is, ⟨wf, hcomma, wfis⟩, rfl, ⟨within, withinis⟩, ?_, ?_, e :: es, ?_, ?_⟩
        · rw [CstItems.depth, itemDepth, hdepth, hdepthis]
        · rw [CstItems.count, hcount]
          rfl
        · simp only [CstItems.build, hbuild, hbuildis, hitem herase (hscalar item (by simp)), bind,
            Except.bind]
        · rw [List.map_cons, List.map_cons, herase, heraseis]
      · exact List.cons_ne_nil _ _

theorem spells_set (hwithin : items.length ≤ limits.maxSetItems)
    (ih : ∀ item ∈ items, ∀ ts, ts.map Token.kind = item.tokens 7 → Spells input limits 7 item ts)
    (hscalar : ∀ item ∈ items,
      item.types.intersects (.NUMBER ||| .TEXT ||| .IDENTITY) = true)
    (hts : ts.map Token.kind = (Expr.mk (.set items) .SET span).tokens h) :
    Spells input limits h (.mk (.set items) .SET span) ts := by
  rw [Expr.tokens_set] at hts
  obtain ⟨«open», ts, rfl, hopen, hts⟩ := List.map_eq_cons_iff.1 hts
  obtain ⟨mid, last, rfl, hmid, hlast⟩ := List.map_eq_append_iff.1 hts
  obtain ⟨close, rfl, hclose⟩ := List.map_eq_singleton_iff.1 hlast
  cases items with
  | nil =>
    obtain rfl := List.map_eq_nil_iff.1 hmid
    exact ⟨.emptySet «open» close, ⟨hopen, hclose⟩, rfl, Nat.zero_le _, trivial, rfl, rfl, _, rfl,
      rfl⟩
  | cons item items =>
    obtain ⟨is, wf, rfl, within, hdepth, hcount, es, hbuild, herase⟩ :=
      exists_items (List.cons_ne_nil _ _) ih hscalar hmid
    refine ⟨.set «open» is close, ⟨hopen, wf, hclose⟩, rfl, Nat.zero_le _,
      ⟨hcount.trans_le hwithin, within⟩, by rw [Cst.depth, Expr.depth, hdepth], rfl,
      .mk (.set es) .SET ⟨«open».span.start, close.span.stop⟩, ?_, ?_⟩
    · simp only [Cst.build, hbuild, bind, Except.bind]
    · rw [Expr.eraseSpans, Expr.eraseSpans, eraseItemSpans_eq_map, eraseItemSpans_eq_map, herase]

/-- The tokens of a well-typed expression within the limits have a derivation that builds it. -/
theorem WellTyped.spells (input : Str) (he : WellTyped limits e) (hwithin : e.Within limits) :
    ∀ (h : ℕ) (ts : List Token), ts.map Token.kind = e.tokens h → Spells input limits h e ts := by
  induction he with
  | bool value span => exact fun h ts => spells_bool
  | number value span => exact fun h ts => spells_number
  | text value span => exact fun h ts => spells_text
  | identity value span => exact fun h ts => spells_identity
  | set items span typed scalar ih =>
    exact fun h ts => spells_set hwithin.1
      (fun item hitem => ih item hitem (itemsWithin_iff.1 hwithin.2 item hitem) 7) scalar
  | field field span => exact fun h ts => spells_field
  | unary op operand span typed applies ih => exact fun h ts => spells_unary (ih hwithin 0) applies
  | binary op left right types span typedLeft typedRight applies plain ihl ihr =>
    exact fun h ts => spells_binary (.binary op left right types span typedLeft typedRight applies plain)
      hwithin (ihl hwithin.1 _) (ihr hwithin.2.1 _)
  | regex left right pattern regex types span typedLeft typedRight applies literal short compiled
      ihl ihr =>
    exact fun h ts => spells_binary (.regex left right pattern regex types span typedLeft typedRight
      applies literal short compiled) hwithin (ihl hwithin.1 _) (ihr hwithin.2.1 _)

end

/-! ### The tokens of an expression have texts -/

theorem pathTokens_spelled (f : Field) : ∀ kind ∈ pathTokens f.path, kind.Spelled := by
  obtain ⟨part, parts, hpath, -, hwords⟩ := f.path_words
  rw [hpath] at hwords ⊢
  intro kind hkind
  simp only [pathTokens, List.mem_cons, List.mem_flatMap, List.not_mem_nil, or_false] at hkind
  obtain rfl | ⟨p, hp, rfl | rfl⟩ := hkind
  · exact hwords part (by simp)
  · trivial
  · exact hwords p (by simp [hp])

theorem BinaryOp.token_spelled (op : BinaryOp) : op.token.Spelled := by
  cases op <;> trivial

theorem UnaryOp.token_spelled (op : UnaryOp) : op.token.Spelled := by
  cases op <;> trivial

theorem itemTokens_spelled (h : ∀ item ∈ items, ∀ kind ∈ item.tokens 7, kind.Spelled) :
    ∀ kind ∈ itemTokens items, kind.Spelled := by
  induction items with
  | nil => simp [itemTokens]
  | cons item items ih =>
    cases items with
    | nil => exact h item (by simp)
    | cons item' items =>
      rw [itemTokens]
      · intro kind hkind
        rcases List.mem_append.1 hkind with hkind | hkind
        · exact h item (by simp) kind hkind
        · rcases List.mem_cons.1 hkind with rfl | hkind
          · trivial
          · exact ih (fun i hi => h i (by simp [hi])) kind hkind
      · exact List.cons_ne_nil _ _

theorem binary_spelled (hl : ∀ kind ∈ l.tokens (op.height - 1), kind.Spelled)
    (hr : ∀ kind ∈ r.tokens op.height, kind.Spelled) :
    ∀ kind ∈ (Expr.mk (.binary op l r re) types span).tokens h, kind.Spelled := by
  have hbare : ∀ kind ∈ l.tokens (op.height - 1) ++ op.token :: r.tokens op.height,
      kind.Spelled := by
    intro kind hkind
    rcases List.mem_append.1 hkind with hkind | hkind
    · exact hl kind hkind
    · rcases List.mem_cons.1 hkind with rfl | hkind
      · exact op.token_spelled
      · exact hr kind hkind
  intro kind hkind
  rw [Expr.tokens] at hkind
  split_ifs at hkind
  · exact hbare kind hkind
  · rw [List.cons_append, List.mem_cons, List.mem_append, List.mem_singleton] at hkind
    obtain rfl | hkind | rfl := hkind
    · trivial
    · exact hbare kind hkind
    · trivial

/-- Every token of a well-typed expression can be written. -/
theorem WellTyped.spelled [RegexCrate] {limits : QueryLimits} (he : WellTyped limits e) :
    ∀ (h : ℕ), ∀ kind ∈ e.tokens h, kind.Spelled := by
  induction he with
  | bool value span => cases value <;> simp [Expr.tokens, TokenKind.Spelled, isWord]
  | number value span range =>
    intro h kind hkind
    rw [Expr.tokens_number] at hkind
    split_ifs at hkind with hmin
    · obtain rfl | rfl := List.mem_pair.1 hkind <;> trivial
    · obtain rfl := List.mem_singleton.1 hkind
      exact range.resolve_left hmin
  | text value span => simp [Expr.tokens, TokenKind.Spelled]
  | identity value span nonempty => simpa [Expr.tokens, TokenKind.Spelled] using nonempty
  | set items span typed scalar ih =>
    intro h kind hkind
    simp only [Expr.tokens, List.cons_append, List.mem_cons, List.mem_append, List.not_mem_nil,
      or_false] at hkind
    obtain rfl | hkind | rfl := hkind
    · trivial
    · exact itemTokens_spelled (fun item hitem => ih item hitem 7) kind hkind
    · trivial
  | field field span => exact fun h => pathTokens_spelled field
  | unary op operand span typed applies ih =>
    intro h kind hkind
    obtain rfl | hkind := List.mem_cons.1 hkind
    · exact op.token_spelled
    · exact ih 0 kind hkind
  | binary op left right types span typedLeft typedRight applies plain ihl ihr =>
    exact fun h => binary_spelled (ihl _) (ihr _)
  | regex left right pattern regex types span typedLeft typedRight applies literal short compiled
      ihl ihr =>
    exact fun h => binary_spelled (ihl _) (ihr _)

/-! ### The round trip -/

/-- The query with the predicate `e`. -/
def Expr.queryTokens (e : Expr) : List TokenKind := .identifier "where" :: e.tokens 7

def Expr.queryText (e : Expr) : Str := renderTokens e.queryTokens

/-- The limits of the compiler hold of the text of the expression. -/
structure Expr.Fits (limits : QueryLimits) (e : Expr) : Prop where
  within : e.Within limits
  depth_le : e.depth 7 ≤ limits.maxDepth
  tokens_lt : e.queryTokens.length < limits.maxTokens
  bytes_le : e.queryText.len ≤ limits.maxQueryBytes

section

variable [RegexCrate] {limits : QueryLimits}

/-- The tokens of an expression are parsed to the expression. -/
theorem parsePredicate_tokens (input : Str) (he : WellTyped limits e) (hwithin : e.Within limits)
    (hdepth : e.depth 7 ≤ limits.maxDepth) {last : Token} (hts : ts.map Token.kind = e.tokens 7)
    (hlast : last.kind = .end) :
    ∃ e', parsePredicate input limits (ts ++ [last]) = .ok (e', [last]) ∧
      e'.eraseSpans = e.eraseSpans := by
  obtain ⟨c, wf, hyield, -, within, hd, -, e', hbuild, herase⟩ := he.spells input hwithin 7 ts hts
  exact ⟨e', (parsePredicate_eq_ok_iff hlast).2
    ⟨⟨c, wf, hyield⟩, within, hd.trans_le hdepth, hbuild⟩, herase⟩

theorem parse_queryTokens (input : Str) (he : WellTyped limits e) (hwithin : e.Within limits)
    (hdepth : e.depth 7 ≤ limits.maxDepth) (hbool : e.types.intersects .BOOL = true)
    {tokens : List Token} (htokens : tokens.map Token.kind = e.queryTokens ++ [.end]) :
    ∃ query, parse input limits tokens = .ok query ∧
      query.predicate.eraseSpans = e.eraseSpans := by
  obtain ⟨first, tokens, rfl, hfirst, htokens⟩ := List.map_eq_cons_iff.1 htokens
  obtain ⟨ts, lasts, rfl, hts, hlast⟩ := List.map_eq_append_iff.1 htokens
  obtain ⟨last, rfl, hend⟩ := List.map_eq_singleton_iff.1 hlast
  obtain ⟨e', hparse, herase⟩ :=
    parsePredicate_tokens input he hwithin hdepth hts hend
  have hwhere : first.isKeyword "where" = true := by
    simp only [Token.isKeyword, hfirst]
    decide
  have hfrom : first.isKeyword "from" = false := by
    simp only [Token.isKeyword, hfirst]
    decide
  have hstart : atEnd (ts ++ [last]) = false := by
    obtain ⟨c, wf, hyield, -⟩ := he.spells input hwithin 7 ts hts
    obtain ⟨token, rest, hhead, -⟩ := c.yield_head wf
    obtain rfl := hyield.symm.trans hhead
    have hspelled := he.spelled 7 token.kind (hts ▸ by simp)
    have hkind : token.kind ≠ .end := fun h => by simp [h, TokenKind.Spelled] at hspelled
    simp [atEnd, hkind]
  have htypes : e'.types.intersects .BOOL = true := by
    rwa [Expr.types_of_eraseSpans herase]
  refine ⟨.of [⟨.local, [], ⟨0, 0⟩⟩] e', ?_, herase⟩
  have hstop : atEnd [last] = true := by simp [atEnd, hend]
  simp [parse, parseWhere, checkKeyword, takeKeyword, takeIf, hwhere, hfrom, hstart, hparse, htypes,
    hstop, bind, Except.bind]

variable [CharTable]

/-- Printing and parsing are inverse: the text of a well-typed predicate within the limits compiles
to the predicate, up to spans, and what the parser of predicates accepts has exactly one derivation
in the grammar, whose expression it returns. -/
theorem expression_round_trip (input : Str) (limits : QueryLimits) :
    (∀ e : Expr, WellTyped limits e → e.types.intersects .BOOL = true → e.Fits limits →
      ∃ query, compileQueryWithLimits e.queryText limits = .ok query ∧
        query.predicate.eraseSpans = e.eraseSpans) ∧
    ∀ (tokens : List Token) (e : Expr) (rest : List Token),
      parsePredicate input limits tokens = .ok (e, rest) →
      ∃ used, tokens = used ++ rest ∧ ∃ d : Derivation used,
        d.tree.build input limits = .ok e ∧ ∀ d' : Derivation used, d' = d := by
  refine ⟨fun e he hbool hfits => ?_, fun tokens e rest h => ?_⟩
  · have hspelled : ∀ kind ∈ e.queryTokens, kind.Spelled :=
      List.forall_mem_cons.2 ⟨by simp [TokenKind.Spelled, isWord], he.spelled 7⟩
    obtain ⟨tokens, htokenize, hkinds⟩ := tokenize_renderTokens hspelled hfits.tokens_lt
    obtain ⟨query, hparse, herase⟩ :=
      parse_queryTokens e.queryText he hfits.within hfits.depth_le hbool hkinds
    refine ⟨query, ?_, herase⟩
    rw [compileQueryWithLimits, if_neg (Nat.not_lt.2 hfits.bytes_le)]
    simp only [Expr.queryText] at hparse ⊢
    simp only [htokenize, hparse, bind, Except.bind]
  · rw [parsePredicate_eq] at h
    obtain ⟨c, wf, -, -, -, hbuild, rfl⟩ := parseHeight_sound _ _ _ _ _ h
    exact ⟨c.yield, rfl, ⟨c, wf, rfl⟩, hbuild, fun d' => Subsingleton.elim _ _⟩

end

section

attribute [local instance] asciiCharTable noRegex

/-- `! ( media | text -> "a" ) & caseful text == "b"`. -/
def sampleExpr : Expr :=
  .mk (.binary .and
    (.mk (.unary .not (.mk (.binary .or (.mk (.field .hasMedia) .BOOL ⟨0, 0⟩)
      (.mk (.binary .contains (.mk (.field .text) .TEXT ⟨0, 0⟩) (.mk (.text "a") .TEXT ⟨0, 0⟩) none)
        .BOOL ⟨0, 0⟩) none) .BOOL ⟨0, 0⟩)) .BOOL ⟨0, 0⟩)
    (.mk (.binary .equal (.mk (.unary .caseful (.mk (.field .text) .TEXT ⟨0, 0⟩)) .TEXT ⟨0, 0⟩)
      (.mk (.text "b") .TEXT ⟨0, 0⟩) none) .BOOL ⟨0, 0⟩) none) .BOOL ⟨0, 0⟩

theorem sampleExpr_wellTyped : WellTyped .default sampleExpr :=
  .binary .and _ _ _ _
    (.unary .not _ _
      (.binary .or _ _ _ _ (.field .hasMedia _)
        (.binary .contains _ _ _ _ (.field .text _) (.text _ _) (by decide) (by decide))
        (by decide) (by decide))
      (by decide))
    (.binary .equal _ _ _ _ (.unary .caseful _ _ (.field .text _) (by decide)) (.text _ _)
      (by decide) (by decide))
    (by decide) (by decide)

theorem sampleExpr_fits : sampleExpr.Fits .default where
  within := by simp [sampleExpr, Expr.Within, Expr.chain, BinaryOp.height, QueryLimits.default]
  depth_le := by decide
  tokens_lt := by decide
  bytes_le := by decide +kernel

theorem expression_round_trip_sample :
    (∃ query, compileQueryWithLimits sampleExpr.queryText .default = .ok query ∧
      query.predicate.eraseSpans = sampleExpr.eraseSpans) ∧
    ∃ used, [⟨.identifier "true", ⟨0, 4⟩⟩, ⟨.end, ⟨4, 4⟩⟩] = used ++ [⟨.end, ⟨4, 4⟩⟩] ∧
      ∃ d : Derivation used, d.tree.build "true" .default = .ok (.mk (.bool true) .BOOL ⟨0, 4⟩) ∧
        ∀ d' : Derivation used, d' = d :=
  ⟨(expression_round_trip "true" .default).1 sampleExpr sampleExpr_wellTyped rfl sampleExpr_fits,
    (expression_round_trip "true" .default).2 [⟨.identifier "true", ⟨0, 4⟩⟩, ⟨.end, ⟨4, 4⟩⟩]
      (.mk (.bool true) .BOOL ⟨0, 4⟩) [⟨.end, ⟨4, 4⟩⟩] rfl⟩

end

end Awayuki.Kq
