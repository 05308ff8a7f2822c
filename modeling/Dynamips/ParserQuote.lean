import Dynamips.Parser

/-! `m_strquote` of utils.c against the tokenizer: which lists of arguments a
line of quoted arguments gives back. -/
set_option autoImplicit false

namespace Dynamips.Parser

/-- The characters that `m_strquote` looks for with `strpbrk`. -/
def needsQuotes (c : Byte) : Bool :=
  c == 0x20 || c == 0x09 || c == 0x22 || c == 0x27

/-- `m_strquote`, with what `snprintf` leaves of the quoted string in a buffer
of `bufLen` bytes. -/
def mStrquote (bufLen : Nat) (str : List Byte) : List Byte :=
  if str.any needsQuotes then (0x22 :: (str ++ [0x22])).take (bufLen - 1) else str

def quotedLine (bufLen : Nat) : List (List Byte) → List Byte
  | [] => []
  | [a] => mStrquote bufLen a
  | a :: b :: args => mStrquote bufLen a ++ 0x20 :: quotedLine bufLen (b :: args)

abbrev Argument := { a : List Byte // ∀ c ∈ a, parserGetCharType c ≠ .newline }

/-- The line of the quoted arguments is read as these arguments, unless the
allocator refuses a request. -/
def ReadsBack (args : List (List Byte)) : Prop :=
  ∀ (bufLen : Nat) (mem : Nat → Bool) (eol : Byte),
    (∀ a ∈ args, a.length + 2 < bufLen) → parserGetCharType eol = .newline →
    (parserScanBuffer mem parserContextInit (quotedLine bufLen args ++ [eol])).1 = true ∧
    ((parserScanBuffer mem parserContextInit (quotedLine bufLen args ++ [eol])).2.error =
        some .nomem ∨
      (parserScanBuffer mem parserContextInit (quotedLine bufLen args ++ [eol])).2.error = none ∧
      (parserScanBuffer mem parserContextInit (quotedLine bufLen args ++ [eol])).2.tokens = args)

/-- The arguments on which `m_strquote` and the tokenizer agree. -/
def Quotable (a : List Byte) : Prop :=
  a ≠ [] ∧ 0x22 ∉ a ∧ ((∃ c ∈ a, parserGetCharType c = .comment) → a.any needsQuotes = true)

theorem parserGetCharType_quote (c : Byte) : parserGetCharType c = .quote ↔ c = 0x22 := by
  revert c
  decide

theorem parserGetCharType_blank {c : Byte} (h : parserGetCharType c = .blank) :
    needsQuotes c = true := by
  revert c
  decide

/-- What the context holds: the tokens moved, the characters of the current
one and the state of the automaton. -/
structure At (toks : List (List Byte)) (cur : Option (List Byte)) (state : ParserState)
    (ctx : ParserContext) : Prop where
  tokens : ctx.tokens = toks
  cur : ctx.tmpTok.map (·.chars) = cur
  state : ctx.state = state
  error : ctx.error = none

def Starved (ctx : ParserContext) : Prop := ctx.state = .skip ∧ ctx.error = some .nomem

def AtOrStarved (toks : List (List Byte)) (cur : Option (List Byte)) (state : ParserState)
    (ctx : ParserContext) : Prop :=
  At toks cur state ctx ∨ Starved ctx

variable {mem : Nat → Bool} {ctx : ParserContext} {toks : List (List Byte)}
  {cur : Option (List Byte)} {state : ParserState} {w : List Byte} {c : Byte}

theorem at_init : At [] none .blank parserContextInit := ⟨rfl, rfl, rfl, rfl⟩

theorem At.consume (h : At toks cur state ctx) (n : Nat) :
    At toks cur state { ctx with consumedLen := n } :=
  ⟨h.tokens, h.cur, h.state, h.error⟩

theorem At.addChar (h : At toks cur state ctx) (mem : Nat → Bool) (c : Byte)
    (next : ParserState) :
    AtOrStarved toks (some (cur.getD [] ++ [c])) next
      (orNomem (tmpTokenAddChar mem ctx c) next) := by
  obtain ⟨htokens, hcur, -, herror⟩ := h
  subst hcur
  unfold tmpTokenAddChar
  cases ht : ctx.tmpTok with
  | none =>
    cases hm : mem ctx.allocs with
    | true => exact .inl ⟨htokens, rfl, rfl, herror⟩
    | false => exact .inr ⟨rfl, rfl⟩
  | some tok =>
    by_cases hl : tok.chars.length = tok.totLen - 1
    · cases hm : mem ctx.allocs with
      | true => simp only [dif_pos hl]; exact .inl ⟨htokens, rfl, rfl, herror⟩
      | false => simp only [dif_pos hl]; exact .inr ⟨rfl, rfl⟩
    · simp only [dif_neg hl]
      exact .inl ⟨htokens, rfl, rfl, herror⟩

theorem At.moveToken (h : At toks (some w) state ctx) (mem : Nat → Bool) (next : ParserState) :
    AtOrStarved (toks ++ [w]) none next (orNomem (parserMoveTmpToken mem ctx) next) := by
  obtain ⟨htokens, hcur, -, herror⟩ := h
  unfold parserMoveTmpToken
  cases ht : ctx.tmpTok with
  | none => simp [ht] at hcur
  | some tok =>
    have hw : tok.chars = w := by simpa [ht] using hcur
    cases hm : mem ctx.allocs with
    | true => exact .inl ⟨by simp [orNomem, htokens, hw], rfl, rfl, herror⟩
    | false => exact .inr ⟨rfl, rfl⟩

def Adds (state : ParserState) (c : Byte) : Prop :=
  (state = .string ∧ parserGetCharType c = .other) ∨
  (state = .quotedString ∧ parserGetCharType c ≠ .newline ∧ parserGetCharType c ≠ .quote)

theorem scanChar_starved (h : Starved ctx) (hc : parserGetCharType c ≠ .newline) :
    Starved (scanChar mem ctx c) := by
  unfold scanChar
  rw [h.1]
  cases ht : parserGetCharType c with
  | newline => exact absurd ht hc
  | _ => exact ⟨rfl, h.2⟩

theorem scanLoop_starved (h : Starved ctx) {buf : List Byte}
    (hbuf : ∀ c ∈ buf, parserGetCharType c ≠ .newline) : Starved (scanLoop mem ctx buf) := by
  induction buf generalizing ctx with
  | nil => exact h
  | cons c buf ih =>
    rw [scanLoop, if_neg (by rw [h.1]; decide)]
    exact ih (scanChar_starved h (hbuf c List.mem_cons_self))
      fun b hb => hbuf b (List.mem_cons_of_mem c hb)

theorem scanChar_add (h : At toks cur state ctx) (hc : Adds state c) :
    AtOrStarved toks (some (cur.getD [] ++ [c])) state (scanChar mem ctx c) := by
  have hadd := (h.consume (ctx.consumedLen + 1)).addChar mem c state
  unfold scanChar
  simp only [h.state] at hadd ⊢
  rcases hc with ⟨rfl, ht⟩ | ⟨rfl, hn, hq⟩
  · rw [ht]
    exact hadd
  · cases ht : parserGetCharType c with
    | newline => exact absurd ht hn
    | quote => exact absurd ht hq
    | _ => exact hadd

theorem scanLoop_add {buf : List Byte} (h : AtOrStarved toks (some w) state ctx)
    (hbuf : ∀ c ∈ buf, Adds state c) (hline : ∀ c ∈ buf, parserGetCharType c ≠ .newline)
    (hstate : state ≠ .done) : AtOrStarved toks (some (w ++ buf)) state (scanLoop mem ctx buf) := by
  induction buf generalizing ctx w with
  | nil => simpa [scanLoop] using h
  | cons c buf ih =>
    rcases h with h | h
    · rw [scanLoop, if_neg (by rw [h.state]; exact hstate), List.append_cons]
      exact ih (scanChar_add h (hbuf c List.mem_cons_self))
        (fun b hb => hbuf b (List.mem_cons_of_mem c hb))
        fun b hb => hline b (List.mem_cons_of_mem c hb)
    · exact .inr (scanLoop_starved h hline)

theorem scanChar_blank_other (mem : Nat → Bool) (h : At toks none .blank ctx)
    (hc : parserGetCharType c = .other) :
    AtOrStarved toks (some [c]) .string (scanChar mem ctx c) := by
  have hadd := (h.consume (ctx.consumedLen + 1)).addChar mem c .string
  unfold scanChar
  simp only [h.state, hc] at hadd ⊢
  exact hadd

theorem scanChar_blank_quote (h : At toks none .blank ctx) :
    At toks none .quotedString (scanChar mem ctx 0x22) := by
  unfold scanChar
  rw [h.state]
  exact ⟨h.tokens, h.cur, rfl, h.error⟩

theorem scanChar_end_quote (h : At toks (some w) .quotedString ctx) :
    AtOrStarved (toks ++ [w]) none .blank (scanChar mem ctx 0x22) := by
  have hmove := (h.consume (ctx.consumedLen + 1)).moveToken mem .blank
  unfold scanChar
  simp only [h.state] at hmove ⊢
  exact hmove

theorem scanChar_end_string (h : At toks (some w) .string ctx) :
    AtOrStarved (toks ++ [w]) none .blank (scanChar mem ctx 0x20) := by
  have hmove := (h.consume (ctx.consumedLen + 1)).moveToken mem .blank
  unfold scanChar
  simp only [h.state] at hmove ⊢
  exact hmove

theorem scanLoop_string (mem : Nat → Bool) {a : List Byte} (h : At toks none .blank ctx)
    (ha : a ≠ [])
    (hother : ∀ c ∈ a, parserGetCharType c = .other) :
    AtOrStarved toks (some a) .string (scanLoop mem ctx a) := by
  cases a with
  | nil => exact absurd rfl ha
  | cons c a =>
    rw [scanLoop, if_neg (by rw [h.state]; decide)]
    have hfirst := scanChar_blank_other mem h (hother c List.mem_cons_self)
    have hrest : ∀ b ∈ a, parserGetCharType b = .other := fun b hb =>
      hother b (List.mem_cons_of_mem c hb)
    exact scanLoop_add hfirst (fun b hb => .inl ⟨rfl, hrest b hb⟩)
      (fun b hb => by rw [hrest b hb]; decide) (by decide)

theorem scanLoop_quotedString (mem : Nat → Bool) {buf : List Byte}
    (h : At toks cur .quotedString ctx)
    (hcur : cur.getD [] ++ buf ≠ []) (hbuf : ∀ c ∈ buf, Adds .quotedString c)
    (hline : ∀ c ∈ buf, parserGetCharType c ≠ .newline) :
    AtOrStarved toks (some (cur.getD [] ++ buf)) .quotedString (scanLoop mem ctx buf) := by
  cases cur with
  | some w => exact scanLoop_add (.inl h) hbuf hline (by decide)
  | none =>
    cases buf with
    | nil => exact absurd rfl hcur
    | cons c buf =>
      rw [scanLoop, if_neg (by rw [h.state]; decide)]
      exact scanLoop_add (scanChar_add h (hbuf c List.mem_cons_self))
        (fun b hb => hbuf b (List.mem_cons_of_mem c hb))
        (fun b hb => hline b (List.mem_cons_of_mem c hb)) (by decide)

theorem scanLoop_singleton : scanLoop mem ctx [c] = if ctx.state = .done then ctx else
    scanChar mem ctx c := rfl

theorem scanLoop_quoted (mem : Nat → Bool) {a : List Byte} (h : At toks none .blank ctx)
    (ha : a ≠ [])
    (hquote : 0x22 ∉ a) (hline : ∀ c ∈ a, parserGetCharType c ≠ .newline) :
    AtOrStarved (toks ++ [a]) none .blank (scanLoop mem ctx (0x22 :: (a ++ [0x22]))) := by
  have hadds : ∀ c ∈ a, Adds .quotedString c := by
    intro c hc
    refine .inr ⟨rfl, hline c hc, fun hq => hquote ?_⟩
    rw [parserGetCharType_quote] at hq
    exact hq ▸ hc
  rw [scanLoop, if_neg (by rw [h.state]; decide), scanLoop_append, scanLoop_singleton]
  rcases scanLoop_quotedString mem (scanChar_blank_quote h) ha hadds hline with h | h
  · rw [if_neg (by rw [h.state]; decide)]
    exact scanChar_end_quote h
  · rw [if_neg (by rw [h.1]; decide)]
    exact .inr (scanChar_starved h (by decide))

/-- All of `toks` has been read, the last one perhaps not moved yet. -/
def HasRead (toks : List (List Byte)) (ctx : ParserContext) : Prop :=
  At toks none .blank ctx ∨ ∃ pre w, toks = pre ++ [w] ∧ At pre (some w) .string ctx

def Finished (toks : List (List Byte)) (ctx : ParserContext) : Prop :=
  ctx.state = .done ∧ (ctx.error = some .nomem ∨ ctx.error = none ∧ ctx.tokens = toks)

theorem HasRead.not_done (h : HasRead toks ctx) : ctx.state ≠ .done := by
  rcases h with h | ⟨pre, w, -, h⟩
  · rw [h.state]
    decide
  · rw [h.state]
    decide

theorem HasRead.blank (mem : Nat → Bool) (h : HasRead toks ctx) :
    AtOrStarved toks none .blank (scanChar mem ctx 0x20) := by
  rcases h with h | ⟨pre, w, rfl, h⟩
  · unfold scanChar
    rw [h.state]
    exact .inl ⟨h.tokens, h.cur, rfl, h.error⟩
  · exact scanChar_end_string h

theorem At.moveThen (h : At toks (some w) state ctx) (mem : Nat → Bool) :
    Finished (toks ++ [w]) (moveThen mem ctx .done) := by
  obtain ⟨htokens, hcur, -, herror⟩ := h
  unfold Parser.moveThen parserMoveTmpToken
  cases ht : ctx.tmpTok with
  | none => simp [ht] at hcur
  | some tok =>
    have hw : tok.chars = w := by simpa [ht] using hcur
    cases hm : mem ctx.allocs with
    | true => exact ⟨rfl, .inr ⟨herror, by simp [htokens, hw]⟩⟩
    | false => exact ⟨rfl, .inl rfl⟩

theorem HasRead.newline (h : HasRead toks ctx) (hc : parserGetCharType c = .newline) :
    Finished toks (scanChar mem ctx c) := by
  rcases h with h | ⟨pre, w, rfl, h⟩
  · unfold scanChar
    rw [h.state, hc]
    exact ⟨rfl, .inr ⟨h.error, h.tokens⟩⟩
  · have hmove := (h.consume (ctx.consumedLen + 1)).moveThen mem
    unfold scanChar
    simp only [h.state, hc] at hmove ⊢
    exact hmove

theorem Starved.newline (h : Starved ctx) (hc : parserGetCharType c = .newline) :
    Finished toks (scanChar mem ctx c) := by
  unfold scanChar
  rw [h.1, hc]
  exact ⟨rfl, .inl h.2⟩

theorem mStrquote_room {bufLen : Nat} {a : List Byte} (h : a.length + 2 < bufLen) :
    mStrquote bufLen a = if a.any needsQuotes then 0x22 :: (a ++ [0x22]) else a := by
  unfold mStrquote
  rw [List.take_of_length_le (by simp; omega)]

theorem mStrquote_line {bufLen : Nat} {a : List Byte} (h : a.length + 2 < bufLen)
    (hline : ∀ c ∈ a, parserGetCharType c ≠ .newline) :
    ∀ c ∈ mStrquote bufLen a, parserGetCharType c ≠ .newline := by
  intro c hc
  rw [mStrquote_room h] at hc
  cases hq : a.any needsQuotes with
  | false => exact hline c (by simpa [hq] using hc)
  | true =>
    have hmem : c = 0x22 ∨ c ∈ a ∨ c = 0x22 := by simpa [hq] using hc
    rcases hmem with rfl | hc | rfl
    · decide
    · exact hline c hc
    · decide

theorem type_of_unquoted {a : List Byte} (hq : a.any needsQuotes = false)
    (hline : ∀ c ∈ a, parserGetCharType c ≠ .newline) (hc : c ∈ a) :
    parserGetCharType c = .other ∨ parserGetCharType c = .comment := by
  have hneeds : needsQuotes c ≠ true := by
    rw [List.any_eq_false] at hq
    exact hq c hc
  cases ht : parserGetCharType c with
  | newline => exact absurd ht (hline c hc)
  | blank => exact absurd (parserGetCharType_blank ht) hneeds
  | quote =>
    rw [parserGetCharType_quote] at ht
    subst ht
    exact absurd rfl hneeds
  | comment => exact .inr rfl
  | other => exact .inl rfl

theorem scanLoop_argument (mem : Nat → Bool) {bufLen : Nat} {a : List Byte}
    (h : At toks none .blank ctx)
    (hroom : a.length + 2 < bufLen) (hline : ∀ c ∈ a, parserGetCharType c ≠ .newline)
    (ha : Quotable a) :
    HasRead (toks ++ [a]) (scanLoop mem ctx (mStrquote bufLen a)) ∨
      Starved (scanLoop mem ctx (mStrquote bufLen a)) := by
  obtain ⟨hne, hquote, hcomment⟩ := ha
  rw [mStrquote_room hroom]
  cases hq : a.any needsQuotes with
  | true =>
    rw [if_pos rfl]
    rcases scanLoop_quoted mem h hne hquote hline with hr | hs
    · exact .inl (.inl hr)
    · exact .inr hs
  | false =>
    rw [if_neg (by decide)]
    have hother : ∀ c ∈ a, parserGetCharType c = .other := by
      intro c hc
      rcases type_of_unquoted hq hline hc with ht | ht
      · exact ht
      · exact absurd (hcomment ⟨c, hc, ht⟩) (by simp [hq])
    rcases scanLoop_string mem h hne hother with hr | hs
    · exact .inl (.inr ⟨toks, a, rfl, hr⟩)
    · exact .inr hs

theorem quotedLine_line {bufLen : Nat} {args : List (List Byte)}
    (hroom : ∀ a ∈ args, a.length + 2 < bufLen)
    (hline : ∀ a ∈ args, ∀ c ∈ a, parserGetCharType c ≠ .newline) :
    ∀ c ∈ quotedLine bufLen args, parserGetCharType c ≠ .newline := by
  induction args with
  | nil => simp [quotedLine]
  | cons a args ih =>
    have hfirst := mStrquote_line (hroom a List.mem_cons_self) (hline a List.mem_cons_self)
    have hrest := ih (fun b hb => hroom b (List.mem_cons_of_mem a hb))
      fun b hb => hline b (List.mem_cons_of_mem a hb)
    cases args with
    | nil => exact hfirst
    | cons b args =>
      intro c hc
      rw [quotedLine, List.mem_append, List.mem_cons] at hc
      rcases hc with hc | rfl | hc
      · exact hfirst c hc
      · decide
      · exact hrest c hc

theorem quotedLine_cons {bufLen : Nat} {a : List Byte} {args : List (List Byte)}
    (h : args ≠ []) :
    quotedLine bufLen (a :: args) = mStrquote bufLen a ++ 0x20 :: quotedLine bufLen args := by
  cases args with
  | nil => exact absurd rfl h
  | cons b args => rfl

theorem scanLoop_quotedLine (mem : Nat → Bool) {bufLen : Nat} {args : List (List Byte)}
    (h : At toks none .blank ctx) (hroom : ∀ a ∈ args, a.length + 2 < bufLen)
    (hline : ∀ a ∈ args, ∀ c ∈ a, parserGetCharType c ≠ .newline)
    (hargs : ∀ a ∈ args, Quotable a) :
    HasRead (toks ++ args) (scanLoop mem ctx (quotedLine bufLen args)) ∨
      Starved (scanLoop mem ctx (quotedLine bufLen args)) := by
  induction args generalizing toks ctx with
  | nil => exact .inl (.inl (by simpa [quotedLine, scanLoop] using h))
  | cons a args ih =>
    have hfirst := scanLoop_argument mem h (hroom a List.mem_cons_self)
      (hline a List.mem_cons_self) (hargs a List.mem_cons_self)
    have hroom' : ∀ b ∈ args, b.length + 2 < bufLen := fun b hb =>
      hroom b (List.mem_cons_of_mem a hb)
    have hline' : ∀ b ∈ args, ∀ c ∈ b, parserGetCharType c ≠ .newline := fun b hb =>
      hline b (List.mem_cons_of_mem a hb)
    have hargs' : ∀ b ∈ args, Quotable b := fun b hb => hargs b (List.mem_cons_of_mem a hb)
    by_cases hnil : args = []
    · subst hnil
      exact hfirst
    · rw [quotedLine_cons hnil, scanLoop_append]
      rcases hfirst with hr | hs
      · rw [scanLoop, if_neg hr.not_done]
        rcases hr.blank mem with hb | hs
        · rw [List.append_cons]
          exact ih hb hroom' hline' hargs'
        · exact .inr (scanLoop_starved hs (quotedLine_line hroom' hline'))
      · refine .inr (scanLoop_starved hs fun c hc => ?_)
        rw [List.mem_cons] at hc
        rcases hc with rfl | hc
        · decide
        · exact quotedLine_line hroom' hline' c hc

theorem parserScanBuffer_finished (mem : Nat → Bool) {bufLen : Nat} {args : List (List Byte)}
    {eol : Byte}
    (hroom : ∀ a ∈ args, a.length + 2 < bufLen)
    (hline : ∀ a ∈ args, ∀ c ∈ a, parserGetCharType c ≠ .newline)
    (hargs : ∀ a ∈ args, Quotable a) (heol : parserGetCharType eol = .newline) :
    Finished args (scanLoop mem parserContextInit (quotedLine bufLen args ++ [eol])) := by
  rw [scanLoop_append, scanLoop_singleton]
  rcases scanLoop_quotedLine mem at_init hroom hline hargs with hr | hs
  · rw [if_neg hr.not_done]
    exact hr.newline heol
  · rw [if_neg (by rw [hs.1]; decide)]
    exact hs.newline heol

/-- Every token has a character and none of them is a quote. -/
def Word (t : List Byte) : Prop := t ≠ [] ∧ 0x22 ∉ t

def Words (ctx : ParserContext) : Prop :=
  (∀ t ∈ ctx.tokens, Word t) ∧ ∀ tok, ctx.tmpTok = some tok → Word tok.chars

theorem Word.push {t : List Byte} (ht : 0x22 ∉ t) (hc : c ≠ 0x22) : Word (t ++ [c]) := by
  refine ⟨by simp, fun hmem => ?_⟩
  rw [List.mem_append, List.mem_singleton] at hmem
  rcases hmem with hmem | hmem
  · exact ht hmem
  · exact hc hmem.symm

theorem Words.addChar (h : Words ctx) (hc : c ≠ 0x22) :
    Words (tmpTokenAddChar mem ctx c).2 := by
  unfold tmpTokenAddChar
  cases ht : ctx.tmpTok with
  | none =>
    cases hm : mem ctx.allocs with
    | true =>
      refine ⟨h.1, fun tok htok => ?_⟩
      have heq : tok = TmpToken.start c := by simpa using htok.symm
      subst heq
      exact Word.push (t := []) (by simp) hc
    | false => exact ⟨h.1, fun tok htok => by simp at htok⟩
  | some tok =>
    have hword := h.2 tok ht
    by_cases hl : tok.chars.length = tok.totLen - 1
    · cases hm : mem ctx.allocs with
      | true =>
        simp only [dif_pos hl]
        refine ⟨h.1, fun tok' htok => ?_⟩
        have heq : tok' = tok.grow c := by simpa using htok.symm
        subst heq
        exact Word.push hword.2 hc
      | false =>
        simp only [dif_pos hl]
        refine ⟨h.1, fun tok' htok => ?_⟩
        have heq : tok' = tok := by simpa using htok.symm
        subst heq
        exact hword
    · simp only [dif_neg hl]
      refine ⟨h.1, fun tok' htok => ?_⟩
      have heq : tok' = tok.push c hl := by simpa using htok.symm
      subst heq
      exact Word.push hword.2 hc

theorem Words.moveToken (mem : Nat → Bool) (h : Words ctx) :
    Words (parserMoveTmpToken mem ctx).2 := by
  unfold parserMoveTmpToken
  cases ht : ctx.tmpTok with
  | none => exact h
  | some tok =>
    cases hm : mem ctx.allocs with
    | true =>
      refine ⟨fun t hmem => ?_, fun tok' htok => by simp at htok⟩
      rcases List.mem_append.mp hmem with hmem | hmem
      · exact h.1 t hmem
      · rw [List.mem_singleton] at hmem
        subst hmem
        exact h.2 tok ht
    | false =>
      refine ⟨h.1, fun tok' htok => ?_⟩
      have heq : tok' = tok := by simpa using htok.symm
      subst heq
      exact h.2 tok' ht

theorem Words.orNomem {res : Bool × ParserContext} (h : Words res.2) (next : ParserState) :
    Words (orNomem res next) := by
  unfold Parser.orNomem
  split
  · exact h
  · exact h

theorem Words.moveThen (mem : Nat → Bool) (h : Words ctx) (next : ParserState) :
    Words (moveThen mem ctx next) :=
  h.moveToken mem

theorem Words.scanChar (h : Words ctx) : Words (scanChar mem ctx c) := by
  have hctx : Words { ctx with consumedLen := ctx.consumedLen + 1 } := h
  have hmove := fun next => (hctx.moveToken mem).orNomem next
  have hadd : parserGetCharType c ≠ .quote → ∀ next, Words (Parser.orNomem
      (tmpTokenAddChar mem { ctx with consumedLen := ctx.consumedLen + 1 } c) next) := by
    intro hc next
    rw [Ne, parserGetCharType_quote] at hc
    exact (hctx.addChar hc).orNomem next
  unfold Parser.scanChar
  cases hs : ctx.state with
  | done => exact hctx
  | skip => cases ht : parserGetCharType c <;> exact hctx
  | blank =>
    cases ht : parserGetCharType c with
    | other => simpa only [hs] using hadd (by rw [ht]; decide) .string
    | _ => exact hctx
  | string =>
    cases ht : parserGetCharType c with
    | blank => simpa only [hs] using hmove .blank
    | newline => simpa only [hs] using hctx.moveThen mem .done
    | comment => simpa only [hs] using hctx.moveThen mem .skip
    | quote => exact hctx
    | other => simpa only [hs] using hadd (by rw [ht]; decide) .string
  | quotedString =>
    cases ht : parserGetCharType c with
    | newline => exact hctx
    | quote => simpa only [hs] using hmove .blank
    | _ => simpa only [hs] using hadd (by rw [ht]; decide) .quotedString

theorem Words.scanLoop {buf : List Byte} (h : Words ctx) : Words (scanLoop mem ctx buf) := by
  induction buf generalizing ctx with
  | nil => exact h
  | cons c buf ih =>
    by_cases hd : ctx.state = .done
    · rw [scanLoop_done hd]
      exact h
    · rw [Parser.scanLoop, if_neg hd]
      exact ih h.scanChar

def Skips (toks : List (List Byte)) (ctx : ParserContext) : Prop :=
  (ctx.state = .skip ∨ ctx.state = .done) ∧ ctx.tokens = toks

theorem Skips.scanChar (h : Skips toks ctx) : Skips toks (scanChar mem ctx c) := by
  unfold Parser.scanChar
  rcases h with ⟨hs | hs, htokens⟩
  · rw [hs]
    cases ht : parserGetCharType c with
    | newline => exact ⟨.inr rfl, htokens⟩
    | _ => exact ⟨.inl rfl, htokens⟩
  · rw [hs]
    exact ⟨.inr rfl, htokens⟩

theorem Skips.scanLoop {buf : List Byte} (h : Skips toks ctx) :
    Skips toks (scanLoop mem ctx buf) := by
  induction buf generalizing ctx with
  | nil => exact h
  | cons c buf ih =>
    by_cases hd : ctx.state = .done
    · rw [scanLoop_done hd]
      exact h
    · rw [Parser.scanLoop, if_neg hd]
      exact ih h.scanChar

def plenty : Nat → Bool := fun _ => true

theorem error_tmpTokenAddChar :
    (tmpTokenAddChar plenty ctx c).1 = true ∧
      (tmpTokenAddChar plenty ctx c).2.error = ctx.error := by
  unfold tmpTokenAddChar
  cases ht : ctx.tmpTok with
  | none => exact ⟨rfl, rfl⟩
  | some tok =>
    by_cases hl : tok.chars.length = tok.totLen - 1
    · simp [plenty, hl]
    · simp [hl]

theorem error_parserMoveTmpToken (ctx : ParserContext) :
    (parserMoveTmpToken plenty ctx).1 = true ∧
      (parserMoveTmpToken plenty ctx).2.error = ctx.error := by
  unfold parserMoveTmpToken
  cases ht : ctx.tmpTok with
  | none => exact ⟨rfl, rfl⟩
  | some tok => exact ⟨rfl, rfl⟩

theorem error_orNomem {res : Bool × ParserContext} {error : Option ParserError} {next : ParserState}
    (h : res.1 = true ∧ res.2.error = error) : (orNomem res next).error = error := by
  unfold orNomem
  rw [if_pos h.1]
  exact h.2

theorem error_moveThen {next : ParserState} : (moveThen plenty ctx next).error = ctx.error := by
  have h := error_parserMoveTmpToken ctx
  unfold moveThen
  simp only [h.1, if_true]
  exact h.2

theorem scanChar_plenty (h : ctx.error ≠ some .nomem) :
    (scanChar plenty ctx c).error ≠ some .nomem := by
  have hkeep : ∀ ctx' : ParserContext, ctx'.error = ctx.error → ctx'.error ≠ some .nomem := by
    intro ctx' heq
    rw [heq]
    exact h
  unfold scanChar
  cases hs : ctx.state with
  | done => exact h
  | skip => cases ht : parserGetCharType c <;> exact h
  | blank =>
    cases ht : parserGetCharType c with
    | other => exact hkeep _ (error_orNomem error_tmpTokenAddChar)
    | _ => exact h
  | string =>
    cases ht : parserGetCharType c with
    | blank => exact hkeep _ (error_orNomem (error_parserMoveTmpToken _))
    | newline => exact hkeep _ error_moveThen
    | comment => exact hkeep _ error_moveThen
    | quote => exact fun heq => by simp at heq
    | other => exact hkeep _ (error_orNomem error_tmpTokenAddChar)
  | quotedString =>
    cases ht : parserGetCharType c with
    | newline => exact fun heq => by simp at heq
    | quote => exact hkeep _ (error_orNomem (error_parserMoveTmpToken _))
    | _ => exact hkeep _ (error_orNomem error_tmpTokenAddChar)

theorem scanLoop_plenty {buf : List Byte} (h : ctx.error ≠ some .nomem) :
    (scanLoop plenty ctx buf).error ≠ some .nomem := by
  induction buf generalizing ctx with
  | nil => exact h
  | cons c buf ih =>
    by_cases hd : ctx.state = .done
    · rw [scanLoop_done hd]
      exact h
    · rw [scanLoop, if_neg hd]
      exact ih (scanChar_plenty h)

theorem scanChar_comment (h : HasRead toks ctx) (hc : parserGetCharType c = .comment) :
    Skips toks (scanChar plenty ctx c) := by
  rcases h with h | ⟨pre, w, rfl, h⟩
  · unfold scanChar
    rw [h.state, hc]
    exact ⟨.inl rfl, h.tokens⟩
  · unfold scanChar
    simp only [h.state, hc]
    refine ⟨.inl rfl, ?_⟩
    obtain ⟨htokens, hcur, -, -⟩ := h
    unfold moveThen parserMoveTmpToken
    cases ht : ctx.tmpTok with
    | none => simp [ht] at hcur
    | some tok =>
      have hw : tok.chars = w := by simpa [ht] using hcur
      simp [plenty, htokens, hw]

theorem split_first {α : Type} {p : α → Prop} {l : List α} (h : ∃ x ∈ l, p x) :
    ∃ pre x post, l = pre ++ x :: post ∧ p x ∧ ∀ y ∈ pre, ¬ p y := by
  induction l with
  | nil => simp at h
  | cons d l ih =>
    by_cases hd : p d
    · exact ⟨[], d, l, rfl, hd, by simp⟩
    · obtain ⟨x, hmem, hx⟩ := h
      have hmem : x ∈ l := by
        rcases List.mem_cons.mp hmem with rfl | hmem
        · exact absurd hx hd
        · exact hmem
      obtain ⟨pre, y, post, heq, hy, hpre⟩ := ih ⟨x, hmem, hx⟩
      refine ⟨d :: pre, y, post, by rw [heq]; rfl, hy, ?_⟩
      intro b hb
      rcases List.mem_cons.mp hb with rfl | hb
      · exact hd
      · exact hpre b hb

theorem scanLoop_commented {bufLen : Nat} {a : List Byte} (post : List Byte)
    (h : At toks none .blank ctx) (herr : ctx.error ≠ some .nomem)
    (hroom : a.length + 2 < bufLen) (hline : ∀ c ∈ a, parserGetCharType c ≠ .newline)
    (hq : a.any needsQuotes = false) (hc : ∃ c ∈ a, parserGetCharType c = .comment) :
    ∃ found, (found = [] ∨ ∃ w, w ≠ a ∧ found = [w]) ∧
      Skips (toks ++ found) (scanLoop plenty ctx (mStrquote bufLen a ++ post)) := by
  obtain ⟨w, c, rest, heq, hcomment, hw⟩ := split_first hc
  have hother : ∀ b ∈ w, parserGetCharType b = .other := by
    intro b hb
    have hmem : b ∈ a := by rw [heq]; exact List.mem_append_left _ hb
    rcases type_of_unquoted hq hline hmem with ht | ht
    · exact ht
    · exact absurd ht (hw b hb)
  have hshape : mStrquote bufLen a ++ post = w ++ c :: (rest ++ post) := by
    rw [mStrquote_room hroom, hq, heq]
    simp
  rw [hshape, scanLoop_append]
  by_cases hnil : w = []
  · subst hnil
    refine ⟨[], .inl rfl, ?_⟩
    rw [scanLoop, scanLoop, if_neg (by rw [h.state]; decide), List.append_nil]
    exact (scanChar_comment (.inl h) hcomment).scanLoop
  · refine ⟨[w], .inr ⟨w, ?_, rfl⟩, ?_⟩
    · rw [heq]
      simp
    · rcases scanLoop_string plenty h hnil hother with hr | hs
      · have hread : HasRead (toks ++ [w]) (scanLoop plenty ctx w) := .inr ⟨toks, w, rfl, hr⟩
        rw [scanLoop, if_neg hread.not_done]
        exact (scanChar_comment hread hcomment).scanLoop
      · exact absurd hs.2 (scanLoop_plenty herr)

theorem words_init : Words parserContextInit := by
  refine ⟨?_, ?_⟩
  · intro t ht
    simp [parserContextInit] at ht
  · intro tok htok
    simp [parserContextInit] at htok

theorem scanLoop_upTo {bufLen : Nat} {pre : List (List Byte)} (a : List Byte)
    (post : List (List Byte)) (h : At toks none .blank ctx) (herr : ctx.error ≠ some .nomem)
    (hroom : ∀ b ∈ pre, b.length + 2 < bufLen)
    (hline : ∀ b ∈ pre, ∀ c ∈ b, parserGetCharType c ≠ .newline)
    (hpre : ∀ b ∈ pre, Quotable b) :
    ∃ ctx' tail, At (toks ++ pre) none .blank ctx' ∧ ctx'.error ≠ some .nomem ∧
      scanLoop plenty ctx (quotedLine bufLen (pre ++ a :: post)) =
        scanLoop plenty ctx' (mStrquote bufLen a ++ tail) := by
  induction pre generalizing toks ctx with
  | nil =>
    cases post with
    | nil => exact ⟨ctx, [], by simpa using h, herr, by simp [quotedLine]⟩
    | cons b post =>
      exact ⟨ctx, 0x20 :: quotedLine bufLen (b :: post), by simpa using h, herr, rfl⟩
  | cons p pre ih =>
    have hread : HasRead (toks ++ [p]) (scanLoop plenty ctx (mStrquote bufLen p)) := by
      rcases scanLoop_argument plenty h (hroom p List.mem_cons_self)
        (hline p List.mem_cons_self) (hpre p List.mem_cons_self) with hr | hs
      · exact hr
      · exact absurd hs.2 (scanLoop_plenty herr)
    have herr' : (scanChar plenty (scanLoop plenty ctx (mStrquote bufLen p)) 0x20).error ≠
        some .nomem := scanChar_plenty (scanLoop_plenty herr)
    have hblank : At (toks ++ [p]) none .blank
        (scanChar plenty (scanLoop plenty ctx (mStrquote bufLen p)) 0x20) := by
      rcases hread.blank plenty with hb | hs
      · exact hb
      · exact absurd hs.2 herr'
    obtain ⟨ctx', tail, hat, hne, heq⟩ := ih hblank herr'
      (fun b hb => hroom b (List.mem_cons_of_mem p hb))
      (fun b hb => hline b (List.mem_cons_of_mem p hb))
      fun b hb => hpre b (List.mem_cons_of_mem p hb)
    refine ⟨ctx', tail, by rw [List.append_cons]; exact hat, hne, ?_⟩
    rw [List.cons_append, quotedLine_cons (by simp), scanLoop_append, scanLoop,
      if_neg hread.not_done]
    exact heq

theorem word_of_readsBack {bufLen : Nat} {args : List (List Byte)}
    (htokens : (scanLoop mem parserContextInit (quotedLine bufLen args ++ [0])).tokens = args) :
    ∀ a ∈ args, Word a := by
  have hwords : Words (scanLoop mem parserContextInit (quotedLine bufLen args ++ [0])) :=
    words_init.scanLoop
  intro a ha
  rw [← htokens] at ha
  exact hwords.1 a ha

theorem quotable_of_readsBack {args : List (List Byte)}
    (hline : ∀ a ∈ args, ∀ c ∈ a, parserGetCharType c ≠ .newline) (h : ReadsBack args) :
    ∀ a ∈ args, Quotable a := by
  have hroom : ∀ a ∈ args, a.length + 2 < args.flatten.length + 3 := by
    intro a ha
    have hle := (List.sublist_flatten_of_mem ha).length_le
    omega
  have hres := (h _ plenty 0 hroom rfl).2
  have herr : parserContextInit.error ≠ some .nomem := by simp [parserContextInit]
  have htokens : (scanLoop plenty parserContextInit
      (quotedLine (args.flatten.length + 3) args ++ [0])).tokens = args := by
    rcases hres with hnomem | ⟨-, htokens⟩
    · exact absurd hnomem (scanLoop_plenty herr)
    · exact htokens
  have hwords := word_of_readsBack htokens
  by_contra hbad
  have hexists : ∃ a ∈ args, ¬ Quotable a := by
    by_contra hall
    exact hbad fun a ha => by_contra fun hq => hall ⟨a, ha, hq⟩
  obtain ⟨pre, a, post, heq, ha, hpre⟩ := split_first hexists
  have hmem : a ∈ args := by rw [heq]; simp
  have hcomment : ∃ c ∈ a, parserGetCharType c = .comment := by
    by_contra hno
    exact ha ⟨(hwords a hmem).1, (hwords a hmem).2, fun hc => absurd hc hno⟩
  have hq : a.any needsQuotes = false := by
    by_contra hq
    exact ha ⟨(hwords a hmem).1, (hwords a hmem).2, fun _ => by simpa using hq⟩
  have hsub : ∀ b ∈ pre, b ∈ args := by
    intro b hb
    rw [heq]
    exact List.mem_append_left _ hb
  obtain ⟨ctx', tail, hat, herr', hscan⟩ := scanLoop_upTo a post at_init herr
    (fun b hb => hroom b (hsub b hb)) (fun b hb => hline b (hsub b hb))
    fun b hb => by_contra (hpre b hb)
  obtain ⟨found, hfound, hskips⟩ := scanLoop_commented (tail ++ [0]) hat herr'
    (hroom a hmem) (hline a hmem) hq hcomment
  rw [← List.append_assoc, scanLoop_append, ← hscan, ← heq, ← scanLoop_append] at hskips
  have hsame := htokens.symm.trans hskips.2
  have hsame : a :: post = found := by
    rw [heq] at hsame
    simpa using hsame
  rcases hfound with rfl | ⟨w, hw, rfl⟩
  · simp at hsame
  · simp only [List.cons.injEq] at hsame
    exact hw hsame.1.symm

/-- The quoted line gives back its arguments when they all have a character,
none has a quote, and those with a comment character have a blank or an
apostrophe as well; otherwise it does not. -/
theorem readsBack_iff (args : List Argument) :
    ReadsBack (args.map Subtype.val) ↔ ∀ a ∈ args, Quotable a.val := by
  have hline : ∀ a ∈ args.map Subtype.val, ∀ c ∈ a, parserGetCharType c ≠ .newline := by
    intro a ha
    obtain ⟨arg, -, rfl⟩ := List.mem_map.mp ha
    exact arg.property
  constructor
  · intro h a ha
    exact quotable_of_readsBack hline h a.val (List.mem_map_of_mem ha)
  · intro h bufLen mem eol hroom heol
    have hargs : ∀ a ∈ args.map Subtype.val, Quotable a := by
      intro a ha
      obtain ⟨arg, hmem, rfl⟩ := List.mem_map.mp ha
      exact h arg hmem
    have hdone := parserScanBuffer_finished mem hroom hline hargs heol
    exact ⟨beq_iff_eq.mpr hdone.1, hdone.2⟩

/-- `R#1` is written as it is, and read as `R`. -/
theorem not_readsBack_comment :
    ¬ ∀ args : List Argument, ReadsBack (args.map Subtype.val) := by
  intro h
  have hbad := (h [⟨[0x52, 0x23, 0x31], by decide⟩] 8 plenty 0 (by decide) rfl).2
  revert hbad
  decide

end Dynamips.Parser
