import Dynamips.Lib.Bytes

/-! The tokenizer of the hypervisor command lines (parser.c), and how it behaves
when a stream reaches it in pieces. -/
set_option autoImplicit false

namespace Dynamips.Parser

def tokenMaxSize : Nat := 512

inductive CharType where
  | blank
  | newline
  | comment
  | quote
  | other
deriving DecidableEq, Repr

inductive ParserError where
  | nomem
  | unexpQuote
  | unexpEol
deriving DecidableEq, Repr

inductive ParserState where
  | done
  | skip
  | blank
  | string
  | quotedString
deriving DecidableEq, Repr

/-- `tmp_tok`: the characters so far, without the final zero, in a buffer of
`totLen` bytes. -/
structure TmpToken where
  chars : List Byte
  totLen : Nat
  fits : chars.length < totLen

/-- `parser_context_t`; `allocs` counts the requests made to the allocator. -/
structure ParserContext where
  tokens : List (List Byte)
  tmpTok : Option TmpToken
  state : ParserState
  error : Option ParserError
  consumedLen : Nat
  allocs : Nat

def parserContextInit : ParserContext :=
  { tokens := [], tmpTok := none, state := .blank, error := none, consumedLen := 0, allocs := 0 }

def parserGetCharType (c : Byte) : CharType :=
  if c = 0x0a ∨ c = 0x0d ∨ c = 0 then .newline
  else if c = 0x09 ∨ c = 0x20 then .blank
  else if c = 0x21 ∨ c = 0x23 then .comment
  else if c = 0x22 then .quote
  else .other

def TmpToken.push (tok : TmpToken) (c : Byte) (h : tok.chars.length ≠ tok.totLen - 1) : TmpToken :=
  { chars := tok.chars ++ [c]
    totLen := tok.totLen
    fits := by
      have hfits := tok.fits
      rw [List.length_append, List.length_singleton]
      omega }

/-- A character more in a buffer that `realloc` has made longer. -/
def TmpToken.grow (tok : TmpToken) (c : Byte) : TmpToken :=
  { chars := tok.chars ++ [c]
    totLen := tok.totLen + tokenMaxSize
    fits := by
      have hfits := tok.fits
      rw [List.length_append, List.length_singleton, tokenMaxSize]
      omega }

def TmpToken.start (c : Byte) : TmpToken := ⟨[c], tokenMaxSize, by simp [tokenMaxSize]⟩

/-- `tmp_token_add_char`; `mem` tells which requests the allocator grants. -/
def tmpTokenAddChar (mem : Nat → Bool) (ctx : ParserContext) (c : Byte) : Bool × ParserContext :=
  let granted := mem ctx.allocs
  let asked := { ctx with allocs := ctx.allocs + 1 }
  match ctx.tmpTok with
  | none =>
    if granted then (true, { asked with tmpTok := some (TmpToken.start c) }) else (false, asked)
  | some tok =>
    if h : tok.chars.length = tok.totLen - 1 then
      if granted then (true, { asked with tmpTok := some (tok.grow c) }) else (false, asked)
    else (true, { ctx with tmpTok := some (tok.push c h) })

def parserMoveTmpToken (mem : Nat → Bool) (ctx : ParserContext) : Bool × ParserContext :=
  match ctx.tmpTok with
  | none => (true, ctx)
  | some tok =>
    let asked := { ctx with allocs := ctx.allocs + 1 }
    if mem ctx.allocs then
      (true, { asked with tokens := ctx.tokens ++ [tok.chars], tmpTok := none })
    else (false, asked)

/-- The state after a call that may have failed for lack of memory. -/
def orNomem (res : Bool × ParserContext) (state : ParserState) : ParserContext :=
  if res.1 then { res.2 with state := state }
  else { res.2 with state := .skip, error := some .nomem }

/-- The state after the token before a line end or a comment was moved. -/
def moveThen (mem : Nat → Bool) (ctx : ParserContext) (state : ParserState) : ParserContext :=
  let res := parserMoveTmpToken mem ctx
  { res.2 with
    state := state
    error := if res.1 then res.2.error else some .nomem }

/-- The body of the loop in `parser_scan_buffer` -/
def scanChar (mem : Nat → Bool) (ctx : ParserContext) (c : Byte) : ParserContext :=
  let ctx := { ctx with consumedLen := ctx.consumedLen + 1 }
  match ctx.state, parserGetCharType c with
  | .done, _ => ctx
  | .skip, .newline => { ctx with state := .done }
  | .skip, _ => ctx
  | .blank, .blank => ctx
  | .blank, .comment => { ctx with state := .skip }
  | .blank, .newline => { ctx with state := .done }
  | .blank, .quote => { ctx with state := .quotedString }
  | .blank, .other => orNomem (tmpTokenAddChar mem ctx c) .string
  | .string, .blank => orNomem (parserMoveTmpToken mem ctx) .blank
  | .string, .newline => moveThen mem ctx .done
  | .string, .comment => moveThen mem ctx .skip
  | .string, .quote => { ctx with error := some .unexpQuote, state := .skip }
  | .string, .other => orNomem (tmpTokenAddChar mem ctx c) .string
  | .quotedString, .newline => { ctx with error := some .unexpEol, state := .done }
  | .quotedString, .quote => orNomem (parserMoveTmpToken mem ctx) .blank
  | .quotedString, _ => orNomem (tmpTokenAddChar mem ctx c) .quotedString

/-- The loop of `parser_scan_buffer`, whose index cannot overflow: the callers
pass at most the 511 bytes of a line buffer. -/
def scanLoop (mem : Nat → Bool) : ParserContext → List Byte → ParserContext
  | ctx, [] => ctx
  | ctx, c :: buf => if ctx.state = .done then ctx else scanLoop mem (scanChar mem ctx c) buf

def parserScanBuffer (mem : Nat → Bool) (ctx : ParserContext) (buf : List Byte) :
    Bool × ParserContext :=
  let ctx := scanLoop mem ctx buf
  (ctx.state == .done, ctx)

/-- The calls for successive buffers, with the result of the last one. -/
def scanBuffers (mem : Nat → Bool) (ctx : ParserContext) (bufs : List (List Byte)) :
    Bool × ParserContext :=
  bufs.foldl (fun res buf => parserScanBuffer mem res.2 buf) (parserScanBuffer mem ctx [])

variable {mem : Nat → Bool} {ctx : ParserContext}

theorem scanLoop_done (h : ctx.state = .done) (buf : List Byte) : scanLoop mem ctx buf = ctx := by
  cases buf with
  | nil => rfl
  | cons c buf => rw [scanLoop, if_pos h]

theorem scanLoop_append (a b : List Byte) :
    scanLoop mem ctx (a ++ b) = scanLoop mem (scanLoop mem ctx a) b := by
  induction a generalizing ctx with
  | nil => rfl
  | cons c a ih =>
    by_cases hd : ctx.state = .done
    · rw [scanLoop_done hd, scanLoop_done hd, scanLoop_done hd]
    · rw [List.cons_append, scanLoop, if_neg hd, scanLoop, if_neg hd]
      exact ih

theorem parserScanBuffer_append (a b : List Byte) :
    parserScanBuffer mem ctx (a ++ b) = parserScanBuffer mem (parserScanBuffer mem ctx a).2 b := by
  simp only [parserScanBuffer, scanLoop_append]

/-- Where a stream is cut makes no difference to the tokens, the error, the
position where the scan stops, the state it is left in and the result. -/
theorem scan_pieces (mem : Nat → Bool) (ctx : ParserContext) (bufs : List (List Byte)) :
    scanBuffers mem ctx bufs = parserScanBuffer mem ctx bufs.flatten := by
  have hfrom : ∀ seen : List Byte,
      bufs.foldl (fun res buf => parserScanBuffer mem res.2 buf) (parserScanBuffer mem ctx seen) =
        parserScanBuffer mem ctx (seen ++ bufs.flatten) := by
    induction bufs with
    | nil =>
      intro seen
      simp
    | cons buf bufs ih =>
      intro seen
      rw [List.foldl_cons, ← parserScanBuffer_append, ih, List.flatten_cons, List.append_assoc]
  exact hfrom []

end Dynamips.Parser
