import Dynamips.HvVm
import Dynamips.Lib.LineChunks
import Dynamips.Parser

/-! The thread of a hypervisor connection (hypervisor.c): the lines it reads, the
commands it executes and the replies it sends. -/
set_option autoImplicit false

namespace Dynamips.HvThread

open Dynamips.Hypervisor Dynamips.Parser
open HvVm (text)
open LineChunks (reads splitLines)

def LF : Byte := 0x0a

def CR : Byte := 0x0d

def HSC_ERR_PARSING : Nat := 200

inductive Event where
  | reply (r : Hypervisor.Reply)
  | exec (module cmd : List Byte) (argv : List (List Byte))

/-- `hypervisor_conn_t`, with the rest of the program as its commands find it in
`world`, and in `events` the replies sent and the commands executed -/
structure Conn (σ : Type) where
  active : Bool
  cur_module : Option (List Byte)
  world : σ
  events : List Event

structure Cmd (σ : Type) where
  name : List Byte
  min_param : Int
  max_param : Int
  handler : Conn σ → List (List Byte) → Conn σ

structure Module (σ : Type) where
  name : List Byte
  cmd_list : List (Cmd σ)

variable {σ : Type}

def Conn.send_reply (conn : Conn σ) (code : Nat) (done : Bool) (reply : String) : Conn σ :=
  { conn with events := conn.events ++ [.reply ⟨code, done, reply⟩] }

def find_module (module_list : List (Module σ)) (name : List Byte) : Option (Module σ) :=
  module_list.find? fun m => m.name = name

def find_cmd (module : Module σ) (name : List Byte) : Option (Cmd σ) :=
  module.cmd_list.find? fun cmd => cmd.name = name

def exec_cmd (module_list : List (Module σ)) (conn : Conn σ) (mod_name cmd_name : List Byte)
    (argv : List (List Byte)) : Conn σ :=
  match find_module module_list mod_name with
  | none => conn.send_reply HSC_ERR_UNK_MODULE true ("Unknown module '" ++ text mod_name ++ "'")
  | some module =>
    match find_cmd module cmd_name with
    | none => conn.send_reply HSC_ERR_UNK_CMD true ("Unknown command '" ++ text cmd_name ++ "'")
    | some cmd =>
      if argv.length < cmd.min_param ∨ cmd.max_param < argv.length then
        conn.send_reply HSC_ERR_BAD_PARAM true
          ("Bad number of parameters (" ++ toString argv.length ++ " with min/max=" ++
            toString cmd.min_param ++ "/" ++ toString cmd.max_param ++ ")")
      else
        cmd.handler
          { conn with
            cur_module := some module.name
            events := conn.events ++ [.exec module.name cmd.name argv] } argv

def parser_strerror : ParserError → String
  | .nomem => "insufficient memory"
  | .unexpQuote => "unexpected quote"
  | .unexpEol => "unexpected end of line"

/-- What the thread does with a context whose line has ended; the allocator is
asked once more, for the array of the tokens. -/
def serve (module_list : List (Module σ)) (mem : Nat → Bool) (conn : Conn σ)
    (ctx : ParserContext) : Conn σ :=
  match ctx.error with
  | some error => conn.send_reply HSC_ERR_PARSING true ("Parse error: " ++ parser_strerror error)
  | none =>
    match ctx.tokens with
    | mod_name :: cmd_name :: argv =>
      if mem ctx.allocs then exec_cmd module_list conn mod_name cmd_name argv
      else conn.send_reply HSC_ERR_PARSING true "No memory"
    | _ =>
      conn.send_reply HSC_ERR_PARSING true "At least a module and a command must be specified"

/-- The thread between two reads, with the number of contexts it has freed -/
structure Thread (σ : Type) where
  conn : Conn σ
  freed : Nat
  ctx : ParserContext

/-- The characters of a buffer that `strlen` counts -/
def cString (buffer : List Byte) : List Byte := buffer.takeWhile (· != 0)

/-- One turn of the loop in `hypervisor_thread`; `mem n` is the allocator for the
context after `n` freed ones. -/
def Thread.turn (module_list : List (Module σ)) (mem : Nat → Nat → Bool) (t : Thread σ)
    (buffer : List Byte) : Thread σ :=
  if t.conn.active then
    if cString buffer = [] then t
    else
      let res := parserScanBuffer (mem t.freed) t.ctx (cString buffer)
      if res.1 then
        { conn := serve module_list (mem t.freed) t.conn res.2
          freed := t.freed + 1
          ctx := parserContextInit }
      else { t with ctx := res.2 }
  else t

/-- `hypervisor_thread` for all that the connection receives until its end -/
def hypervisor_thread (module_list : List (Module σ)) (mem : Nat → Nat → Bool) (conn : Conn σ)
    (input : List Byte) : Conn σ :=
  ((reads LF 510 input).foldl (Thread.turn module_list mem) ⟨conn, 0, parserContextInit⟩).conn

/-- The context of each line, scanned on its own from the line's first character to its end -/
def ownContexts (mem : Nat → Nat → Bool) : Nat → List (List Byte) → List (Nat × ParserContext)
  | _, [] => []
  | n, line :: lines =>
    (n, scanLoop (mem n) parserContextInit (line ++ [LF])) :: ownContexts mem (n + 1) lines

def serveActive (module_list : List (Module σ)) (mem : Nat → Nat → Bool) (conn : Conn σ)
    (ended : Nat × ParserContext) : Conn σ :=
  if conn.active then serve module_list (mem ended.1) conn ended.2 else conn

/-- What every complete line, parsed on its own, makes of the connection -/
def lineByLine (module_list : List (Module σ)) (mem : Nat → Nat → Bool) (conn : Conn σ)
    (input : List Byte) : Conn σ :=
  (ownContexts mem 0 (splitLines LF input).1).foldl (serveActive module_list mem) conn

/-- The contexts whose line ends in one of the buffers, and what is left of the last one -/
def ended (mem : Nat → Nat → Bool) :
    Nat → ParserContext → List (List Byte) → List (Nat × ParserContext) × Nat × ParserContext
  | n, ctx, [] => ([], n, ctx)
  | n, ctx, buffer :: buffers =>
    let res := parserScanBuffer (mem n) ctx (cString buffer)
    if res.1 then
      let next := ended mem (n + 1) parserContextInit buffers
      ((n, res.2) :: next.1, next.2)
    else ended mem n res.2 buffers

/-- Every complete line ends exactly one context, which is the one of the line on
its own, and what follows the last line ends none. -/
def LinesOnce (input : List Byte) : Prop :=
  ∀ (mem : Nat → Nat → Bool) (n : Nat),
    (∀ line ∈ (splitLines LF input).1,
      ended mem n parserContextInit (reads LF 510 (line ++ [LF])) =
        (ownContexts mem n [line], n + 1, parserContextInit)) ∧
    (ended mem n parserContextInit (reads LF 510 (splitLines LF input).2)).1 = []

/-- The connection sends the replies and executes the commands of its lines. -/
def Right (input : List Byte) : Prop :=
  ∀ (σ : Type) (module_list : List (Module σ)) (mem : Nat → Nat → Bool) (conn : Conn σ),
    hypervisor_thread module_list mem conn input = lineByLine module_list mem conn input

def isNewline (c : Byte) : Bool := parserGetCharType c == .newline

theorem isNewline_iff (c : Byte) : isNewline c = true ↔ c = LF ∨ c = CR ∨ c = 0 := by
  simp only [isNewline, parserGetCharType, LF, CR]
  repeat' split
  all_goals simp_all

section Scan

variable {mem : Nat → Bool} {ctx : ParserContext} {c d : Byte} {w buf : List Byte}

theorem orNomem_ne_done {res : Bool × ParserContext} {state : ParserState} (h : state ≠ .done) :
    (orNomem res state).state ≠ .done := by
  simp only [orNomem]
  split
  · exact h
  · simp

theorem scanChar_done (h : ctx.state ≠ .done) :
    (scanChar mem ctx c).state = .done ↔ isNewline c = true := by
  cases hs : ctx.state <;> cases hc : parserGetCharType c <;>
    simp_all [scanChar, isNewline, moveThen, orNomem_ne_done]

theorem scanChar_newline (hc : isNewline c = true) (hd : isNewline d = true) :
    scanChar mem ctx c = scanChar mem ctx d := by
  simp only [isNewline, beq_iff_eq] at hc hd
  simp only [scanChar, hc, hd]
  cases ctx.state <;> rfl

theorem tmpTokenAddChar_consumed :
    (tmpTokenAddChar mem ctx c).2.consumedLen = ctx.consumedLen := by
  simp only [tmpTokenAddChar]
  repeat' split
  all_goals rfl

theorem parserMoveTmpToken_consumed :
    (parserMoveTmpToken mem ctx).2.consumedLen = ctx.consumedLen := by
  simp only [parserMoveTmpToken]
  repeat' split
  all_goals rfl

theorem orNomem_consumed {res : Bool × ParserContext} {state : ParserState} :
    (orNomem res state).consumedLen = res.2.consumedLen := by
  simp only [orNomem]
  split <;> rfl

theorem scanChar_consumed : (scanChar mem ctx c).consumedLen = ctx.consumedLen + 1 := by
  cases hs : ctx.state <;> cases hc : parserGetCharType c <;>
    simp [scanChar, hs, hc, moveThen, orNomem_consumed, tmpTokenAddChar_consumed,
      parserMoveTmpToken_consumed]

theorem scanLoop_word (hw : w.any isNewline = false) (h : ctx.state ≠ .done) :
    (scanLoop mem ctx w).state ≠ .done ∧
      (scanLoop mem ctx w).consumedLen = ctx.consumedLen + w.length := by
  induction w generalizing ctx with
  | nil => exact ⟨h, rfl⟩
  | cons c w ih =>
    simp only [List.any_cons, Bool.or_eq_false_iff] at hw
    have hc : (scanChar mem ctx c).state ≠ .done := by simp [scanChar_done h, hw.1]
    have hrest := ih hw.2 hc
    rw [scanLoop, if_neg h]
    refine ⟨hrest.1, ?_⟩
    rw [hrest.2, scanChar_consumed, List.length_cons]
    omega

theorem scanLoop_stop (hw : w.any isNewline = false) (hc : isNewline c = true)
    (h : ctx.state ≠ .done) :
    scanLoop mem ctx (w ++ c :: buf) = scanChar mem (scanLoop mem ctx w) c := by
  have hword : (scanLoop mem ctx w).state ≠ .done := (scanLoop_word hw h).1
  rw [scanLoop_append, scanLoop, if_neg hword, scanLoop_done ((scanChar_done hword).mpr hc)]

theorem scanLoop_done_iff (h : ctx.state ≠ .done) :
    (scanLoop mem ctx buf).state = .done ↔ buf.any isNewline = true := by
  induction buf generalizing ctx with
  | nil => simpa [scanLoop] using h
  | cons c buf ih =>
    rw [scanLoop, if_neg h, List.any_cons]
    by_cases hc : isNewline c = true
    · have hdone : (scanChar mem ctx c).state = .done := (scanChar_done h).mpr hc
      simp [scanLoop_done hdone, hdone, hc]
    · have hgoes : (scanChar mem ctx c).state ≠ .done := by simpa [scanChar_done h] using hc
      simp [ih hgoes, hc]

def word (buf : List Byte) : List Byte := buf.takeWhile fun c => !isNewline c

theorem word_any (buf : List Byte) : (word buf).any isNewline = false := by
  rw [List.any_eq_false]
  intro c hc
  simpa using List.mem_takeWhile_imp hc

theorem word_end (h : buf.any isNewline = true) :
    ∃ c rest, isNewline c = true ∧ buf = word buf ++ c :: rest := by
  induction buf with
  | nil => simp at h
  | cons d buf ih =>
    cases hd : isNewline d with
    | true => exact ⟨d, buf, hd, by simp [word, hd]⟩
    | false =>
      rw [List.any_cons, hd, Bool.false_or] at h
      obtain ⟨c, rest, hc, hbuf⟩ := ih h
      refine ⟨c, rest, hc, ?_⟩
      have hword : word (d :: buf) = d :: word buf := by simp [word, hd]
      rw [hword, List.cons_append, ← hbuf]

theorem word_quiet (hw : w.any isNewline = false) (buf : List Byte) :
    word (w ++ buf) = w ++ word buf := by
  refine List.takeWhile_append_of_pos fun c hc => ?_
  simpa using List.any_eq_false.mp hw c hc

theorem scanLoop_same {a b : List Byte} (ha : a.any isNewline = true)
    (hb : b.any isNewline = true) (hword : word a = word b) (h : ctx.state ≠ .done) :
    scanLoop mem ctx a = scanLoop mem ctx b := by
  obtain ⟨c, resta, hc, hsplita⟩ := word_end ha
  obtain ⟨d, restb, hd, hsplitb⟩ := word_end hb
  rw [hsplita, hsplitb, scanLoop_stop (word_any a) hc h, scanLoop_stop (word_any b) hd h, hword,
    scanChar_newline hc hd]

theorem scanLoop_consumed (hbuf : buf.any isNewline = true) (h : ctx.state ≠ .done) :
    (scanLoop mem ctx buf).consumedLen = ctx.consumedLen + (word buf).length + 1 := by
  obtain ⟨c, rest, hc, hsplit⟩ := word_end hbuf
  rw [hsplit, scanLoop_stop (word_any buf) hc h, scanChar_consumed,
    (scanLoop_word (word_any buf) h).2, ← hsplit]

end Scan

theorem init_ne_done : parserContextInit.state ≠ .done := by decide

def Quiet (buffers : List (List Byte)) : Prop :=
  ∀ buffer ∈ buffers, (cString buffer).any isNewline = false

section Ended

variable {mem : Nat → Nat → Bool} {n : Nat} {ctx : ParserContext} {buffer : List Byte}
  {buffers pre post : List (List Byte)}

theorem Quiet.flatMap (h : Quiet buffers) : (buffers.flatMap cString).any isNewline = false := by
  simp only [List.any_eq_false, List.mem_flatMap]
  rintro c ⟨buffer, hbuffer, hc⟩
  exact List.any_eq_false.mp (h buffer hbuffer) c hc

theorem ended_goes (hbuffer : (cString buffer).any isNewline = false) (h : ctx.state ≠ .done) :
    ended mem n ctx (buffer :: buffers) =
      ended mem n (scanLoop (mem n) ctx (cString buffer)) buffers := by
  simp [ended, parserScanBuffer, scanLoop_done_iff h, hbuffer]

theorem ended_ends (hbuffer : (cString buffer).any isNewline = true) (h : ctx.state ≠ .done) :
    ended mem n ctx (buffer :: buffers) =
      ((n, scanLoop (mem n) ctx (cString buffer)) ::
          (ended mem (n + 1) parserContextInit buffers).1,
        (ended mem (n + 1) parserContextInit buffers).2) := by
  simp [ended, parserScanBuffer, scanLoop_done_iff h, hbuffer]

theorem ended_quiet (hquiet : Quiet pre) (h : ctx.state ≠ .done) :
    ended mem n ctx (pre ++ post) =
      ended mem n (scanLoop (mem n) ctx (pre.flatMap cString)) post := by
  induction pre generalizing ctx with
  | nil => rfl
  | cons buffer pre ih =>
    have hbuffer := hquiet buffer List.mem_cons_self
    rw [List.cons_append, ended_goes hbuffer h,
      ih (fun b hb => hquiet b (List.mem_cons_of_mem _ hb)) (scanLoop_word hbuffer h).1,
      List.flatMap_cons, scanLoop_append]

theorem ended_quiet_all (hquiet : Quiet pre) (h : ctx.state ≠ .done) :
    ended mem n ctx pre = ([], n, scanLoop (mem n) ctx (pre.flatMap cString)) := by
  have hpre : ended mem n ctx (pre ++ []) =
      ended mem n (scanLoop (mem n) ctx (pre.flatMap cString)) [] := ended_quiet hquiet h
  rwa [List.append_nil] at hpre

theorem ended_append (h : ctx.state ≠ .done) :
    ended mem n ctx (pre ++ post) =
      ((ended mem n ctx pre).1 ++ (ended mem (ended mem n ctx pre).2.1
          (ended mem n ctx pre).2.2 post).1,
        (ended mem (ended mem n ctx pre).2.1 (ended mem n ctx pre).2.2 post).2) := by
  induction pre generalizing n ctx with
  | nil => rfl
  | cons buffer pre ih =>
    rw [List.cons_append]
    cases hbuffer : (cString buffer).any isNewline with
    | true => rw [ended_ends hbuffer h, ended_ends hbuffer h, ih init_ne_done, List.cons_append]
    | false => rw [ended_goes hbuffer h, ended_goes hbuffer h, ih (scanLoop_word hbuffer h).1]

theorem ended_length (h : ctx.state ≠ .done) :
    (ended mem n ctx buffers).1.length =
      buffers.countP fun buffer => (cString buffer).any isNewline := by
  induction buffers generalizing n ctx with
  | nil => rfl
  | cons buffer buffers ih =>
    cases hbuffer : (cString buffer).any isNewline with
    | true => simp [ended_ends hbuffer h, ih init_ne_done, hbuffer]
    | false => simp [ended_goes hbuffer h, ih (scanLoop_word hbuffer h).1, hbuffer]

theorem ended_first (h : ¬ Quiet buffers) :
    ∃ pre buffer post, buffers = pre ++ buffer :: post ∧ Quiet pre ∧
      (cString buffer).any isNewline = true := by
  induction buffers with
  | nil => exact absurd (fun b hb => absurd hb List.not_mem_nil) h
  | cons buffer buffers ih =>
    cases hbuffer : (cString buffer).any isNewline with
    | true => exact ⟨[], buffer, buffers, rfl, fun b hb => absurd hb List.not_mem_nil, hbuffer⟩
    | false =>
      have hrest : ¬ Quiet buffers := by
        intro hquiet
        apply h
        intro b hb
        cases List.mem_cons.mp hb with
        | inl hb => rwa [hb]
        | inr hb => exact hquiet b hb
      obtain ⟨pre, c, post, rfl, hpre, hc⟩ := ih hrest
      refine ⟨buffer :: pre, c, post, rfl, ?_, hc⟩
      intro b hb
      cases List.mem_cons.mp hb with
      | inl hb => rwa [hb]
      | inr hb => exact hpre b hb

theorem word_cString (buf : List Byte) : word (cString buf) = word buf := by
  rw [word, cString, List.takeWhile_takeWhile]
  congr 1
  funext c
  by_cases hc : c = 0
  · simp [hc, isNewline, parserGetCharType]
  · simpa using fun _ => hc

theorem word_append (h : buffer.any isNewline = true) (buf : List Byte) :
    word (buffer ++ buf) = word buffer := by
  obtain ⟨c, rest, hc, hsplit⟩ := word_end h
  have hstop : ∀ tail, word (word buffer ++ c :: tail) = word buffer := by
    intro tail
    rw [word_quiet (word_any buffer)]
    simp [word, hc]
  conv_lhs => rw [hsplit, List.append_assoc, List.cons_append, hstop]

theorem word_prefix (buffers : List (List Byte)) :
    word buffers.flatten <+: buffers.flatMap cString := by
  induction buffers with
  | nil => exact List.prefix_rfl
  | cons buffer buffers ih =>
    rw [List.flatten_cons, List.flatMap_cons]
    cases hbuffer : buffer.any isNewline with
    | true =>
      rw [word_append hbuffer, ← word_cString]
      exact (List.takeWhile_prefix _).trans (List.prefix_append _ _)
    | false =>
      have hall : cString buffer = buffer := by
        refine List.takeWhile_eq_self_iff.mpr fun c hc => ?_
        have hend := List.any_eq_false.mp hbuffer c hc
        by_cases h0 : c = 0
        · simp [h0, isNewline, parserGetCharType] at hend
        · simpa using h0
      rw [word_quiet hbuffer, hall]
      exact (List.prefix_append_right_inj buffer).mpr ih

/-- The first end of a line that the buffers show comes right after the line's own
word, and the buffers after it are empty. -/
def Meets (buffers : List (List Byte)) (line : List Byte) : Prop :=
  ∃ pre buffer post, buffers = pre ++ buffer :: post ∧
    (cString buffer).any isNewline = true ∧
    pre.flatMap cString ++ word (cString buffer) = word line ∧
    ∀ rest ∈ post, cString rest = []

theorem ended_found (hquiet : Quiet pre) (hbuffer : (cString buffer).any isNewline = true) :
    ended mem n parserContextInit (pre ++ buffer :: post) =
      ((n, scanLoop (mem n) parserContextInit (pre.flatMap cString ++ cString buffer)) ::
          (ended mem (n + 1) parserContextInit post).1,
        (ended mem (n + 1) parserContextInit post).2) := by
  rw [ended_quiet hquiet init_ne_done,
    ended_ends hbuffer (scanLoop_word hquiet.flatMap init_ne_done).1, scanLoop_append]

theorem ended_of_meets {line : List Byte} (hline : line.any isNewline = true)
    (h : Meets buffers line) :
    ended mem n parserContextInit buffers =
      ([(n, scanLoop (mem n) parserContextInit line)], n + 1, parserContextInit) := by
  obtain ⟨pre, buffer, post, rfl, hbuffer, hword, hpost⟩ := h
  have hpre : (pre.flatMap cString).any isNewline = false := by
    have hall := word_any line
    rw [← hword, List.any_append, Bool.or_eq_false_iff] at hall
    exact hall.1
  have hquiet : Quiet pre := by
    intro b hb
    rw [List.any_eq_false] at hpre ⊢
    exact fun c hc => hpre c (List.mem_flatMap.mpr ⟨b, hb, hc⟩)
  have hempty : post.flatMap cString = [] := List.flatMap_eq_nil_iff.mpr hpost
  have hrest : Quiet post := by
    intro b hb
    rw [hpost b hb]
    rfl
  have hsame : scanLoop (mem n) parserContextInit (pre.flatMap cString ++ cString buffer) =
      scanLoop (mem n) parserContextInit line := by
    refine scanLoop_same ?_ hline ?_ init_ne_done
    · rw [List.any_append, hbuffer, Bool.or_true]
    · rw [word_quiet hpre, hword]
  rw [ended_found hquiet hbuffer, ended_quiet_all hrest init_ne_done, hempty, hsame]
  rfl

theorem meets_of_ended {line : List Byte} (hflat : buffers.flatten = line)
    (hline : line.any isNewline = true)
    (h : ended mem n parserContextInit buffers =
      ([(n, scanLoop (mem n) parserContextInit line)], n + 1, parserContextInit)) :
    Meets buffers line := by
  have hloud : ¬ Quiet buffers := by
    intro hquiet
    rw [ended_quiet_all hquiet init_ne_done] at h
    simp at h
  obtain ⟨pre, buffer, post, rfl, hquiet, hbuffer⟩ := ended_first hloud
  have hall : (pre.flatMap cString ++ cString buffer).any isNewline = true := by
    rw [List.any_append, hbuffer, Bool.or_true]
  rw [ended_found hquiet hbuffer] at h
  simp only [Prod.mk.injEq, List.cons.injEq, true_and] at h
  obtain ⟨⟨hscan, hnone⟩, hleft⟩ := h
  refine ⟨pre, buffer, post, rfl, hbuffer, ?_, ?_⟩
  · have hlen := congrArg ParserContext.consumedLen hscan
    rw [scanLoop_consumed hall init_ne_done, scanLoop_consumed hline init_ne_done,
      word_quiet hquiet.flatMap] at hlen
    have hseen := word_prefix (pre ++ buffer :: post)
    rw [hflat, List.flatMap_append, List.flatMap_cons, ← List.append_assoc] at hseen
    have hfound : pre.flatMap cString ++ word (cString buffer) <+:
        pre.flatMap cString ++ cString buffer ++ post.flatMap cString :=
      ((List.prefix_append_right_inj _).mpr (List.takeWhile_prefix _)).trans
        (List.prefix_append _ _)
    exact (List.prefix_of_prefix_length_le hfound hseen (by omega)).eq_of_length (by omega)
  · have hrest : Quiet post := by
      by_contra hloud
      obtain ⟨pre', buffer', post', rfl, hquiet', hbuffer'⟩ := ended_first hloud
      rw [ended_found hquiet' hbuffer'] at hnone
      simp at hnone
    rw [ended_quiet_all hrest init_ne_done] at hleft
    have hlen : (scanLoop (mem (n + 1)) parserContextInit (post.flatMap cString)).consumedLen =
        parserContextInit.consumedLen + (post.flatMap cString).length :=
      (scanLoop_word hrest.flatMap init_ne_done).2
    simp only [Prod.mk.injEq, true_and] at hleft
    rw [hleft] at hlen
    have hnil : post.flatMap cString = [] := List.length_eq_zero_iff.mp (by omega)
    exact List.flatMap_eq_nil_iff.mp hnil

end Ended

/-- Every complete line meets its own end in the buffers it is read into, and the
buffers of what follows the last line show no end. -/
def LinesCut (input : List Byte) : Prop :=
  (∀ line ∈ (splitLines LF input).1, Meets (reads LF 510 (line ++ [LF])) (line ++ [LF])) ∧
    Quiet (reads LF 510 (splitLines LF input).2)

theorem line_any (line : List Byte) : (line ++ [LF]).any isNewline = true := by
  simp [isNewline, parserGetCharType, LF]

theorem linesOnce_iff (input : List Byte) : LinesOnce input ↔ LinesCut input := by
  constructor
  · intro h
    obtain ⟨hlines, htail⟩ := h (fun _ _ => true) 0
    refine ⟨fun line hline => ?_, ?_⟩
    · exact meets_of_ended (LineChunks.reads_flatten _) (line_any line) (hlines line hline)
    · have hcount := congrArg List.length htail
      rw [ended_length init_ne_done] at hcount
      intro buffer hbuffer
      simpa using List.countP_eq_zero.mp hcount buffer hbuffer
  · rintro ⟨hlines, htail⟩ mem n
    refine ⟨fun line hline => ?_, ?_⟩
    · exact ended_of_meets (line_any line) (hlines line hline)
    · rw [ended_quiet_all htail init_ne_done]

section Serve

variable {module_list : List (Module σ)} {mem : Nat → Nat → Bool} {t : Thread σ} {conn : Conn σ}

theorem serveActive_closed (h : conn.active = false) (ended : List (Nat × ParserContext)) :
    ended.foldl (serveActive module_list mem) conn = conn := by
  induction ended with
  | nil => rfl
  | cons e ended ih => rwa [List.foldl_cons, serveActive, h, if_neg Bool.false_ne_true]

theorem turn_closed (h : t.conn.active = false) (buffers : List (List Byte)) :
    buffers.foldl (Thread.turn module_list mem) t = t := by
  induction buffers with
  | nil => rfl
  | cons buffer buffers ih => rwa [List.foldl_cons, Thread.turn, h, if_neg Bool.false_ne_true]

theorem turns_ended (h : t.ctx.state ≠ .done) (buffers : List (List Byte)) :
    (buffers.foldl (Thread.turn module_list mem) t).conn =
      (ended mem t.freed t.ctx buffers).1.foldl (serveActive module_list mem) t.conn := by
  induction buffers generalizing t with
  | nil => rfl
  | cons buffer buffers ih =>
    cases hactive : t.conn.active with
    | false => rw [turn_closed hactive, serveActive_closed hactive]
    | true =>
      rw [List.foldl_cons]
      cases hbuffer : (cString buffer).any isNewline with
      | false =>
        have hgoes : (scanLoop (mem t.freed) t.ctx (cString buffer)).state ≠ .done :=
          (scanLoop_word hbuffer h).1
        have hturn : Thread.turn module_list mem t buffer =
            { t with ctx := scanLoop (mem t.freed) t.ctx (cString buffer) } := by
          rw [Thread.turn, if_pos hactive]
          split
          · rename_i hempty
            rw [hempty]
            rfl
          · simp [parserScanBuffer, hgoes]
        rw [ended_goes hbuffer h, hturn]
        exact ih hgoes
      | true =>
        have hdone : (scanLoop (mem t.freed) t.ctx (cString buffer)).state = .done :=
          (scanLoop_done_iff h).mpr hbuffer
        have hne : cString buffer ≠ [] := by
          intro hempty
          simp [hempty] at hbuffer
        have hturn : Thread.turn module_list mem t buffer =
            { conn := serve module_list (mem t.freed) t.conn
                (scanLoop (mem t.freed) t.ctx (cString buffer))
              freed := t.freed + 1
              ctx := parserContextInit } := by
          rw [Thread.turn, if_pos hactive, if_neg hne]
          simp [parserScanBuffer, hdone]
        rw [ended_ends hbuffer h, hturn, List.foldl_cons]
        refine (ih init_ne_done).trans ?_
        rw [serveActive, if_pos hactive]

theorem hypervisor_thread_ended (conn : Conn σ) (input : List Byte) :
    hypervisor_thread module_list mem conn input =
      (ended mem 0 parserContextInit (reads LF 510 input)).1.foldl
        (serveActive module_list mem) conn := by
  rw [hypervisor_thread, turns_ended init_ne_done]

end Serve

theorem ended_lines (mem : Nat → Nat → Bool) {lines : List (List Byte)}
    (h : ∀ n, ∀ line ∈ lines, ended mem n parserContextInit (reads LF 510 (line ++ [LF])) =
      (ownContexts mem n [line], n + 1, parserContextInit)) (n : Nat) :
    ended mem n parserContextInit (lines.flatMap fun line => reads LF 510 (line ++ [LF])) =
      (ownContexts mem n lines, n + lines.length, parserContextInit) := by
  induction lines generalizing n with
  | nil => rfl
  | cons line lines ih =>
    have hrest := ih (fun n line hline => h n line (List.mem_cons_of_mem _ hline)) (n + 1)
    rw [List.flatMap_cons, ended_append init_ne_done, h n line List.mem_cons_self, hrest,
      List.length_cons, Nat.add_assoc, Nat.add_comm 1]
    rfl

theorem right_of_linesCut {input : List Byte} (h : LinesCut input) : Right input := by
  intro σ module_list mem conn
  have honce := (linesOnce_iff input).mpr h mem
  have hlines := ended_lines mem (fun n => (honce n).1) 0
  rw [hypervisor_thread_ended, LineChunks.reads_lines, ended_append init_ne_done, hlines,
    (honce _).2, List.append_nil]
  rfl

def NulFree (input : List Byte) : Prop := 0 ∉ input

/-- No line has a CR among the characters that fill whole buffers of 511, and no
CR comes after the last line. -/
def NoEarlyCr (input : List Byte) : Prop :=
  (∀ line ∈ (splitLines LF input).1, CR ∉ line.take (511 * (line.length / 511))) ∧
    CR ∉ (splitLines LF input).2

theorem cString_nulFree {buf : List Byte} (h : NulFree buf) : cString buf = buf := by
  refine List.takeWhile_eq_self_iff.mpr fun c hc => ?_
  rw [bne_iff_ne]
  rintro rfl
  exact h hc

theorem any_isNewline_of {buf : List Byte} (h0 : NulFree buf) (hLF : LF ∉ buf) :
    buf.any isNewline = false ↔ CR ∉ buf := by
  rw [List.any_eq_false]
  constructor
  · intro h hCR
    exact h CR hCR (by decide)
  · intro hCR c hc hend
    rcases (isNewline_iff c).mp hend with rfl | rfl | rfl
    · exact hLF hc
    · exact hCR hc
    · exact h0 hc

theorem quiet_nulFree {buffers : List (List Byte)} (h0 : NulFree buffers.flatten)
    (hLF : LF ∉ buffers.flatten) : Quiet buffers ↔ CR ∉ buffers.flatten := by
  rw [← any_isNewline_of h0 hLF, List.any_flatten, List.any_eq_false]
  refine forall₂_congr fun buffer hbuffer => ?_
  have hbuf : NulFree buffer := fun h => h0 (List.mem_flatten.mpr ⟨buffer, hbuffer, h⟩)
  rw [cString_nulFree hbuf, Bool.not_eq_true]

theorem nulFree_parts {input : List Byte} (h : NulFree input) :
    (∀ line ∈ (splitLines LF input).1, NulFree line) ∧ NulFree (splitLines LF input).2 := by
  rw [NulFree, ← @LineChunks.joinLines_splitLines _ _ LF input] at h
  simp only [LineChunks.joinLines, List.mem_append, List.mem_flatMap, not_or, not_exists,
    not_and] at h
  exact ⟨fun line hline => (h.1 line hline).1, h.2⟩

theorem line_pieces {line : List Byte} (h0 : NulFree line) (hLF : LF ∉ line) :
    ∃ pieces last, reads LF 510 (line ++ [LF]) = pieces ++ [last] ∧
      cString last = last ∧ last.any isNewline = true ∧
      pieces.flatMap cString ++ last = line ++ [LF] ∧
      (Quiet pieces ↔ CR ∉ line.take (511 * (line.length / 511))) := by
  obtain ⟨pieces, hflat, hreads⟩ := LineChunks.reads_pieces 510 hLF
  have hsub : ∀ c, c ∉ line → c ∉ pieces.flatten := by
    intro c hc hmem
    rw [hflat] at hmem
    exact hc (List.mem_of_mem_take hmem)
  have hquiet := quiet_nulFree (hsub 0 h0) (hsub LF hLF)
  rw [hflat] at hquiet
  have hpieces : pieces.flatMap cString = pieces.flatten := by
    rw [← List.flatMap_id]
    refine List.flatMap_congr fun piece hpiece => cString_nulFree fun h => hsub 0 h0 ?_
    exact List.mem_flatten.mpr ⟨piece, hpiece, h⟩
  refine ⟨pieces, line.drop (511 * (line.length / 511)) ++ [LF], ?_, cString_nulFree ?_,
    line_any _, ?_, hquiet⟩
  · rw [hreads, LineChunks.reads_nil]
  · simp only [NulFree, List.mem_append, List.mem_singleton, not_or]
    exact ⟨fun h => h0 (List.mem_of_mem_drop h), by decide⟩
  · rw [hpieces, hflat, ← List.append_assoc, List.take_append_drop]

theorem meets_nulFree {line : List Byte} (h0 : NulFree line) (hLF : LF ∉ line)
    (hCR : CR ∉ line.take (511 * (line.length / 511))) :
    Meets (reads LF 510 (line ++ [LF])) (line ++ [LF]) := by
  obtain ⟨pieces, last, hreads, hlast, hend, hline, hquiet⟩ := line_pieces h0 hLF
  refine ⟨pieces, last, [], hreads, by rwa [hlast], ?_, by simp⟩
  rw [hlast, ← word_quiet (hquiet.mpr hCR).flatMap, hline]

theorem linesCut_of_noEarlyCr {input : List Byte} (h0 : NulFree input) (h : NoEarlyCr input) :
    LinesCut input := by
  have hLF : (∀ line ∈ (splitLines LF input).1, LF ∉ line) ∧ LF ∉ (splitLines LF input).2 :=
    LineChunks.not_mem_splitLines input
  have hNUL := nulFree_parts h0
  refine ⟨fun line hline => ?_, ?_⟩
  · exact meets_nulFree (hNUL.1 line hline) (hLF.1 line hline) (h.1 line hline)
  · have hflat : (reads LF 510 (splitLines LF input).2).flatten = (splitLines LF input).2 :=
      LineChunks.reads_flatten _
    rw [quiet_nulFree, hflat]
    · exact h.2
    · rw [hflat]
      exact hNUL.2
    · rw [hflat]
      exact hLF.2

theorem ownContexts_length (mem : Nat → Nat → Bool) (n : Nat) (lines : List (List Byte)) :
    (ownContexts mem n lines).length = lines.length := by
  induction lines generalizing n with
  | nil => rfl
  | cons line lines ih => rw [ownContexts, List.length_cons, List.length_cons, ih]

theorem serve_noModule (mem : Nat → Nat → Bool) {conn : Conn Unit} (h : conn.active = true)
    (e : Nat × ParserContext) :
    (serveActive [] mem conn e).active = true ∧
      (serveActive [] mem conn e).events.length = conn.events.length + 1 := by
  simp only [serveActive, h, if_true, serve]
  repeat' split
  all_goals simp [Conn.send_reply, exec_cmd, find_module, h]

theorem events_noModule (mem : Nat → Nat → Bool) (ended : List (Nat × ParserContext))
    {conn : Conn Unit} (h : conn.active = true) :
    (ended.foldl (serveActive [] mem) conn).events.length =
      conn.events.length + ended.length := by
  induction ended generalizing conn with
  | nil => rfl
  | cons e ended ih =>
    have hserve := serve_noModule mem h e
    rw [List.foldl_cons, ih hserve.1, hserve.2, List.length_cons]
    omega

theorem count_of_right {input : List Byte} (h : Right input) :
    ((reads LF 510 input).countP fun buffer => (cString buffer).any isNewline) =
      (splitLines LF input).1.length := by
  let conn : Conn Unit := { active := true, cur_module := none, world := (), events := [] }
  have hactive : conn.active = true := rfl
  have hevents := congrArg (fun c => c.events.length) (h Unit [] (fun _ _ => true) conn)
  simp only [hypervisor_thread_ended, lineByLine, events_noModule _ _ hactive,
    ended_length init_ne_done, ownContexts_length] at hevents
  omega

theorem countP_lines {p : List Byte → Bool} {f : List Byte → List (List Byte)}
    {lines : List (List Byte)} (h : ∀ line ∈ lines, 0 < (f line).countP p) :
    lines.length ≤ (lines.flatMap f).countP p ∧
      ((lines.flatMap f).countP p ≤ lines.length → ∀ line ∈ lines, (f line).countP p = 1) := by
  induction lines with
  | nil => simp
  | cons line lines ih =>
    have hline := h line List.mem_cons_self
    have hrest := ih fun line hline => h line (List.mem_cons_of_mem _ hline)
    rw [List.flatMap_cons, List.countP_append, List.length_cons]
    refine ⟨by omega, fun hle => ?_⟩
    simp only [List.mem_cons, forall_eq_or_imp]
    exact ⟨by omega, hrest.2 (by omega)⟩

theorem noEarlyCr_of_right {input : List Byte} (h0 : NulFree input) (h : Right input) :
    NoEarlyCr input := by
  have hLF : (∀ line ∈ (splitLines LF input).1, LF ∉ line) ∧ LF ∉ (splitLines LF input).2 :=
    LineChunks.not_mem_splitLines input
  have hNUL := nulFree_parts h0
  have hcount := count_of_right h
  rw [LineChunks.reads_lines, List.countP_append] at hcount
  have hpos : ∀ line ∈ (splitLines LF input).1, 0 < (reads LF 510 (line ++ [LF])).countP
      fun buffer => (cString buffer).any isNewline := by
    intro line hline
    obtain ⟨pieces, last, hreads, hlast, hend, -, -⟩ :=
      line_pieces (hNUL.1 line hline) (hLF.1 line hline)
    rw [hreads, List.countP_append]
    simp [hlast, hend]
  have hlines := countP_lines hpos
  refine ⟨fun line hline => ?_, ?_⟩
  · obtain ⟨pieces, last, hreads, hlast, hend, -, hquiet⟩ :=
      line_pieces (hNUL.1 line hline) (hLF.1 line hline)
    have hone := hlines.2 (by omega) line hline
    rw [hreads, List.countP_append] at hone
    have hzero : pieces.countP (fun buffer => (cString buffer).any isNewline) = 0 := by
      simp [hlast, hend] at hone
      simpa using hone
    rw [← hquiet]
    intro piece hpiece
    simpa using List.countP_eq_zero.mp hzero piece hpiece
  · have hflat : (reads LF 510 (splitLines LF input).2).flatten = (splitLines LF input).2 :=
      LineChunks.reads_flatten _
    have hzero : (reads LF 510 (splitLines LF input).2).countP
        (fun buffer => (cString buffer).any isNewline) = 0 := by omega
    have hquiet : Quiet (reads LF 510 (splitLines LF input).2) := by
      intro buffer hbuffer
      simpa using List.countP_eq_zero.mp hzero buffer hbuffer
    rw [quiet_nulFree, hflat] at hquiet
    · exact hquiet
    · rw [hflat]
      exact hNUL.2
    · rw [hflat]
      exact hLF.2

/-- Every line is executed or rejected once, as the line it is on its own, if and only
if it meets its own end; the connection then does what its lines say. Where there is
no NUL, the connection does so if and only if no CR comes too early. -/
theorem hypervisor_thread_ok_iff (input : List Byte) :
    (LinesOnce input ↔ LinesCut input) ∧
      (LinesCut input → Right input) ∧
      (NulFree input → (Right input ↔ NoEarlyCr input)) :=
  ⟨linesOnce_iff input, right_of_linesCut, fun h0 =>
    ⟨noEarlyCr_of_right h0, fun h => right_of_linesCut (linesCut_of_noEarlyCr h0 h)⟩⟩

/-- A line of 510 characters with its CR LF: the LF is left for the next buffer. -/
def longLine : List Byte := List.replicate 510 0x61 ++ [CR]

theorem mem_longLine (c : Byte) : c ∈ longLine ↔ c = 0x61 ∨ c = CR := by
  simp only [longLine, List.mem_append, List.mem_replicate, List.mem_singleton]
  exact or_congr_left (and_iff_right (by decide))

theorem not_hypervisor_thread_ok : ¬ Right (longLine ++ [LF]) := by
  intro h
  have hLF : LF ∉ longLine := by
    rw [mem_longLine]
    decide
  have h0 : NulFree (longLine ++ [LF]) := by
    rw [NulFree, List.mem_append, mem_longLine]
    decide
  have hlen : longLine.length = 511 := by
    rw [longLine, List.length_append, List.length_replicate, List.length_singleton]
  have hearly := (noEarlyCr_of_right h0 h).1 longLine
  rw [LineChunks.splitLines_line hLF, hlen, List.take_of_length_le (by omega)] at hearly
  exact hearly (by simp only [List.mem_singleton]) ((mem_longLine CR).mpr (by decide))

/-! The final replies to a client -/

def Conn.finals (conn : Conn σ) : Nat :=
  conn.events.countP fun
    | .reply r => r.done
    | .exec .. => false

/-- Every command sends one final reply; it may also close the connection. -/
def Answering (module_list : List (Module σ)) : Prop :=
  ∀ m ∈ module_list, ∀ cmd ∈ m.cmd_list, ∀ conn argv,
    (cmd.handler conn argv).finals = conn.finals + 1

theorem finals_send_reply (conn : Conn σ) (code : Nat) (reply : String) :
    (conn.send_reply code true reply).finals = conn.finals + 1 := by
  simp [Conn.finals, Conn.send_reply]

variable {module_list : List (Module σ)}

theorem serve_answers (h : Answering module_list)
    (mem : Nat → Bool) (conn : Conn σ) (ctx : ParserContext) :
    (serve module_list mem conn ctx).finals = conn.finals + 1 := by
  simp only [serve, exec_cmd]
  split
  · exact finals_send_reply ..
  · split
    · split
      · split
        · exact finals_send_reply ..
        · rename_i m hm
          split
          · exact finals_send_reply ..
          · rename_i cmd hcmd
            split
            · exact finals_send_reply ..
            · rw [h m (List.mem_of_find?_eq_some hm) cmd (List.mem_of_find?_eq_some hcmd)]
              simp [Conn.finals]
      · exact finals_send_reply ..
    · exact finals_send_reply ..

theorem serves_answer (h : Answering module_list)
    (mem : Nat → Nat → Bool) (ended : List (Nat × ParserContext)) (conn : Conn σ) :
    let conn' := ended.foldl (serveActive module_list mem) conn
    conn'.finals ≤ conn.finals + ended.length ∧
      (conn'.active → conn'.finals = conn.finals + ended.length) := by
  induction ended generalizing conn with
  | nil => exact ⟨Nat.le_refl _, fun _ => rfl⟩
  | cons e ended ih =>
    cases hactive : conn.active with
    | false =>
      rw [serveActive_closed hactive]
      exact ⟨Nat.le_add_right _ _, fun hopen => by simp [hactive] at hopen⟩
    | true =>
      have hserve := serve_answers h (mem e.1) conn e.2
      rw [List.foldl_cons, serveActive, if_pos hactive, List.length_cons]
      have hrest := ih (serve module_list (mem e.1) conn e.2)
      exact ⟨by omega, fun hopen => by rw [hrest.2 hopen]; omega⟩

/-- However the lines of a client are cut into buffers, each gets one final reply,
until a command closes the connection. -/
theorem lines_answered (h : Answering module_list)
    (mem : Nat → Nat → Bool) (conn : Conn σ) {input : List Byte} (h0 : NulFree input)
    (hcr : NoEarlyCr input) :
    let conn' := hypervisor_thread module_list mem conn input
    conn'.finals ≤ conn.finals + (splitLines LF input).1.length ∧
      (conn'.active → conn'.finals = conn.finals + (splitLines LF input).1.length) := by
  rw [right_of_linesCut (linesCut_of_noEarlyCr h0 hcr), lineByLine,
    ← ownContexts_length mem 0]
  exact serves_answer h mem _ conn

def versionModules : List (Module Unit) :=
  [⟨[0x68], [⟨[0x76], 0, 0, fun conn _ => conn.send_reply 100 true "0.2.23"⟩]⟩]

theorem lines_answered_version :
    let conn' := hypervisor_thread versionModules (fun _ _ => true) ⟨true, none, (), []⟩
      [0x68, 0x20, 0x76, LF]
    conn'.finals ≤ 1 ∧ (conn'.active → conn'.finals = 1) := by
  refine lines_answered (fun m hm cmd hcmd conn argv => ?_) _ _ (by unfold NulFree; decide)
    (by unfold NoEarlyCr; decide)
  obtain rfl := List.mem_singleton.mp hm
  obtain rfl := List.mem_singleton.mp hcmd
  exact finals_send_reply ..

end Dynamips.HvThread
