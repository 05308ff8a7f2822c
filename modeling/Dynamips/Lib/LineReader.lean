import Mathlib.Data.List.Basic

/-! A text read by lines into a buffer of a fixed size, up to the end of the file
that only the last read sees. -/
set_option autoImplicit false

namespace LineReader

/-- What one read takes, what it leaves, and whether it met the end of the text -/
structure Read where
  line : List Char
  rest : List Char
  eof : Bool

/-- `fgets` with room for `n` characters -/
def fgets : Nat → List Char → Read
  | 0, text => ⟨[], text, false⟩
  | _ + 1, [] => ⟨[], [], true⟩
  | n + 1, c :: cs =>
    if c = '\n' then ⟨[c], cs, false⟩
    else
      let next := fgets n cs
      ⟨c :: next.line, next.rest, next.eof⟩

theorem fgets_split (n : Nat) (text : List Char) :
    (fgets n text).line ++ (fgets n text).rest = text := by
  induction n generalizing text with
  | zero => simp [fgets]
  | succ n ih =>
    cases text with
    | nil => simp [fgets]
    | cons c cs =>
      by_cases hc : c = '\n'
      · simp [fgets, hc]
      · simp [fgets, hc, ih]

theorem fgets_line_ne_nil {n : Nat} {text : List Char} (h : (fgets (n + 1) text).eof = false) :
    (fgets (n + 1) text).line ≠ [] := by
  cases text with
  | nil => simp [fgets] at h
  | cons c cs => by_cases hc : c = '\n' <;> simp [fgets, hc]

theorem fgets_rest_lt {n : Nat} {text : List Char} (h : ¬ (fgets (n + 1) text).eof = true) :
    (fgets (n + 1) text).rest.length < text.length := by
  have hsplit := congrArg List.length (fgets_split (n + 1) text)
  have hline := List.length_pos_iff.2 (fgets_line_ne_nil (Bool.eq_false_iff.2 h))
  rw [List.length_append] at hsplit
  omega

/-- The reads of `while (!feof(fd))` with room for `n + 1` characters -/
def reads (n : Nat) (text : List Char) : List (List Char) :=
  if h : (fgets (n + 1) text).eof = true then [(fgets (n + 1) text).line]
  else (fgets (n + 1) text).line :: reads n (fgets (n + 1) text).rest
termination_by text.length
decreasing_by exact fgets_rest_lt h

theorem fgets_line {n : Nat} {line : List Char} (rest : List Char) (hroom : line.length < n)
    (hline : '\n' ∉ line) : fgets n (line ++ '\n' :: rest) = ⟨line ++ ['\n'], rest, false⟩ := by
  induction line generalizing n with
  | nil =>
    cases n with
    | zero => simp at hroom
    | succ n => simp [fgets]
  | cons c cs ih =>
    cases n with
    | zero => simp at hroom
    | succ n =>
      simp only [List.mem_cons, not_or, List.length_cons] at hline hroom
      have hc : ¬ c = '\n' := fun h => hline.1 h.symm
      simp [fgets, hc, ih (by omega : cs.length < n) hline.2]

theorem reads_nil (n : Nat) : reads n [] = [[]] := by
  rw [reads]
  simp [fgets]

theorem reads_line {n : Nat} {line : List Char} (rest : List Char) (hroom : line.length ≤ n)
    (hline : '\n' ∉ line) :
    reads n (line ++ '\n' :: rest) = (line ++ ['\n']) :: reads n rest := by
  rw [reads, fgets_line rest (by omega) hline]
  simp

/-- A text of whole lines is read line by line, and then once more. -/
theorem reads_lines {n : Nat} {lines : List (List Char)}
    (h : ∀ line ∈ lines, line.length ≤ n ∧ '\n' ∉ line) :
    reads n (lines.flatMap (· ++ ['\n'])) = lines.map (· ++ ['\n']) ++ [[]] := by
  induction lines with
  | nil => simp [reads_nil]
  | cons line lines ih =>
    have hhead := h line (by simp)
    have htail := ih fun l hl => h l (by simp [hl])
    simp only [List.flatMap_cons, List.append_assoc, List.singleton_append]
    rw [reads_line _ hhead.1 hhead.2, htail]
    simp

end LineReader
