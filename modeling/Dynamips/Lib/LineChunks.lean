import Mathlib.Data.List.Basic

/-! A stream read into a buffer of a fixed size, line by line where the lines fit
and in pieces where they do not. -/
set_option autoImplicit false

namespace LineChunks

variable {α : Type} [DecidableEq α]

/-- What `fgets` takes of a stream, with room for `room` characters, and what it leaves. -/
def fgets (eol : α) : Nat → List α → List α × List α
  | 0, s => ([], s)
  | _ + 1, [] => ([], [])
  | room + 1, c :: s =>
    if c = eol then ([c], s) else (c :: (fgets eol room s).1, (fgets eol room s).2)

variable {eol : α} {room : Nat} {s l : List α}

theorem fgets_split (room : Nat) (s : List α) :
    (fgets eol room s).1 ++ (fgets eol room s).2 = s := by
  induction room generalizing s with
  | zero => rfl
  | succ room ih =>
    cases s with
    | nil => rfl
    | cons c s =>
      simp only [fgets]
      split
      · rfl
      · rw [List.cons_append, ih]

theorem fgets_lt (hs : s ≠ []) : (fgets eol (room + 1) s).2.length < s.length := by
  cases s with
  | nil => exact absurd rfl hs
  | cons c s =>
    simp only [fgets]
    split
    · simp
    · have hlen : (fgets eol room s).1.length + (fgets eol room s).2.length = s.length := by
        rw [← List.length_append, fgets_split]
      simp only [List.length_cons]
      omega

/-- What a buffer with room for `room + 1` characters gets, read after read, until the
end of the stream. -/
def reads (eol : α) (room : Nat) (s : List α) : List (List α) :=
  if h : s = [] then []
  else (fgets eol (room + 1) s).1 :: reads eol room (fgets eol (room + 1) s).2
termination_by s.length
decreasing_by exact fgets_lt h

theorem fgets_line {rest : List α} (hroom : l.length < room) (hl : eol ∉ l) :
    fgets eol room (l ++ eol :: rest) = (l ++ [eol], rest) := by
  induction l generalizing room with
  | nil =>
    cases room with
    | zero => simp at hroom
    | succ room => simp [fgets]
  | cons c l ih =>
    cases room with
    | zero => simp at hroom
    | succ room =>
      simp only [List.mem_cons, not_or, List.length_cons] at hl hroom
      simp [fgets, Ne.symm hl.1, ih (Nat.lt_of_succ_lt_succ hroom) hl.2]

theorem fgets_part {rest : List α} (hl : eol ∉ l) :
    fgets eol l.length (l ++ rest) = (l, rest) := by
  induction l with
  | nil => rfl
  | cons c l ih =>
    simp only [List.mem_cons, not_or] at hl
    simp [fgets, Ne.symm hl.1, ih hl.2]

theorem reads_nil : reads eol room [] = [] := by
  rw [reads, dif_pos rfl]

/-- The last piece of a line -/
theorem reads_line {rest : List α} (hroom : l.length ≤ room) (hl : eol ∉ l) :
    reads eol room (l ++ eol :: rest) = (l ++ [eol]) :: reads eol room rest := by
  rw [reads, dif_neg (by simp), fgets_line (by omega) hl]

/-- A piece that fills the buffer -/
theorem reads_part {rest : List α} (hroom : l.length = room + 1) (hl : eol ∉ l) :
    reads eol room (l ++ rest) = l :: reads eol room rest := by
  have hne : l ++ rest ≠ [] := by
    intro h
    rw [(List.append_eq_nil_iff.mp h).1] at hroom
    simp at hroom
  rw [reads, dif_neg hne, ← hroom, fgets_part hl]

theorem reads_flatten (s : List α) : (reads eol room s).flatten = s := by
  fun_induction reads eol room s with
  | case1 => rfl
  | case2 s hs ih => rw [List.flatten_cons, ih, fgets_split]

/-- A line is read in pieces that fill the buffer, and the rest of it with its end. -/
theorem reads_pieces (room : Nat) (hl : eol ∉ l) :
    ∃ pieces : List (List α),
      pieces.flatten = l.take ((room + 1) * (l.length / (room + 1))) ∧
      ∀ rest, reads eol room (l ++ eol :: rest) =
        pieces ++ (l.drop ((room + 1) * (l.length / (room + 1))) ++ [eol]) ::
          reads eol room rest := by
  induction hlen : l.length using Nat.strongRecOn generalizing l with
  | _ n ih =>
    by_cases hroom : n ≤ room
    · have hn : n / (room + 1) = 0 := Nat.div_eq_of_lt (by omega)
      have hline : l.length ≤ room := by omega
      refine ⟨[], by simp [hn], fun rest => ?_⟩
      simp [hn, reads_line hline hl]
    · have hhead : (l.take (room + 1)).length = room + 1 := by
        rw [List.length_take]
        omega
      have htail : (l.drop (room + 1)).length = n - (room + 1) := by rw [List.length_drop, hlen]
      have hn : n / (room + 1) = (n - (room + 1)) / (room + 1) + 1 :=
        Nat.div_eq_sub_div (by omega) (by omega)
      have hsize : (room + 1) * (n / (room + 1)) =
          room + 1 + (room + 1) * ((n - (room + 1)) / (room + 1)) := by
        rw [hn, Nat.mul_add, Nat.mul_one, Nat.add_comm]
      obtain ⟨pieces, hpieces, hreads⟩ := ih (n - (room + 1)) (by omega)
        (fun hmem => hl (List.mem_of_mem_drop hmem)) htail
      refine ⟨l.take (room + 1) :: pieces, ?_, fun rest => ?_⟩
      · rw [List.flatten_cons, hpieces, hsize, ← List.take_add]
      · have hsplit : l ++ eol :: rest =
            l.take (room + 1) ++ (l.drop (room + 1) ++ eol :: rest) := by
          rw [← List.append_assoc, List.take_append_drop]
        rw [hsplit, reads_part hhead fun hmem => hl (List.mem_of_mem_take hmem), hreads,
          List.drop_drop, hsize, List.cons_append]

theorem reads_append {rest : List α} (hl : eol ∉ l) :
    reads eol room (l ++ eol :: rest) = reads eol room (l ++ [eol]) ++ reads eol room rest := by
  obtain ⟨pieces, -, hreads⟩ := reads_pieces room hl
  rw [hreads, hreads, reads_nil, List.append_assoc]
  rfl

/-- The lines of a stream without their ends, and what follows the last one. -/
def splitLines (eol : α) : List α → List (List α) × List α
  | [] => ([], [])
  | c :: s =>
    if c = eol then ([] :: (splitLines eol s).1, (splitLines eol s).2)
    else
      match (splitLines eol s).1 with
      | [] => ([], c :: (splitLines eol s).2)
      | l :: ls => ((c :: l) :: ls, (splitLines eol s).2)

def joinLines (eol : α) (lines : List (List α)) (tail : List α) : List α :=
  lines.flatMap (· ++ [eol]) ++ tail

theorem joinLines_splitLines (s : List α) :
    joinLines eol (splitLines eol s).1 (splitLines eol s).2 = s := by
  induction s with
  | nil => rfl
  | cons c s ih =>
    simp only [splitLines]
    split
    · rename_i hc
      simp only [joinLines] at ih
      simp [joinLines, ih, hc]
    · split
      · rename_i hls
        simpa [joinLines, hls] using ih
      · rename_i l ls hls
        simpa [joinLines, hls] using ih

theorem not_mem_splitLines (s : List α) :
    (∀ l ∈ (splitLines eol s).1, eol ∉ l) ∧ eol ∉ (splitLines eol s).2 := by
  induction s with
  | nil => simp [splitLines]
  | cons c s ih =>
    simp only [splitLines]
    split
    · exact ⟨by simpa using ih.1, ih.2⟩
    · rename_i hc
      split
      · exact ⟨by simp, by simpa [Ne.symm hc] using ih.2⟩
      · rename_i l ls hls
        rw [hls] at ih
        simpa [Ne.symm hc] using ih

theorem splitLines_line (hl : eol ∉ l) : splitLines eol (l ++ [eol]) = ([l], []) := by
  induction l with
  | nil => simp [splitLines]
  | cons c l ih =>
    simp only [List.mem_cons, not_or] at hl
    simp [splitLines, Ne.symm hl.1, ih hl.2]

/-- A stream is read line by line, and then what follows its last line. -/
theorem reads_lines (s : List α) :
    reads eol room s =
      (splitLines eol s).1.flatMap (fun l => reads eol room (l ++ [eol])) ++
        reads eol room (splitLines eol s).2 := by
  have hlines : ∀ (lines : List (List α)) (tail : List α), (∀ l ∈ lines, eol ∉ l) →
      reads eol room (joinLines eol lines tail) =
        lines.flatMap (fun l => reads eol room (l ++ [eol])) ++ reads eol room tail := by
    intro lines tail hmem
    induction lines with
    | nil => rfl
    | cons l lines ih =>
      have hjoin : joinLines eol (l :: lines) tail = l ++ eol :: joinLines eol lines tail := by
        simp [joinLines]
      rw [hjoin, reads_append (hmem l List.mem_cons_self),
        ih fun l' hl' => hmem l' (List.mem_cons_of_mem _ hl'), List.flatMap_cons,
        List.append_assoc]
  have hread := hlines (splitLines eol s).1 (splitLines eol s).2 (not_mem_splitLines s).1
  rwa [joinLines_splitLines] at hread

end LineChunks
