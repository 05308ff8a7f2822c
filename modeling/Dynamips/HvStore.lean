import Dynamips.HvConfig

/-! The store of the hypervisor (hv_store.c), whose objects are written and read in
base64. -/
set_option autoImplicit false

namespace Dynamips.HvStore

open Hypervisor HvVm Base64

/-- The data of the objects of type `OBJ_TYPE_STORE`, by name -/
abbrev Store := String → Option (List Byte)

/-- `malloc`; `heap` is what fresh memory holds. -/
def malloc (heap : Nat → Byte) (size : Nat) : List Byte := (List.range size).map heap

/-- None where the decoder would leave the buffer. -/
def cmdWrite (heap : Nat → Byte) (store : Store) (name data : String) :
    Option (Store × Hypervisor.Reply) :=
  (base64Decode (malloc heap (3 * (bytes data).length)) (bytes data ++ [0]) 0).map
    fun (len, buffer) =>
      if len < 0 then (store, ⟨HSC_ERR_CREATE, true, "unable to decode base64"⟩)
      else
        match store name with
        | some _ => (store, ⟨HSC_ERR_CREATE, true, "unable to store object"⟩)
        | none =>
          (Function.update store name (some (buffer.take len.toNat)), ⟨HSC_INFO_OK, true, "OK"⟩)

/-- None where the encoder would leave the buffer. -/
def cmdRead (heap : Nat → Byte) (store : Store) (name : String) :
    Option Hypervisor.Reply :=
  match store name with
  | none => some ⟨HSC_ERR_UNK_OBJ, true, "unable to find object '" ++ name ++ "'"⟩
  | some data =>
    (base64Encode (malloc heap (data.length * 2)) data (BitVec.ofNat 32 data.length)).map
      fun buffer => ⟨HSC_INFO_OK, true, text (buffer.takeWhile (· ≠ 0))⟩

/-- There is no room for the zero behind the text. -/
theorem base64Encode_outside {out x : List Byte} (hx : x.length ≤ Base64.INT_MAX)
    (hout : out.length ≤ (encodeText x).length) :
    base64Encode out x (BitVec.ofNat 32 x.length) = none := by
  simp only [Base64.INT_MAX] at hx
  have hlen : (BitVec.ofNat 32 x.length).toNat = x.length := by
    rw [BitVec.toNat_ofNat]
    omega
  have hsize : ¬ SIZE_MAX < (encodeText x).length := by
    rw [length_encodeText, SIZE_MAX]
    split <;> omega
  have hcapacity : encodedSize x.length = .ok (encodeText x).length := by
    rw [encodedSize_eq, ← length_encodeText]
    exact if_neg hsize
  have hbytes : Base64.span x x.length = some x := by
    rw [Base64.span, if_pos (Nat.le_refl _), List.take_length]
  rw [base64Encode, if_neg (by rw [BitVec.toInt_eq_toNat_of_lt (by omega)]; omega), hlen]
  simp only [hcapacity, hbytes]
  by_cases hfit : (encodeText x).length ≤ out.length
  · have hspan : Base64.span out (encodeText x).length = some out := by
      rw [Base64.span, if_pos hfit, List.take_of_length_le hout]
    rw [hspan, Option.bind_some, Option.bind_some, encode_spec, if_neg hsize, if_neg (by omega),
      Option.bind_some]
    refine if_neg ?_
    rw [List.length_append, length_memcpy (by omega), List.length_drop, List.length_singleton]
    omega
  · rw [Base64.span, if_neg hfit]
    rfl

theorem malloc_length (heap : Nat → Byte) (size : Nat) : (malloc heap size).length = size := by
  rw [malloc, List.length_map, List.length_range]

variable {heap heap' : Nat → Byte} {store store' : Store} {name : String} {x : List Byte}

theorem cmdWrite_ok (hok : cmdWrite heap store name (text (encodeText x)) =
      some (store', ⟨HSC_INFO_OK, true, "OK"⟩)) :
    x.length ≤ Base64.INT_MAX ∧ store' name = some x := by
  have hlen := length_encodeText x
  have hcapacity : capacity (encodeText x ++ [0]) 0 = (encodeText x).length / 4 * 3 := by
    rw [capacity, if_pos rfl, payload_encodeText]
  have hroom : x.length ≤ (encodeText x).length / 4 * 3 := by
    split at hlen <;> omega
  have hdecode := @base64Decode_encoding (malloc heap (3 * (encodeText x).length)) _ x 0
    (by decide) (by rw [hcapacity, malloc_length]; omega) (payload_encodeText x []).symm
  rw [hcapacity, if_neg (Nat.not_lt.mpr hroom)] at hdecode
  have hne : HSC_ERR_CREATE ≠ HSC_INFO_OK := by decide
  rw [cmdWrite, bytes_text, hdecode, Option.map_some, Option.some.injEq] at hok
  by_cases hmax : Base64.INT_MAX < x.length
  · rw [if_pos hmax] at hok
    exact absurd (congrArg (fun r => r.2.code) hok) hne
  · rw [if_neg hmax] at hok
    dsimp only at hok
    rw [if_neg (by omega)] at hok
    cases hname : store name with
    | some _ =>
      rw [hname] at hok
      exact absurd (congrArg (fun r => r.2.code) hok) hne
    | none =>
      rw [hname, Int.toNat_natCast, memcpy, List.take_zero, List.nil_append, List.take_left] at hok
      obtain ⟨rfl, -⟩ := Prod.mk.inj hok
      exact ⟨Nat.le_of_not_lt hmax, Function.update_self ..⟩

/-- The buffer of `cmd_read` is too small for data of 0, 1, 2 and 4 bytes. -/
theorem cmdRead_eq (hx : x.length ≤ Base64.INT_MAX) (hname : store name = some x) :
    cmdRead heap store name =
      if x.length ∈ [0, 1, 2, 4] then none
      else some ⟨HSC_INFO_OK, true, text (encodeText x)⟩ := by
  have hlen := length_encodeText x
  rw [cmdRead, hname]
  simp only [List.mem_cons, List.not_mem_nil, or_false]
  split
  · rw [base64Encode_outside hx]
    · rfl
    · rw [malloc_length]
      split at hlen <;> omega
  · simp only [Base64.INT_MAX] at hx
    have hnat : (BitVec.ofNat 32 x.length).toNat = x.length := by
      rw [BitVec.toNat_ofNat]
      omega
    have hpos : 0 ≤ (BitVec.ofNat 32 x.length).toInt := by
      rw [BitVec.toInt_eq_toNat_of_lt (by omega)]
      omega
    have hstring : ∀ rest, (encodeText x ++ ([0] ++ rest)).takeWhile (· ≠ 0) = encodeText x := by
      intro rest
      rw [List.takeWhile_append_of_pos fun c hc => by simpa using (mem_encodeText hc).1]
      simp
    rw [base64Encode_spec hpos (Nat.le_of_eq hnat), hnat, List.take_length, Option.map_some, memcpy,
      List.take_zero, List.nil_append, List.append_assoc, hstring]
    rw [hnat, List.take_length, malloc_length]
    split at hlen <;> omega

/-- The reply to a read is the text that was written, unless `cmd_read` leaves its
buffer. -/
theorem read_written (hok : cmdWrite heap store name (text (encodeText x)) =
      some (store', ⟨HSC_INFO_OK, true, "OK"⟩)) :
    cmdRead heap' store' name =
      if x.length ∈ [0, 1, 2, 4] then none
      else some ⟨HSC_INFO_OK, true, text (encodeText x)⟩ :=
  cmdRead_eq (cmdWrite_ok hok).1 (cmdWrite_ok hok).2

theorem read_written_three : ∃ store', cmdWrite (fun _ => 0) (fun _ => none) "a"
      (text (encodeText [1, 2, 3])) = some (store', ⟨HSC_INFO_OK, true, "OK"⟩) ∧
    cmdRead (fun _ => 0) store' "a" =
      some ⟨HSC_INFO_OK, true, text (encodeText [1, 2, 3])⟩ := by
  obtain ⟨store', hok⟩ : ∃ store', cmdWrite (fun _ => 0) (fun _ => none) "a"
      (text (encodeText [1, 2, 3])) = some (store', ⟨HSC_INFO_OK, true, "OK"⟩) := ⟨_, rfl⟩
  exact ⟨store', hok, (read_written hok).trans (if_neg (by decide))⟩

end Dynamips.HvStore
