-- SUMMARY: UTF-8 encoding of character lists as byte lists, and decoding back.
import Mathlib.Data.List.Basic

/-!
# UTF-8 strings as byte lists

`encode` lays a list of characters out as bytes and `decode` reads them back;
a byte list that is not the encoding of any characters is not valid UTF-8.
-/

namespace CoEditor

/-- The bytes of a C string, without the terminating `NUL`. -/
abbrev Bytes := List UInt8

namespace Utf8

def encode (cs : List Char) : Bytes := cs.flatMap String.utf8EncodeChar

@[simp] theorem encode_nil : encode [] = [] := rfl

@[simp] theorem encode_cons (c : Char) (cs : List Char) :
    encode (c :: cs) = String.utf8EncodeChar c ++ encode cs := rfl

@[simp] theorem encode_append (cs ds : List Char) : encode (cs ++ ds) = encode cs ++ encode ds := by
  simp [encode]

/-- Decode at most `fuel` characters; every character takes at least one byte. -/
def decodeFuel : Nat → Bytes → Option (List Char)
  | _, [] => some []
  | 0, _ :: _ => none
  | n + 1, b :: s =>
      match (b :: s).toByteArray.utf8DecodeChar? 0 with
      | none => none
      | some c => (decodeFuel n ((b :: s).drop c.utf8Size)).map (c :: ·)

def decode (s : Bytes) : Option (List Char) := decodeFuel s.length s

theorem utf8Size_pos_le (c : Char) : 0 < (String.utf8EncodeChar c).length := by
  rw [String.length_utf8EncodeChar]
  exact c.utf8Size_pos

theorem decodeFuel_encode (cs : List Char) :
    ∀ n, (encode cs).length ≤ n → decodeFuel n (encode cs) = some cs := by
  induction cs with
  | nil => intro n _; cases n <;> rfl
  | cons c cs ih =>
      intro n hn
      have hpos := utf8Size_pos_le c
      simp only [encode_cons, List.length_append] at hn
      obtain ⟨m, rfl⟩ : ∃ m, n = m + 1 := ⟨n - 1, by omega⟩
      obtain ⟨b, s, hs⟩ : ∃ b s, encode (c :: cs) = b :: s := by
        cases h : encode (c :: cs) with
        | nil => simp at h
        | cons b s => exact ⟨b, s, rfl⟩
      have hdec : (encode (c :: cs)).toByteArray.utf8DecodeChar? 0 = some c := by
        rw [encode_cons, List.toByteArray_append]
        exact ByteArray.utf8DecodeChar?_utf8EncodeChar_append
      have hdrop : (encode (c :: cs)).drop c.utf8Size = encode cs := by
        rw [encode_cons, ← String.length_utf8EncodeChar, List.drop_left]
      rw [hs] at hdec hdrop ⊢
      simp only [decodeFuel, hdec, hdrop, ih m (by omega), Option.map_some]

/-- Decoding inverts encoding. -/
theorem decode_encode (cs : List Char) : decode (encode cs) = some cs :=
  decodeFuel_encode cs _ (Nat.le_refl _)

theorem encode_decodeFuel {cs : List Char} :
    ∀ {n : Nat} {s : Bytes}, decodeFuel n s = some cs → encode cs = s := by
  intro n
  induction n generalizing cs with
  | zero =>
      intro s h
      cases s with
      | nil => cases h; rfl
      | cons b s => simp [decodeFuel] at h
  | succ n ih =>
      intro s h
      cases s with
      | nil => cases h; rfl
      | cons b s =>
          rw [decodeFuel] at h
          cases hc : (b :: s).toByteArray.utf8DecodeChar? 0 with
          | none => simp [hc] at h
          | some c =>
              simp only [hc, Option.map_eq_some_iff] at h
              obtain ⟨ds, hds, rfl⟩ := h
              have hsplit := String.toByteArray_utf8EncodeChar_of_utf8DecodeChar?_eq_some hc
              have htake : String.utf8EncodeChar c = (b :: s).take c.utf8Size := by
                simpa using congrArg (fun a : ByteArray => a.data.toList) hsplit
              rw [encode_cons, ih hds, htake, List.take_append_drop]

/-- Only encodings decode. -/
theorem encode_decode {s : Bytes} {cs : List Char} (h : decode s = some cs) : encode cs = s :=
  encode_decodeFuel h

theorem encode_injective {cs ds : List Char} (h : encode cs = encode ds) : cs = ds := by
  have hd := decode_encode cs
  rw [h, decode_encode] at hd
  exact (Option.some.inj hd).symm

/-- A character below 128 is its own single byte. -/
theorem utf8EncodeChar_ascii {c : Char} (hc : c.toNat < 128) :
    String.utf8EncodeChar c = [UInt8.ofNat c.toNat] := by
  have hle : c.val.toNat ≤ 127 := Nat.le_of_lt_succ hc
  rw [String.utf8EncodeChar, if_pos hle]
  rfl

theorem encode_ascii {cs : List Char} (h : ∀ c ∈ cs, c.toNat < 128) :
    encode cs = cs.map fun c => UInt8.ofNat c.toNat := by
  induction cs with
  | nil => rfl
  | cons c cs ih =>
      rw [encode_cons, utf8EncodeChar_ascii (h c (by simp)), ih fun d hd => h d (by simp [hd])]
      rfl

/-- A byte below 128 is the character of its number. -/
theorem encode_ofNat {c : UInt8} (hc : c.toNat < 128) : encode [Char.ofNat c.toNat] = [c] := by
  have hchar : (Char.ofNat c.toNat).toNat = c.toNat := by
    rw [Char.ofNat, dif_pos (.inl (by omega))]
    rfl
  rw [encode_cons, encode_nil, List.append_nil, utf8EncodeChar_ascii (by omega), hchar, UInt8.ofNat_toNat]

/-- No byte from 128 on is valid UTF-8 by itself. -/
theorem encode_ne_singleton {b : UInt8} (hb : 128 ≤ b.toNat) (cs : List Char) :
    encode cs ≠ [b] := by
  cases cs with
  | nil => simp
  | cons c cs =>
      intro h
      by_cases hc : c.toNat < 128
      · rw [encode_cons, utf8EncodeChar_ascii hc] at h
        have hbc : UInt8.ofNat c.toNat = b := by simpa using (List.cons.inj h).1
        rw [← hbc, UInt8.toNat_ofNat'] at hb
        omega
      · have hlen := congrArg List.length h
        rw [encode_cons, List.length_append, String.length_utf8EncodeChar] at hlen
        have hsize : 2 ≤ c.utf8Size := by
          have h127 : c.utf8Size ≠ 1 := by
            rw [Ne, Char.utf8Size_eq_one_iff]
            intro hle
            exact hc (Nat.lt_succ_of_le (UInt32.le_iff_toNat_le.mp hle))
          have hpos := c.utf8Size_pos
          omega
        simp at hlen
        omega

/-! ## `NUL` -/

theorem zero_mem_utf8EncodeChar {c : Char} : (0 : UInt8) ∈ String.utf8EncodeChar c ↔ c = '\x00' := by
  have hval : c = '\x00' ↔ c.val.toNat = 0 := by
    rw [← Char.val_inj, ← UInt32.toNat_inj]
    rfl
  have hzero : ∀ n, (0 : UInt8) = .ofNat n ↔ n % 256 = 0 := by
    intro n
    rw [← UInt8.toNat_inj, UInt8.toNat_ofNat']
    simp [eq_comm]
  rw [hval, String.utf8EncodeChar]
  split
  · simp only [List.mem_singleton, hzero]
    omega
  · split
    · simp only [List.mem_cons, List.not_mem_nil, hzero, or_false]
      omega
    · split
      · simp only [List.mem_cons, List.not_mem_nil, hzero, or_false]
        omega
      · simp only [List.mem_cons, List.not_mem_nil, hzero, or_false]
        omega

theorem zero_mem_encode {cs : List Char} : (0 : UInt8) ∈ encode cs ↔ '\x00' ∈ cs := by
  simp only [encode, List.mem_flatMap, zero_mem_utf8EncodeChar]
  simp

end Utf8

/-- The C string at the head of a piece of memory. -/
def cString (s : Bytes) : Bytes := s.takeWhile (· ≠ 0)

theorem cString_append {s : Bytes} (hs : (0 : UInt8) ∉ s) (rest : Bytes) :
    cString (s ++ rest) = s ++ cString rest := by
  rw [cString, cString, List.takeWhile_append_of_pos fun c hc => by
    simpa using fun h => hs (by rwa [h] at hc)]

theorem cString_eq_self {s : Bytes} (hs : (0 : UInt8) ∉ s) : cString s = s := by
  simpa [cString] using cString_append hs []

theorem zero_notMem_cString (s : Bytes) : (0 : UInt8) ∉ cString s := fun h => by
  simpa using List.all_eq_true.mp List.all_takeWhile 0 h

end CoEditor
