-- SUMMARY: The text of a value whose strings are valid UTF-8 is valid UTF-8 itself, so it can be a string of another value.
import CoEditor.Parson.RoundTrip

/-!
# Texts as strings

A snapshot is a JSON text that is sent as the payload of a message, which is a
string of another JSON text. Only valid UTF-8 becomes a string value, so what
the printer makes of valid UTF-8 has to be valid UTF-8.
-/

namespace CoEditor

open Decimal

namespace Utf8

/-- The bytes are the encoding of some characters. -/
def Valid (s : Bytes) : Prop := ∃ cs, encode cs = s

variable {s t : Bytes}

theorem valid_iff : Valid s ↔ (decode s).isSome := by
  rw [Option.isSome_iff_exists]
  constructor
  · rintro ⟨cs, rfl⟩
    exact ⟨cs, decode_encode cs⟩
  · rintro ⟨cs, hcs⟩
    exact ⟨cs, encode_decode hcs⟩

theorem Valid.nil : Valid [] := ⟨[], rfl⟩

theorem Valid.append (hs : Valid s) (ht : Valid t) : Valid (s ++ t) := by
  obtain ⟨cs, rfl⟩ := hs
  obtain ⟨ds, rfl⟩ := ht
  exact ⟨cs ++ ds, encode_append cs ds⟩

/-- Bytes below 128 are valid wherever they stand. -/
theorem Valid.cons {c : UInt8} (hc : c.toNat < 128) (hs : Valid s) : Valid (c :: s) := by
  have hone : Valid [c] := ⟨_, encode_ofNat hc⟩
  exact hone.append hs

theorem valid_ascii (h : ∀ c ∈ s, c.toNat < 128) : Valid s := by
  induction s with
  | nil => exact .nil
  | cons c s ih => exact .cons (h c (by simp)) (ih fun d hd => h d (by simp [hd]))

/-- The bytes of other characters are all from 128 on. -/
theorem le_of_mem_utf8EncodeChar {c : Char} (hc : 128 ≤ c.toNat) {b : UInt8} (hb : b ∈ String.utf8EncodeChar c) :
    128 ≤ b.toNat := by
  have hval : ¬ c.val.toNat ≤ 127 := Nat.not_le.mpr hc
  rw [String.utf8EncodeChar, if_neg hval] at hb
  split at hb
  · simp only [List.mem_cons, List.not_mem_nil, or_false] at hb
    rcases hb with rfl | rfl <;> rw [UInt8.toNat_ofNat'] <;> omega
  · split at hb
    · simp only [List.mem_cons, List.not_mem_nil, or_false] at hb
      rcases hb with rfl | rfl | rfl <;> rw [UInt8.toNat_ofNat'] <;> omega
    · simp only [List.mem_cons, List.not_mem_nil, or_false] at hb
      rcases hb with rfl | rfl | rfl | rfl <;> rw [UInt8.toNat_ofNat'] <;> omega

end Utf8

open Utf8

/-! ## Strings -/

/-- Bytes below 128 are escaped by such bytes, and the others are left alone. -/
theorem escapeByte_ascii {c : UInt8} (hc : c.toNat < 128) : ∀ b ∈ escapeByte c, b.toNat < 128 := by
  have hall : ∀ n < 128, ∀ b ∈ escapeByte (UInt8.ofNat n), b.toNat < 128 := by decide +kernel
  have h := hall c.toNat hc
  rwa [UInt8.ofNat_toNat] at h

theorem escapeByte_high {c : UInt8} (hc : 128 ≤ c.toNat) : escapeByte c = [c] := by
  have hall : ∀ n < 256, 128 ≤ n → escapeByte (UInt8.ofNat n) = [UInt8.ofNat n] := by decide +kernel
  have h := hall c.toNat c.toNat_lt hc
  rwa [UInt8.ofNat_toNat] at h

theorem valid_escape (cs : List Char) : Valid ((encode cs).flatMap escapeByte) := by
  induction cs with
  | nil => exact .nil
  | cons c cs ih =>
      rw [encode_cons, List.flatMap_append]
      refine Valid.append ?_ ih
      by_cases hc : c.toNat < 128
      · rw [utf8EncodeChar_ascii hc, List.flatMap_singleton]
        exact valid_ascii (escapeByte_ascii (by rw [UInt8.toNat_ofNat']; omega))
      · have hsame : (String.utf8EncodeChar c).flatMap escapeByte = String.utf8EncodeChar c := by
          have hcong : ∀ b ∈ String.utf8EncodeChar c, escapeByte b = [b] :=
            fun b hb => escapeByte_high (le_of_mem_utf8EncodeChar (Nat.not_lt.mp hc) hb)
          rw [List.flatMap_congr hcong, List.flatMap_singleton']
        rw [hsame]
        exact ⟨[c], by simp⟩

theorem valid_serializeString {s : Bytes} (hs : Valid s) : Valid (jsonSerializeString s) := by
  obtain ⟨cs, rfl⟩ := hs
  have hquote : (ch '"').toNat < 128 := by decide
  exact .cons hquote ((valid_escape cs).append (.cons hquote .nil))

theorem valid_digits (n : Int) : Valid (digits n) := by
  refine valid_ascii fun c hc => ?_
  have hdigit : ∀ {c : UInt8}, isDigit c = true → c.toNat < 128 := by
    intro c hc
    have hle := (Bool.and_eq_true _ _).mp hc
    have hle : c ≤ ch '9' := of_decide_eq_true hle.2
    exact Nat.lt_of_le_of_lt (UInt8.le_iff_toNat_le.mp hle) (by decide)
  unfold digits at hc
  split at hc
  · rcases List.mem_cons.mp hc with rfl | hc
    · decide
    · exact hdigit (isDigit_of_mem hc)
  · exact hdigit (isDigit_of_mem hc)

/-! ## Values -/

mutual

/-- Names and strings are valid UTF-8. -/
def Json.Encoded : Json → Prop
  | .str s => Valid s
  | .arr vs => EncodedItems vs
  | .obj ms => EncodedMembers ms
  | _ => True

def EncodedItems : List Json → Prop
  | [] => True
  | v :: vs => v.Encoded ∧ EncodedItems vs

def EncodedMembers : List (Bytes × Json) → Prop
  | [] => True
  | (k, v) :: ms => Valid k ∧ v.Encoded ∧ EncodedMembers ms

end

mutual

/-- The text of such a value is valid UTF-8. -/
theorem valid_serialize : ∀ j : Json, j.Encoded → Valid (jsonSerialize j)
  | .null, _ => by rw [jsonSerialize]; exact valid_ascii (by decide +kernel)
  | .bool b, _ => by
      rw [jsonSerialize]
      exact valid_ascii (by cases b <;> decide +kernel)
  | .num n, _ => by rw [jsonSerialize]; exact valid_digits n
  | .str s, h => by
      rw [jsonSerialize]
      exact valid_serializeString (by simpa only [Json.Encoded] using h)
  | .arr vs, h => by
      rw [jsonSerialize]
      exact .cons (by decide) (valid_serializeItems vs (by simpa only [Json.Encoded] using h))
  | .obj ms, h => by
      rw [jsonSerialize]
      exact .cons (by decide) (valid_serializeMembers ms (by simpa only [Json.Encoded] using h))

theorem valid_serializeItems : ∀ vs : List Json, EncodedItems vs → Valid (serializeItems vs)
  | [], _ => by rw [serializeItems]; exact valid_ascii (by decide +kernel)
  | [v], h => by
      rw [EncodedItems] at h
      rw [serializeItems]
      exact (valid_serialize v h.1).append (valid_ascii (by decide +kernel))
  | v :: w :: vs, h => by
      rw [EncodedItems] at h
      rw [serializeItems]
      exact (valid_serialize v h.1).append (.cons (by decide) (valid_serializeItems (w :: vs) h.2))

theorem valid_serializeMembers : ∀ ms : List (Bytes × Json), EncodedMembers ms → Valid (serializeMembers ms)
  | [], _ => by rw [serializeMembers]; exact valid_ascii (by decide +kernel)
  | [(k, v)], h => by
      rw [EncodedMembers] at h
      rw [serializeMembers]
      exact (valid_serializeString h.1).append
        (.cons (by decide) ((valid_serialize v h.2.1).append (valid_ascii (by decide +kernel))))
  | (k, v) :: m :: ms, h => by
      rw [EncodedMembers] at h
      rw [serializeMembers]
      exact (valid_serializeString h.1).append
        (.cons (by decide) ((valid_serialize v h.2.1).append (.cons (by decide) (valid_serializeMembers (m :: ms) h.2.2))))

end

/-! ## Objects that were built -/

theorem encodedMembers_iff {ms : JsonObject} : EncodedMembers ms ↔ ∀ m ∈ ms, Valid m.1 ∧ m.2.Encoded := by
  induction ms with
  | nil => simp [EncodedMembers]
  | cons m ms ih =>
      obtain ⟨k, v⟩ := m
      simp only [EncodedMembers, ih, List.forall_mem_cons, and_assoc]

theorem setValue_encoded {o : JsonObject} {name : Bytes} {v : Json} (ho : EncodedMembers o) (hname : Valid name)
    (hv : v.Encoded) : EncodedMembers (jsonObjectSetValue o name v) := by
  rw [encodedMembers_iff] at ho ⊢
  intro m hm
  rcases mem_setValue hm with rfl | hm
  · exact ⟨hname, hv⟩
  · exact ho m hm

theorem dotset_encoded {p : JsonPath} (hp : ∀ k ∈ p, Valid k) {v : Json} (hv : v.Encoded) :
    ∀ {o : JsonObject}, EncodedMembers o → EncodedMembers (jsonObjectDotsetValue o p v) := by
  induction p with
  | nil => exact fun ho => ho
  | cons k p ih =>
      intro o ho
      have hk : Valid k := hp k (by simp)
      cases p with
      | nil => exact setValue_encoded ho hk hv
      | cons j p =>
          have hobj : ∀ {ms}, EncodedMembers ms → (Json.obj ms).Encoded := fun h => by rw [Json.Encoded]; exact h
          have hp' : ∀ i ∈ j :: p, Valid i := fun i hi => hp i (by simp [hi])
          rw [dotsetValue_cons _ _ (List.cons_ne_nil j p)]
          split
          · next ms hms =>
              have hms' := (encodedMembers_iff.mp ho _ (mem_of_getValue hms)).2
              rw [Json.Encoded] at hms'
              exact setValue_encoded ho hk (hobj (ih hp' hms'))
          · exact setValue_encoded ho hk (hobj (ih hp' (by rw [EncodedMembers]; trivial)))
          · exact ho

/-- The text of an object that was built from valid UTF-8 is valid UTF-8. -/
theorem valid_build {A : List (JsonPath × Json)} (h : ∀ a ∈ A, (∀ k ∈ a.1, Valid k) ∧ a.2.Encoded) :
    Valid (jsonSerialize (.obj (build A []))) := by
  have hbuild : ∀ (B : List (JsonPath × Json)) (o : JsonObject), (∀ b ∈ B, b ∈ A) → EncodedMembers o →
      EncodedMembers (build B o) := by
    intro B
    induction B with
    | nil => exact fun o _ ho => ho
    | cons b B ih =>
        intro o hB ho
        have hb := h b (hB b (by simp))
        exact ih _ (fun c hc => hB c (by simp [hc])) (dotset_encoded hb.1 hb.2 ho)
  refine valid_serialize _ ?_
  rw [Json.Encoded]
  exact hbuild A [] (fun _ hb => hb) (by rw [EncodedMembers]; trivial)

end CoEditor
