-- SUMMARY: The rope interface the buffer is written against, with the laws rope.h documents.
import CoEditor.Lib.Utf8
import Mathlib.Data.List.TakeWhile

/-!
# Ropes

Lines are kept in ropes of an external library of which only the header is at
hand. `Rope` collects the operations the buffer calls and what the header says
about them. `chars` is the text a rope holds; no operation returns it. The
position laws stop at the end of the text: what an insertion past the end does
is not documented.
-/

namespace CoEditor

/-- The rope operations of `rope.h`, and their documented behaviour in terms of the held text. -/
class Rope (R : Type) where
  new : R
  copy : R → R
  charCount : R → Nat
  /-- The bytes written by `rope_write_cstr`, without the trailing `NUL`. -/
  writeCstr : R → Bytes
  insert : R → Nat → Bytes → R
  del : R → Nat → Nat → R
  chars : R → List Char
  /-- Every string that comes in is a C string. -/
  noNul (r : R) : '\x00' ∉ chars r
  chars_new : chars new = []
  chars_copy (r : R) : chars (copy r) = chars r
  charCount_eq (r : R) : charCount r = (chars r).length
  writeCstr_eq (r : R) : writeCstr r = Utf8.encode (chars r)
  /-- Inserting valid UTF-8 at a position of the text. -/
  chars_insert (r : R) (pos : Nat) (cs : List Char) :
    pos ≤ (chars r).length → (0 : UInt8) ∉ Utf8.encode cs →
      chars (insert r pos (Utf8.encode cs)) = (chars r).take pos ++ cs ++ (chars r).drop pos
  /-- "If you try to insert data into the rope with an invalid UTF8 encoding, nothing will happen." -/
  chars_insert_invalid (r : R) (pos : Nat) (s : Bytes) :
    (0 : UInt8) ∉ s → (∀ cs, s ≠ Utf8.encode cs) → chars (insert r pos s) = chars r
  /-- "Deleting past the end of the string has no effect." -/
  chars_del (r : R) (pos num : Nat) :
    chars (del r pos num) = (chars r).take pos ++ (chars r).drop (pos + num)

attribute [simp] Rope.chars_new Rope.chars_copy Rope.charCount_eq Rope.writeCstr_eq Rope.chars_del

namespace Rope

variable {R : Type} [Rope R]

/-- Inserting the empty string changes nothing. -/
theorem chars_insert_nil (r : R) {pos : Nat} (hpos : pos ≤ (chars r).length) :
    chars (insert r pos []) = chars r := by
  have h := chars_insert r pos [] hpos (by simp)
  simpa using h

end Rope

/-! ## A rope made of its text -/

/-- The rope that is just its text: every operation is the list operation it documents. -/
structure ListRope where
  chars : List Char
  noNul : '\x00' ∉ chars
deriving DecidableEq, Repr

namespace ListRope

/-- The bytes of a C string up to its `NUL`. -/
def cstr (s : Bytes) : Bytes := s.takeWhile (· ≠ 0)

theorem cstr_of_notMem {s : Bytes} (h : (0 : UInt8) ∉ s) : cstr s = s := by
  rw [cstr, List.takeWhile_eq_self_iff]
  intro x hx
  simp only [decide_eq_true_eq]
  rintro rfl
  exact h hx

theorem noNul_of_decode {s : Bytes} {cs : List Char} (h : Utf8.decode (cstr s) = some cs) : '\x00' ∉ cs := by
  rw [← Utf8.zero_mem_encode, Utf8.encode_decode h, cstr]
  intro hmem
  simpa using List.mem_takeWhile_imp hmem

/-- Replace the text from `pos` to `next` by `cs`. -/
def splice (r : ListRope) (pos next : Nat) (cs : List Char) (h : '\x00' ∉ cs) : ListRope where
  chars := r.chars.take pos ++ cs ++ r.chars.drop next
  noNul := by
    simp only [List.mem_append, not_or]
    exact ⟨⟨fun hm => r.noNul (List.mem_of_mem_take hm), h⟩, fun hm => r.noNul (List.mem_of_mem_drop hm)⟩

def insert (r : ListRope) (pos : Nat) (s : Bytes) : ListRope :=
  match h : Utf8.decode (cstr s) with
  | none => r
  | some cs => r.splice pos pos cs (noNul_of_decode h)

theorem insert_of_decode (r : ListRope) (pos : Nat) {s : Bytes} {cs : List Char}
    (h : Utf8.decode (cstr s) = some cs) :
    (r.insert pos s).chars = r.chars.take pos ++ cs ++ r.chars.drop pos := by
  unfold insert
  split
  · next hnone => rw [h] at hnone; cases hnone
  · next cs' hcs' =>
      obtain rfl := Option.some.inj (h.symm.trans hcs')
      rfl

theorem insert_of_invalid (r : ListRope) (pos : Nat) {s : Bytes} (h : Utf8.decode (cstr s) = none) :
    r.insert pos s = r := by
  unfold insert
  split
  · rfl
  · next cs' hcs' => rw [h] at hcs'; cases hcs'

theorem decode_eq_none {s : Bytes} (h : ∀ cs, s ≠ Utf8.encode cs) : Utf8.decode s = none := by
  cases hd : Utf8.decode s with
  | none => rfl
  | some cs => exact absurd (Utf8.encode_decode hd).symm (h cs)

instance : Rope ListRope where
  new := ⟨[], by simp⟩
  copy r := r
  charCount r := r.chars.length
  writeCstr r := Utf8.encode r.chars
  insert := insert
  del r pos num := r.splice pos (pos + num) [] (by simp)
  chars := chars
  noNul := noNul
  chars_new := rfl
  chars_copy _ := rfl
  charCount_eq _ := rfl
  writeCstr_eq _ := rfl
  chars_insert r pos cs _ h := insert_of_decode r pos (by rw [cstr_of_notMem h, Utf8.decode_encode])
  chars_insert_invalid r pos s h0 h := by
    rw [insert_of_invalid r pos (by rw [cstr_of_notMem h0, decode_eq_none h])]
  chars_del r pos num := by simp [splice]

end ListRope

end CoEditor
