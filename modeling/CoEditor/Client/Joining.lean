-- SUMMARY: A snapshot arrives at a client as the worker took it, a text within the text of a message.
import CoEditor.Client.Defs
import CoEditor.Parson.Encoding

/-!
# Joining

A client that asks for a file is sent a snapshot of the buffer, and starts with
the buffer it reads from it. The snapshot is a JSON text, and it travels as a
string in the JSON text of `FILE_RESPONSE`.
-/

namespace CoEditor

open Decimal

variable {R : Type} [Rope R]

/-! ## The text of a snapshot -/

/-- The names of the path and the strings of the value are valid UTF-8. -/
def Encodes (a : JsonPath × Json) : Prop := (∀ k ∈ a.1, Utf8.Valid k) ∧ a.2.Encoded

theorem encodes_num {path : JsonPath} {n : Int} (hpath : ∀ k ∈ path, Utf8.Valid k) : Encodes (path, .num n) :=
  ⟨hpath, by simp [Json.Encoded]⟩

theorem encodes_words {path : JsonPath} {n : Int} (hpath : ∀ k ∈ path, ∀ c ∈ k, c.toNat < 128) : Encodes (path, .num n) :=
  encodes_num fun k hk => Utf8.valid_ascii (hpath k hk)

theorem valid_field {k name : Bytes} {id : Int} (hk : ∀ c ∈ k, c.toNat < 128) (hname : ∀ c ∈ name, c.toNat < 128) :
    ∀ j ∈ [k, digits id, name], Utf8.Valid j := by
  intro j hj
  simp only [List.mem_cons, List.not_mem_nil, or_false] at hj
  rcases hj with rfl | rfl | rfl
  · exact Utf8.valid_ascii hk
  · exact valid_digits id
  · exact Utf8.valid_ascii hname

theorem valid_writeCstr (r : R) : Utf8.Valid (Rope.writeCstr r) := ⟨_, (Rope.writeCstr_eq r).symm⟩

theorem Page.entries_encodes (p : Page R) {a : JsonPath × Json} (ha : a ∈ p.entries) : Encodes a := by
  simp only [entries, List.mem_append] at ha
  rcases ha with ((ha | ha) | ha) | ha
  · simp only [attrEntries, List.mem_cons, List.not_mem_nil, or_false] at ha
    rcases ha with rfl | rfl | rfl | rfl | rfl | rfl | rfl | rfl | rfl | rfl <;> exact encodes_words (by decide +kernel)
  · obtain ⟨k, -, ha⟩ := List.mem_flatMap.mp ha
    simp only [rowEntries, nextEntries, prevEntries, List.mem_append, List.mem_singleton] at ha
    rcases ha with (ha | ha) | rfl
    · split at ha
      · obtain rfl := List.mem_singleton.mp ha
        exact encodes_num (valid_field (by decide +kernel) (by decide +kernel))
      · cases ha
    · split at ha
      · cases ha
      · obtain rfl := List.mem_singleton.mp ha
        exact encodes_num (valid_field (by decide +kernel) (by decide +kernel))
    · refine ⟨valid_field (by decide +kernel) (by decide +kernel), ?_⟩
      rw [Json.Encoded]
      exact valid_writeCstr _
  · simp only [ownEntries, List.mem_cons, List.not_mem_nil, or_false] at ha
    rcases ha with rfl | rfl | rfl <;> exact encodes_words (by decide +kernel)
  · obtain ⟨o, -, ha⟩ := List.mem_flatMap.mp ha
    cases o with
    | none => cases ha
    | some c =>
        simp only [peerEntries, List.mem_cons, List.not_mem_nil, or_false] at ha
        rcases ha with rfl | rfl <;> exact encodes_num (valid_field (by decide +kernel) (by decide +kernel))

/-- A snapshot can be the payload of a message. -/
theorem Reached.sendable {ok : Buffer R → Op → Prop} {b : Buffer R} (hb : Reached ok b) {s : Bytes}
    (hs : bufferSerialize b = .ok s) (type : MsgType) (userId fileId fileVersion : Int) :
    (createMsg type userId fileId fileVersion (some s)).Sendable := by
  obtain ⟨d, p, hrep, hsound, -⟩ := hb.sound
  have htext := hrep.bufferSerialize hsound.toGood.slots (hrep.fits hs)
  obtain rfl := Except.ok.inj (hs.symm.trans htext)
  intro pl hpl
  obtain rfl := Option.some.inj hpl
  exact ⟨zero_notMem_serialize _, Utf8.valid_iff.mp (valid_build fun a ha => p.entries_encodes ha)⟩

end CoEditor
