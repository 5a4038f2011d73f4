-- SUMMARY: What parson prints it parses back, whatever comes after it.
import Mathlib.Data.List.TakeDrop
import Mathlib.Data.List.TakeWhile
import CoEditor.Parson.Text

/-!
# Printing and parsing

`jsonParseString` inverts `jsonSerialize` on values that could be built: names
are distinct within an object, strings contain no `NUL`, and the nesting is not
too deep.
-/

namespace CoEditor

open Decimal

/-! ## Strings -/

/-- How a byte is escaped. -/
theorem escapeByte_cases (c : UInt8) :
    (∃ d, escapeByte c = [ch '\\', d] ∧ d ≠ ch 'u' ∧ unescape d = some c) ∨
      (escapeByte c = bytes "\\u00" ++ [hexDigit (c.toNat / 16), hexDigit (c.toNat % 16)] ∧ c < 32) ∨
      escapeByte c = [c] ∧ c ≠ ch '"' ∧ c ≠ ch '\\' ∧ ¬ c < 32 := by
  unfold escapeByte
  split
  · next h => exact .inl ⟨ch '"', rfl, by decide, by subst h; decide⟩
  split
  · next h => exact .inl ⟨ch '\\', rfl, by decide, by subst h; decide⟩
  split
  · next h => exact .inl ⟨ch '/', rfl, by decide, by subst h; decide⟩
  split
  · next h => exact .inl ⟨ch 'b', rfl, by decide, by subst h; decide⟩
  split
  · next h => exact .inl ⟨ch 'f', rfl, by decide, by subst h; decide⟩
  split
  · next h => exact .inl ⟨ch 'n', rfl, by decide, by subst h; decide⟩
  split
  · next h => exact .inl ⟨ch 'r', rfl, by decide, by subst h; decide⟩
  split
  · next h => exact .inl ⟨ch 't', rfl, by decide, by subst h; decide⟩
  split
  · next h => exact .inr (.inl ⟨rfl, h⟩)
  · next h₁ h₂ _ _ _ _ _ _ h₃ => exact .inr (.inr ⟨rfl, h₁, h₂, h₃⟩)

theorem skipQuotes_cons {c : UInt8} (hq : c ≠ ch '"') (hb : c ≠ ch '\\') (s : Bytes) :
    skipQuotes (c :: s) = (skipQuotes s).map fun r => (c :: r.1, r.2) := by
  cases s with
  | nil => simp [skipQuotes, hq]
  | cons d s => simp [skipQuotes, hq, hb]

theorem skipQuotes_escape (d : UInt8) (s : Bytes) :
    skipQuotes (ch '\\' :: d :: s) = (skipQuotes s).map fun r => (ch '\\' :: d :: r.1, r.2) := by
  rw [skipQuotes, if_neg (by decide), if_pos rfl]

theorem skipQuotes_quote (s : Bytes) : skipQuotes (ch '"' :: s) = some ([], s) := by
  cases s with
  | nil => rfl
  | cons d s => rw [skipQuotes, if_pos rfl]

theorem hexDigit_spec : ∀ n < 16, hexDigit n ≠ ch '"' ∧ hexDigit n ≠ ch '\\' ∧
    hexCharToInt (hexDigit n) = some n := by decide

theorem skipQuotes_escapeByte (c : UInt8) (s : Bytes) :
    skipQuotes (escapeByte c ++ s) = (skipQuotes s).map fun r => (escapeByte c ++ r.1, r.2) := by
  rcases escapeByte_cases c with ⟨d, hd, -⟩ | ⟨hu, hlt⟩ | ⟨hc, hq, hb, -⟩
  · rw [hd]
    exact skipQuotes_escape d s
  · have h₁ := hexDigit_spec (c.toNat / 16) (by have := c.toNat_lt; omega)
    have h₂ := hexDigit_spec (c.toNat % 16) (by omega)
    have hz : ∀ t, skipQuotes (ch '0' :: t) = (skipQuotes t).map fun r => (ch '0' :: r.1, r.2) :=
      skipQuotes_cons (by decide) (by decide)
    rw [hu]
    show skipQuotes (ch '\\' :: ch 'u' :: ch '0' :: ch '0' :: _ :: _ :: s) = _
    rw [skipQuotes_escape, hz, hz, skipQuotes_cons h₁.1 h₁.2.1, skipQuotes_cons h₂.1 h₂.2.1]
    cases skipQuotes s <;> rfl
  · rw [hc]
    exact skipQuotes_cons hq hb s

theorem skipQuotes_escaped (s rest : Bytes) :
    skipQuotes (s.flatMap escapeByte ++ ch '"' :: rest) = some (s.flatMap escapeByte, rest) := by
  induction s with
  | nil => exact skipQuotes_quote rest
  | cons c s ih =>
      rw [List.flatMap_cons, List.append_assoc, skipQuotes_escapeByte, ih]
      rfl

/-- An escaped control character is read back. -/
theorem parseUtf16_control {c : UInt8} (hc : c < 32) (s : Bytes) :
    parseUtf16 (ch '0' :: ch '0' :: hexDigit (c.toNat / 16) :: hexDigit (c.toNat % 16) :: s) = some ([c], s) := by
  have hlt : c.toNat < 32 := hc
  have h₁ := (hexDigit_spec (c.toNat / 16) (by omega)).2.2
  have h₂ := (hexDigit_spec (c.toNat % 16) (by omega)).2.2
  have h0 : hexCharToInt (ch '0') = some 0 := rfl
  have hcp : 0 * 4096 + 0 * 256 + c.toNat / 16 * 16 + c.toNat % 16 = c.toNat := by omega
  have hchar : (Char.ofNat c.toNat).toNat = c.toNat := by
    rw [Char.ofNat, dif_pos (Or.inl (by omega))]
    rfl
  simp only [parseUtf16, parseUtf16Hex, h₁, h₂, h0, Option.bind_eq_bind, Option.bind_some, hcp]
  rw [if_pos (by omega), Utf8.utf8EncodeChar_ascii (by omega), hchar]
  simp

theorem processBytes_escape {d e : UInt8} (hu : d ≠ ch 'u') (hun : unescape d = some e) (n : Nat) (s : Bytes) :
    processBytes (n + 1) (ch '\\' :: d :: s) = (processBytes n s).map (e :: ·) := by
  rw [processBytes.eq_def]
  simp only [if_true, if_neg hu, hun, Option.bind_eq_bind, Option.bind_some]

theorem processBytes_utf16 {s t cs : Bytes} (h : parseUtf16 s = some (cs, t)) (n : Nat) :
    processBytes (n + 1) (ch '\\' :: ch 'u' :: s) = (processBytes n t).map (cs ++ ·) := by
  rw [processBytes.eq_def]
  simp only [if_true, h, Option.bind_eq_bind, Option.bind_some]

theorem processBytes_plain {c : UInt8} (hb : c ≠ ch '\\') (hge : ¬ c < 32) (n : Nat) (s : Bytes) :
    processBytes (n + 1) (c :: s) = (processBytes n s).map (c :: ·) := by
  rw [processBytes.eq_def]
  simp only [if_neg hb, if_neg hge]

theorem processBytes_escaped (s : Bytes) :
    ∀ n, (s.flatMap escapeByte).length ≤ n → processBytes n (s.flatMap escapeByte) = some s := by
  induction s with
  | nil => intro n _; cases n <;> rfl
  | cons c s ih =>
      intro n hn
      rw [List.flatMap_cons] at hn ⊢
      have hpos : n ≠ 0 := by
        rintro rfl
        rcases escapeByte_cases c with ⟨d, hd, -⟩ | ⟨hu, -⟩ | ⟨hc, -⟩
        · simp [hd] at hn
        · rw [hu] at hn
          exact absurd hn (by simp [bytes])
        · simp [hc] at hn
      obtain ⟨m, rfl⟩ : ∃ m, n = m + 1 := ⟨n - 1, by omega⟩
      rcases escapeByte_cases c with ⟨d, hd, hu, hun⟩ | ⟨hu, hlt⟩ | ⟨hc, hq, hb, hge⟩
      · rw [hd] at hn ⊢
        simp only [List.cons_append, List.nil_append, List.length_cons] at hn ⊢
        rw [processBytes_escape hu hun, ih m (by omega)]
        rfl
      · rw [hu] at hn ⊢
        have hlen : (bytes "\\u00").length = 4 := rfl
        simp only [List.length_append, List.length_cons, List.length_nil, hlen] at hn
        show processBytes (m + 1) (ch '\\' :: ch 'u' :: ch '0' :: ch '0' :: _ :: _ :: s.flatMap escapeByte) = _
        rw [processBytes_utf16 (parseUtf16_control hlt _), ih m (by omega)]
        rfl
      · rw [hc] at hn ⊢
        simp only [List.cons_append, List.nil_append, List.length_cons] at hn ⊢
        rw [processBytes_plain hb hge, ih m (by omega)]
        rfl

theorem getQuotedString_serialize {s : Bytes} (hs : (0 : UInt8) ∉ s) (rest : Bytes) :
    getQuotedString (jsonSerializeString s ++ rest) = some (s, rest) := by
  have htake : s.takeWhile (· ≠ 0) = s := by
    rw [List.takeWhile_eq_self_iff]
    intro c hc
    simpa using fun h : c = 0 => hs (h ▸ hc)
  have hproc : processString (s.flatMap escapeByte) = some s := by
    rw [processString, processBytes_escaped s _ (Nat.le_refl _), Option.map_some, htake]
  rw [jsonSerializeString, List.cons_append, List.append_assoc, getQuotedString, if_pos rfl,
    List.singleton_append, skipQuotes_escaped]
  simp only [Option.bind_eq_bind, Option.bind_some, hproc]

/-! ## Numbers -/

/-- What comes after a number in an object or an array. -/
def Stops (s : Bytes) : Prop := ∀ c t, s = c :: t → c = ch ',' ∨ c = ch '}' ∨ c = ch ']'

theorem Stops.head {P : UInt8 → Prop} {c : UInt8} {t : Bytes} (h : Stops (c :: t))
    (hP : P (ch ',') ∧ P (ch '}') ∧ P (ch ']')) : P c := by
  rcases h c t rfl with rfl | rfl | rfl
  · exact hP.1
  · exact hP.2.1
  · exact hP.2.2

theorem stops_comma (s : Bytes) : Stops (ch ',' :: s) := fun _ _ h => .inl (List.cons.inj h).1.symm
theorem stops_brace (s : Bytes) : Stops (ch '}' :: s) := fun _ _ h => .inr (.inl (List.cons.inj h).1.symm)
theorem stops_bracket (s : Bytes) : Stops (ch ']' :: s) := fun _ _ h => .inr (.inr (List.cons.inj h).1.symm)

theorem span_digits (n : Nat) {rest : Bytes} (hrest : Stops rest) :
    (natDigits n ++ rest).span isDigit = (natDigits n, rest) := by
  have hstop : rest.takeWhile isDigit = [] ∧ rest.dropWhile isDigit = rest := by
    cases rest with
    | nil => exact ⟨rfl, rfl⟩
    | cons c t =>
        have hc : ¬ isDigit c = true := hrest.head (P := fun c => ¬ isDigit c = true) (by decide)
        simp [hc]
  rw [List.span_eq_takeWhile_dropWhile, List.takeWhile_append_of_pos fun _ => isDigit_of_mem,
    List.dropWhile_append_of_pos fun _ => isDigit_of_mem, hstop.1, hstop.2, List.append_nil]

theorem splitSign_digits (n : Int) (rest : Bytes) :
    splitSign (digits n ++ rest) = (decide (n < 0), natDigits n.natAbs ++ rest) := by
  obtain ⟨d, ds, hd⟩ := List.exists_cons_of_ne_nil (natDigits_ne_nil n.natAbs)
  have hdigit : isDigit d = true := isDigit_of_mem (n := n.natAbs) (by rw [hd]; simp)
  have hminus : d ≠ ch '-' := by
    rintro rfl
    exact absurd hdigit (by decide)
  have hplus : d ≠ ch '+' := by
    rintro rfl
    exact absurd hdigit (by decide)
  unfold digits
  split
  · next h => simp [splitSign, h]
  · next h => simp [splitSign, hd, hminus, hplus, h]

theorem strtod_digits (n : Int) {rest : Bytes} (hrest : Stops rest) : strtod (digits n ++ rest) = (some n, rest) := by
  have hfrac : splitFraction (natDigits n.natAbs) rest = ([], rest) := by
    cases rest with
    | nil => rfl
    | cons c t => rw [splitFraction, if_neg (hrest.head (P := fun c => ¬ c = ch '.') (by decide))]
  have hexp : splitExponent rest = (0, rest) := by
    cases rest with
    | nil => rfl
    | cons c t =>
        rw [splitExponent, if_neg (hrest.head (P := fun c => ¬ (c = ch 'e' ∨ c = ch 'E')) (by decide))]
  simp only [strtod, splitSign_digits, span_digits _ hrest, hfrac, hexp, natDigits_ne_nil, false_and, if_false,
    List.append_nil, ofDigits_natDigits, List.length_nil]
  have hsign : (if n < 0 then -(n.natAbs : Int) else n.natAbs) = n := by
    split <;> omega
  simp only [Int.natCast_zero, Int.sub_zero, scaled, if_true, Option.map_some, decide_eq_true_eq, hsign]

theorem isDecimal_digits (n : Int) : isDecimal (digits n) = true := by
  obtain ⟨d, ds, hd⟩ := List.exists_cons_of_ne_nil (natDigits_ne_nil n.natAbs)
  have hdigit : isDigit d = true := isDigit_of_mem (n := n.natAbs) (by rw [hd]; simp)
  have hminus : d ≠ ch '-' := by
    rintro rfl
    exact absurd hdigit (by decide)
  have hzero : d = ch '0' → ds = [] := by
    rintro rfl
    have h0 := natDigits_head hd
    rw [h0] at hd
    exact (List.cons.inj (show ch '0' :: [] = ch '0' :: ds from hd)).2.symm
  unfold digits
  split
  · rw [hd]
    by_cases h0 : d = ch '0'
    · simp [isDecimal, hzero h0, show ch '-' ≠ ch '0' by decide]
    · simp [isDecimal, h0, show ch '-' ≠ ch '0' by decide]
  · rw [hd]
    cases ds with
    | nil => rfl
    | cons e ds =>
        have h0 : d ≠ ch '0' := fun h => absurd (hzero h) (List.cons_ne_nil e ds)
        simp [isDecimal, h0, hminus]

theorem lowerCase_digit {c : UInt8} (h : isDigit c = true) : lowerCase c = c := by
  simp only [isDigit, Bool.and_eq_true, decide_eq_true_eq] at h
  rw [lowerCase, if_neg]
  exact fun hA => absurd (UInt8.le_trans hA.1 h.2) (by decide)

theorem isSpecial_digits (n : Int) {rest : Bytes} (hrest : Stops rest) : isSpecial (digits n ++ rest) = false := by
  obtain ⟨d, ds, hd⟩ := List.exists_cons_of_ne_nil (natDigits_ne_nil n.natAbs)
  have hdigit : ∀ c ∈ d :: ds, isDigit c = true := fun c hc => isDigit_of_mem (n := n.natAbs) (hd ▸ hc)
  have hlow := lowerCase_digit (hdigit d (by simp))
  rw [isSpecial, splitSign_digits, hd]
  split
  · next a b c t heq =>
      obtain ⟨rfl, htail⟩ : d = a ∧ ds ++ rest = b :: c :: t := List.cons.inj heq
      have hx : lowerCase b ≠ ch 'x' := by
        cases ds with
        | nil =>
            obtain rfl : rest = b :: c :: t := htail
            exact hrest.head (P := fun c => lowerCase c ≠ ch 'x') (by decide)
        | cons e ds =>
            obtain ⟨rfl, -⟩ : e = b ∧ ds ++ rest = c :: t := List.cons.inj htail
            have he := hdigit e (by simp)
            rw [lowerCase_digit he]
            rintro rfl
            exact absurd he (by decide)
      have hi : ∀ w : String, (bytes w).head?.any (isDigit · = false) →
          [lowerCase d, lowerCase b, lowerCase c] ≠ bytes w := by
        intro w hw heq
        rw [← heq] at hw
        simp [hlow, hdigit d (by simp)] at hw
      simp [hi "inf" (by decide), hi "nan" (by decide), hx]
  · rfl

theorem parseNumberValue_digits (n : Int) {rest : Bytes} (hrest : Stops rest) :
    parseNumberValue (digits n ++ rest) = some (.num n, rest) := by
  have htake : (digits n ++ rest).take ((digits n ++ rest).length - rest.length) = digits n := by
    rw [List.length_append, Nat.add_sub_cancel, List.take_left]
  simp only [parseNumberValue, isSpecial_digits n hrest, strtod_digits n hrest, htake, isDecimal_digits,
    Bool.false_eq_true, if_false, if_true, Option.map_some]

/-! ## Values -/

mutual

/-- How deep a value is nested. -/
def Json.depth : Json → Nat
  | .arr vs => depthItems vs + 1
  | .obj ms => depthMembers ms + 1
  | _ => 0

def depthItems : List Json → Nat
  | [] => 0
  | v :: vs => max v.depth (depthItems vs)

def depthMembers : List (Bytes × Json) → Nat
  | [] => 0
  | (_, v) :: ms => max v.depth (depthMembers ms)

end

mutual

/-- How many arrays and objects the innermost value is in. -/
def Json.levels : Json → Nat
  | .arr vs => levelsItems vs
  | .obj ms => levelsMembers ms
  | _ => 0

def levelsItems : List Json → Nat
  | [] => 0
  | v :: vs => max (v.levels + 1) (levelsItems vs)

def levelsMembers : List (Bytes × Json) → Nat
  | [] => 0
  | (_, v) :: ms => max (v.levels + 1) (levelsMembers ms)

end

mutual

theorem Json.levels_le_depth : ∀ j : Json, j.levels ≤ j.depth
  | .null | .bool _ | .num _ | .str _ => by simp only [Json.levels, Json.depth, Nat.le_refl]
  | .arr vs => by
      rw [Json.levels, Json.depth]
      exact levelsItems_le_depth vs
  | .obj ms => by
      rw [Json.levels, Json.depth]
      exact levelsMembers_le_depth ms

theorem levelsItems_le_depth : ∀ vs : List Json, levelsItems vs ≤ depthItems vs + 1
  | [] => Nat.zero_le _
  | v :: vs => by
      have hv := v.levels_le_depth
      have hvs := levelsItems_le_depth vs
      rw [levelsItems, depthItems]
      omega

theorem levelsMembers_le_depth : ∀ ms : List (Bytes × Json), levelsMembers ms ≤ depthMembers ms + 1
  | [] => Nat.zero_le _
  | (k, v) :: ms => by
      have hv := v.levels_le_depth
      have hms := levelsMembers_le_depth ms
      rw [levelsMembers, depthMembers]
      omega

end

mutual

/-- Names are distinct within an object, and strings contain no `NUL`. -/
def Json.Ok : Json → Prop
  | .str s => (0 : UInt8) ∉ s
  | .arr vs => OkItems vs
  | .obj ms => (ms.map Prod.fst).Nodup ∧ OkMembers ms
  | _ => True

def OkItems : List Json → Prop
  | [] => True
  | v :: vs => v.Ok ∧ OkItems vs

def OkMembers : List (Bytes × Json) → Prop
  | [] => True
  | (k, v) :: ms => (0 : UInt8) ∉ k ∧ v.Ok ∧ OkMembers ms

end

mutual

/-- No number has more bits than a double. -/
def Json.Small : Json → Prop
  | .num n => n.natAbs < 2 ^ Format.double.prec
  | .arr vs => SmallItems vs
  | .obj ms => SmallMembers ms
  | _ => True

def SmallItems : List Json → Prop
  | [] => True
  | v :: vs => v.Small ∧ SmallItems vs

def SmallMembers : List (Bytes × Json) → Prop
  | [] => True
  | (_, v) :: ms => v.Small ∧ SmallMembers ms

end

theorem skipWhitespaces_cons {c : UInt8} (hc : isSpace c = false) (s : Bytes) :
    skipWhitespaces (c :: s) = c :: s := by
  simp [skipWhitespaces, hc]

theorem parseWord_self (w : Bytes) (v : Json) (rest : Bytes) : parseWord w v (w ++ rest) = some (v, rest) := by
  simp [parseWord]

theorem digits_head (n : Int) : ∃ c t, digits n = c :: t ∧ (c = ch '-' ∨ isDigit c = true) := by
  obtain ⟨d, ds, hd⟩ := List.exists_cons_of_ne_nil (natDigits_ne_nil n.natAbs)
  have hdigit : isDigit d = true := isDigit_of_mem (n := n.natAbs) (by rw [hd]; simp)
  unfold digits
  split
  · exact ⟨_, _, rfl, .inl rfl⟩
  · exact ⟨d, ds, hd, .inr hdigit⟩

/-- The first byte of a value is not a blank, and tells that a number follows. -/
theorem number_head {c : UInt8} (h : c = ch '-' ∨ isDigit c = true) :
    isSpace c = false ∧ c ≠ ch '{' ∧ c ≠ ch '[' ∧ c ≠ ch '"' ∧ c ≠ ch 'f' ∧ c ≠ ch 't' := by
  rcases h with rfl | h
  · decide
  · have hne : ∀ d, isDigit d = false → c ≠ d := by
      rintro d hd rfl
      exact absurd h (by simp [hd])
    refine ⟨?_, hne _ (by decide), hne _ (by decide), hne _ (by decide), hne _ (by decide), hne _ (by decide)⟩
    simp only [isDigit, Bool.and_eq_true, decide_eq_true_eq] at h
    have hsp : ¬ c ≤ 13 := fun hle => absurd (UInt8.le_trans h.1 hle) (by decide)
    simp only [isSpace, hsp, decide_false, Bool.and_false, Bool.or_false, decide_eq_false_iff_not]
    rintro rfl
    exact absurd h.1 (by decide)

theorem jsonSerialize_head (j : Json) (rest : Bytes) :
    ∃ c t, jsonSerialize j ++ rest = c :: t ∧ isSpace c = false ∧ c ≠ ch ']' := by
  cases j with
  | null => exact ⟨_, _, rfl, by decide, by decide⟩
  | bool b => cases b <;> exact ⟨_, _, rfl, by decide, by decide⟩
  | num n =>
      obtain ⟨c, t, hc, h⟩ := digits_head n
      refine ⟨c, t ++ rest, by rw [jsonSerialize, hc]; rfl, (number_head h).1, ?_⟩
      rintro rfl
      exact absurd h (by decide)
  | str s => exact ⟨_, _, rfl, by decide, by decide⟩
  | arr vs => exact ⟨_, _, by rw [jsonSerialize]; rfl, by decide, by decide⟩
  | obj ms => exact ⟨_, _, by rw [jsonSerialize]; rfl, by decide, by decide⟩

theorem parseValue_of_head {fuel nesting : Nat} {c : UInt8} {t : Bytes} (hn : nesting ≤ maxNesting)
    (hc : isSpace c = false) : parseValue (fuel + 1) nesting (c :: t) =
      if c = ch '{' then
        match skipWhitespaces t with
        | [] => none
        | d :: u => if d = ch '}' then some (.obj [], u) else parseMembers fuel (nesting + 1) (d :: u) []
      else if c = ch '[' then
        match skipWhitespaces t with
        | [] => none
        | d :: u => if d = ch ']' then some (.arr [], u) else parseItems fuel (nesting + 1) (d :: u) []
      else if c = ch '"' then (getQuotedString (c :: t)).map fun r => (.str r.1, r.2)
      else if c = ch 'f' then parseWord (bytes "false") (.bool false) (c :: t)
      else if c = ch 't' then parseWord (bytes "true") (.bool true) (c :: t)
      else if c = ch '-' ∨ isDigit c then parseNumberValue (c :: t)
      else if c = ch 'n' then parseWord (bytes "null") .null (c :: t)
      else none := by
  rewrite [parseValue, if_neg (Nat.not_lt.mpr hn), skipWhitespaces_cons hc]
  rfl

/-- One round of the loop over the members, up to what follows the value. -/
theorem parseMembers_step {fuel nesting : Nat} {k s t : Bytes} {v : Json} {us : List (Bytes × Json)} {d : UInt8}
    (hk : (0 : UInt8) ∉ k) (hv : parseValue fuel nesting s = some (v, d :: t))
    (hnew : jsonObjectGetValue us k = none) (hd : isSpace d = false) :
    parseMembers (fuel + 1) nesting (jsonSerializeString k ++ ch ':' :: s) us =
      if d = ch ',' then parseMembers fuel nesting (skipWhitespaces t) (us ++ [(k, v)])
      else if d = ch '}' then some (.obj (us ++ [(k, v)]), t)
      else none := by
  rw [parseMembers, getQuotedString_serialize hk]
  have hcolon := skipWhitespaces_cons (c := ch ':') (by decide) s
  dsimp only [bind, Option.bind]
  simp only [hcolon, if_true, hv, hnew, Option.isSome_none, Bool.false_eq_true, if_false, skipWhitespaces_cons hd]

theorem parseItems_step {fuel nesting : Nat} {s t : Bytes} {v : Json} {us : List Json} {d : UInt8}
    (hv : parseValue fuel nesting s = some (v, d :: t)) (hd : isSpace d = false) :
    parseItems (fuel + 1) nesting s us =
      if d = ch ',' then parseItems fuel nesting (skipWhitespaces t) (us ++ [v])
      else if d = ch ']' then some (.arr (us ++ [v]), t)
      else none := by
  rw [parseItems, hv]
  dsimp only [bind, Option.bind]
  rw [skipWhitespaces_cons hd]

theorem serializeItems_head (v : Json) (vs : List Json) (rest : Bytes) :
    ∃ c t, serializeItems (v :: vs) ++ rest = c :: t ∧ isSpace c = false ∧ c ≠ ch ']' := by
  cases vs with
  | nil =>
      rw [serializeItems, List.append_assoc]
      exact jsonSerialize_head v _
  | cons w vs =>
      rw [serializeItems, List.append_assoc]
      exact jsonSerialize_head v _

theorem serializeMembers_head (m : Bytes × Json) (ms : List (Bytes × Json)) (rest : Bytes) :
    ∃ t, serializeMembers (m :: ms) ++ rest = ch '"' :: t := by
  obtain ⟨k, v⟩ := m
  cases ms with
  | nil => exact ⟨_, by rw [serializeMembers]; rfl⟩
  | cons m ms => exact ⟨_, by rw [serializeMembers]; rfl⟩

theorem getValue_eq_none {us : List (Bytes × Json)} {k : Bytes} (h : k ∉ us.map Prod.fst) :
    jsonObjectGetValue us k = none := by
  rw [jsonObjectGetValue, List.lookup_eq_none_iff]
  intro m hm
  rw [bne_iff_ne]
  rintro rfl
  exact h (List.mem_map_of_mem hm)

theorem jsonSerialize_pos (j : Json) : 0 < (jsonSerialize j).length := by
  obtain ⟨c, t, hc, -⟩ := jsonSerialize_head j []
  rw [List.append_nil] at hc
  rw [hc]
  exact Nat.zero_lt_succ _

theorem parseValue_obj {ms : List (Bytes × Json)} {fuel nesting : Nat} {rest : Bytes} (hn : nesting ≤ maxNesting)
    (h : ms ≠ [] → parseMembers fuel (nesting + 1) (serializeMembers ms ++ rest) [] = some (.obj ms, rest)) :
    parseValue (fuel + 1) nesting (jsonSerialize (.obj ms) ++ rest) = some (.obj ms, rest) := by
  rw [jsonSerialize, List.cons_append, parseValue_of_head hn (by decide), if_pos rfl]
  cases ms with
  | nil =>
      rw [serializeMembers]
      rfl
  | cons m ms =>
      have hmembers := h (List.cons_ne_nil m ms)
      obtain ⟨t, ht⟩ := serializeMembers_head m ms rest
      rw [ht] at hmembers ⊢
      rw [skipWhitespaces_cons (by decide)]
      simp only [if_neg (show ch '"' ≠ ch '}' by decide), hmembers]

mutual

theorem parseValue_serialize : ∀ (j : Json) (fuel nesting : Nat) (rest : Bytes), j.Ok →
    nesting + j.levels ≤ maxNesting → (jsonSerialize j).length ≤ fuel + 1 → Stops rest →
      parseValue (fuel + 1) nesting (jsonSerialize j ++ rest) = some (j, rest)
  | .null, fuel, nesting, rest, _, hn, _, _ => by
      have hword := parseWord_self (bytes "null") .null rest
      rw [jsonSerialize]
      change parseValue (fuel + 1) nesting (ch 'n' :: (bytes "ull" ++ rest)) = _
      rw [parseValue_of_head (Nat.le_of_add_right_le hn) (by decide)]
      exact hword
  | .bool true, fuel, nesting, rest, _, hn, _, _ => by
      have hword := parseWord_self (bytes "true") (.bool true) rest
      rw [jsonSerialize]
      change parseValue (fuel + 1) nesting (ch 't' :: (bytes "rue" ++ rest)) = _
      rw [parseValue_of_head (Nat.le_of_add_right_le hn) (by decide)]
      exact hword
  | .bool false, fuel, nesting, rest, _, hn, _, _ => by
      have hword := parseWord_self (bytes "false") (.bool false) rest
      rw [jsonSerialize]
      change parseValue (fuel + 1) nesting (ch 'f' :: (bytes "alse" ++ rest)) = _
      rw [parseValue_of_head (Nat.le_of_add_right_le hn) (by decide)]
      exact hword
  | .num n, fuel, nesting, rest, _, hn, _, hrest => by
      have hparse := parseNumberValue_digits n hrest
      obtain ⟨c, t, hc, h⟩ := digits_head n
      obtain ⟨hsp, h₁, h₂, h₃, h₄, h₅⟩ := number_head h
      rw [jsonSerialize]
      rw [hc, List.cons_append] at hparse ⊢
      rw [parseValue_of_head (Nat.le_of_add_right_le hn) hsp, if_neg h₁, if_neg h₂, if_neg h₃, if_neg h₄, if_neg h₅,
        if_pos h, hparse]
  | .str s, fuel, nesting, rest, hok, hn, _, _ => by
      have hstr := getQuotedString_serialize (s := s) (by simpa [Json.Ok] using hok) rest
      rw [jsonSerialize]
      change parseValue (fuel + 1) nesting (ch '"' :: _) = _
      rw [parseValue_of_head (Nat.le_of_add_right_le hn) (by decide)]
      exact congrArg (Option.map fun r => (Json.str r.1, r.2)) hstr
  | .arr [], fuel, nesting, rest, _, hn, _, _ => by
      rw [jsonSerialize, serializeItems, List.cons_append, parseValue_of_head (Nat.le_of_add_right_le hn) (by decide)]
      rfl
  | .arr (v :: vs), fuel, nesting, rest, hok, hn, hfuel, _ => by
      have hitems := parseItems_serialize (v :: vs) fuel (nesting + 1) rest [] (List.cons_ne_nil v vs)
        (by simpa only [Json.Ok] using hok) (by simp only [Json.levels] at hn; omega)
        (by simp only [jsonSerialize, List.length_cons] at hfuel; omega)
      obtain ⟨c, t, hc, hsp, hbr⟩ := serializeItems_head v vs rest
      rw [jsonSerialize, List.cons_append, parseValue_of_head (Nat.le_of_add_right_le hn) (by decide),
        if_neg (by decide), if_pos rfl]
      rw [hc] at hitems
      rw [hc, skipWhitespaces_cons hsp]
      simp only [if_neg hbr, hitems, List.nil_append]
  | .obj ms, fuel, nesting, rest, hok, hn, hfuel, _ => by
      have hms : (ms.map Prod.fst).Nodup ∧ OkMembers ms := by simpa only [Json.Ok] using hok
      refine parseValue_obj (Nat.le_of_add_right_le hn) fun hne => ?_
      exact parseMembers_serialize ms fuel (nesting + 1) rest [] hne hms.2 hms.1
        (by simp only [Json.levels] at hn; omega) (by simp only [jsonSerialize, List.length_cons] at hfuel; omega)

theorem parseItems_serialize : ∀ (vs : List Json) (fuel nesting : Nat) (rest : Bytes) (us : List Json), vs ≠ [] →
    OkItems vs → nesting + levelsItems vs ≤ maxNesting + 1 → (serializeItems vs).length ≤ fuel →
      parseItems fuel nesting (serializeItems vs ++ rest) us = some (.arr (us ++ vs), rest)
  | [], _, _, _, _, hne, _, _, _ => absurd rfl hne
  | [v], fuel, nesting, rest, us, _, hok, hn, hfuel => by
      obtain ⟨hv, -⟩ : v.Ok ∧ OkItems [] := by simpa only [OkItems] using hok
      simp only [levelsItems] at hn
      simp only [serializeItems, List.length_append, List.length_cons] at hfuel
      have hpos := jsonSerialize_pos v
      obtain ⟨f, rfl⟩ : ∃ f, fuel = f + 2 := ⟨fuel - 2, by omega⟩
      have hvalue := parseValue_serialize v f nesting (ch ']' :: rest) hv (by omega) (by omega) (stops_bracket rest)
      simp only [serializeItems, List.append_assoc, List.cons_append, List.nil_append]
      rw [parseItems_step hvalue (by decide), if_neg (by decide), if_pos rfl]
  | v :: w :: vs, fuel, nesting, rest, us, _, hok, hn, hfuel => by
      obtain ⟨hv, hvs⟩ : v.Ok ∧ OkItems (w :: vs) := by simpa only [OkItems] using hok
      have hn' : nesting + max (v.levels + 1) (levelsItems (w :: vs)) ≤ maxNesting + 1 := by simpa only [levelsItems] using hn
      simp only [serializeItems, List.length_append, List.length_cons] at hfuel
      have hpos := jsonSerialize_pos v
      obtain ⟨f, rfl⟩ : ∃ f, fuel = f + 2 := ⟨fuel - 2, by omega⟩
      have hvalue := parseValue_serialize v f nesting (ch ',' :: (serializeItems (w :: vs) ++ rest)) hv (by omega)
        (by omega) (stops_comma _)
      have hitems := parseItems_serialize (w :: vs) (f + 1) nesting rest (us ++ [v]) (List.cons_ne_nil w vs) hvs
        (by omega) (by omega)
      obtain ⟨c, t, hc, hsp, -⟩ := serializeItems_head w vs rest
      simp only [serializeItems, List.append_assoc, List.cons_append]
      rw [parseItems_step hvalue (by decide), if_pos rfl]
      rw [hc] at hitems ⊢
      rw [skipWhitespaces_cons hsp, hitems, List.append_assoc, List.singleton_append]

theorem parseMembers_serialize : ∀ (ms : List (Bytes × Json)) (fuel nesting : Nat) (rest : Bytes)
    (us : List (Bytes × Json)), ms ≠ [] → OkMembers ms → ((us ++ ms).map Prod.fst).Nodup →
      nesting + levelsMembers ms ≤ maxNesting + 1 → (serializeMembers ms).length ≤ fuel →
        parseMembers fuel nesting (serializeMembers ms ++ rest) us = some (.obj (us ++ ms), rest)
  | [], _, _, _, _, hne, _, _, _, _ => absurd rfl hne
  | [(k, v)], fuel, nesting, rest, us, _, hok, hnodup, hn, hfuel => by
      obtain ⟨hk, hv, -⟩ : (0 : UInt8) ∉ k ∧ v.Ok ∧ OkMembers [] := by simpa only [OkMembers] using hok
      simp only [levelsMembers] at hn
      simp only [serializeMembers, List.length_append, List.length_cons, jsonSerializeString] at hfuel
      obtain ⟨f, rfl⟩ : ∃ f, fuel = f + 2 := ⟨fuel - 2, by omega⟩
      have hvalue := parseValue_serialize v f nesting (ch '}' :: rest) hv (by omega) (by omega) (stops_brace rest)
      have hnew : jsonObjectGetValue us k = none := getValue_eq_none (by grind)
      have hstep := parseMembers_step hk hvalue hnew (by decide)
      simp only [serializeMembers, List.append_assoc, List.cons_append, List.nil_append]
      rw [hstep, if_neg (by decide), if_pos rfl]
  | (k, v) :: m :: ms, fuel, nesting, rest, us, _, hok, hnodup, hn, hfuel => by
      obtain ⟨hk, hv, hms⟩ : (0 : UInt8) ∉ k ∧ v.Ok ∧ OkMembers (m :: ms) := by simpa only [OkMembers] using hok
      have hn' : nesting + max (v.levels + 1) (levelsMembers (m :: ms)) ≤ maxNesting + 1 := by simpa only [levelsMembers] using hn
      simp only [serializeMembers, List.length_append, List.length_cons, jsonSerializeString] at hfuel
      obtain ⟨f, rfl⟩ : ∃ f, fuel = f + 2 := ⟨fuel - 2, by omega⟩
      have hvalue := parseValue_serialize v f nesting (ch ',' :: (serializeMembers (m :: ms) ++ rest)) hv (by omega)
        (by omega) (stops_comma _)
      have hnew : jsonObjectGetValue us k = none := getValue_eq_none (by grind)
      have hmembers := parseMembers_serialize (m :: ms) (f + 1) nesting rest (us ++ [(k, v)]) (List.cons_ne_nil m ms)
        hms (by simpa using hnodup) (by omega) (by omega)
      obtain ⟨t, ht⟩ := serializeMembers_head m ms rest
      have hstep := parseMembers_step hk hvalue hnew (by decide)
      simp only [serializeMembers, List.append_assoc, List.cons_append]
      rw [hstep, if_pos rfl]
      rw [ht] at hmembers ⊢
      rw [skipWhitespaces_cons (by decide), hmembers, List.append_assoc, List.singleton_append]

end

/-- The text of an object is read back, whatever comes after it. -/
theorem jsonParseString_serialize {ms : JsonObject} (hok : (Json.obj ms).Ok) (hdepth : depthMembers ms < maxNesting)
    (rest : Bytes) : jsonParseString (jsonSerialize (.obj ms) ++ rest) = some (.obj ms) := by
  have hbom : [0xEF, 0xBB, 0xBF].isPrefixOf (jsonSerialize (.obj ms) ++ rest) = false := by
    rw [jsonSerialize]
    rfl
  have hparse : parseValue ((jsonSerialize (.obj ms) ++ rest).length + 1) 0 (jsonSerialize (.obj ms) ++ rest) =
      some (.obj ms, rest) := by
    have hms : (ms.map Prod.fst).Nodup ∧ OkMembers ms := by simpa only [Json.Ok] using hok
    refine parseValue_obj (Nat.zero_le _) fun hne => ?_
    have hlevels := levelsMembers_le_depth ms
    refine parseMembers_serialize ms _ 1 rest [] hne hms.2 hms.1 (by omega) ?_
    simp only [jsonSerialize, List.length_append, List.length_cons]
    omega
  simp only [jsonParseString, hbom, Bool.false_eq_true, if_false, hparse, Option.map_some]

/-! ## Rounding -/

mutual

/-- Small numbers are doubles already. -/
theorem Json.asDoubles_small : ∀ {v : Json}, v.Small → v.asDoubles = some v
  | .null, _ | .bool _, _ | .str _, _ => rfl
  | .num n, h => by
      have hsign : (if n < 0 then -(n.natAbs : Int) else n.natAbs) = n := by
        split <;> omega
      rw [Json.asDoubles, Format.floor_nat h, Option.map_some, hsign]
  | .arr vs, h => by
      rw [Json.asDoubles, itemsAsDoubles_small h]
      rfl
  | .obj ms, h => by
      rw [Json.asDoubles, membersAsDoubles_small h]
      rfl

theorem itemsAsDoubles_small : ∀ {vs : List Json}, SmallItems vs → itemsAsDoubles vs = some vs
  | [], _ => rfl
  | v :: vs, h => by
      rw [itemsAsDoubles, Json.asDoubles_small h.1, itemsAsDoubles_small h.2]
      rfl

theorem membersAsDoubles_small : ∀ {ms : List (Bytes × Json)}, SmallMembers ms → membersAsDoubles ms = some ms
  | [], _ => rfl
  | (k, v) :: ms, h => by
      rw [membersAsDoubles, Json.asDoubles_small h.1, membersAsDoubles_small h.2]
      rfl

end

theorem jsonParseDoubles_small {s : Bytes} {v : Json} (h : jsonParseString s = some v) (hv : v.Small) :
    jsonParseDoubles s = some v := by
  rw [jsonParseDoubles, h, Option.bind_some, Json.asDoubles_small hv]

/-! ## Texts as C strings -/

theorem zero_notMem_escapeByte (c : UInt8) : (0 : UInt8) ∉ escapeByte c := by
  rcases escapeByte_cases c with ⟨d, he, -, hun⟩ | ⟨he, hc⟩ | ⟨he, -, -, hc⟩
  · have hzero : unescape 0 = none := by decide
    have hd : (0 : UInt8) ≠ d := by
      rintro rfl
      rw [hzero] at hun
      cases hun
    have hbackslash : (0 : UInt8) ≠ ch '\\' := by decide
    simp [he, hd, hbackslash]
  · rw [he]
    have hdigit : ∀ n < 16, (0 : UInt8) ≠ hexDigit n := by decide
    have hlt : c.toNat < 32 := hc
    simp only [List.mem_append, List.mem_cons, List.not_mem_nil, or_false, not_or]
    exact ⟨by decide, hdigit _ (by omega), hdigit _ (by omega)⟩
  · rw [he, List.mem_singleton]
    rintro rfl
    exact hc (by decide)

theorem zero_notMem_serializeString (s : Bytes) : (0 : UInt8) ∉ jsonSerializeString s := by
  have hesc : (0 : UInt8) ∉ s.flatMap escapeByte := by
    simp only [List.mem_flatMap, not_exists, not_and]
    exact fun c _ => zero_notMem_escapeByte c
  have hquote : (0 : UInt8) ≠ ch '"' := by decide
  simp [jsonSerializeString, hesc, hquote]

mutual

/-- The text of a value contains no `NUL`. -/
theorem zero_notMem_serialize : ∀ j : Json, (0 : UInt8) ∉ jsonSerialize j
  | .null => by rw [jsonSerialize]; decide
  | .bool b => by cases b <;> · rw [jsonSerialize]; decide
  | .num n => by rw [jsonSerialize]; exact zero_notMem_digits n
  | .str s => by rw [jsonSerialize]; exact zero_notMem_serializeString s
  | .arr vs => by
      have h := zero_notMem_serializeItems vs
      have hne : (0 : UInt8) ≠ ch '[' := by decide
      simp [jsonSerialize, hne, h]
  | .obj ms => by
      have h := zero_notMem_serializeMembers ms
      have hne : (0 : UInt8) ≠ ch '{' := by decide
      simp [jsonSerialize, hne, h]

theorem zero_notMem_serializeItems : ∀ vs : List Json, (0 : UInt8) ∉ serializeItems vs
  | [] => by rw [serializeItems]; decide
  | [v] => by
      have h := zero_notMem_serialize v
      have hne : (0 : UInt8) ≠ ch ']' := by decide
      simp [serializeItems, h, hne]
  | v :: w :: vs => by
      have h := zero_notMem_serialize v
      have hvs := zero_notMem_serializeItems (w :: vs)
      have hne : (0 : UInt8) ≠ ch ',' := by decide
      simp [serializeItems, h, hvs, hne]

theorem zero_notMem_serializeMembers : ∀ ms : List (Bytes × Json), (0 : UInt8) ∉ serializeMembers ms
  | [] => by rw [serializeMembers]; decide
  | [(k, v)] => by
      have hk := zero_notMem_serializeString k
      have h := zero_notMem_serialize v
      have hne : (0 : UInt8) ≠ ch ':' ∧ (0 : UInt8) ≠ ch '}' := by decide
      simp [serializeMembers, hk, h, hne]
  | (k, v) :: m :: ms => by
      have hk := zero_notMem_serializeString k
      have h := zero_notMem_serialize v
      have hms := zero_notMem_serializeMembers (m :: ms)
      have hne : (0 : UInt8) ≠ ch ':' ∧ (0 : UInt8) ≠ ch ',' := by decide
      simp [serializeMembers, hk, h, hms, hne]

end

/-! ## Objects that were built -/

theorem okMembers_iff {ms : JsonObject} : OkMembers ms ↔ ∀ m ∈ ms, (0 : UInt8) ∉ m.1 ∧ m.2.Ok := by
  induction ms with
  | nil => simp [OkMembers]
  | cons m ms ih =>
      obtain ⟨k, v⟩ := m
      simp only [OkMembers, ih, List.forall_mem_cons, and_assoc]

theorem depthMembers_le_iff {ms : JsonObject} {n : Nat} : depthMembers ms ≤ n ↔ ∀ m ∈ ms, m.2.depth ≤ n := by
  induction ms with
  | nil => simp [depthMembers]
  | cons m ms ih => simp only [depthMembers, Nat.max_le, ih, List.forall_mem_cons]

theorem mem_of_getValue {o : JsonObject} {name : Bytes} {v : Json} (h : jsonObjectGetValue o name = some v) :
    (name, v) ∈ o := by
  obtain ⟨l, r, rfl, -⟩ := List.lookup_eq_some_iff.mp h
  simp

theorem mem_setValue {o : JsonObject} {name : Bytes} {v : Json} {m : Bytes × Json}
    (h : m ∈ jsonObjectSetValue o name v) : m = (name, v) ∨ m ∈ o := by
  induction o with
  | nil => exact .inl (List.mem_singleton.mp h)
  | cons n o ih =>
      rw [jsonObjectSetValue] at h
      split at h
      · next hk => grind
      · next hk => grind

theorem setValue_names (o : JsonObject) (name : Bytes) (v : Json) :
    (jsonObjectSetValue o name v).map Prod.fst =
      if name ∈ o.map Prod.fst then o.map Prod.fst else o.map Prod.fst ++ [name] := by
  induction o with
  | nil => rfl
  | cons n o ih =>
      rw [jsonObjectSetValue]
      split
      · next hk => simp [hk]
      · next hk =>
          rw [List.map_cons, ih]
          have hk' : ¬ name = n.1 := fun e => hk e.symm
          simp only [List.map_cons, List.mem_cons, hk', false_or]
          split <;> rfl

theorem setValue_ok {o : JsonObject} {name : Bytes} {v : Json} (ho : (Json.obj o).Ok) (hname : (0 : UInt8) ∉ name)
    (hv : v.Ok) : (Json.obj (jsonObjectSetValue o name v)).Ok := by
  simp only [Json.Ok, okMembers_iff] at ho ⊢
  refine ⟨?_, fun m hm => ?_⟩
  · rw [setValue_names]
    split
    · exact ho.1
    · next hmem => exact List.nodup_append.mpr ⟨ho.1, by simp, by grind⟩
  · rcases mem_setValue hm with rfl | hm
    · exact ⟨hname, hv⟩
    · exact ho.2 m hm

theorem setValue_depth {o : JsonObject} {n : Nat} (ho : depthMembers o ≤ n) (name : Bytes) {v : Json}
    (hv : v.depth ≤ n) : depthMembers (jsonObjectSetValue o name v) ≤ n := by
  rw [depthMembers_le_iff] at ho ⊢
  intro m hm
  rcases mem_setValue hm with rfl | hm
  · exact hv
  · exact ho m hm

theorem dotset_ok {p : JsonPath} (hp : ∀ k ∈ p, (0 : UInt8) ∉ k) {v : Json} (hv : v.Ok) :
    ∀ {o : JsonObject}, (Json.obj o).Ok → (Json.obj (jsonObjectDotsetValue o p v)).Ok := by
  have hempty : (Json.obj []).Ok := by simp [Json.Ok, OkMembers]
  induction p with
  | nil => exact fun {_} ho => ho
  | cons k p ih =>
      intro o ho
      have hk : (0 : UInt8) ∉ k := hp k (by simp)
      cases p with
      | nil => exact setValue_ok ho hk hv
      | cons j p =>
          have hp' : ∀ i ∈ j :: p, (0 : UInt8) ∉ i := fun i hi => hp i (by simp [hi])
          rw [dotsetValue_cons _ _ (List.cons_ne_nil j p)]
          split
          · next ms hms =>
              have hmem := mem_of_getValue hms
              simp only [Json.Ok, okMembers_iff] at ho
              have hms' : (Json.obj ms).Ok := (ho.2 _ hmem).2
              exact setValue_ok (by simpa only [Json.Ok, okMembers_iff] using ho) hk (ih hp' hms')
          · exact setValue_ok ho hk (ih hp' hempty)
          · exact ho

theorem dotset_depth {p : JsonPath} {v : Json} :
    ∀ {o : JsonObject} {n : Nat}, v.depth + p.length ≤ n + 1 → depthMembers o ≤ n →
      depthMembers (jsonObjectDotsetValue o p v) ≤ n := by
  induction p with
  | nil => exact fun _ ho => ho
  | cons k p ih =>
      intro o n hn ho
      cases p with
      | nil => exact setValue_depth ho k (by simpa using hn)
      | cons j p =>
          simp only [List.length_cons] at hn
          obtain ⟨m, rfl⟩ : ∃ m, n = m + 1 := ⟨n - 1, by omega⟩
          rw [dotsetValue_cons _ _ (List.cons_ne_nil j p)]
          split
          · next ms hms =>
              have hdepth : (Json.obj ms).depth ≤ m + 1 := depthMembers_le_iff.mp ho _ (mem_of_getValue hms)
              simp only [Json.depth] at hdepth
              refine setValue_depth ho k ?_
              simp only [Json.depth]
              exact Nat.succ_le_succ (ih (by simp only [List.length_cons]; omega) (by omega))
          · refine setValue_depth ho k ?_
            simp only [Json.depth]
            exact Nat.succ_le_succ (ih (by simp only [List.length_cons]; omega) (Nat.zero_le m))
          · exact ho

/-- The text of an object that was built value by value is read back, whatever comes after it. -/
theorem jsonParseString_build {A : List (JsonPath × Json)} (hok : ∀ a ∈ A, (∀ k ∈ a.1, (0 : UInt8) ∉ k) ∧ a.2.Ok)
    (hdepth : ∀ a ∈ A, a.2.depth + a.1.length ≤ maxNesting) (rest : Bytes) :
    jsonParseString (jsonSerialize (.obj (build A [])) ++ rest) = some (.obj (build A [])) := by
  have hbuild : ∀ (B : List (JsonPath × Json)) (o : JsonObject), (∀ b ∈ B, b ∈ A) → (Json.obj o).Ok →
      depthMembers o ≤ maxNesting - 1 →
        (Json.obj (build B o)).Ok ∧ depthMembers (build B o) ≤ maxNesting - 1 := by
    intro B
    induction B with
    | nil => exact fun o _ ho hd => ⟨ho, hd⟩
    | cons b B ih =>
        intro o hB ho hd
        have hb := hB b (by simp)
        have hlen := hdepth b hb
        exact ih _ (fun c hc => hB c (by simp [hc])) (dotset_ok (hok b hb).1 (hok b hb).2 ho)
          (dotset_depth (by omega) hd)
  obtain ⟨h, hd⟩ := hbuild A [] (fun _ hb => hb) (by simp [Json.Ok, OkMembers]) (Nat.zero_le _)
  exact jsonParseString_serialize h (Nat.lt_of_le_of_lt hd (by decide)) rest

end CoEditor
