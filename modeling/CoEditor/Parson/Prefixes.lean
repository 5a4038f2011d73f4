-- SUMMARY: What the parser makes of a text that is cut off, or that goes on.
import CoEditor.Parson.Grammar

/-!
# Texts that are cut off

The parser does not look at what comes after a value. So what it reads of the
head of a text is what it reads of the whole, except that a number may go on.
An object that is cut off is therefore none.
-/

namespace CoEditor

open Decimal

/-! ## Numbers -/

/-- What comes after a value in an object or an array: a blank, a comma, or a bracket that closes. -/
def Delimits (c : UInt8) : Prop := isSpace c = true ∨ c = ch ',' ∨ c = ch '}' ∨ c = ch ']'

instance : DecidablePred Delimits := fun c => by unfold Delimits; infer_instance

/-- No numeral goes on with such a character. -/
theorem Delimits.ends {d : UInt8} (h : Delimits d) : isDigit d = false ∧ d ≠ ch '.' ∧ d ≠ ch 'e' ∧ d ≠ ch 'E' ∧
    d ≠ ch '-' ∧ d ≠ ch '+' ∧ lowerCase d ≠ ch 'i' ∧ lowerCase d ≠ ch 'n' ∧ lowerCase d ≠ ch 'x' := by
  have hall : ∀ n < 256, Delimits (UInt8.ofNat n) → isDigit (UInt8.ofNat n) = false ∧ UInt8.ofNat n ≠ ch '.' ∧
      UInt8.ofNat n ≠ ch 'e' ∧ UInt8.ofNat n ≠ ch 'E' ∧ UInt8.ofNat n ≠ ch '-' ∧ UInt8.ofNat n ≠ ch '+' ∧
      lowerCase (UInt8.ofNat n) ≠ ch 'i' ∧ lowerCase (UInt8.ofNat n) ≠ ch 'n' ∧ lowerCase (UInt8.ofNat n) ≠ ch 'x' := by
    decide +kernel
  have := hall d.toNat d.toNat_lt
  rw [UInt8.ofNat_toNat] at this
  exact this h

theorem skipWhitespaces_append {s u : Bytes} {c : UInt8} (h : skipWhitespaces s = c :: u) (t : Bytes) :
    skipWhitespaces (s ++ t) = c :: (u ++ t) := by
  have h : s.dropWhile isSpace = c :: u := h
  rw [skipWhitespaces, List.dropWhile_append, h]
  rfl

theorem span_append {p : UInt8 → Bool} {s : Bytes} (h : (s.span p).2 ≠ []) (t : Bytes) :
    (s ++ t).span p = ((s.span p).1, (s.span p).2 ++ t) := by
  rw [List.span_eq_takeWhile_dropWhile] at h ⊢
  rw [List.span_eq_takeWhile_dropWhile]
  have hempty : (s.dropWhile p).isEmpty = false := List.isEmpty_eq_false_iff.mpr h
  have hlen : (s.takeWhile p).length ≠ s.length := by
    intro hlen
    have := congrArg List.length (List.takeWhile_append_dropWhile (p := p) (l := s))
    rw [List.length_append, hlen] at this
    exact h (List.eq_nil_of_length_eq_zero (Nat.add_eq_left.mp this))
  rw [List.takeWhile_append, if_neg hlen, List.dropWhile_append, hempty]
  rfl

theorem splitSign_append {s : Bytes} (h : s ≠ []) (t : Bytes) :
    splitSign (s ++ t) = ((splitSign s).1, (splitSign s).2 ++ t) := by
  obtain ⟨c, r, rfl⟩ := List.exists_cons_of_ne_nil h
  simp only [splitSign, List.cons_append]
  split
  · rfl
  · split <;> rfl

theorem splitFraction_append {ip s u : Bytes} {c : UInt8} (h : (splitFraction ip s).2 = c :: u) (hc : c ≠ ch '.') (t : Bytes) :
    splitFraction ip (s ++ t) = ((splitFraction ip s).1, (splitFraction ip s).2 ++ t) := by
  cases s with
  | nil => cases h
  | cons d r =>
      simp only [splitFraction, List.cons_append] at h ⊢
      split at h
      · next hd =>
          split at h
          · next hnone =>
              obtain ⟨rfl, -⟩ := List.cons.inj h
              exact absurd hd hc
          · next hsome =>
              have hne : (r.span isDigit).2 ≠ [] := by
                rw [h]
                exact List.cons_ne_nil c u
              rw [if_pos hd, if_pos hd, span_append hne, if_neg hsome, if_neg hsome]
      · next hd =>
          rw [if_neg hd, if_neg hd]
          rfl

theorem splitExponent_append {s u : Bytes} {c : UInt8} (h : (splitExponent s).2 = c :: u) (hc : ¬ (c = ch 'e' ∨ c = ch 'E'))
    (t : Bytes) : splitExponent (s ++ t) = ((splitExponent s).1, (splitExponent s).2 ++ t) := by
  cases s with
  | nil => cases h
  | cons d r =>
      simp only [splitExponent, List.cons_append] at h ⊢
      split at h
      · next hd =>
          split at h
          · obtain ⟨rfl, -⟩ := List.cons.inj h
            exact absurd hd hc
          · next hsome =>
              have hr : r ≠ [] := by
                rintro rfl
                exact hsome rfl
              have hne : ((splitSign r).2.span isDigit).2 ≠ [] := by
                rw [h]
                exact List.cons_ne_nil c u
              rw [if_pos hd, if_pos hd, splitSign_append hr]
              dsimp only
              rw [span_append hne, if_neg hsome, if_neg hsome]
      · next hd =>
          rw [if_neg hd, if_neg hd]
          rfl

theorem exists_cons_of_splitExponent {s u : Bytes} {c : UInt8} (h : (splitExponent s).2 = c :: u) : ∃ d r, s = d :: r := by
  cases s with
  | nil => cases h
  | cons d r => exact ⟨d, r, rfl⟩

/-- A numeral that something else follows is read as far as it goes, whatever comes later. -/
theorem strtod_append {s u : Bytes} {n : Option Int} {d : UInt8} (h : strtod s = (n, d :: u)) (hd : Delimits d) (t : Bytes) :
    strtod (s ++ t) = (n, d :: u ++ t) := by
  obtain ⟨hdigit, hdot, he, hE, hminus, hplus, -⟩ := hd.ends
  have hs : s ≠ [] := by
    rintro rfl
    cases h
  unfold strtod at h ⊢
  dsimp only at h ⊢
  rw [splitSign_append hs]
  dsimp only
  split at h
  · next hnone =>
      obtain ⟨rfl, rfl⟩ := Prod.mk.inj h
      have hsign : splitSign (d :: u) = (false, d :: u) := by rw [splitSign, if_neg hminus, if_neg hplus]
      have hspan (r : Bytes) : (d :: r).span isDigit = ([], d :: r) := by
        rw [List.span_eq_takeWhile_dropWhile, List.takeWhile_cons, List.dropWhile_cons, hdigit]
        rfl
      have hfraction (r : Bytes) : splitFraction [] (d :: r) = ([], d :: r) := by rw [splitFraction, if_neg hdot]
      simp only [hsign, List.cons_append, hspan, hfraction, and_self, if_true]
  · next hsome =>
      obtain ⟨rfl, hrest⟩ := Prod.mk.inj h
      obtain ⟨c, r, hfraction⟩ := exists_cons_of_splitExponent hrest
      have hc : c ≠ ch '.' := by
        rintro rfl
        rw [hfraction, splitExponent, if_neg (by decide)] at hrest
        exact hdot (List.cons.inj hrest).1.symm
      have hspan : ((splitSign s).2.span isDigit).2 ≠ [] := by
        intro hnil
        rw [hnil] at hfraction
        cases hfraction
      rw [span_append hspan]
      dsimp only
      rw [splitFraction_append hfraction hc]
      dsimp only
      rw [if_neg hsome, splitExponent_append hrest (by simp [he, hE]), hrest]

theorem lowerCase_letter {c : UInt8} (h : lowerCase c ∈ bytes "inx") :
    isDigit c = false ∧ c ≠ ch '.' ∧ ¬ (c = ch 'e' ∨ c = ch 'E') := by
  have hall : ∀ n < 256, lowerCase (UInt8.ofNat n) ∈ bytes "inx" → isDigit (UInt8.ofNat n) = false ∧
      UInt8.ofNat n ≠ ch '.' ∧ ¬ (UInt8.ofNat n = ch 'e' ∨ UInt8.ofNat n = ch 'E') := by decide +kernel
  have := hall c.toNat c.toNat_lt
  rw [UInt8.ofNat_toNat] at this
  exact this h

/-- No numeral starts with a letter. -/
theorem strtod_letter {s r : Bytes} {a : UInt8} (hs : (splitSign s).2 = a :: r) (ha : lowerCase a ∈ bytes "inx") :
    strtod s = (some 0, s) := by
  obtain ⟨hdigit, hdot, -⟩ := lowerCase_letter ha
  have hspan : (a :: r).span isDigit = ([], a :: r) := by
    rw [List.span_eq_takeWhile_dropWhile, List.takeWhile_cons, List.dropWhile_cons, hdigit]
    rfl
  have hfraction : splitFraction [] (a :: r) = ([], a :: r) := by rw [splitFraction, if_neg hdot]
  unfold strtod
  simp only [hs, hspan, hfraction, and_self, if_true]

/-- A numeral ends before a letter that is no exponent. -/
theorem strtod_zero {s r : Bytes} {b : UInt8} (hs : (splitSign s).2 = ch '0' :: b :: r) (hb : lowerCase b ∈ bytes "inx") :
    (strtod s).2 = b :: r := by
  obtain ⟨hdigit, hdot, hexp⟩ := lowerCase_letter hb
  have hspan : (ch '0' :: b :: r).span isDigit = ([ch '0'], b :: r) := by
    rw [List.span_eq_takeWhile_dropWhile, List.takeWhile_cons, List.dropWhile_cons, List.takeWhile_cons, List.dropWhile_cons,
      hdigit]
    rfl
  have hfraction : splitFraction [ch '0'] (b :: r) = ([], b :: r) := by rw [splitFraction, if_neg hdot]
  have hexponent : splitExponent (b :: r) = (0, b :: r) := by rw [splitExponent, if_neg hexp]
  unfold strtod
  simp only [hs, hspan, hfraction, List.cons_ne_nil, false_and, if_false, hexponent]

/-- Such a numeral is no infinity, and not hexadecimal either. -/
theorem isSpecial_eq_false {s u : Bytes} {n : Option Int} {d : UInt8} (h : strtod s = (n, d :: u)) (hd : Delimits d) :
    isSpecial s = false := by
  obtain ⟨-, -, -, -, hminus, hplus, hi, hn, hx⟩ := hd.ends
  have hletter : lowerCase d ∉ bytes "inx" := by simp [bytes, hi, hn, hx]
  have hfirst {a : UInt8} {r : Bytes} (hr : (splitSign s).2 = a :: r) : lowerCase a ∉ bytes "inx" := by
    intro ha
    rw [strtod_letter hr ha] at h
    obtain ⟨-, rfl⟩ := Prod.mk.inj h
    rw [splitSign, if_neg hminus, if_neg hplus] at hr
    obtain ⟨rfl, -⟩ := List.cons.inj hr
    exact hletter ha
  have hsecond {b : UInt8} {r : Bytes} (hr : (splitSign s).2 = ch '0' :: b :: r) : lowerCase b ∉ bytes "inx" := by
    intro hb
    have hrest := strtod_zero hr hb
    rw [h] at hrest
    obtain ⟨rfl, -⟩ := List.cons.inj hrest
    exact hletter hb
  rw [isSpecial.eq_def]
  split
  · next a b c r hr =>
      have ha := hfirst hr
      simp only [Bool.or_eq_false_iff, Bool.and_eq_false_iff, decide_eq_false_iff_not]
      refine ⟨⟨fun heq => ha ?_, fun heq => ha ?_⟩, ?_⟩
      · rw [(List.cons.inj heq).1]
        decide
      · rw [(List.cons.inj heq).1]
        decide
      · by_cases ha0 : a = ch '0'
        · subst ha0
          refine .inl (.inr fun heq => hsecond hr ?_)
          rw [heq]
          decide
        · exact .inl (.inl ha0)
  · rfl

theorem parseNumberValue_append {s u : Bytes} {v : Json} {d : UInt8} (h : parseNumberValue s = some (v, d :: u))
    (hd : Delimits d) (t : Bytes) : parseNumberValue (s ++ t) = some (v, d :: u ++ t) := by
  obtain ⟨n, rfl, -, hstrtod, hdec⟩ := parseNumberValue_eq_some h
  have happend := strtod_append hstrtod hd t
  have hle := (strtod_suffix s).length_le
  rw [hstrtod] at hle
  unfold parseNumberValue
  rw [isSpecial_eq_false happend hd, happend]
  have htake : (s ++ t).take ((s ++ t).length - (d :: u ++ t).length) = s.take (s.length - (d :: u).length) := by
    rw [List.length_append, List.length_append, Nat.add_sub_add_right, List.take_append_of_le_length (Nat.sub_le ..)]
  dsimp only
  rw [htake, hdec]
  rfl

/-! ## Derivations -/

/-- The text goes on where no numeral does. -/
def Delimited (u : Bytes) : Prop := ∃ d r, u = d :: r ∧ Delimits d

theorem delimited_of_skip {u rest : Bytes} {c : UInt8} (h : skipWhitespaces u = c :: rest) (hc : Delimits c) : Delimited u := by
  cases u with
  | nil => cases h
  | cons d r =>
      refine ⟨d, r, rfl, ?_⟩
      by_cases hd : isSpace d = true
      · exact .inl hd
      · rw [skipWhitespaces_cons (Bool.eq_false_iff.mpr hd)] at h
        obtain ⟨rfl, -⟩ := List.cons.inj h
        exact hc

theorem Quoted.append {s str u : Bytes} (h : Quoted s str u) (t : Bytes) : Quoted (s ++ t) str (u ++ t) := by
  obtain ⟨raw, full, rfl, hchars, hstr⟩ := h
  exact ⟨raw, full, by simp, hchars, hstr⟩

/-- What is read of a text is read of every longer one, but that a number has to end before the text does. -/
theorem Reads.append {g : Goal} {n : Nat} {s u : Bytes} {v : Json} (h : Reads g n s v u) :
    (∀ m, v = .num m → Delimited u) → ∀ t, Reads g n (s ++ t) v (u ++ t) := by
  induction h with
  | noMembers hn hs ht => exact fun _ t => .noMembers hn (skipWhitespaces_append hs t) (skipWhitespaces_append ht t)
  | @object _ _ r _ _ hn hs hms ih =>
      intro hend t
      obtain ⟨r', hr⟩ := hms.members_head
      refine .object hn (skipWhitespaces_append hs t) ?_
      rw [skipWhitespaces_append hr, ← List.cons_append, ← hr]
      exact ih hend t
  | noItems hn hs ht => exact fun _ t => .noItems hn (skipWhitespaces_append hs t) (skipWhitespaces_append ht t)
  | @array _ _ r _ _ hn hs hvs ih =>
      intro hend t
      obtain ⟨d, r', hr, -⟩ := hvs.items_head
      refine .array hn (skipWhitespaces_append hs t) ?_
      rw [skipWhitespaces_append hr, ← List.cons_append, ← hr]
      exact ih hend t
  | string hn hstr =>
      intro _ t
      obtain ⟨raw, full, hs, -, -⟩ := id hstr
      refine .string hn ?_
      rw [skipWhitespaces_append hs, ← List.cons_append, ← hs]
      exact hstr.append t
  | @word _ s w u _ hn hw hs =>
      intro _ t
      refine .word hn hw ?_
      obtain ⟨c, w', rfl⟩ : ∃ c w', w = c :: w' := by
        simp only [words, List.mem_cons, List.not_mem_nil, or_false, Prod.mk.injEq] at hw
        rcases hw with ⟨rfl, -⟩ | ⟨rfl, -⟩ | ⟨rfl, -⟩ <;> exact ⟨_, _, rfl⟩
      rw [skipWhitespaces_append hs]
      exact congrArg (c :: ·) (List.append_assoc w' u t)
  | number hn hs hc hnum =>
      intro hend t
      obtain ⟨m, rfl, -⟩ := parseNumberValue_eq_some hnum
      obtain ⟨d, r, rfl, hd⟩ := hend _ rfl
      exact .number hn (skipWhitespaces_append hs t) hc (parseNumberValue_append hnum hd t)
  | @member _ _ _ _ _ _ rest _ _ _ hk hs _ hnew hu _ ho ihv iho =>
      intro hend t
      obtain ⟨r', hr⟩ := ho.members_head
      refine .member (hk.append t) (skipWhitespaces_append hs t) (ihv (fun _ _ => delimited_of_skip hu (by decide)) t) hnew
        (skipWhitespaces_append hu t) ?_
      rw [skipWhitespaces_append hr, ← List.cons_append, ← hr]
      exact iho hend t
  | lastMember hk hs _ hnew hu ihv =>
      exact fun _ t => .lastMember (hk.append t) (skipWhitespaces_append hs t)
        (ihv (fun _ _ => delimited_of_skip hu (by decide)) t) hnew (skipWhitespaces_append hu t)
  | @item _ _ _ rest _ _ _ _ hu _ ho ihv iho =>
      intro hend t
      obtain ⟨d, r', hr, -⟩ := ho.items_head
      refine .item (ihv (fun _ _ => delimited_of_skip hu (by decide)) t) (skipWhitespaces_append hu t) ?_
      rw [skipWhitespaces_append hr, ← List.cons_append, ← hr]
      exact iho hend t
  | lastItem _ hu ihv =>
      exact fun _ t => .lastItem (ihv (fun _ _ => delimited_of_skip hu (by decide)) t) (skipWhitespaces_append hu t)

theorem Reads.members_obj {n : Nat} {s u : Bytes} {v : Json} {ms : JsonObject} (h : Reads (.members ms) n s v u) :
    ∃ ms', v = .obj ms' := by
  generalize hg : Goal.members ms = g at h
  induction h generalizing ms with
  | member _ _ _ _ _ _ _ iho => exact iho rfl
  | lastMember => exact ⟨_, rfl⟩
  | noMembers | object | noItems | array | string | word | number | item | lastItem => cases hg

/-- What starts with a brace is an object. -/
theorem Reads.brace_obj {n : Nat} {s u : Bytes} {v : Json} (h : Reads .value n (ch '{' :: s) v u) : ∃ ms, v = .obj ms := by
  have hskip : skipWhitespaces (ch '{' :: s) = ch '{' :: s := skipWhitespaces_cons (by decide) s
  cases h with
  | noMembers => exact ⟨_, rfl⟩
  | object _ _ hms => exact hms.members_obj
  | noItems _ hs | array _ hs => cases hskip.symm.trans hs
  | string _ hstr =>
      obtain ⟨raw, full, hs, -⟩ := hstr
      cases hskip.symm.trans hs
  | word _ hw hs =>
      simp only [words, List.mem_cons, List.not_mem_nil, or_false, Prod.mk.injEq] at hw
      rcases hw with ⟨rfl, -⟩ | ⟨rfl, -⟩ | ⟨rfl, -⟩ <;> cases hskip.symm.trans hs
  | number _ hs hc =>
      obtain ⟨rfl, -⟩ := List.cons.inj (hskip.symm.trans hs)
      exact absurd hc (by decide)

/-- An object that breaks off is not accepted. -/
theorem jsonParseString_cut {ms : JsonObject} (hok : (Json.obj ms).Ok) (hlevels : (Json.obj ms).levels ≤ maxNesting)
    {p q : Bytes} (hcut : p ++ q = jsonSerialize (.obj ms)) (hq : q ≠ []) : jsonParseString p = none := by
  by_contra hsome
  obtain ⟨v, hv⟩ := Option.ne_none_iff_exists'.mp hsome
  obtain ⟨u, hread⟩ := jsonParseString_reads.mp hv
  cases p with
  | nil =>
      obtain ⟨c, t, hc, -⟩ := hread.head
      cases hc
  | cons c r =>
      obtain ⟨rfl, -⟩ : c = ch '{' ∧ r ++ q = serializeMembers ms := by
        rw [jsonSerialize] at hcut
        exact List.cons.inj hcut
      have hread : Reads .value 0 (ch '{' :: r) v u := hread
      obtain ⟨ms', rfl⟩ := hread.brace_obj
      -- the longer text reads as the same value, and leaves at least `q`
      have hlong := hread.append (fun _ h => by cases h) q
      rw [hcut] at hlong
      obtain ⟨-, hrest⟩ := hlong.unique (reads_serialize hok hlevels)
      exact hq (List.append_eq_nil_iff.mp hrest).2

end CoEditor
