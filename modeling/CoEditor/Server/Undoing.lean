-- SUMMARY: Typing and then deleting as much brings back the document and all places, but for who stood just behind.
import CoEditor.Server.Sheets

/-!
# Undoing

A user who presses DELETE once for everything he has typed is where he was, in
the text as it was. `bcursor_insert` leaves a cursor one column after the place
of the new character where it is, and the DELETE that follows takes it along, so
whoever stood there ends up at the place of the user.
-/

namespace CoEditor

/-- User `v` types a character or breaks a line. -/
def Op.Types (v : Int) : Op → Prop
  | .insert u _ | .insertLine u => u = v
  | _ => False

theorem Op.Types.cursor {v : Int} {op : Op} (h : op.Types v) : op.cursor = v := by
  cases op with
  | new | copyOwn | free | move | del => exact h.elim
  | insert | insertLine => exact h

namespace Sheet

/-- The number of characters. -/
def chars (s : Sheet) : Nat := s.texts.flatten.length

/-- The number of characters and lines. -/
def size (s : Sheet) : Nat := s.chars + s.texts.length

/-- Another cursor one column after `x` comes to `x`. -/
def pull (v : Int) (x : Place) (i : Int) (y : Place) : Place :=
  if i ≠ v ∧ y.row = x.row ∧ y.pos = x.pos + 1 then x else y

/-- The cursors of the others that are one column after that of user `v` come to it. -/
def gather (s : Sheet) (v : Int) : Sheet :=
  (s.curs v).elim s fun x => { s with curs := fun i => (s.curs i).map (pull v x i) }

/-- The cursor of user `v` is in the line with text `a ++ b`, between the two. -/
structure Between (s : Sheet) (v : Int) (A : List (List Char)) (a b : List Char) (B : List (List Char)) : Prop where
  texts : s.texts = A ++ (a ++ b) :: B
  curs : s.curs v = some ⟨A.length, (a.length : Nat)⟩

variable {s t : Sheet} {v : Int} {A B : List (List Char)} {a b : List Char}

theorem edit_eq {M : List (List Char)} (h : s.texts = A ++ M ++ B) (new : List (List Char)) (f : Int → Place → Place) :
    s.edit A.length M.length new f = ⟨s.width, A ++ new ++ B, fun i => (s.curs i).map (f i)⟩ :=
  Sheet.ext rfl (edit_texts h new f) rfl

theorem apply_of_curs {op : Op} {x : Place} (hx : s.curs v = some x) (hop : op.cursor = v) : s.apply op = s.act x op :=
  apply_of_some (by rw [hop, hx])

namespace Between

theorem cut (h : s.Between v A a b B) : s.texts = A ++ [a ++ b] ++ B := by rw [h.texts, List.append_cons]

theorem text (h : s.Between v A a b B) : s.text A.length = a ++ b := text_of_cut h.texts

theorem chars (h : s.Between v A a b B) : s.chars = A.flatten.length + (a.length + b.length) + B.flatten.length := by
  rw [Sheet.chars, h.texts]
  simp only [List.flatten_append, List.flatten_cons, List.length_append]
  omega

/-! ## One call -/

theorem insert (h : s.Between v A a b B) {chr : UInt8} (hroom : ¬ sizeT (s.width - 1) ≤ (a ++ b).length) :
    s.apply (.insert v chr) = ⟨s.width, A ++ (a ++ [Char.ofNat chr.toNat] ++ b) :: B, fun i => (s.curs i).map fun y =>
      if i = v then ⟨A.length, (a.length : Nat) + 1⟩
      else if A.length = y.row ∧ (a.length : Int) + 1 < y.pos then { y with pos := y.pos + 1 } else y⟩ := by
  rw [apply_of_curs h.curs rfl]
  simp only [act, h.text, if_neg hroom, Int.toNat_natCast, List.take_left, List.drop_left]
  rw [List.append_cons A]
  exact edit_eq (M := [a ++ b]) h.cut _ _

theorem insert_full (h : s.Between v A a b B) {chr : UInt8} (hfull : sizeT (s.width - 1) ≤ (a ++ b).length) :
    s.apply (.insert v chr) = s := by
  rw [apply_of_curs h.curs rfl]
  simp only [act, h.text, if_pos hfull]

theorem insertLine (h : s.Between v A a b B) :
    s.apply (.insertLine v) = ⟨s.width, A ++ a :: b :: B, fun i => (s.curs i).map fun y =>
      if i = v then ⟨A.length + 1, 0⟩ else Doc.breakPlace ⟨A.length, (a.length : Nat)⟩ y⟩ := by
  rw [apply_of_curs h.curs rfl]
  simp only [act, h.text, Int.toNat_natCast, List.take_left, List.drop_left]
  rw [show A ++ a :: b :: B = A ++ [a, b] ++ B by rw [List.append_assoc]; rfl]
  exact edit_eq (M := [a ++ b]) h.cut _ _

theorem del_char {c : Char} (h : s.Between v A (a ++ [c]) b B) :
    s.apply (.del v) = ⟨s.width, A ++ (a ++ b) :: B, fun i => (s.curs i).map fun y =>
      if i = v then ⟨A.length, (a.length : Nat)⟩
      else if A.length = y.row ∧ (a.length : Int) < y.pos then { y with pos := y.pos - 1 } else y⟩ := by
  have hlen : (a ++ [c]).length = a.length + 1 := by simp
  have hpos : (0 : Int) < ((a ++ [c]).length : Nat) := by rw [hlen]; omega
  have htake : (a ++ [c] ++ b).take ((a ++ [c]).length - 1) = a := by
    rw [hlen, Nat.add_sub_cancel, List.append_assoc, List.take_left]
  have hback : (((a ++ [c]).length : Nat) : Int) - 1 = (a.length : Nat) := by rw [hlen]; omega
  rw [apply_of_curs h.curs rfl]
  simp only [act, h.text, if_pos hpos, Int.toNat_natCast, htake, List.drop_left, hback]
  rw [List.append_cons A]
  exact edit_eq (M := [a ++ [c] ++ b]) h.cut _ _

theorem del_line (h : s.Between v (A ++ [a]) [] b B) :
    s.apply (.del v) = ⟨s.width, A ++ (a ++ b) :: B, fun i => (s.curs i).map fun y =>
      if i = v then ⟨A.length, (a.length : Nat)⟩ else Doc.joinPlace A.length a.length y⟩ := by
  have htexts : s.texts = A ++ a :: b :: B := by rw [h.texts, List.append_assoc]; rfl
  have hlen : (A ++ [a]).length = A.length + 1 := by simp
  have hcurs : s.curs v = some ⟨A.length + 1, 0⟩ := by rw [h.curs, hlen]; rfl
  have habove : s.text A.length = a := text_of_cut htexts
  have hhere : s.text (A.length + 1) = b := by rw [← hlen]; exact h.text
  rw [apply_of_curs hcurs rfl]
  simp only [act, if_neg (Int.lt_irrefl 0), if_neg (Nat.succ_ne_zero A.length), Nat.add_sub_cancel, habove, hhere]
  rw [List.append_cons A]
  exact edit_eq (M := [a, b]) (by rw [htexts, List.append_assoc]; rfl) _ _

end Between

/-! ## A key and a DELETE -/

/-- A sheet with the texts of `s` and the places that `gather` leaves. -/
theorem Between.eq_gather (h : s.Between v A a b B) {g : Int → Place → Place}
    (hplaces : ∀ i y, s.curs i = some y → g i y = pull v ⟨A.length, (a.length : Nat)⟩ i y) :
    (⟨s.width, A ++ (a ++ b) :: B, fun i => (s.curs i).map (g i)⟩ : Sheet) = s.gather v := by
  rw [gather, h.curs, Option.elim_some]
  ext1
  · rfl
  · exact h.texts.symm
  · exact funext fun i => Option.map_congr (hplaces i)

theorem Between.eq_self (h : s.Between v A a b B) {g : Int → Place → Place} (hplaces : ∀ i y, s.curs i = some y → g i y = y) :
    (⟨s.width, A ++ (a ++ b) :: B, fun i => (s.curs i).map (g i)⟩ : Sheet) = s := by
  ext1
  · rfl
  · exact h.texts.symm
  · exact funext fun i => (Option.map_congr (hplaces i)).trans Option.map_id'

theorem Between.own (h : s.Between v A a b B) {y : Place} (hy : s.curs v = some y) : y = ⟨A.length, (a.length : Nat)⟩ :=
  Option.some.inj (hy.symm.trans h.curs)

theorem Between.after_insert (h : s.Between v A a b B) {chr : UInt8} (hroom : ¬ sizeT (s.width - 1) ≤ (a ++ b).length) :
    (s.apply (.insert v chr)).Between v A (a ++ [Char.ofNat chr.toNat]) b B := by
  rw [h.insert hroom]
  refine ⟨rfl, ?_⟩
  show (s.curs v).map _ = _
  rw [h.curs, Option.map_some, if_pos rfl]
  simp

theorem Between.after_insertLine (h : s.Between v A a b B) : (s.apply (.insertLine v)).Between v (A ++ [a]) [] b B := by
  rw [h.insertLine]
  refine ⟨by simp, ?_⟩
  show (s.curs v).map _ = _
  rw [h.curs, Option.map_some, if_pos rfl]
  simp

/-- A DELETE takes a character back that was just typed. -/
theorem Between.del_insert (h : s.Between v A a b B) {chr : UInt8} (hroom : ¬ sizeT (s.width - 1) ≤ (a ++ b).length) :
    (s.apply (.insert v chr)).apply (.del v) = s.gather v := by
  rw [(h.after_insert hroom).del_char, h.insert hroom]
  simp only [Option.map_map]
  refine h.eq_gather fun i y hy => ?_
  by_cases hi : i = v
  · subst hi
    simp [h.own hy, pull]
  · obtain ⟨r, q⟩ := y
    simp only [Function.comp_apply, if_neg hi, pull]
    grind

/-- A DELETE takes a line break back that was just typed. -/
theorem Between.del_insertLine (h : s.Between v A a b B) : (s.apply (.insertLine v)).apply (.del v) = s := by
  rw [h.after_insertLine.del_line, h.insertLine]
  simp only [Option.map_map]
  refine h.eq_self fun i y hy => ?_
  by_cases hi : i = v
  · subst hi
    simp [h.own hy]
  · obtain ⟨r, q⟩ := y
    simp only [Function.comp_apply, if_neg hi, Doc.breakPlace, Doc.joinPlace]
    grind

theorem gather_of_curs {x : Place} (hx : s.curs v = some x) :
    s.gather v = { s with curs := fun i => (s.curs i).map (pull v x i) } := by
  rw [gather, hx, Option.elim_some]

theorem Between.after_gather (h : s.Between v A a b B) : (s.gather v).Between v A a b B := by
  rw [gather_of_curs h.curs]
  refine ⟨h.texts, ?_⟩
  show (s.curs v).map _ = _
  rw [h.curs, Option.map_some, pull, if_neg fun hv => hv.1 rfl]

/-- Right after the character that was just typed there is nobody. -/
theorem Between.gather_insert (h : s.Between v A a b B) {chr : UInt8} (hroom : ¬ sizeT (s.width - 1) ≤ (a ++ b).length) :
    (s.apply (.insert v chr)).gather v = s.apply (.insert v chr) := by
  rw [gather_of_curs (h.after_insert hroom).curs, h.insert hroom]
  ext1
  · rfl
  · rfl
  · funext i
    simp only [Option.map_map]
    refine Option.map_congr fun y hy => ?_
    by_cases hi : i = v
    · subst hi
      simp [pull]
    · obtain ⟨r, q⟩ := y
      simp only [Function.comp_apply, if_neg hi, pull, List.length_append, List.length_singleton]
      grind

/-- Who stands one column after the start of the new line was one column after the break. -/
theorem Between.del_gather (h : s.Between v A a b B) : ((s.apply (.insertLine v)).gather v).apply (.del v) = s.gather v := by
  rw [h.after_insertLine.after_gather.del_line, gather_of_curs h.after_insertLine.curs, h.insertLine]
  simp only [Option.map_map]
  refine h.eq_gather fun i y hy => ?_
  by_cases hi : i = v
  · subst hi
    simp [h.own hy, pull]
  · obtain ⟨r, q⟩ := y
    simp only [Function.comp_apply, if_neg hi, pull, Doc.breakPlace, Doc.joinPlace, List.length_append, List.length_singleton,
      List.length_nil]
    grind

/-! ## Many keys -/

theorem Between.size_insert (h : s.Between v A a b B) (chr : UInt8) (hroom : ¬ sizeT (s.width - 1) ≤ (a ++ b).length) :
    (s.apply (.insert v chr)).chars = s.chars + 1 ∧ (s.apply (.insert v chr)).texts.length = s.texts.length := by
  rw [(h.after_insert hroom).chars, h.chars, (h.after_insert hroom).texts, h.texts]
  simp only [List.length_append, List.length_cons, List.length_nil]
  exact ⟨by omega, trivial⟩

theorem Between.size_insertLine (h : s.Between v A a b B) :
    (s.apply (.insertLine v)).chars = s.chars ∧ (s.apply (.insertLine v)).texts.length = s.texts.length + 1 := by
  rw [h.after_insertLine.chars, h.chars, h.after_insertLine.texts, h.texts]
  simp only [List.length_append, List.length_cons, List.length_nil, List.flatten_append, List.flatten_singleton]
  omega

/-- DELETE, pressed as often as the text has become longer, brings back what was there before the keys. -/
theorem undo {keys : List Op} (hkeys : ∀ op ∈ keys, op.Types v) (h : s.Between v A a b B) :
    s.chars ≤ (keys.foldl Sheet.apply s).chars ∧ s.texts.length ≤ (keys.foldl Sheet.apply s).texts.length ∧
      (Sheet.apply · (.del v))^[(keys.foldl Sheet.apply s).size - s.size] (keys.foldl Sheet.apply s) =
        if (keys.foldl Sheet.apply s).chars = s.chars then s else s.gather v := by
  induction keys generalizing s A a b B with
  | nil => exact ⟨Nat.le_refl _, Nat.le_refl _, by rw [List.foldl_nil, Nat.sub_self, Function.iterate_zero_apply, if_pos rfl]⟩
  | cons op keys ih =>
      have hop := hkeys op (List.mem_cons_self ..)
      have hkeys' : ∀ op ∈ keys, op.Types v := fun op hop => hkeys op (List.mem_cons_of_mem _ hop)
      rw [List.foldl_cons]
      generalize hs' : s.apply op = s'
      generalize he : keys.foldl Sheet.apply s' = e
      cases op with
      | new | copyOwn | free | move | del => exact hop.elim
      | insert u chr =>
          obtain rfl : u = v := hop
          by_cases hroom : sizeT (s.width - 1) ≤ (a ++ b).length
          · rw [h.insert_full hroom] at hs'
            subst hs' he
            exact ih hkeys' h
          · subst hs'
            obtain ⟨hchars, hlines, hundo⟩ := ih hkeys' (h.after_insert hroom)
            rw [he] at hchars hlines hundo
            obtain ⟨hchars₁, hlines₁⟩ := h.size_insert chr hroom
            have hn : e.size - s.size = (e.size - (s.apply (.insert u chr)).size) + 1 := by
              simp only [size]
              omega
            rw [h.gather_insert hroom, ite_self] at hundo
            rw [if_neg (by omega), hn, Function.iterate_succ_apply', hundo, h.del_insert hroom]
            exact ⟨by omega, by omega, rfl⟩
      | insertLine u =>
          obtain rfl : u = v := hop
          subst hs'
          obtain ⟨hchars, hlines, hundo⟩ := ih hkeys' h.after_insertLine
          rw [he] at hchars hlines hundo
          obtain ⟨hchars₁, hlines₁⟩ := h.size_insertLine
          have hn : e.size - s.size = (e.size - (s.apply (.insertLine u)).size) + 1 := by
            simp only [size]
            omega
          rw [hchars₁] at hchars hundo
          refine ⟨hchars, by omega, ?_⟩
          rw [hn, Function.iterate_succ_apply', hundo]
          split
          · exact h.del_insertLine
          · exact h.del_gather

end Sheet

variable {R : Type} [Rope R]

/-- Each cursor of a user is in a line. -/
theorem Attended.between {S : Buffer R} (h : Attended S) {v : Int} {x : Place} (hx : (S.sheet id).curs v = some x) :
    ∃ A a b B, (S.sheet id).Between v A a b B := by
  obtain ⟨d, hd, hrange⟩ := h.reached.inRange
  rw [hd.holds.sheet] at hx ⊢
  by_cases hv : v = 0
  · simp [Doc.sheet, hv] at hx
  · rw [Doc.sheet_curs hv] at hx
    obtain ⟨A, lid, a, b, B, hcut, rfl, hle, -⟩ := hrange.sheet_cut id hd.holds.wf hx
    rw [List.append_cons] at hcut
    obtain ⟨n, hn⟩ := Nat.exists_eq_add_of_le (Nat.succ_le_succ hle)
    have htexts := Doc.texts_of_cut hcut hn
    refine ⟨A.map Prod.snd, a, b, (B.take n).map Prod.snd, ?_, ?_⟩
    · rw [List.append_cons]
      exact htexts
    · rw [Doc.sheet_curs hv, List.length_map]
      exact hx

section
variable {w₀ w : World R} {trace : List (Step R)}

/-- Whatever the log starts with was all of it at some point. -/
theorem Run.log_start {ok : World R → Event → Prop} (h : Run ok w₀ trace w) {before after : List Entry}
    (hlog : log trace = before ++ after) : ∃ t w', Run ok w₀ t w' ∧ log t = before := by
  induction h generalizing after with
  | init => exact ⟨[], w₀, .init, (List.append_eq_nil_iff.mp hlog.symm).1.symm⟩
  | @step trace w w' ev hrun hpossible hok hev ih =>
      rcases List.eq_nil_or_concat after with rfl | ⟨after, e, rfl⟩
      · exact ⟨_, w', hrun.step hpossible hok hev, hlog.trans (List.append_nil _)⟩
      · rw [log_cons] at hlog
        cases he : w.entry ev with
        | none => exact ih (by rw [he, Option.toList_none, List.append_nil] at hlog; exact hlog)
        | some e' =>
            rw [he, Option.toList_some, List.concat_eq_append, ← List.append_assoc] at hlog
            exact ih (List.append_inj_left' hlog rfl)

theorem Sheet.perform_eq_apply {v : Int} {keys : List Op} (hkeys : ∀ op ∈ keys, op.Types v) (s : Sheet) :
    keys.foldl Sheet.perform s = keys.foldl Sheet.apply s := by
  induction keys generalizing s with
  | nil => rfl
  | cons op keys ih =>
      have hop : s.perform op = s.apply op := by
        have hop := hkeys op (List.mem_cons_self ..)
        cases op with
        | new | copyOwn | free | move | del => exact hop.elim
        | insert | insertLine => rfl
      rw [List.foldl_cons, List.foldl_cons, hop]
      exact ih (fun op hop => hkeys op (List.mem_cons_of_mem _ hop)) _

theorem Sheet.foldl_of_none {s : Sheet} {v : Int} {ops : List Op} (hops : ∀ op ∈ ops, op.cursor = v) (hnone : s.curs v = none) :
    ops.foldl Sheet.apply s = s := by
  induction ops with
  | nil => rfl
  | cons op ops ih =>
      rw [List.foldl_cons, Sheet.apply_of_none (by rw [hops op (List.mem_cons_self ..), hnone])]
      exact ih fun op hop => hops op (List.mem_cons_of_mem _ hop)

theorem Sheet.perform_replicate (s : Sheet) (n : Nat) (v : Int) :
    (List.replicate n (Op.del v)).foldl Sheet.perform s = (Sheet.apply · (.del v))^[n] s := by
  induction n generalizing s with
  | zero => rfl
  | succ n ih =>
      rw [List.replicate_succ, List.foldl_cons, Function.iterate_succ_apply]
      exact ih _

/-- Whatever a user of a worker types, with nobody else in between: when he has pressed DELETE until the text has its old
    length, the text and all places are as before, except that a cursor one column after his own has come to it if a
    character was typed. -/
theorem typing_undone (h₀ : WorkerStart w₀) (h : Run Event.Orderly w₀ trace w) {b₀ : Buffer R} (hb₀ : w₀.proc.buf = some b₀)
    {before keys : List Op} {v : Int} {s e : Sheet} (hkeys : ∀ op ∈ keys, op.Types v)
    (hs : s = before.foldl Sheet.perform (b₀.sheet id)) (he : e = keys.foldl Sheet.perform s)
    (hlog : (log trace).map Entry.op = before ++ keys ++ List.replicate (e.size - s.size) (.del v)) :
    ∃ b, w.proc.buf = some b ∧ b.sheet id = if e.chars = s.chars then s else s.gather v := by
  obtain ⟨b, hb, -, hsheet⟩ := h.attended h₀ hb₀
  refine ⟨b, hb, ?_⟩
  rw [hlog, List.foldl_append, List.foldl_append, ← hs, ← he, Sheet.perform_replicate] at hsheet
  rw [hsheet, he, Sheet.perform_eq_apply hkeys]
  cases hx : s.curs v with
  | some x =>
      -- before the keys the cursor was in a line
      obtain ⟨log₁, log₂, hsplit, hbefore, -⟩ := List.map_eq_append_iff.mp (hlog.trans (List.append_assoc ..))
      obtain ⟨t, w₁, h₁, hlog₁⟩ := h.log_start hsplit
      obtain ⟨b₁, -, hattended, hsheet₁⟩ := h₁.attended h₀ hb₀
      rw [hlog₁, hbefore, ← hs] at hsheet₁
      rw [← hsheet₁] at hx
      obtain ⟨A, a, c, B, hbetween⟩ := hattended.between hx
      rw [hsheet₁] at hbetween
      exact (Sheet.undo hkeys hbetween).2.2
  | none =>
      rw [Sheet.foldl_of_none (fun op hop => (hkeys op hop).cursor) hx, Nat.sub_self, if_pos rfl]
      rfl

end

/-- Anna stands one column after Bert when he types three keys and takes them back. -/
def undoEvents : List Event :=
  pairEvents.take 6 ++
    [.message 0 (createMsg .moveCursor 1 1 0 (some (bytes "3"))) demoAnswers,
      .message 1 (createMsg .insert 2 1 0 (some (bytes "x"))) demoAnswers,
      .message 1 (createMsg .insertLine 2 1 1 none) demoAnswers, .message 1 (createMsg .insert 2 1 2 (some (bytes "y"))) demoAnswers,
      .message 1 (createMsg .delete 2 1 3 none) demoAnswers, .message 1 (createMsg .delete 2 1 4 none) demoAnswers,
      .message 1 (createMsg .delete 2 1 5 none) demoAnswers]

theorem typing_undone_pair : ∃ (b₀ b : Buffer ListRope) (w : World ListRope) (trace : List (Step ListRope)) (s : Sheet),
    Run Event.Orderly (demoWorld .worker pairDisk (some b₀)) trace w ∧
    s = [.copyOwn 1, .copyOwn 2, .move 1 .right].foldl Sheet.perform (b₀.sheet id) ∧ s.curs 1 = some ⟨0, 1⟩ ∧
    w.proc.buf = some b ∧ b.sheet id = s.gather 2 ∧ (s.gather 2).curs 1 = some ⟨0, 0⟩ := by
  let before : List Op := [.copyOwn 1, .copyOwn 2, .move 1 .right]
  let keys : List Op := [.insert 2 (ch 'x'), .insertLine 2, .insert 2 (ch 'y')]
  let s (b : Buffer ListRope) : Sheet := before.foldl Sheet.perform (b.sheet id)
  let e (b : Buffer ListRope) : Sheet := keys.foldl Sheet.perform (s b)
  obtain ⟨b₀, hb₀, htest⟩ := exists_of_returns
    (x := bufferFromFile (R := ListRope) (bytes "ab") 1 workerHeight workerWidth false) (P := fun b =>
      ((demoWorld .worker pairDisk (some b)).play (fun w ev => ev.Orderly w) [] undoEvents).any fun x =>
        decide ((log x.2).map Entry.op = before ++ keys ++ List.replicate 3 (.del 2) ∧ (s b).curs 1 = some ⟨0, 1⟩ ∧
          (s b).curs 2 = some ⟨0, 0⟩ ∧ (s b).chars + 2 = (e b).chars ∧ (s b).size + 3 = (e b).size)) (by decide +kernel)
  obtain ⟨⟨w, trace⟩, hplay, hP⟩ := (Option.any_eq_true _ _).mp htest
  obtain ⟨hlog, hanna, hbert, hchars, hsize⟩ := of_decide_eq_true hP
  have hrun : Run Event.Orderly (demoWorld .worker pairDisk (some b₀)) trace w := Run.init.play hplay
  have hkeys : ∀ op ∈ keys, op.Types 2 := by simp [keys, Op.Types]
  obtain ⟨b, hb, hsheet⟩ := typing_undone (s := s b₀) (e := e b₀) (pairWorld_worker hb₀) hrun rfl hkeys rfl rfl
    (by rw [← hsize, Nat.add_sub_cancel_left]; exact hlog)
  rw [if_neg (by omega)] at hsheet
  refine ⟨b₀, b, w, trace, s b₀, hrun, rfl, hanna, hb, hsheet, ?_⟩
  rw [Sheet.gather_of_curs hbert]
  show ((s b₀).curs 1).map _ = _
  rw [hanna]
  rfl

end CoEditor
