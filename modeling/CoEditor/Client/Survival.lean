-- SUMMARY: What was typed into a document is there when its worker has shut down and another one is started.
import CoEditor.Client.Opening

/-!
# Surviving a shutdown

A worker lives until it is interrupted. Then it saves the lines of its document
to the file that the registry lists, and the next worker of the document loads
them. Whoever joins that one shows what was typed in the life of the first, but
there is an empty line at the end that nobody has typed.
-/

namespace CoEditor

variable {R : Type} [Rope R]

/-- The lines have been typed with the keys that print something, and are shorter than the width of a worker. -/
def Storable (texts : List (List Char)) : Prop := ∀ t ∈ texts, Printable t ∧ (t.length : Int) ≤ workerWidth - 1

instance (texts : List (List Char)) : Decidable (Storable texts) := by unfold Storable; infer_instance

/-! ## The file -/

section
variable {texts : List (List Char)}

/-- Such lines fit the scratch pad. -/
theorem Storable.fits (h : Storable texts) : ∀ t ∈ texts, FitsSp t := by
  intro t ht
  obtain ⟨hprint, hlen⟩ := h t ht
  rw [FitsSp, Utf8.encode_ascii fun d hd => Nat.lt_trans (hprint d hd).2 (by decide), List.length_map]
  have : (t.length : Int) ≤ 19 := hlen
  show t.length + 1 ≤ 2048
  omega

/-- The plain document of a file that was saved. -/
theorem Storable.load_stored (h : Storable texts) :
    Sheet.load (stored texts) = ⟨workerWidth, texts ++ [[]], fun _ => none⟩ := by
  have hself : (texts.map Utf8.encode).map (Doc.typedText workerWidth) = texts := by
    rw [List.map_map]
    exact (List.map_congr_left fun t ht => (h t ht).1.typedText (h t ht).2).trans (List.map_id _)
  rw [Sheet.load, splitOn_stored fun t ht => (h t ht).1.newline_notMem, List.map_append, hself]
  rfl

end

/-! ## The next worker -/

section
variable {s : Step R} {f port : Int} {child : Child R} {content name : Bytes} {trace : List (Step R)} {wk : World R} {d : Disk}
  {texts : List (List Char)}

/-- A worker that shuts down saves its lines to the file that is then listed, and nothing else. -/
theorem Step.Forks.saves (h : s.Forks f port child content) (hascii : Ascii content)
    (hrun : Run Event.Orderly (child.world s.pre.disk) trace wk) (hname : getFileName d f = .ok (some name))
    (htexts : texts = (((log trace).map Entry.op).foldl Sheet.perform (Sheet.load content)).texts) (hstorable : Storable texts) :
    { wk with disk := d }.handleShutdown =
      .ok (d.set name (some { (d.get name).getD (.closed []) with content := stored texts }), []) := by
  obtain ⟨h₀, b₀, hload, hb₀⟩ := h.start
  obtain ⟨b, hb, hattended, hsheet⟩ := hrun.attended h₀ hb₀
  obtain ⟨b', hb', hid⟩ := hrun.worker_buf h₀.mode hb₀
  obtain rfl := Option.some.inj (hb.symm.trans hb')
  have hid₀ : b₀.id = f := congrArg Prod.fst (bufferFromFile_frame content f workerHeight workerWidth false b₀ hload)
  have hmode : wk.proc.mode = .worker := hrun.frame.1.trans h₀.mode
  obtain rfl : texts = b.texts := by
    rw [htexts, ← load_sheet hascii hload, ← hsheet]
    rfl
  obtain ⟨doc, hd, -⟩ := hattended.reached.inRange
  have hsave : bufferSave b = .ok (stored b.texts) := hd.holds.bufferSave.mpr ⟨hstorable.fits, rfl⟩
  simp only [World.handleShutdown, hmode, hb, hid, hid₀, hname, saveAs, hsave, Except.ok_bind_eq]
  rfl

/-- What the users of a worker have typed survives it. When the worker shuts down, exactly the file that is then listed for its
    document changes, and whoever joins a worker that is forked for the document with the files left behind shows the lines
    as they were, with an empty one after them, and what has been typed since. -/
theorem document_survives (h : s.Forks f port child content) (hascii : Ascii content)
    (hrun : Run Event.Orderly (child.world s.pre.disk) trace wk) (hname : getFileName d f = .ok (some name))
    (hapart : d.canon name ≠ d.canon filesTxt)
    (htexts : texts = (((log trace).map Entry.op).foldl Sheet.perform (Sheet.load content)).texts) (hstorable : Storable texts) :
    ∃ d', { wk with disk := d }.handleShutdown = .ok (d', []) ∧
      (∀ other, d.canon other ≠ d.canon name → d'.get other = d.get other) ∧
      ∀ (s' : Step R) port' child' content' trace' wk' (t : Site R), s'.pre.disk = d' → s'.Forks f port' child' content' →
        Run Event.Orderly (child'.world d') trace' wk' → t.Joined trace' wk' →
        ∃ C, t.editor.b = some C ∧ C.sheet (clientId t.editor.userId) =
          ((log trace').map Entry.op).foldl Sheet.perform ⟨workerWidth, texts ++ [[]], fun _ => none⟩ := by
  refine ⟨_, h.saves hascii hrun hname htexts hstorable, fun other hother => Disk.get_set_ne d hother _, ?_⟩
  intro s' port' child' content' trace' wk' t hdisk h' hrun' hjoined
  -- the registry is as it was, so the next worker loads the file that was saved
  have hsame : getFileName s'.pre.disk f = .ok (some name) := by
    rw [hdisk, ← hname]
    exact getFileName_congr (Disk.get_set_ne d hapart.symm _)
  obtain ⟨name', fp, hlisted, hfile, rfl⟩ := h'.listed
  obtain rfl := Option.some.inj (Except.ok.inj (hsame.symm.trans hlisted))
  rw [hdisk, Disk.get_set_self] at hfile
  obtain rfl := Option.some.inj hfile
  rw [← hdisk] at hrun'
  obtain ⟨C, hC, hsheet⟩ := h'.shows (stored_ascii fun t ht => (hstorable t ht).1) hrun' hjoined
  exact ⟨C, hC, by rw [hsheet, hstorable.load_stored]⟩

end

/-- A worker of the document that Anna and Bert share. -/
def pairChild (b : Buffer ListRope) : Child ListRope where
  pid := 77
  port := 46959
  name := some (bytes "doc")
  proc := demoProc .worker (some b)

/-- The step in which it was forked, with the files that were there. -/
def pairFork (d : Disk) : Step ListRope := ⟨demoWorld .server d none, .eof 0, demoWorld .server d none⟩

theorem pairFork_forks {d : Disk} {fp : Inode} {b : Buffer ListRope} (hlisted : getFileName d 1 = .ok (some (bytes "doc")))
    (hfile : d.get (bytes "doc") = some fp) (h : bufferFromFile fp.content 1 workerHeight workerWidth false = .ok b) :
    (pairFork d).Forks 1 46959 (pairChild b) fp.content := by
  obtain ⟨b', hload, hstart⟩ := startWorker_returns (demoProc .server none) 46959 77 hlisted hfile
  obtain rfl := Except.ok.inj (h.symm.trans hload)
  exact ⟨⟨_, _, hlisted, hfile, rfl⟩, _, hstart⟩

/-- The files that are there when Bert has typed his `x` and the worker has shut down. -/
def pairSaved : Disk :=
  pairDisk.set (bytes "doc") (some { (pairDisk.get (bytes "doc")).getD (.closed []) with content := stored ["xab".toList] })

/-- Bert's `x` survives, and Anna sees it when she joins the next worker. -/
theorem document_survives_pair : ∃ (b b' : Buffer ListRope) (trace trace' : List (Step ListRope)) (wk wk' : World ListRope)
    (t : Site ListRope) (C : Buffer ListRope),
    (pairFork pairDisk).Forks 1 46959 (pairChild b) (bytes "ab") ∧ Run Event.Orderly ((pairChild b).world pairDisk) trace wk ∧
    { wk with disk := pairDisk }.handleShutdown = .ok (pairSaved, []) ∧
    (∀ other, pairDisk.canon other ≠ pairDisk.canon (bytes "doc") → pairSaved.get other = pairDisk.get other) ∧
    (pairFork pairSaved).Forks 1 46959 (pairChild b') (stored ["xab".toList]) ∧
    Run Event.Orderly ((pairChild b').world pairSaved) trace' wk' ∧ t.Joined trace' wk' ∧ t.editor.b = some C ∧
    C.texts = ["xab".toList, []] ∧ C.sheet (clientId t.editor.userId) =
      ((log trace').map Entry.op).foldl Sheet.perform ⟨workerWidth, ["xab".toList] ++ [[]], fun _ => none⟩ := by
  have hplay : returns (bufferFromFile (R := ListRope) (bytes "ab") 1 workerHeight workerWidth false) (fun b =>
      (((pairChild b).world pairDisk).play (fun w ev => ev.Orderly w) [] pairEvents).any fun x =>
        decide (["xab".toList] = (((log x.2).map Entry.op).foldl Sheet.perform (Sheet.load (bytes "ab"))).texts)) = true := by
    decide +kernel
  have hnext : returns (bufferFromFile (R := ListRope) (stored ["xab".toList]) 1 workerHeight workerWidth false) (fun b' =>
      annaJoinsAs ((pairChild b').world pairSaved) fun anna => anna.b.map Buffer.texts = some ["xab".toList, []]) = true := by
    decide +kernel
  obtain ⟨b, hb, hplay⟩ := exists_of_returns hplay
  obtain ⟨⟨wk, trace⟩, hplay, htexts⟩ := (Option.any_eq_true _ _).mp hplay
  obtain ⟨b', hb', hnext⟩ := exists_of_returns hnext
  obtain ⟨wk', trace', t, hrun', hjoined, htexts'⟩ := exists_joined hnext
  have hname : getFileName pairDisk 1 = .ok (some (bytes "doc")) := by decide +kernel
  have hname' : getFileName pairSaved 1 = .ok (some (bytes "doc")) := by decide +kernel
  have hfile : pairDisk.get (bytes "doc") = some (.closed (bytes "ab")) := by rw [pairDisk, Disk.get_set_self]
  have hforks : (pairFork pairDisk).Forks 1 46959 (pairChild b) (bytes "ab") := pairFork_forks hname hfile hb
  have hforks' : (pairFork pairSaved).Forks 1 46959 (pairChild b') (stored ["xab".toList]) :=
    pairFork_forks hname' (Disk.get_set_self ..) hb'
  have hascii : Ascii (bytes "ab") := by decide
  have hrun : Run Event.Orderly ((pairChild b).world pairDisk) trace wk := Run.init.play hplay
  have htexts := of_decide_eq_true htexts
  obtain ⟨d', hshut, hothers, hshows⟩ := document_survives (d := pairDisk) hforks hascii hrun hname (by decide) htexts (by decide)
  obtain rfl : pairSaved = d' :=
    congrArg Prod.fst (Except.ok.inj ((hforks.saves hascii hrun hname htexts (by decide)).symm.trans hshut))
  obtain ⟨C, hC, hsheet⟩ := hshows _ _ _ _ _ _ t rfl hforks' hrun' hjoined
  have htexts' := of_decide_eq_true htexts'
  rw [hC] at htexts'
  exact ⟨b, b', trace, trace', wk, wk', t, C, hforks, hrun, hshut, hothers, hforks', hrun', hjoined, hC, Option.some.inj htexts',
    hsheet⟩

end CoEditor
