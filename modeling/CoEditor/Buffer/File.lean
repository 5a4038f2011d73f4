-- SUMMARY: Loading a buffer from a file, saving it and freeing it: buffer_from_file, buffer_save, buffer_free.
import CoEditor.Buffer.Edit

/-!
# Files

A file is the list of its bytes. Loading replays the bytes as edits of the own
cursor on an empty buffer; saving writes the lines out one after the other.
-/

namespace CoEditor

variable {R : Type} [Rope R]

/-- A buffer whose fields up to `num_lines` are set; nothing else is assigned yet. -/
def bufferAlloc (R : Type) (id height width : Int) : Buffer R where
  id
  ver := 0
  numLines := height
  lineIdCnt := 0
  height
  width
  first := 0
  last := none
  top := none
  bottom := none
  ownCurs := none
  peerCurss := []
  u := .unset
  serverMode := false
  heap := .empty
  unsetRead := false
  paintFault := none

/-- The loop that appends `n` empty lines after `pp`. -/
def padLines : Nat → Buffer R → Ptr → Except Fault (Buffer R)
  | 0, b, _ => pure b
  | n + 1, b, pp => do
      let (b, l) ← lineNewCnt b (some pp) none
      padLines n { b with bottom := some l } l

/-- The empty buffer that `buffer_from_file` starts from. -/
def bufferEmpty (id height width : Int) : Except Fault (Buffer R) := do
  let b := bufferAlloc R id height width
  let (b, l) ← lineNewCnt b none none
  let b := { b with first := l, top := some l, last := some l }
  let b ← padLines (height - 1).toNat b l
  let (b, _) ← bcursorNew b 0 0 0
  binitOnscreenInfo { b with peerCurss := List.replicate maxCursorNum none }

/-- Replay one byte of the file. -/
def loadByte (b : Buffer R) (c : UInt8) : Except Fault (Buffer R) :=
  if c = 10 then Prod.fst <$> bcursorInsertLine b 0
  else Prod.fst <$> bcursorInsert b 0 c

/-- Initialize a buffer from the content of a file. -/
def bufferFromFile (data : Bytes) (id height width : Int) (ui : Bool) : Except Fault (Buffer R) := do
  let b ← bufferEmpty id height width
  let b ← data.foldlM loadByte b
  let b ← (List.range (data.count 10)).foldlM (fun b _ => Prod.fst <$> bcursorMove b 0 .up) b
  let c ← derefCurs (← bcursorFind b 0)
  let cur ← b.curs c
  let b := b.setCurs { cur with pos := 0 } c
  pure (if ui then { b with u := .ui } else { b with u := .null, serverMode := true })

/-- The loop of `buffer_save` from line `lit` on. -/
def saveLines (b : Buffer R) : Nat → Option Ptr → Except Fault Bytes
  | _, none => pure []
  | 0, some _ => .error .endless
  | n + 1, some lit => do
      let l ← b.line lit
      let s ← Buffer.writeSp l.str
      if some lit ≠ b.last then do
        let rest ← saveLines b n l.next
        pure (s ++ 10 :: rest)
      else pure (s ++ [10])

/-- The bytes `buffer_save` writes to the file. -/
def bufferSave (b : Buffer R) : Except Fault Bytes :=
  saveLines b b.heap.cells.length (some b.first)

/-- The loop of `buffer_free` over the lines, from `lit` on. -/
def freeLines (b : Buffer R) : Nat → Option Ptr → Except Fault (Buffer R)
  | _, none => pure b
  | 0, some _ => .error .endless
  | n + 1, some lit => do
      let l ← b.line lit -- litnext = lit->next
      let b ← lineFree b lit
      freeLines b n l.next

/-- Free a buffer; what is left of the memory of its lines. Cursors are kept in place and go with the buffer. -/
def bufferFree (b : Buffer R) : Except Fault (Heap (Line R)) := do
  if b.u = .unset then .error .unset -- ui_free(b->u)
  let _ ← b.own -- cursor_free(b->own_curs)
  let b ← freeLines b b.heap.cells.length (some b.first)
  pure b.heap

end CoEditor
