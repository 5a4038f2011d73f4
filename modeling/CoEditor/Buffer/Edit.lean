-- SUMMARY: Edits of the text: character insertion, line insertion and deletion.
import CoEditor.Buffer.Cursors

/-!
# Editing

The operations of `buffer.c` that change the text. Each acts at one cursor and
then carries the other cursors along.
-/

namespace CoEditor

variable {R : Type} [Rope R]

/-! ## Characters -/

/-- Insert a character at a cursor. -/
def cursorInsert (b : Buffer R) (c : CursRef) (chr : UInt8) : Except Fault (Buffer R × Bres) := do
  let cur ← b.curs c
  let l ← b.line cur.ownLine
  if sizeT (b.width - 1) ≤ Rope.charCount l.str then pure (b, .failed) else do
    let b ← b.modifyLine cur.ownLine ({ · with str := Rope.insert l.str (sizeT cur.pos) (hstr chr) })
    pure (b.setCurs { cur with pos := cur.pos + 1 } c, .update)

/-- Delete the character before a cursor. -/
def cursorDel (b : Buffer R) (c : CursRef) : Except Fault (Buffer R × Bres) := do
  let cur ← b.curs c
  if cur.pos = 0 then pure (b, .failed) else do
    let l ← b.line cur.ownLine
    let b ← b.modifyLine cur.ownLine ({ · with str := Rope.del l.str (sizeT (cur.pos - 1)) 1 })
    pure (b.setCurs { cur with pos := cur.pos - 1 } c, .update)

/-- Move cursor `o`, kept at `ref`, by `d` columns if it stands after `cur`, kept at `c`, in the
    same line. -/
def nudge (c : CursRef) (cur : Cursor) (d : Int) (ref : CursRef) (o : Cursor) : Cursor :=
  if c ≠ ref ∧ cur.ownLine = o.ownLine ∧ cur.pos < o.pos then { o with pos := o.pos + d } else o

/-- Nudge the own cursor and every peer cursor. -/
def nudgeOthers (b : Buffer R) (c : CursRef) (d : Int) : Except Fault (Buffer R) := do
  let cur ← b.curs c
  let own ← b.own
  pure { b with
    ownCurs := some (nudge c cur d .own own)
    peerCurss := b.peerCurss.mapIdx fun i o => o.map (nudge c cur d (.peer i)) }

/-- Insert a character at cursor `id`. -/
def bcursorInsert (b : Buffer R) (id : Int) (chr : UInt8) : Except Fault (Buffer R × Bres) := do
  match ← bcursorFind b id with
  | none => pure (b, .failed)
  | some c => do
      let (b, res) ← cursorInsert b c chr
      let b ← runIf (res = .update ∨ res = .success) (nudgeOthers · c 1) b
      pure (b.uiUpdate true, .update)

/-! ## Line insertion -/

/-- Does cursor `o`, kept at `ref`, stand after `c` in the line of `c`? -/
def standsAfter (b : Buffer R) (c ref : CursRef) (o : Cursor) : Except Fault Bool := do
  let cur ← b.curs c
  pure (c ≠ ref ∧ cur.ownLine = o.ownLine ∧ cur.pos < o.pos)

/-- Take a cursor that stands after `c` in the line of `c` into the next line. -/
def splitOther (b : Buffer R) (c ref : CursRef) (o : Cursor) : Except Fault (Buffer R) := do
  if ← standsAfter b c ref o then do
    let cur ← b.curs c
    let b := b.setCurs { o with pos := o.pos - cur.pos } ref
    let (b, _) ← bcursorMove b o.id .down
    pure b
  else pure b

/-- Run `f` for every peer cursor in the order of the slots. -/
def forPeers (f : Buffer R → CursRef → Cursor → Except Fault (Buffer R)) (b : Buffer R) :
    Except Fault (Buffer R) :=
  (List.range maxCursorNum).foldlM (fun b i =>
    match b.peerCurss[i]?.join with
    | none => pure b
    | some o => f b (.peer i) o) b

/-- Run `f` for the own cursor and then for every peer cursor. -/
def forCurs (f : Buffer R → CursRef → Cursor → Except Fault (Buffer R)) (b : Buffer R) :
    Except Fault (Buffer R) := do
  let own ← b.own
  let b ← f b .own own
  forPeers f b

/-- Split the line of `c`: the text right of `c` goes to `ll`, and the cursors in it too. -/
def splitLine (b : Buffer R) (c : CursRef) (ll : Ptr) : Except Fault (Buffer R) := do
  let cur ← b.curs c
  let new ← b.line ll
  let prev ← b.lineAt new.prev
  let copy := Rope.copy prev.str
  let b ← b.modifyLineAt ({ · with
    str := Rope.del prev.str (sizeT cur.pos) (sizeSub (Rope.charCount copy) (sizeT cur.pos)) })
    new.prev
  let b ← b.modifyLine ll ({ · with str := Rope.del copy 0 (sizeT cur.pos) })
  forCurs (splitOther · c) b

/-- In server mode the own cursor goes back up when a line was put in above it. -/
def homeUp (b : Buffer R) : Except Fault (Buffer R) := do
  let own ← b.own
  runIf (b.serverMode ∧ own.ownLine ≠ b.first) (Prod.fst <$> bcursorMove · own.id .up) b

/-- `if(ll->on_screen) buffer_trim(b, ll)`. -/
def trimIfSeen (b : Buffer R) (ll : Ptr) : Except Fault (Buffer R) := do
  let l ← b.line ll
  runIf l.onScreen (bufferTrim · ll) b

/-- `c->pos == 0`: an empty line `ll` above line `l` of the cursor. -/
def insertAbove (b : Buffer R) (c : CursRef) (cur : Cursor) (l : Line R) :
    Except Fault (Buffer R × Ptr) := do
  let (b, ll) ← lineNewCnt b l.prev (some cur.ownLine)
  let b := if cur.ownLine = b.first then { b with first := ll } else b
  let b ← trimIfSeen b ll
  let b ← runIf (c = .own) (bufferScroll · .up) b
  let b ← homeUp b
  pure (b, ll)

/-- `c->pos != 0`: what is right of the cursor moves into a new line `ll` below line `l` of the cursor,
    and the cursor with it. -/
def insertBelow (b : Buffer R) (id : Int) (c : CursRef) (cur : Cursor) (l : Line R) :
    Except Fault (Buffer R × Ptr) := do
  let (b, ll) ← lineNewCnt b (some cur.ownLine) l.next
  let b := if some cur.ownLine = b.last then { b with last := some ll } else b
  let b ← runIf (sizeT cur.pos ≠ Rope.charCount l.str) (splitLine · c ll) b
  let cur ← b.curs c
  let b := b.setCurs { cur with pos := 0 } c
  let b ← trimIfSeen b ll
  let (b, _) ← bcursorMove b id .down
  pure (b, ll)

/-- Insert a new line at cursor `id`. -/
def bcursorInsertLine (b : Buffer R) (id : Int) : Except Fault (Buffer R × Bres) := do
  let b := { b with numLines := b.numLines + 1 }
  let c ← derefCurs (← bcursorFind b id)
  let cur ← b.curs c
  let l ← b.line cur.ownLine
  let (b, ll) ← (if cur.pos = 0 then insertAbove b c cur l else insertBelow b id c cur l)
  let new ← b.line ll
  pure (b.uiUpdate new.onScreen, .update)

/-! ## Deletion -/

/-- Move the cursor at `ref` one line up if it is on line `l`. -/
def leaveLine (b : Buffer R) (l : Ptr) (o : Cursor) : Except Fault (Buffer R) :=
  runIf (o.ownLine = l) (Prod.fst <$> bcursorMove · o.id .up) b

/-- Move every cursor on line `l` one line up. -/
def leaveAll (b : Buffer R) (l : Ptr) : Except Fault (Buffer R) :=
  forCurs (fun b _ o => leaveLine b l o) b

/-- `b->top` takes the place of a line that goes. -/
def setTop (b : Buffer R) (top : Option Ptr) : Except Fault (Buffer R) :=
  { b with top }.modifyLineAt ({ · with onScreen := true }) top

def setBottom (b : Buffer R) (bottom : Option Ptr) : Except Fault (Buffer R) :=
  { b with bottom }.modifyLineAt ({ · with onScreen := true }) bottom

/-- Delete line `l`. -/
def bufferDeletel (b : Buffer R) (l : Ptr) : Except Fault (Buffer R) := do
  let ll ← b.line l
  let b ← runIf ll.onScreen (bufferExtend · l) b
  let b ← runIf (b.top = some l) (setTop · ll.prev) b
  let b ← runIf (b.bottom = some l) (setBottom · ll.next) b
  let b := if b.last = some l then { b with last := ll.prev } else b
  let b ← runIf (ll.prev ≠ none) (leaveAll · l) b
  lineFree b l

/-- Take a cursor on the line after that of `c` along when that line is joined to it. -/
def joinOther (b : Buffer R) (c ref : CursRef) (o : Cursor) : Except Fault (Buffer R) := do
  let cur ← b.curs c
  let l ← b.line cur.ownLine
  if c ≠ ref ∧ l.next = some o.ownLine then do
    let (b, _) ← bcursorMove b o.id .up
    let o ← b.curs ref
    let cur ← b.curs c
    pure (b.setCurs { o with pos := o.pos + cur.pos } ref)
  else pure b

/-- Join the line after that of `c` to it. -/
def joinLines (b : Buffer R) (c : CursRef) : Except Fault (Buffer R) := do
  let cur ← b.curs c
  let l ← b.line cur.ownLine
  let b := if l.next = b.last then { b with last := some cur.ownLine } else b
  let next ← b.lineAt l.next
  let s ← Buffer.writeSp next.str
  let b ← runIf (0 < s.length)
    (·.modifyLine cur.ownLine ({ · with str := Rope.insert l.str (Rope.charCount l.str) s })) b
  forCurs (joinOther · c) b

/-- Delete the character before cursor `id`, or join its line to the one above. -/
def bcursorDel (b : Buffer R) (id : Int) : Except Fault (Buffer R × Bres) := do
  let c ← derefCurs (← bcursorFind b id)
  let cur ← b.curs c
  let seen := (← b.line cur.ownLine).onScreen
  if 0 < cur.pos then do
    let (b, res) ← cursorDel b c
    let b ← runIf (res = .update ∨ res = .success) (nudgeOthers · c (-1)) b
    let l ← b.line cur.ownLine
    pure (b.uiUpdate (seen || l.onScreen), .update)
  else if cur.ownLine = b.first then pure (b, .failed)
  else do
    let b := { b with numLines := b.numLines - 1 }
    -- move deleting cursor into prev line
    let (b, _) ← bcursorMove b id .left
    let b ← joinLines b c
    let cur ← b.curs c
    let l ← b.line cur.ownLine
    -- delete line
    match l.next with
    | none => .error .nullDeref
    | some next => do
        let b ← bufferDeletel b next
        let cur ← b.curs c
        let l ← b.line cur.ownLine
        pure (b.uiUpdate (seen || l.onScreen), .update)

end CoEditor
