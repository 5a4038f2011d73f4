-- SUMMARY: Cursors: finding, creating, copying, freeing and moving them.
import CoEditor.Buffer.Ui
import CoEditor.Buffer.Window

/-!
# Cursors

The cursor operations of `buffer.c` that leave the text alone. The `bcursor_…`
functions take a cursor id and look the cursor up first; the own cursor has id
`0`.
-/

namespace CoEditor

variable {R : Type} [Rope R]

/-! ## Finding lines and cursors -/

/-- The loop of `bline_find`, from `lit` back to `first`. -/
def blineFindFrom (b : Buffer R) (id : Int) : Nat → Option Ptr → Except Fault (Option Ptr)
  | _, none => pure none
  | 0, some _ => .error .endless
  | n + 1, some lit => do
      let l ← b.line lit
      if id = l.id then pure (some lit)
      else if lit ≠ b.first then blineFindFrom b id n l.prev
      else pure none

/-- Find a line by id between `last` and `first`. -/
def blineFind (b : Buffer R) (id : Int) : Except Fault (Option Ptr) :=
  blineFindFrom b id b.heap.cells.length b.last

/-- Find a cursor by id. -/
def bcursorFind (b : Buffer R) (id : Int) : Except Fault (Option CursRef) := do
  let own ← b.own
  if own.id = id then pure (some .own)
  else pure ((b.peerCurss.findIdx? fun o => o.any fun c => c.id = id).map .peer)

/-- Follow the `cursor*` that `bcursor_find` returned. -/
def derefCurs : Option CursRef → Except Fault CursRef
  | some c => pure c
  | none => .error .nullDeref

/-! ## Moving one cursor -/

/-- Move a cursor within the chain; the column is cut to the length of the new line. -/
def cursorMove (b : Buffer R) (c : Cursor) : CmoveDir → Except Fault (Cursor × CmoveRes)
  | .up => do
      let l ← b.line c.ownLine
      match l.prev with
      | some p =>
          if c.ownLine ≠ b.first then do
            let l ← b.line p
            let n := Rope.charCount l.str
            pure ({ c with ownLine := p, pos := if n < sizeT c.pos then n else c.pos }, .aUp)
          else pure (c, .aNone)
      | none => pure (c, .aNone)
  | .down => do
      let l ← b.line c.ownLine
      match l.next with
      | some p =>
          if some c.ownLine ≠ b.last then do
            let l ← b.line p
            let n := Rope.charCount l.str
            pure ({ c with ownLine := p, pos := if n < sizeT c.pos then n else c.pos }, .aDown)
          else pure (c, .aNone)
      | none => pure (c, .aNone)
  | .left =>
      -- cursor stays in the same line
      if 0 < c.pos then pure ({ c with pos := c.pos - 1 }, .aHorizontal)
      -- cursor moves into the previous line
      else do
        let l ← b.line c.ownLine
        match l.prev with
        | some p =>
            if c.ownLine ≠ b.first then do
              let l ← b.line p
              pure ({ c with ownLine := p, pos := Rope.charCount l.str }, .aUp)
            else pure (c, .aNone)
        | none => pure (c, .aNone)
  | .right => do
      let l ← b.line c.ownLine
      -- cursor stays in the same line
      if sizeT c.pos < Rope.charCount l.str then pure ({ c with pos := c.pos + 1 }, .aHorizontal)
      -- cursor moves into the next line
      else match l.next with
        | some p =>
            if some c.ownLine ≠ b.last then do
              let _ ← b.line p
              pure ({ c with ownLine := p, pos := 0 }, .aDown)
            else pure (c, .aNone)
        | none => pure (c, .aNone)

/-! ## Operations by cursor id -/

/-- Create a cursor in the line with id `lid` at `pos`. -/
def bcursorNew (b : Buffer R) (id lid pos : Int) : Except Fault (Buffer R × Bres) := do
  let l ← blineFind b lid
  let seen := (← b.lineAt l).onScreen
  let c := l.map fun p => ({ id, ownLine := p, pos } : Cursor)
  if id = 0 then pure ({ b with ownCurs := c }, .update)
  else match b.peerCurss.findIdx? (·.isNone) with
    | none => pure (b, .failed)
    | some i => pure ({ b with peerCurss := b.peerCurss.set i c }.uiUpdate seen, .update)

/-- Copy the own cursor into `peer_curss` under another id. -/
def bcursorCopyOwn (b : Buffer R) (id : Int) : Except Fault (Buffer R × Bres) := do
  let own ← b.own
  let l ← b.line own.ownLine
  bcursorNew b id l.id own.pos

def bcursorFree (b : Buffer R) (id : Int) : Except Fault (Buffer R × Bres) := do
  match ← bcursorFind b id with
  | none => .error .nullDeref -- c->own_line
  -- shouldn't ever delete own cursor
  | some .own => pure (b, .failed)
  | some (.peer i) => do
      let c ← b.curs (.peer i)
      let seen := (← b.line c.ownLine).onScreen
      pure ({ b with peerCurss := b.peerCurss.set i none }.uiUpdate seen, .update)

/-- Scroll before the own cursor leaves the edge of the window. -/
def scrollBefore (b : Buffer R) (c : CursRef) (ownLine : Ptr) : Except Fault (Buffer R) :=
  if c = .own then do
    let b ← runIf (b.top = some ownLine) (bufferScroll · .up) b
    runIf (b.bottom = some ownLine) (bufferScroll · .down) b
  else pure b

/-- The own cursor has come up to `ownLine`. -/
def noteUp (b : Buffer R) (ownLine : Ptr) : Except Fault (Buffer R) := do
  let l ← b.line ownLine
  let b ← b.modifyLineAt ({ · with where_ := .bellow }) l.next
  b.modifyLine ownLine ({ · with where_ := .same })

/-- The own cursor has come down to `ownLine`. -/
def noteDown (b : Buffer R) (ownLine : Ptr) : Except Fault (Buffer R) := do
  let l ← b.line ownLine
  let b ← b.modifyLineAt ({ · with where_ := .above }) l.prev
  b.modifyLine ownLine ({ · with where_ := .same })

/-- Scroll after the own cursor has moved, and note its new line in the `where` flags. -/
def scrollAfter (b : Buffer R) (c : CursRef) (ownLine : Ptr) (res : CmoveRes) :
    Except Fault (Buffer R) :=
  if c = .own then do
    let b ← runIf (res = .aUp ∧ b.top = some ownLine) (bufferScroll · .up) b
    let b ← runIf (res = .aDown ∧ b.bottom = some ownLine) (bufferScroll · .down) b
    let b ← runIf (res = .aUp) (noteUp · ownLine) b
    runIf (res = .aDown) (noteDown · ownLine) b
  else pure b

/-- Move the cursor `cur` kept at `c`, and scroll along if it is the own one. Also says whether the line it came to was on
    the screen then. -/
def moveCurs (b : Buffer R) (c : CursRef) (cur : Cursor) (dir : CmoveDir) :
    Except Fault (Buffer R × Bool) := do
  let b ← scrollBefore b c cur.ownLine
  let (cur, res) ← cursorMove b cur dir
  let b := b.setCurs cur c
  let l ← b.line cur.ownLine
  let b ← scrollAfter b c cur.ownLine res
  pure (b, l.onScreen)

/-- Move a cursor; check if we have to scroll. -/
def bcursorMove (b : Buffer R) (id : Int) (dir : CmoveDir) : Except Fault (Buffer R × Bres) := do
  let c ← derefCurs (← bcursorFind b id)
  let cur ← b.curs c
  let l ← b.line cur.ownLine
  let (b, seen) ← moveCurs b c cur dir
  pure (b.uiUpdate (l.onScreen || seen), .update)

end CoEditor
