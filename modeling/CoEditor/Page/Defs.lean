-- SUMMARY: The buffer as a list of rows: the same operations without heap and pointers.
import CoEditor.Buffer.Edit
import CoEditor.Lib.Positions

/-!
# Pages

A page is a buffer whose chain of lines is laid out as a list of rows. Lines
are named by their position, so following `prev` and `next` is arithmetic and
nothing can dangle. The operations below are those of the buffer read on rows;
`Page/Rep.lean` relates the two. The visible lines are the rows from `top` to
`bottom`, and the `on_screen` flags are not stored.
-/

namespace CoEditor

structure Row (R : Type) where
  ptr : Ptr
  id : Int
  str : R
  where_ : Crp

/-- A cursor that names its line by position. -/
structure PageCursor where
  id : Int
  row : Nat
  pos : Int
deriving DecidableEq, Repr

structure Page (R : Type) where
  id : Int
  ver : Int
  numLines : Int
  lineIdCnt : Int
  height : Int
  width : Int
  serverMode : Bool
  rows : List (Row R)
  last : Nat
  top : Nat
  bottom : Nat
  own : PageCursor
  peers : List (Option PageCursor)

def PageCursor.mapRow (f : Nat → Nat) (c : PageCursor) : PageCursor := { c with row := f c.row }

@[simp] theorem PageCursor.mapRow_id (f : Nat → Nat) (c : PageCursor) : (c.mapRow f).id = c.id := rfl
@[simp] theorem PageCursor.mapRow_row (f : Nat → Nat) (c : PageCursor) :
    (c.mapRow f).row = f c.row := rfl
@[simp] theorem PageCursor.mapRow_pos (f : Nat → Nat) (c : PageCursor) :
    (c.mapRow f).pos = c.pos := rfl

namespace Page

variable {R : Type} [Rope R]

def ptrs (p : Page R) : List Ptr := p.rows.map Row.ptr

/-! ## Cursors -/

def curs (p : Page R) : CursRef → Except Fault PageCursor
  | .own => .ok p.own
  | .peer i =>
      match p.peers[i]?.join with
      | some c => .ok c
      | none => .error .nullDeref

def setCurs (p : Page R) (c : PageCursor) : CursRef → Page R
  | .own => { p with own := c }
  | .peer i => { p with peers := p.peers.set i (some c) }

def find (p : Page R) (id : Int) : Option CursRef :=
  if p.own.id = id then some .own
  else (p.peers.findIdx? fun o => o.any fun c => c.id = id).map .peer

/-- The cursor a call acts at, or the `NULL` it follows. -/
def findCurs (p : Page R) (id : Int) : Except Fault CursRef := derefCurs (p.find id)

/-- Number of characters of a row. -/
def len (p : Page R) (i : Nat) : Nat := (p.rows[i]?.map fun r => Rope.charCount r.str).getD 0

/-- Move every cursor and every mark as the rows move. -/
def mapMarks (p : Page R) (f : Nat → Nat) : Page R :=
  { p with
    last := f p.last
    top := f p.top
    bottom := f p.bottom
    own := p.own.mapRow f
    peers := p.peers.map (Option.map (PageCursor.mapRow f)) }

/-- Put a row in at position `k`. -/
def insertRow (p : Page R) (k : Nat) (r : Row R) : Page R :=
  { p.mapMarks (bump k) with rows := p.rows.insertIdx k r }

/-- Take row `k` out. -/
def eraseRow (p : Page R) (k : Nat) : Page R :=
  { p.mapMarks (unbump k) with rows := p.rows.eraseIdx k }

def modifyRow (p : Page R) (k : Nat) (f : Row R → Row R) : Page R :=
  { p with rows := p.rows.modify k f }

/-! ## The window -/

/-- Is row `k` visible? -/
def visible (p : Page R) (k : Nat) : Bool := p.top ≤ k ∧ k ≤ p.bottom

/-- Does the flag of row `k` put it at or below the own cursor? -/
def notAbove (p : Page R) (k : Nat) : Bool := p.rows[k]?.any fun r => r.where_ ≠ .above

def scroll (p : Page R) : CmoveDir → Page R
  | .up =>
      if p.bottom = 0 ∨ p.top = 0 ∨ p.own.row = p.bottom ∨ p.own.row + 1 = p.bottom then p
      else { p with top := p.top - 1, bottom := p.bottom - 1 }
  | .down =>
      if p.top + 1 = p.rows.length ∨ p.bottom + 1 = p.rows.length ∨
          p.own.row = p.top ∨ p.own.row = p.top + 1 then p
      else { p with top := p.top + 1, bottom := p.bottom + 1 }
  | .left | .right => p

def scrollFromOwn (p : Page R) : Page R :=
  let p := if p.bottom = p.own.row then p.scroll .down else p
  if p.top = p.own.row then p.scroll .up else p

def trim (p : Page R) (k : Nat) : Page R :=
  if p.visible k then
    scrollFromOwn <|
      if p.notAbove k then
        if p.bottom ≠ p.own.row then { p with bottom := p.bottom - 1 }
        else { p with top := p.top + 1 }
      else
        if p.top ≠ p.own.row then { p with top := p.top + 1 }
        else { p with bottom := p.bottom - 1 }
  else p

/-- `bottom` moves down one line, or follows the `NULL` behind the chain. -/
def lowerBottom (p : Page R) : Except Fault (Page R) :=
  if p.bottom + 1 < p.rows.length then .ok { p with bottom := p.bottom + 1 }
  else .error .nullDeref

def extend (p : Page R) (k : Nat) : Except Fault (Page R) := do
  let p ← (
    if p.notAbove k then
      pure (if p.bottom + 1 < p.rows.length then { p with bottom := p.bottom + 1 } else p)
    else if p.top ≠ 0 then pure { p with top := p.top - 1 }
    else p.lowerBottom)
  pure p.scrollFromOwn

/-! ## Moving -/

/-- The column `pos` cut to the length of row `i`. -/
def cut (p : Page R) (i : Nat) (pos : Int) : Int := if p.len i < sizeT pos then p.len i else pos

def cursorMove (p : Page R) (c : PageCursor) : CmoveDir → PageCursor × CmoveRes
  | .up =>
      if c.row ≠ 0 then ({ c with row := c.row - 1, pos := p.cut (c.row - 1) c.pos }, .aUp)
      else (c, .aNone)
  | .down =>
      if c.row + 1 < p.rows.length ∧ c.row ≠ p.last then
        ({ c with row := c.row + 1, pos := p.cut (c.row + 1) c.pos }, .aDown)
      else (c, .aNone)
  | .left =>
      if 0 < c.pos then ({ c with pos := c.pos - 1 }, .aHorizontal)
      else if c.row ≠ 0 then ({ c with row := c.row - 1, pos := p.len (c.row - 1) }, .aUp)
      else (c, .aNone)
  | .right =>
      if sizeT c.pos < p.len c.row then ({ c with pos := c.pos + 1 }, .aHorizontal)
      else if c.row + 1 < p.rows.length ∧ c.row ≠ p.last then
        ({ c with row := c.row + 1, pos := 0 }, .aDown)
      else (c, .aNone)

def scrollBefore (p : Page R) (c : CursRef) (row : Nat) : Page R :=
  if c = .own then
    let p := if p.top = row then p.scroll .up else p
    if p.bottom = row then p.scroll .down else p
  else p

def noteUp (p : Page R) (row : Nat) : Page R :=
  (p.modifyRow (row + 1) ({ · with where_ := .bellow })).modifyRow row ({ · with where_ := .same })

def noteDown (p : Page R) (row : Nat) : Page R :=
  (p.modifyRow (row - 1) ({ · with where_ := .above })).modifyRow row ({ · with where_ := .same })

def scrollAfter (p : Page R) (c : CursRef) (row : Nat) (res : CmoveRes) : Page R :=
  if c = .own then
    let p := if res = .aUp ∧ p.top = row then p.scroll .up else p
    let p := if res = .aDown ∧ p.bottom = row then p.scroll .down else p
    let p := if res = .aUp then p.noteUp row else p
    if res = .aDown then p.noteDown row else p
  else p

/-- Move the cursor `cur` kept at `c`. -/
def moveCurs (p : Page R) (c : CursRef) (cur : PageCursor) (dir : CmoveDir) : Page R :=
  let p := p.scrollBefore c cur.row
  let (cur, res) := p.cursorMove cur dir
  (p.setCurs cur c).scrollAfter c cur.row res

def bcursorMove (p : Page R) (id : Int) (dir : CmoveDir) : Except Fault (Page R) := do
  let c ← p.findCurs id
  let cur ← p.curs c
  pure (p.moveCurs c cur dir)

/-- The id of row `k`. -/
def idAt (p : Page R) (k : Nat) : Option Int := p.rows[k]?.map Row.id

/-- The row with id `id` at or above row `k`. -/
def blineFindFrom (p : Page R) (id : Int) : Nat → Option Nat
  | 0 => if p.idAt 0 = some id then some 0 else none
  | k + 1 => if p.idAt (k + 1) = some id then some (k + 1) else p.blineFindFrom id k

def blineFind (p : Page R) (id : Int) : Option Nat := p.blineFindFrom id p.last

/-- Put a cursor into its place: the own one, or the first free slot. -/
def addCurs (p : Page R) (c : PageCursor) : Page R × Bres :=
  if c.id = 0 then ({ p with own := c }, .update)
  else match p.peers.findIdx? (·.isNone) with
    | none => (p, .failed)
    | some i => ({ p with peers := p.peers.set i (some c) }, .update)

def bcursorNew (p : Page R) (id lid pos : Int) : Except Fault (Page R × Bres) :=
  match p.blineFind lid with
  | none => .error .nullDeref
  | some row => .ok (p.addCurs ⟨id, row, pos⟩)

def bcursorCopyOwn (p : Page R) (id : Int) : Except Fault (Page R × Bres) :=
  match p.idAt p.own.row with
  | none => .error .useAfterFree
  | some lid => p.bcursorNew id lid p.own.pos

def bcursorFree (p : Page R) (id : Int) : Except Fault (Page R × Bres) :=
  match p.find id with
  | none => .error .nullDeref
  | some .own => .ok (p, .failed)
  | some (.peer i) => .ok ({ p with peers := p.peers.set i none }, .update)

/-! ## Editing -/

def forPeers (f : Page R → CursRef → PageCursor → Except Fault (Page R)) (p : Page R) :
    Except Fault (Page R) :=
  (List.range maxCursorNum).foldlM (fun p i =>
    match p.peers[i]?.join with
    | none => pure p
    | some o => f p (.peer i) o) p

/-- Run `f` for the own cursor and then for every peer cursor. -/
def forCurs (f : Page R → CursRef → PageCursor → Except Fault (Page R)) (p : Page R) :
    Except Fault (Page R) := do
  let p ← f p .own p.own
  p.forPeers f

/-- Does cursor `o`, kept at `ref`, stand after `cur`, kept at `c`, in the same row? -/
def after (c : CursRef) (cur : PageCursor) (ref : CursRef) (o : PageCursor) : Bool :=
  c ≠ ref ∧ cur.row = o.row ∧ cur.pos < o.pos

def nudge (c : CursRef) (cur : PageCursor) (d : Int) (ref : CursRef) (o : PageCursor) : PageCursor :=
  if after c cur ref o then { o with pos := o.pos + d } else o

def nudgeOthers (p : Page R) (c : CursRef) (cur : PageCursor) (d : Int) : Page R :=
  { p with
    own := nudge c cur d .own p.own
    peers := p.peers.mapIdx fun i o => o.map (nudge c cur d (.peer i)) }

def bcursorInsert (p : Page R) (id : Int) (chr : UInt8) : Except Fault (Page R × Bres) :=
  match p.find id with
  | none => .ok (p, .failed)
  | some c => do
      let cur ← p.curs c
      if sizeT (p.width - 1) ≤ p.len cur.row then pure (p, .update) else
        let p := p.modifyRow cur.row fun r =>
          { r with str := Rope.insert r.str (sizeT cur.pos) (hstr chr) }
        let cur := { cur with pos := cur.pos + 1 }
        pure ((p.setCurs cur c).nudgeOthers c cur 1, .update)

def splitOther (p : Page R) (c ref : CursRef) (o : PageCursor) : Except Fault (Page R) := do
  let cur ← p.curs c
  if after c cur ref o then
    (p.setCurs { o with pos := o.pos - cur.pos } ref).bcursorMove o.id .down
  else pure p

/-- Split the text of row `k` at column `pos`; the right part goes to the row right below. -/
def splitText (p : Page R) (k : Nat) (pos : Int) : Page R :=
  let copy := (p.rows[k]?.map fun r => Rope.copy r.str).getD Rope.new
  let p := p.modifyRow k fun r =>
    { r with str := Rope.del r.str (sizeT pos) (sizeSub (Rope.charCount copy) (sizeT pos)) }
  p.modifyRow (k + 1) fun r => { r with str := Rope.del copy 0 (sizeT pos) }

/-- Split the row of `c` at the column of `c`. -/
def splitLine (p : Page R) (c : CursRef) : Except Fault (Page R) := do
  let cur ← p.curs c
  (p.splitText cur.row cur.pos).forCurs (splitOther · c)

/-- The flag a row gets when it is put in at position `k`. -/
def newWhere (p : Page R) (k : Nat) : Crp :=
  match k, p.rows[k]? with
  | 0, _ => .above
  | _ + 1, none => .bellow
  | j + 1, some n =>
      if n.where_ = .same ∨ n.where_ = .above then .above
      else if p.notAbove j then .bellow else .above

/-- `line_new(b->line_id_cnt++, …)` at position `k`, in the fresh cell `ptr`. -/
def newRow (p : Page R) (k : Nat) (ptr : Ptr) : Page R :=
  { p.insertRow k ⟨ptr, p.lineIdCnt, Rope.new, p.newWhere k⟩ with lineIdCnt := p.lineIdCnt + 1 }

/-- In server mode the own cursor goes back up when a row was put in above it. -/
def homeUp (p : Page R) : Except Fault (Page R) :=
  runIf (p.serverMode ∧ p.own.row ≠ 0) (fun p => p.bcursorMove p.own.id .up) p

/-- The window after a row was put in above the cursor kept at `c`. -/
def scrollIfOwn (p : Page R) (c : CursRef) : Page R := if c = .own then p.scroll .up else p

/-- The insertion of an empty line above the cursor. -/
def insertAbove (p : Page R) (c : CursRef) (row : Nat) (ptr : Ptr) : Except Fault (Page R) :=
  (((p.newRow row ptr).trim row).scrollIfOwn c).homeUp

/-- The new row right below row `row`; it is the last one if that was. -/
def newBelow (p : Page R) (row : Nat) (ptr : Ptr) : Page R :=
  if row = p.last then { p.newRow (row + 1) ptr with last := row + 1 } else p.newRow (row + 1) ptr

/-- The insertion of a line below the cursor, which takes what is right of it. -/
def insertBelow (p : Page R) (id : Int) (c : CursRef) (row : Nat) (pos : Int) (ptr : Ptr) :
    Except Fault (Page R) := do
  let p ← runIf (sizeT pos ≠ p.len row) (splitLine · c) (p.newBelow row ptr)
  let cur ← p.curs c
  let p := (p.setCurs { cur with pos := 0 } c).trim (row + 1)
  p.bcursorMove id .down

/-- `ptr` is the cell the new line is allocated in. -/
def bcursorInsertLine (p : Page R) (id : Int) (ptr : Ptr) : Except Fault (Page R) := do
  let p := { p with numLines := p.numLines + 1 }
  let c ← p.findCurs id
  let cur ← p.curs c
  if cur.pos = 0 then p.insertAbove c cur.row ptr
  else p.insertBelow id c cur.row cur.pos ptr

def leaveRow (p : Page R) (k : Nat) (o : PageCursor) : Except Fault (Page R) :=
  runIf (o.row = k) (fun p => p.bcursorMove o.id .up) p

/-- The marks on row `k`, which goes, move to its neighbours. -/
def leaveMarks (p : Page R) (k : Nat) : Page R :=
  { p with
    top := if p.top = k then k - 1 else p.top
    bottom := if p.bottom = k then k + 1 else p.bottom
    last := if p.last = k then k - 1 else p.last }

/-- Delete row `k`, which is not the first. -/
def deletel (p : Page R) (k : Nat) : Except Fault (Page R) := do
  let p ← runIf (p.visible k) (extend · k) p
  let p ← (p.leaveMarks k).forCurs fun p _ o => p.leaveRow k o
  pure (p.eraseRow k)

def joinOther (p : Page R) (c ref : CursRef) (o : PageCursor) : Except Fault (Page R) := do
  let cur ← p.curs c
  if c ≠ ref ∧ cur.row + 1 = o.row then do
    let p ← p.bcursorMove o.id .up
    let o ← p.curs ref
    let cur ← p.curs c
    pure (p.setCurs { o with pos := o.pos + cur.pos } ref)
  else pure p

/-- Row `k` is about to take in the row below it. -/
def raiseLast (p : Page R) (k : Nat) : Page R := if k + 1 = p.last then { p with last := k } else p

/-- The text of row `k`. -/
def strAt (p : Page R) (k : Nat) : R := (p.rows[k]?.map Row.str).getD Rope.new

/-- Every line fits the scratch pad. -/
def Fits (p : Page R) : Prop := ∀ k, (Rope.writeCstr (p.strAt k)).length + 1 ≤ spSize

/-- The line that cursor `id` joins to the one above it, if it stands at its start, fits the scratch pad. -/
def JoinFits (p : Page R) (id : Int) : Prop :=
  ∀ ref c, p.find id = some ref → p.curs ref = .ok c → ¬ 0 < c.pos → c.row ≠ 0 →
    (Rope.writeCstr (p.strAt c.row)).length + 1 ≤ spSize

/-- Append the text of the row below row `k` to row `k`. -/
def joinText (p : Page R) (k : Nat) : Page R :=
  let s := Rope.writeCstr (p.strAt (k + 1))
  if 0 < s.length then
    p.modifyRow k fun r => { r with str := Rope.insert r.str (Rope.charCount r.str) s }
  else p

/-- The rows after the row below row `k` was joined to it. -/
def joinRows (p : Page R) (k : Nat) : Page R := (p.raiseLast k).joinText k

/-- Join the row below `c` to the row of `c`. -/
def joinLines (p : Page R) (c : CursRef) : Except Fault (Page R) := do
  let cur ← p.curs c
  let _ ← Buffer.writeSp (p.strAt (cur.row + 1))
  (p.joinRows cur.row).forCurs (joinOther · c)

def bcursorDel (p : Page R) (id : Int) : Except Fault (Page R × Bres) := do
  let c ← p.findCurs id
  let cur ← p.curs c
  if 0 < cur.pos then
    let p := p.modifyRow cur.row fun r => { r with str := Rope.del r.str (sizeT (cur.pos - 1)) 1 }
    let cur := { cur with pos := cur.pos - 1 }
    pure ((p.setCurs cur c).nudgeOthers c cur (-1), .update)
  else if cur.row = 0 then pure (p, .failed)
  else do
    let p ← { p with numLines := p.numLines - 1 }.bcursorMove id .left
    let p ← p.joinLines c
    let cur ← p.curs c
    let p ← p.deletel (cur.row + 1)
    pure (p, .update)

end Page

end CoEditor
