-- SUMMARY: Documents: what an editing operation does to lines and cursors, without window and slots.
import CoEditor.Page.Defs

/-!
# Documents

What the participants of an editing session share: the lines with their ids and
texts, `last`, the counters and the place of every cursor. The window and its
flags are gone, and with them every difference between the own cursor and a
peer cursor, except that the server's own cursor stays at the top. A document
operation is total and moves each cursor by itself.
-/

namespace CoEditor

variable {R : Type}

/-- Where a cursor is: a line by its position, and a column. -/
structure Place where
  row : Nat
  pos : Int
deriving DecidableEq, Repr

@[ext] structure Doc (R : Type) where
  numLines : Int
  lineIdCnt : Int
  height : Int
  width : Int
  serverMode : Bool
  lines : List (Int × R)
  last : Nat
  /-- The cursors by id. -/
  curs : Int → Option Place

namespace Doc

/-! ## Cursors -/

/-- Move each cursor by itself. -/
def mapCurs (d : Doc R) (f : Int → Place → Place) : Doc R :=
  { d with curs := fun i => (d.curs i).map (f i) }

/-- Put cursor `id` to `x`. -/
def put (d : Doc R) (id : Int) (x : Place) : Doc R :=
  { d with curs := fun i => if i = id then some x else d.curs i }

/-- Take cursor `id` away. -/
def drop (d : Doc R) (id : Int) : Doc R :=
  { d with curs := fun i => if i = id then none else d.curs i }

/-- Line `k` has id `lid`, and a cursor may be in it. -/
def HasLine (d : Doc R) (lid : Int) (k : Nat) : Prop :=
  k ≤ d.last ∧ d.lines[k]?.map Prod.fst = some lid

/-- `num_lines` changes by `n`. -/
def recount (d : Doc R) (n : Int) : Doc R := { d with numLines := d.numLines + n }

variable [Rope R]

/-- Number of characters of a line. -/
def len (d : Doc R) (k : Nat) : Nat := (d.lines[k]?.map fun l => Rope.charCount l.2).getD 0

/-- The text of a line. -/
def strAt (d : Doc R) (k : Nat) : R := (d.lines[k]?.map Prod.snd).getD Rope.new

/-- The column `pos` cut to the length of line `k`. -/
def cut (d : Doc R) (k : Nat) (pos : Int) : Int := if d.len k < sizeT pos then d.len k else pos

/-- One step of a cursor. -/
def step (d : Doc R) (x : Place) : CmoveDir → Place
  | .up => if x.row ≠ 0 then ⟨x.row - 1, d.cut (x.row - 1) x.pos⟩ else x
  | .down =>
      if x.row + 1 < d.lines.length ∧ x.row ≠ d.last then ⟨x.row + 1, d.cut (x.row + 1) x.pos⟩ else x
  | .left =>
      if 0 < x.pos then { x with pos := x.pos - 1 }
      else if x.row ≠ 0 then ⟨x.row - 1, d.len (x.row - 1)⟩
      else x
  | .right =>
      if sizeT x.pos < d.len x.row then { x with pos := x.pos + 1 }
      else if x.row + 1 < d.lines.length ∧ x.row ≠ d.last then ⟨x.row + 1, 0⟩
      else x

def move (d : Doc R) (id : Int) (dir : CmoveDir) : Doc R :=
  d.mapCurs fun i x => if i = id then d.step x dir else x

/-! ## Characters -/

/-- Change the text of line `k`. -/
def modifyStr (d : Doc R) (k : Nat) (f : R → R) : Doc R :=
  { d with lines := d.lines.modify k fun l => (l.1, f l.2) }

/-- Move cursor `id`, which is at `cur`, by `n` columns, and the cursors that are then after it. -/
def shift (d : Doc R) (id : Int) (cur : Place) (n : Int) : Doc R :=
  d.mapCurs fun i x =>
    if i = id then { cur with pos := cur.pos + n }
    else if cur.row = x.row ∧ cur.pos + n < x.pos then { x with pos := x.pos + n }
    else x

def insert (d : Doc R) (id : Int) (chr : UInt8) : Doc R :=
  match d.curs id with
  | none => d
  | some cur =>
      if sizeT (d.width - 1) ≤ d.len cur.row then d
      else (d.modifyStr cur.row (Rope.insert · (sizeT cur.pos) (hstr chr))).shift id cur 1

def delChar (d : Doc R) (id : Int) (cur : Place) : Doc R :=
  (d.modifyStr cur.row (Rope.del · (sizeT (cur.pos - 1)) 1)).shift id cur (-1)

/-! ## Lines -/

/-- An empty line at position `k`, under a new id. -/
def newLine (d : Doc R) (k : Nat) : Doc R :=
  { d with
    lines := d.lines.insertIdx k (d.lineIdCnt, Rope.new)
    lineIdCnt := d.lineIdCnt + 1
    last := bump k d.last
    curs := fun i => (d.curs i).map fun x => { x with row := bump k x.row } }

/-- The server's own cursor goes back up. -/
def homeUp (d : Doc R) : Doc R :=
  d.mapCurs fun i x => if i = 0 ∧ d.serverMode ∧ x.row ≠ 0 then d.step x .up else x

def newBelow (d : Doc R) (k : Nat) : Doc R :=
  if k = d.last then { d.newLine (k + 1) with last := k + 1 } else d.newLine (k + 1)

/-- The text of line `k` right of column `pos` goes to the line below. -/
def splitText (d : Doc R) (k : Nat) (pos : Int) : Doc R :=
  let copy := (d.lines[k]?.map fun l => Rope.copy l.2).getD Rope.new
  let d := d.modifyStr k fun s => Rope.del s (sizeT pos) (sizeSub (Rope.charCount copy) (sizeT pos))
  d.modifyStr (k + 1) fun _ => Rope.del copy 0 (sizeT pos)

/-- The cursors right of `cur`, which is cursor `id`, go to the line below. -/
def splitCurs (d : Doc R) (id : Int) (cur : Place) : Doc R :=
  d.mapCurs fun i x =>
    if i ≠ id ∧ cur.row = x.row ∧ cur.pos < x.pos then
      d.step { x with pos := x.pos - cur.pos } .down
    else x

def insertBelow (d : Doc R) (id : Int) (cur : Place) : Doc R :=
  let e := d.newBelow cur.row
  let e := if sizeT cur.pos ≠ d.len cur.row then (e.splitText cur.row cur.pos).splitCurs id cur else e
  e.mapCurs fun i x => if i = id then ⟨cur.row + 1, 0⟩ else x

def insertLine (d : Doc R) (id : Int) : Doc R :=
  match d.curs id with
  | none => d
  | some cur =>
      if cur.pos = 0 then ((d.recount 1).newLine cur.row).homeUp
      else (d.recount 1).insertBelow id cur

/-- Line `k` is about to take in the line below it. -/
def raiseLast (d : Doc R) (k : Nat) : Doc R := if k + 1 = d.last then { d with last := k } else d

/-- Append the text of the line below line `k` to line `k`. -/
def joinText (d : Doc R) (k : Nat) : Doc R :=
  let s := Rope.writeCstr (d.strAt (k + 1))
  if 0 < s.length then d.modifyStr k fun r => Rope.insert r (Rope.charCount r) s else d

/-- The cursors on line `k + 1` go to line `k`, `n` columns further. -/
def joinCurs (d : Doc R) (id : Int) (k n : Nat) : Doc R :=
  d.mapCurs fun i x =>
    if i ≠ id ∧ k + 1 = x.row then
      { d.step x .up with pos := (d.step x .up).pos + n }
    else x

/-- Take out line `k`. -/
def eraseLine (d : Doc R) (k : Nat) : Doc R :=
  { d with
    lines := d.lines.eraseIdx k
    last := unbump k d.last
    curs := fun i => (d.curs i).map fun x => { x with row := unbump k x.row } }

/-- Join line `k + 1`, at whose start cursor `id` is, to line `k`. -/
def join (d : Doc R) (id : Int) (k : Nat) : Doc R :=
  let n := d.len k
  let d := (((d.recount (-1)).put id ⟨k, n⟩).raiseLast k).joinText k
  (d.joinCurs id k n).eraseLine (k + 1)

def del (d : Doc R) (id : Int) : Doc R :=
  match d.curs id with
  | none => d
  | some cur =>
      if 0 < cur.pos then d.delChar id cur
      else if cur.row = 0 then d
      else d.join id (cur.row - 1)

end Doc

end CoEditor
