-- SUMMARY: Painting the window: ui_update as the calls it makes on the terminal.
import CoEditor.Buffer.Types
import CoEditor.Lib.Decimal

/-!
# The user interface

`ui_update` talks to the terminal through a library of which nothing is at
hand. It is given as the list of the calls it makes, with every string as it
is after formatting. What the library tells about the screen is a parameter:
`inch` gives the character at a place after the calls so far.
-/

namespace CoEditor

open Decimal

/-- A call on the terminal. -/
inductive UiCall where
  | clear
  | mvprintw (y x : Int) (s : Bytes)
  | printw (s : Bytes)
  | attron
  | attroff
  | move (y x : Int)
  | refresh
deriving DecidableEq, Repr

/-- `mvinch(y, x) & A_CHARTEXT` after some calls. -/
abbrev Inch := List UiCall → Int → Int → UInt8

/-- A string as a format without arguments. Every conversion but `%%` reads an argument that is not there. -/
def printf : Bytes → Except Fault Bytes
  | [] => pure []
  | [c] => if c = ch '%' then .error .unset else pure [c]
  | c :: d :: s =>
      if c = ch '%' then
        if d = ch '%' then (ch '%' :: ·) <$> printf s else .error .unset
      else (c :: ·) <$> printf (d :: s)

variable {R : Type}

/-- The number of bytes of `cstr`. `ui_init` takes height and width from the buffer, where they stay as they are. -/
def Buffer.cstrSize (b : Buffer R) : Int := b.width * b.height + 1

/-- `rope_write_cstr(lit->str, cstr)` -/
def Buffer.writeCstr [Rope R] (b : Buffer R) (str : R) : Except Fault Bytes :=
  let s := Rope.writeCstr str
  if (s.length : Int) + 1 ≤ b.cstrSize then .ok s else .error .overflow

/-- The debug columns of a line: its id, whether it is on the screen, and where it is from the own cursor. -/
def lineInfo (i : Nat) (l : Line R) : List UiCall :=
  [.mvprintw i 50 (digits l.id),
    .printw (bytes (if l.onScreen then "\t+" else "\t-")),
    .printw (bytes (match l.where_ with | .above => "\tA" | .bellow => "\tB" | .same => "\tS"))]

/-- The loop of `ui_update` over all lines, from `lit` on, which gets row `i`. -/
def uiInfo (b : Buffer R) : Nat → Nat → Option Ptr → List UiCall → Except Fault (List UiCall)
  | _, _, none, calls => pure calls
  | 0, _, some _, _ => .error .endless
  | n + 1, i, some lit, calls => do
      let l ← b.line lit
      uiInfo b n (i + 1) l.next (calls ++ lineInfo i l)

/-- Colour a cursor at column `pos` of row `i`: the character there is printed once more. -/
def colorAt (inch : Inch) (i : Nat) (pos : Int) (calls : List UiCall) : List UiCall :=
  let calls := calls ++ [.attron]
  let cc := inch calls i pos
  calls ++ [.mvprintw i pos (hstr cc), .attroff]

/-- Color peer cursors of row `i`, which shows line `lit`. -/
def uiPeers (inch : Inch) (b : Buffer R) (i : Nat) (lit : Ptr) (calls : List UiCall) : Except Fault (List UiCall) :=
  b.peerCurss.foldlM (fun calls o =>
    match o with
    | none => pure calls
    | some c => do
        let l ← b.line c.ownLine
        pure (if l.onScreen ∧ lit = c.ownLine then colorAt inch i c.pos calls else calls)) calls

variable [Rope R]

/-- The loop of `ui_update` over the rows from `i` on, `n` of them; row `i` shows line `lit`. The pair is `ypos` and
    `xpos`, which are set when the own cursor is met. -/
def uiRows (inch : Inch) (b : Buffer R) :
    Nat → Nat → Option Ptr → List UiCall → Option (Int × Int) → Except Fault (List UiCall × Option (Int × Int))
  | 0, _, _, calls, pos => pure (calls, pos)
  | _ + 1, _, none, _, _ => .error .nullDeref
  | n + 1, i, some lit, calls, pos => do
      let own ← b.own
      let pos := if own.ownLine = lit then some ((i : Int), own.pos) else pos
      let l ← b.line lit
      let cstr ← b.writeCstr l.str
      let s ← printf cstr
      let calls ← uiPeers inch b i lit (calls ++ [.mvprintw i 0 s, .mvprintw i 25 (bytes "   |" ++ digits l.id)])
      match l.next with
      | none => pure (calls, pos)
      | some q => uiRows inch b n (i + 1) (some q) calls pos

/-- Two ids in a row of their own. -/
def idsRow (y : Int) (l m : Line R) : UiCall := .mvprintw y 0 (digits l.id ++ ch ' ' :: digits m.id ++ [10])

/-- Update everything. -/
def uiUpdate (inch : Inch) (b : Buffer R) : Except Fault (List UiCall) := do
  let calls ← uiInfo b b.heap.cells.length 0 (some b.first) [.clear]
  let (calls, pos) ← uiRows inch b b.height.toNat 0 b.top calls none
  let first ← b.line b.first
  let last ← b.lineAt b.last
  let top ← b.lineAt b.top
  let bottom ← b.lineAt b.bottom
  let calls := calls ++ [idsRow 49 first last, idsRow 50 top bottom]
  match pos with
  | none => .error .unset
  | some (y, x) => pure (calls ++ [.move y x, .refresh])

/-- A blank screen. -/
def blankScreen : Inch := fun _ _ _ => ch ' '

/-- `if(b->u && seen) ui_update(b->u);` The test reads `u`. The painting leaves the buffer alone; whether it returns does
    not depend on what is on the screen. -/
def Buffer.uiUpdate (seen : Bool) (b : Buffer R) : Buffer R :=
  match b.u with
  | .unset => { b with unsetRead := true }
  | .null => b
  | .ui => if seen then { b with paintFault := b.paintFault.or (fault? (CoEditor.uiUpdate blankScreen b)) } else b

end CoEditor
