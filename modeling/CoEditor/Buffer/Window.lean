-- SUMMARY: Lines and the visible window: line_new, line_free, binit_onscreen_info, scroll, trim, extend.
import CoEditor.Buffer.Types

/-!
# Lines and the visible window

The operations of `buffer.c` on the chain of lines and on the window
`top … bottom` of lines shown on the screen.
-/

namespace CoEditor

variable {R : Type} [Rope R]

/-! ## Lines -/

/-- The flags `line_new` gives a line between `prev` and `next`. A field that no
    branch assigns keeps what `malloc` left there, taken to be zero. -/
def newFlags (prev next : Option (Line R)) : Bool × Crp :=
  match prev, next with
  | some p, some n =>
      let onScreen := if p.onScreen = n.onScreen then p.onScreen else false
      let where_ := if p.where_ = .same ∨ p.where_ = .bellow then .bellow else .above
      let where_ := if n.where_ = .same ∨ n.where_ = .above then .above else where_
      (onScreen, where_)
  | some _, none => (false, .bellow)
  | none, some _ => (false, .above)
  | none, none => (false, .above)

/-- Follow a pointer if it is not `NULL`. -/
def Buffer.lineIf (b : Buffer R) : Option Ptr → Except Fault (Option (Line R))
  | some p => some <$> b.line p
  | none => pure none

/-- Assign to the line behind a pointer if it is not `NULL`. -/
def Buffer.modifyLineIf (b : Buffer R) (f : Line R → Line R) : Option Ptr → Except Fault (Buffer R)
  | some p => b.modifyLine p f
  | none => pure b

/-- Create a line and insert it into the chain between `prev` and `next`. -/
def lineNew (b : Buffer R) (id : Int) (prev next : Option Ptr) : Except Fault (Buffer R × Ptr) := do
  let p ← b.lineIf prev
  let n ← b.lineIf next
  let (onScreen, where_) := newFlags p n
  let (heap, l) := b.heap.malloc { id, str := Rope.new, prev, next, onScreen, where_ }
  let b := { b with heap }
  let b ← b.modifyLineIf ({ · with next := some l }) prev
  let b ← b.modifyLineIf ({ · with prev := some l }) next
  pure (b, l)

/-- `line_new(b->line_id_cnt++, prev, next)`. -/
def lineNewCnt (b : Buffer R) (prev next : Option Ptr) : Except Fault (Buffer R × Ptr) :=
  lineNew { b with lineIdCnt := b.lineIdCnt + 1 } b.lineIdCnt prev next

/-- Delete a line, connecting its neighbours. -/
def lineFree (b : Buffer R) (l : Ptr) : Except Fault (Buffer R) := do
  let ll ← b.line l
  let b ← b.modifyLineIf ({ · with next := ll.next }) ll.prev
  let b ← b.modifyLineIf ({ · with prev := ll.prev }) ll.next
  pure { b with heap := b.heap.free l }

/-! ## The window -/

/-- The loop of `binit_onscreen_info`; `os` and `rel` are the flags it carries along. -/
def binitLoop (b : Buffer R) (own : Ptr) :
    Nat → Bool → Crp → Option Ptr → Except Fault (Buffer R)
  | _, _, _, none => pure b
  | 0, _, _, some _ => .error .endless
  | n + 1, os, rel, some lit => do
      let os₁ := if os = false ∧ b.top = some lit then true else os
      let os' := if os = true ∧ b.bottom = some lit then false else os₁
      let atOwn := rel = .above ∧ lit = own
      let b' ← b.modifyLine lit ({ · with
        onScreen := os₁
        where_ := if atOwn then .same else rel })
      let l ← b'.line lit
      binitLoop b' own n os' (if atOwn then .bellow else rel) l.next

/-- Set `on_screen` and `where` of every line from scratch. -/
def binitOnscreenInfo (b : Buffer R) : Except Fault (Buffer R) := do
  let own ← b.own
  let os : Bool := b.top = some b.first
  let rel : Crp := if own.ownLine = b.first then .same else .above
  let b ← b.modifyLine b.first ({ · with onScreen := os, where_ := rel })
  let l ← b.line b.first
  binitLoop b own.ownLine b.heap.cells.length os rel l.next

namespace Buffer

/-- `bottom` leaves the screen upwards. -/
def raiseBottom (b : Buffer R) : Except Fault (Buffer R) := do
  let b ← b.modifyLineAt ({ · with onScreen := false }) b.bottom
  let l ← b.lineAt b.bottom
  pure { b with bottom := l.prev }

/-- `top` leaves the screen downwards. -/
def lowerTop (b : Buffer R) : Except Fault (Buffer R) := do
  let b ← b.modifyLineAt ({ · with onScreen := false }) b.top
  let l ← b.lineAt b.top
  pure { b with top := l.next }

/-- The line above `top` comes on the screen. -/
def raiseTop (b : Buffer R) : Except Fault (Buffer R) := do
  let l ← b.lineAt b.top
  let b := { b with top := l.prev }
  b.modifyLineAt ({ · with onScreen := true }) b.top

/-- The line below `bottom` comes on the screen. -/
def lowerBottom (b : Buffer R) : Except Fault (Buffer R) := do
  let l ← b.lineAt b.bottom
  let b := { b with bottom := l.next }
  b.modifyLineAt ({ · with onScreen := true }) b.bottom

end Buffer

/-- Move the window by one line, unless it would come too close to the own cursor. -/
def bufferScroll (b : Buffer R) : CmoveDir → Except Fault (Buffer R)
  | .up => do
      let bottom ← b.lineAt b.bottom
      if bottom.prev = none then pure b else do
        let top ← b.lineAt b.top
        if top.prev = none then pure b else do
          let own ← b.own
          if some own.ownLine = b.bottom ∨ some own.ownLine = bottom.prev then pure b else do
            let b ← b.raiseBottom
            b.raiseTop
  | .down => do
      let top ← b.lineAt b.top
      if top.next = none then pure b else do
        let bottom ← b.lineAt b.bottom
        if bottom.next = none then pure b else do
          let own ← b.own
          if some own.ownLine = b.top ∨ some own.ownLine = top.next then pure b else do
            let b ← b.lowerTop
            b.lowerBottom
  | .left | .right => pure b

/-- The two tests that end `buffer_trim` and `buffer_extend`. -/
def scrollFromOwn (b : Buffer R) : Except Fault (Buffer R) := do
  let own ← b.own
  let b ← runIf (b.bottom = some own.ownLine) (bufferScroll · .down) b
  runIf (b.top = some own.ownLine) (bufferScroll · .up) b

/-- Trim the visible area when line `l` was inserted. -/
def bufferTrim (b : Buffer R) (l : Ptr) : Except Fault (Buffer R) := do
  let ll ← b.line l
  if ll.onScreen = false then pure b else do
    let own ← b.own
    let b ← (
      if ll.where_ = .same ∨ ll.where_ = .bellow then
        if b.bottom ≠ some own.ownLine then b.raiseBottom else b.lowerTop
      else
        if b.top ≠ some own.ownLine then b.lowerTop else b.raiseBottom)
    scrollFromOwn b

/-- After deleting line `l` there is space for one more. -/
def bufferExtend (b : Buffer R) (l : Ptr) : Except Fault (Buffer R) := do
  let ll ← b.line l
  let b ← (
    if ll.where_ = .same ∨ ll.where_ = .bellow then do
      let bottom ← b.lineAt b.bottom
      if bottom.next ≠ none then b.lowerBottom else pure b
    else do
      let top ← b.lineAt b.top
      if top.prev ≠ none then b.raiseTop else b.lowerBottom)
  scrollFromOwn b

end CoEditor
