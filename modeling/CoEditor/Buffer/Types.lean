-- SUMMARY: The buffer, its lines and its cursors as stored in memory, and checked access to them.
import CoEditor.Buffer.Rope
import CoEditor.Lib.Linked
import Mathlib.Algebra.Group.Int.Defs
import Mathlib.Algebra.Group.Nat.Defs

/-!
# The buffer in memory

The data of `buffer.h`. Lines live in a heap and are reached through pointers;
following a pointer is a step that can fault. Cursors are kept in place, in
`own_curs` and in the slots of `peer_curss`, and a `cursor*` is the name of its
place: the code never holds two pointers to one cursor under different names.
-/

namespace CoEditor

/-- Slots of `peer_curss`. -/
abbrev maxCursorNum : Nat := 20

/-- Bytes of the scratch pad `sp`. -/
abbrev spSize : Nat := 2048

/-- Why a call does not return. -/
inductive Fault where
  /-- A `NULL` pointer is followed. -/
  | nullDeref
  /-- A pointer to a released line is followed. -/
  | useAfterFree
  /-- A variable that was never assigned is read. -/
  | unset
  /-- A string is written past the end of the scratch pad. -/
  | overflow
  /-- A loop goes round for ever. -/
  | endless
  /-- A `NULL` string is read. -/
  | nullStr
  /-- An array is indexed outside its bounds. -/
  | outOfBounds
  /-- The process waits for a lock that it holds itself. -/
  | blocked
deriving DecidableEq, Repr

/-- Line location relative to `own_curs`. -/
inductive Crp where
  | above | bellow | same
deriving DecidableEq, Repr

/-- Result of a buffer operation. -/
inductive Bres where
  | failed | update | success
deriving DecidableEq, Repr

/-- Result of a cursor movement. -/
inductive CmoveRes where
  | aUp | aDown | aHorizontal | aNlUp | aNlDown | aNone
deriving DecidableEq, Repr

/-- Direction of a cursor movement. -/
inductive CmoveDir where
  | up | down | left | right
deriving DecidableEq, Repr

structure Line (R : Type) where
  id : Int
  str : R
  prev : Option Ptr
  next : Option Ptr
  onScreen : Bool
  where_ : Crp
deriving DecidableEq, Repr

instance {R : Type} : Links (Line R) where
  prev := Line.prev
  next := Line.next

@[simp] theorem Line.links_prev {R : Type} (l : Line R) : Links.prev l = l.prev := rfl
@[simp] theorem Line.links_next {R : Type} (l : Line R) : Links.next l = l.next := rfl

structure Cursor where
  id : Int
  ownLine : Ptr
  pos : Int
deriving DecidableEq, Repr

/-- The pointer `u` to the user interface. -/
inductive UiPtr where
  | unset | null | ui
deriving DecidableEq, Repr

structure Buffer (R : Type) where
  id : Int
  ver : Int
  numLines : Int
  lineIdCnt : Int
  height : Int
  width : Int
  first : Ptr
  last : Option Ptr
  top : Option Ptr
  bottom : Option Ptr
  /-- `none` until the pointer is assigned. -/
  ownCurs : Option Cursor
  peerCurss : List (Option Cursor)
  u : UiPtr
  serverMode : Bool
  /-- The memory the lines live in. -/
  heap : Heap (Line R)
  /-- Not in the source: some call has branched on `u` before it was assigned. -/
  unsetRead : Bool
  /-- Not in the source: the fault of the first painting that does not return. The call that paints does not return either. -/
  paintFault : Option Fault

/-- A `cursor*`: the place the cursor is kept in. -/
inductive CursRef where
  | own
  | peer (i : Nat)
deriving DecidableEq, Repr

/-! ## Conversions of C integers -/

/-- An `int` read as a `size_t`. -/
def sizeT (i : Int) : Nat := if 0 ≤ i then i.toNat else (i + 2 ^ 64).toNat

/-- Subtraction of `size_t` values. -/
def sizeSub (a b : Nat) : Nat := if b ≤ a then a - b else a + 2 ^ 64 - b

@[simp] theorem sizeT_natCast (n : Nat) : sizeT (n : Int) = n := by simp [sizeT]

theorem sizeT_of_nonneg {i : Int} (h : 0 ≤ i) : sizeT i = i.toNat := by simp [sizeT, h]

@[simp] theorem sizeT_zero : sizeT 0 = 0 := rfl

theorem sizeSub_of_le {a b : Nat} (h : b ≤ a) : sizeSub a b = a - b := by simp [sizeSub, h]

/-- The string `hstr` made of one character. -/
def hstr (chr : UInt8) : Bytes := if chr = 0 then [] else [chr]

namespace Buffer

variable {R : Type}

/-! ## Following pointers -/

/-- Follow a pointer that is not `NULL`. -/
def line (b : Buffer R) (p : Ptr) : Except Fault (Line R) :=
  match b.heap.get? p with
  | some l => .ok l
  | none => .error .useAfterFree

/-- Follow a pointer. -/
def lineAt (b : Buffer R) : Option Ptr → Except Fault (Line R)
  | some p => b.line p
  | none => .error .nullDeref

/-- Assign to fields of the line behind a pointer that is not `NULL`. -/
def modifyLine (b : Buffer R) (p : Ptr) (f : Line R → Line R) : Except Fault (Buffer R) := do
  let l ← b.line p
  pure { b with heap := b.heap.set p (f l) }

def modifyLineAt (b : Buffer R) (f : Line R → Line R) : Option Ptr → Except Fault (Buffer R)
  | some p => b.modifyLine p f
  | none => .error .nullDeref

/-- `*b->own_curs`. -/
def own (b : Buffer R) : Except Fault Cursor :=
  match b.ownCurs with
  | some c => .ok c
  | none => .error .unset

/-- The cursor behind a `cursor*`. -/
def curs (b : Buffer R) : CursRef → Except Fault Cursor
  | .own => b.own
  | .peer i =>
      match b.peerCurss[i]?.join with
      | some c => .ok c
      | none => .error .nullDeref

def setCurs (b : Buffer R) (c : Cursor) : CursRef → Buffer R
  | .own => { b with ownCurs := some c }
  | .peer i => { b with peerCurss := b.peerCurss.set i (some c) }

/-- `rope_write_cstr(str, b->sp)`: the string with its `NUL` has to fit the scratch pad. -/
def writeSp [Rope R] (str : R) : Except Fault Bytes :=
  let s := Rope.writeCstr str
  if s.length + 1 ≤ spSize then .ok s else .error .overflow

end Buffer

end CoEditor
