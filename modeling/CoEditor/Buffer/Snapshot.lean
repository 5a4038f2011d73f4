-- SUMMARY: Snapshots of a buffer as JSON text: buffer_serialize, buffer_deserialize.
import CoEditor.Buffer.File
import CoEditor.Parson.Text

/-!
# Snapshots

A snapshot is the text of a JSON object with the fields of the buffer, its
lines under `lines.<id>`, the own cursor and the peer cursors under
`peer_curss.<id>`. Numerals contain no dot, so a path is the list of its names.
-/

namespace CoEditor

open Decimal

variable {R : Type} [Rope R]

/-- `lines.<id>.<name>` -/
def linePath (id : Int) (name : String) : JsonPath := [bytes "lines", digits id, bytes name]

/-- `own_cursor.<name>` -/
def ownPath (name : String) : JsonPath := [bytes "own_cursor", bytes name]

/-- `peer_curss.<id>` -/
def peerPath (id : Int) : JsonPath := [bytes "peer_curss", digits id]

/-- `peer_curss.<id>.<name>` -/
def peerFieldPath (id : Int) (name : String) : JsonPath := [bytes "peer_curss", digits id, bytes name]

/-! ## Writing -/

/-- Note the id of a neighbour, if there is one. -/
def serializeLink (b : Buffer R) (o : JsonObject) (path : JsonPath) : Option Ptr → Except Fault JsonObject
  | none => pure o
  | some q => do
      let l ← b.line q
      pure (jsonObjectDotsetNumber o path l.id)

/-- The loop of `buffer_serialize` over the lines, from `lit` on. -/
def serializeLines (b : Buffer R) : Nat → JsonObject → Option Ptr → Except Fault JsonObject
  | _, o, none => pure o
  | 0, _, some _ => .error .endless
  | n + 1, o, some lit => do
      let l ← b.line lit
      let s ← Buffer.writeSp l.str
      let o ← serializeLink b o (linePath l.id "next") l.next
      let o ← serializeLink b o (linePath l.id "prev") l.prev
      serializeLines b n (jsonObjectDotsetString o (linePath l.id "str") s) l.next

def serializePeer (b : Buffer R) (o : JsonObject) (i : Nat) : Except Fault JsonObject :=
  match b.peerCurss[i]?.join with
  | none => pure o
  | some c => do
      let l ← b.line c.ownLine
      let o := jsonObjectDotsetNumber o (peerFieldPath c.id "own_line") l.id
      pure (jsonObjectDotsetNumber o (peerFieldPath c.id "pos") c.pos)

/-- Serialize a buffer. -/
def bufferSerialize (b : Buffer R) : Except Fault Bytes := do
  let o := jsonObjectSetNumber [] (bytes "id") b.id
  let o := jsonObjectSetNumber o (bytes "ver") b.ver
  let o := jsonObjectSetNumber o (bytes "num_lines") b.numLines
  let o := jsonObjectSetNumber o (bytes "line_id_cnt") b.lineIdCnt
  let o := jsonObjectSetNumber o (bytes "height") b.height
  let o := jsonObjectSetNumber o (bytes "width") b.width
  let first ← b.line b.first
  let o := jsonObjectSetNumber o (bytes "first") first.id
  let last ← b.lineAt b.last
  let o := jsonObjectSetNumber o (bytes "last") last.id
  let top ← b.lineAt b.top
  let o := jsonObjectSetNumber o (bytes "top") top.id
  let bottom ← b.lineAt b.bottom
  let o := jsonObjectSetNumber o (bytes "bottom") bottom.id
  let o ← serializeLines b b.heap.cells.length o (some b.first)
  let c ← b.own
  let o := jsonObjectDotsetNumber o (ownPath "id") c.id
  let l ← b.line c.ownLine
  let o := jsonObjectDotsetNumber o (ownPath "own_line") l.id
  let o := jsonObjectDotsetNumber o (ownPath "pos") c.pos
  let o ← (List.range maxCursorNum).foldlM (serializePeer b) o
  pure (jsonSerialize (.obj o))

/-! ## Reading -/

/-- The buffer with the attributes of a snapshot; nothing else is assigned yet. -/
def readAttrs (o : JsonObject) : Buffer R where
  id := jsonObjectGetNumber o (bytes "id")
  ver := jsonObjectGetNumber o (bytes "ver")
  numLines := jsonObjectGetNumber o (bytes "num_lines")
  lineIdCnt := jsonObjectGetNumber o (bytes "line_id_cnt")
  height := jsonObjectGetNumber o (bytes "height")
  width := jsonObjectGetNumber o (bytes "width")
  first := 0
  last := none
  top := none
  bottom := none
  ownCurs := none
  peerCurss := []
  u := .unset
  serverMode := false
  heap := .empty
  unsetRead := false
  paintFault := none

/-- Create the line with id `id` after `prev` and set its string value. -/
def readLine (o : JsonObject) (b : Buffer R) (id : Int) (prev : Option Ptr) : Except Fault (Buffer R × Ptr) := do
  let (b, lit) ← lineNew b id prev none
  match jsonObjectDotgetString o (linePath id "str") with
  | none => .error .nullDeref
  | some s => do
      let b ← b.modifyLine lit fun l => { l with str := Rope.insert l.str 0 s }
      pure (b, lit)

/-- The loop of `buffer_deserialize` over the lines: `lit` is the line read last, `id` its id. -/
def readLines (o : JsonObject) (b : Buffer R) (lit : Ptr) (id : Int) : Nat → Except Fault (Buffer R × Ptr)
  | 0 => if jsonObjectDothasValue o (linePath id "next") then .error .endless else pure (b, lit)
  | fuel + 1 =>
      if jsonObjectDothasValue o (linePath id "next") then do
        let n := jsonObjectDotgetNumber o (linePath id "next")
        let (b, lit) ← readLine o b n (some lit)
        readLines o b lit n fuel
      else pure (b, lit)

/-- The number of ids that the lines of a snapshot are kept under. -/
def lineCount (o : JsonObject) : Nat := (jsonValueGetObject (jsonObjectGetValue o (bytes "lines"))).length

/-- Read the chain of lines; a loop with more rounds than there are ids has come back to one. -/
def readChain (o : JsonObject) (b : Buffer R) : Except Fault (Buffer R × Ptr) := do
  -- get first line
  let first := jsonObjectGetNumber o (bytes "first")
  let (b, l) ← readLine o b first none
  let b := { b with first := l }
  -- create next line
  let n := jsonObjectDotgetNumber o (linePath first "next")
  let (b, lit) ← readLine o b n (some l)
  readLines o b lit n (lineCount o)

/-- Set `top`, `bottom` and `last`; the order is important. -/
def readMarks (o : JsonObject) (b : Buffer R) (lit : Ptr) : Except Fault (Buffer R) := do
  let b := { b with last := some lit }
  let bottom ← blineFind b (jsonObjectGetNumber o (bytes "bottom"))
  let b := { b with bottom }
  let last ← blineFind b (jsonObjectGetNumber o (bytes "last"))
  let b := { b with last }
  let top ← blineFind b (jsonObjectGetNumber o (bytes "top"))
  pure { b with top }

/-- A cursor id other than `0` makes `bcursor_new` look for a free slot before the slots are cleared. -/
def readOwn (o : JsonObject) (b : Buffer R) : Except Fault (Buffer R) :=
  let id := jsonObjectDotgetNumber o (ownPath "id")
  if id ≠ 0 then .error .unset
  else Prod.fst <$>
    bcursorNew b id (jsonObjectDotgetNumber o (ownPath "own_line")) (jsonObjectDotgetNumber o (ownPath "pos"))

def readPeer (o : JsonObject) (b : Buffer R) (i : Nat) : Except Fault (Buffer R) :=
  if jsonObjectDothasValue o (peerPath i) then
    Prod.fst <$> bcursorNew b i (jsonObjectDotgetNumber o (peerFieldPath i "own_line"))
      (jsonObjectDotgetNumber o (peerFieldPath i "pos"))
  else pure b

/-- `buffer_deserialize` after the parser. -/
def readBuffer (o : JsonObject) (u : Bool) : Except Fault (Buffer R) := do
  let (b, lit) ← readChain o (readAttrs o)
  let b ← readMarks o b lit
  -- own cursor
  let b ← readOwn o b
  -- peer cursors
  let b := { b with peerCurss := List.replicate maxCursorNum none }
  let b ← (List.range maxCursorNum).foldlM (readPeer o) b
  let b ← binitOnscreenInfo b
  pure (if u then { b with u := .ui }.uiUpdate true else { b with u := .null, serverMode := true })

/-- Deserialize a buffer. -/
def bufferDeserialize (serd : Bytes) (u : Bool) : Except Fault (Buffer R) :=
  readBuffer (jsonValueGetObject (jsonParseString serd)) u

/-- `buffer_deserialize` on any text, large numbers included. -/
def bufferDeserializeText (serd : Bytes) (u : Bool) : Except Fault (Buffer R) :=
  readBuffer (jsonValueGetObject (jsonParseDoubles serd)) u

end CoEditor
