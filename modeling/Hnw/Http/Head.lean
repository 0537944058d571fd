import Hnw.Http.Range
import Hnw.Util.Multimap
import Hnw.Util.Text

/-!
# Message headers

`HeadImpl` over the header container, whatever its order of iteration. The cookies and
authentication have modules of their own.
-/

namespace Hnw.Http

open Hnw.Util Hnw.Util.UnorderedMultimap

variable {σ : Type} [UnorderedMultimap σ]

/-- `add_head`. -/
def addHead (head : σ) (key value : Bytes) : σ := insert head (key, value)

/-- `add_head_uint64`. -/
def addHeadUint64 (head : σ) (key : Bytes) (value : Nat) : σ := addHead head key (decimal value)

/-- `del_head`. -/
def delHead (head : σ) (key : Bytes) : σ := erase head key

/-- `get_heads`: the walk begins at the key and goes on to the end of the container. -/
def getHeads (head : σ) (key : Bytes) : List Bytes :=
  ((toList head).dropWhile (·.1 ≠ key)).map Prod.snd

/-- `get_head`. -/
def getHead (head : σ) (key notfind : Bytes) : Bytes :=
  match find head key with
  | none => notfind
  | some entry => entry.2

/-- `get_head_int64`. -/
def getHeadInt64 (head : σ) (key : Bytes) (notfind : Int) : Int :=
  let str := getHead head key []
  if str = [] then notfind else (stoll str).getD notfind

/-- `get_head_count(key)`. -/
def getHeadCount (head : σ) (key : Bytes) : Nat := count head key

/-- One header as `HeadImpl::string` writes it. -/
def headLine (entry : Entry) : Bytes := entry.1 ++ headSeq ++ entry.2 ++ crlf

/-- `HeadImpl::string`. -/
def headString (head : σ) : Bytes := (toList head).flatMap headLine

/-- The body of the loop of `merge`. -/
def mergeOne (bcoverage : Bool) (head : σ) (entry : Entry) : σ :=
  if getHeadCount head entry.1 ≠ 0 then
    if bcoverage then addHead (delHead head entry.1) entry.1 entry.2 else head
  else addHead head entry.1 entry.2

/-- `merge`, of the entries of another head. -/
def merge (head other : σ) (bcoverage : Bool) : σ :=
  (toList other).foldl (mergeOne bcoverage) head

/-- What the two endpoint texts of a range say; `none` where a number is not one. -/
def readEndpoints (range : HttpRange) (texts : List Bytes) : Option HttpRange := do
  let first := texts.headD []
  let range ← if first.length = 0 then pure { range with useStartEndpoint := true }
    else do pure { range with useStartEndpoint := false, start := ← stoull first }
  match texts with
  | _ :: second :: _ =>
    if second.length = 0 then pure { range with useEndEndpoint := true }
    else do pure { range with useEndEndpoint := false, stop := ← stoull second }
  | _ => pure range

/-- `get_range`: the range it leaves where it returns true, `some none` where it returns false,
and `none` where `split` throws. Only the first of several sections is read. -/
def getRange (head : σ) (range : HttpRange) : Option (Option HttpRange) := do
  let src := getHead head httpRange []
  if src = [] then return none
  let bv ← split src (ascii "=")
  match bv with
  | [unit, sections] =>
    if Util.find unit httpRangeByte 0 = none then return none
    let vec ← split sections (ascii ";")
    let r ← split (vec.headD []) (ascii "-")
    return readEndpoints range r
  | _ => return none

/-- `get_content_range`: the range it leaves where it returns true, `some none` where it returns
false, and `none` where `split` throws outside of its `try`. -/
def getContentRange (head : σ) (range : HttpRange) : Option (Option HttpRange) := do
  let src := getHead head httpContentRange []
  if src = [] then return none
  let bv ← split src space
  match bv with
  | [unit, span] =>
    if Util.find unit httpRangeByte 0 = none then return none
    let vec ← split span (ascii "/")
    match vec with
    | [ends, total] =>
      return do
        let r ← split ends (ascii "-")
        let range ← readEndpoints range r
        let total ← stoull total
        pure { range with total }
    | _ => return none
  | _ => return none

/-- What the two endpoint texts leave of a range, also where a number is not one: then what was
set before stays. -/
def endpointsLeft (range : HttpRange) (texts : List Bytes) : HttpRange × Bool :=
  let stopLeft (range : HttpRange) : HttpRange × Bool :=
    match texts with
    | _ :: second :: _ =>
      if second.length = 0 then ({ range with useEndEndpoint := true }, true)
      else
        match stoull second with
        | none => ({ range with useEndEndpoint := false }, false)
        | some stop => ({ range with useEndEndpoint := false, stop }, true)
    | _ => (range, true)
  let first := texts.headD []
  if first.length = 0 then stopLeft { range with useStartEndpoint := true }
  else
    match stoull first with
    | none => ({ range with useStartEndpoint := false }, false)
    | some start => stopLeft { range with useStartEndpoint := false, start }

/-- The range that `get_range` leaves, whatever it returns; `none` where `split` throws. -/
def rangeLeft (head : σ) (range : HttpRange) : Option HttpRange := do
  let src := getHead head httpRange []
  if src = [] then return range
  let bv ← split src (ascii "=")
  match bv with
  | [unit, sections] =>
    if Util.find unit httpRangeByte 0 = none then return range
    let vec ← split sections (ascii ";")
    let r ← split (vec.headD []) (ascii "-")
    return (endpointsLeft range r).1
  | _ => return range

/-- The range that `get_content_range` leaves, whatever it returns; `none` where `split` throws
outside of its `try`. -/
def contentRangeLeft (head : σ) (range : HttpRange) : Option HttpRange := do
  let src := getHead head httpContentRange []
  if src = [] then return range
  let bv ← split src space
  match bv with
  | [unit, span] =>
    if Util.find unit httpRangeByte 0 = none then return range
    let vec ← split span (ascii "/")
    match vec with
    | [ends, total] =>
      match split ends (ascii "-") with
      | none => return range
      | some r =>
        let (range, goes) := endpointsLeft range r
        if goes then return { range with total := (stoull total).getD range.total }
        return range
    | _ => return range
  | _ => return range

/-- What `set_range` prints. -/
def rangeValue (range : HttpRange) : Bytes :=
  let start := if range.useStartEndpoint then 0 else range.start
  let open_ := httpRangeByte ++ ascii "=" ++ decimal start.toNat ++ ascii "-"
  if range.useEndEndpoint then open_ else open_ ++ decimal range.stop.toNat

/-- `set_range`: the head and what it returns. A text that does not fit into the buffer is
refused. -/
def setRange (head : σ) (range : HttpRange) : σ × Bool :=
  let tmp := rangeValue range
  if 32 ≤ tmp.length then (head, false)
  else (addHead (delHead head httpRange) httpRange tmp, true)

/-- What `set_content_range` prints. -/
def contentRangeValue (range : HttpRange) : Bytes :=
  httpRangeByte ++ space ++ decimal range.sectionStart.toNat ++ ascii "-" ++
    decimal range.sectionEnd.toNat ++ ascii "/" ++ decimal range.total.toNat

/-- `set_content_range`; a text that does not fit into the buffer is refused. -/
def setContentRange (head : σ) (range : HttpRange) : σ :=
  let tmp := contentRangeValue range
  if 256 ≤ tmp.length then head else addHead (delHead head httpContentRange) httpContentRange tmp

/-- What `set_content_range` returns. -/
def setContentRangeReturns (range : HttpRange) : Bool := (contentRangeValue range).length < 256

/-- `content_type()`. -/
def contentType (head : σ) : Bytes := getHead head httpCt []

/-- `content_type(value)`. -/
def setContentType (head : σ) (value : Bytes) : σ := addHead head httpCt value

/-- `keep_alive()`. -/
def keepAlive (head : σ) : Bool := getHead head httpConn httpConnClose ≠ httpConnClose

/-- `keep_alive(is_alive)`. -/
def setKeepAlive (head : σ) (isAlive : Bool) : σ :=
  addHead (delHead head httpConn) httpConn (if isAlive then httpConnKeepalive else httpConnClose)

end Hnw.Http
