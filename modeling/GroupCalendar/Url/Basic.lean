import GroupCalendar.Url.Form
import GroupCalendar.Url.Host

/-! # Addresses of resources

An absolute address in its parts, each part already encoded. The path is a list of segments, or a
mere text where no authority and no slash follow the scheme.
-/

namespace GroupCalendar

inductive UrlPath where
  | plain (text : List Char)
  | segments (parts : List (List Char))
  deriving DecidableEq, Repr

structure Url where
  scheme : List Char
  /-- What stands before the at sign. -/
  userInfo : List Char := []
  /-- Present when two slashes follow the scheme. -/
  host : Option Url.Host := none
  port : Option Nat := none
  path : UrlPath
  query : Option (List Char) := none
  fragment : Option (List Char) := none
  deriving DecidableEq, Repr

namespace UrlPath

def toChars : UrlPath → List Char
  | .plain text => text
  | .segments parts => parts.flatMap ('/' :: ·)

/-- How a segment changes a path: two points leave the last segment, one point stays. -/
inductive Move where
  | up
  | stay
  | down (segment : List Char)

/-- The points of a segment, which may be encoded. -/
def isDots (count : Nat) : List Char → Bool
  | [] => count = 0
  | '.' :: rest => 0 < count && isDots (count - 1) rest
  | '%' :: '2' :: 'e' :: rest | '%' :: '2' :: 'E' :: rest => 0 < count && isDots (count - 1) rest
  | _ => false

def Move.of (segment : List Char) : Move :=
  if isDots 2 segment then .up else if isDots 1 segment then .stay else .down segment

/-- The segments, latest first, after another one; `last` says that no slash follows it. -/
def move (last : Bool) (reversed : List (List Char)) (segment : List Char) : List (List Char) :=
  let close (parts : List (List Char)) := if last then [] :: parts else parts
  match Move.of segment with
  | .up => close (reversed.drop 1)
  | .stay => close reversed
  | .down s => s :: reversed

/-- The segments after others, the last of which ends the path. -/
def walk (reversed : List (List Char)) : List (List Char) → List (List Char)
  | [] => reversed
  | [segment] => move true reversed segment
  | segment :: rest => walk (move false reversed segment) rest

/-- The path of some segments. -/
def ofSegments (parts : List (List Char)) : UrlPath :=
  .segments (walk [] parts).reverse

end UrlPath

namespace Url

/-- The port of a well-known scheme, if it has one. -/
def defaultPort? (scheme : List Char) : Option Nat :=
  match String.ofList scheme with
  | "http" | "ws" => some 80
  | "https" | "wss" => some 443
  | "ftp" => some 21
  | _ => none

def isFile (scheme : List Char) : Bool :=
  scheme = "file".toList

/-- The well-known schemes. -/
def isSpecial (scheme : List Char) : Bool :=
  (defaultPort? scheme).isSome || isFile scheme

def authority (u : Url) : List Char :=
  match u.host with
  | none => []
  | some host =>
    '/' :: '/' :: (if u.userInfo.isEmpty then [] else u.userInfo ++ ['@']) ++ host.toChars ++
      (match u.port with
        | none => []
        | some port => ':' :: Nat.toDigits 10 port)

/-- A path that begins with two slashes is kept apart from an authority. -/
def pathChars (u : Url) : List Char :=
  match u.host, u.path with
  | none, .segments ([] :: _ :: _) => '/' :: '.' :: u.path.toChars
  | _, _ => u.path.toChars

def toChars (u : Url) : List Char :=
  u.scheme ++ ':' :: u.authority ++ u.pathChars ++
    (match u.query with
      | none => []
      | some query => '?' :: query) ++
    (match u.fragment with
      | none => []
      | some fragment => '#' :: fragment)

def toText (u : Url) : String :=
  String.ofList u.toChars

/-- The segments of a path without an empty one at their end. -/
def dropEmpty (parts : List (List Char)) : List (List Char) :=
  let parts := if parts.getLast? = some [] then parts.dropLast else parts
  if parts = [[]] then [] else parts

/-- One segment put at the end of a path; points alone are passed over. -/
def pushSegment (special : Bool) (parts : List (List Char)) (segment : String) :
    List (List Char) :=
  let cs := segment.toList
  if cs = ['.'] ∨ cs = ['.', '.'] then parts
  else
    let written := Percent.encode (Percent.inSegment special)
      (cs.filter fun c => !(['\t', '\n', '\r'].contains c))
    (UrlPath.move true parts.reverse written).reverse

/-- The address below this one with segments and a query of its own. An address whose path is a
mere text has none below it. -/
def below? (u : Url) (segments : List String) (query : List (String × String)) : Option Url :=
  match u.path with
  | .plain _ => none
  | .segments parts =>
    some { u with
      path := .segments (segments.foldl (pushSegment (isSpecial u.scheme)) (dropEmpty parts))
      query := some (Form.encode query) }

end Url

end GroupCalendar
