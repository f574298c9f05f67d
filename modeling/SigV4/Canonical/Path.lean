import SigV4.Percent

/-!
# Canonical paths

The path as it is signed. A path is normalised first and encoded then, once as on the wire and, for most
services, once more:

* **`resolveSegments`**: the segments that remain when dot segments are followed, by one pass with a stack.
* **`normalizePath`**: these segments behind slashes, with a slash at the end if the path names a directory.
* **`canonicalPath`**: the two together. Both steps can be turned off, as a store of objects has keys that
  only look like paths.
-/

namespace SigV4.Canonical

/-- Follows the segments of a path: `..` takes the last one back, `.` and the empty segment stay
where they are. The segments stand in reverse. -/
def enterSegment (entered : List Bytes) (segment : Bytes) : List Bytes :=
  if segment = ascii ".." then entered.tail
  else if segment.isEmpty || segment = ascii "." then entered
  else segment :: entered

def resolveSegments (segments : List Bytes) : List Bytes :=
  (segments.foldl enterSegment []).reverse

/-- Does the path name a directory by its end? -/
def endsAsDirectory (path : Bytes) : Bool :=
  [ascii "/", ascii "/.", ascii "/.."].any (·.isSuffixOf path)

/-- Removes dot segments and empty segments; a directory other than the root keeps its slash. -/
def normalizePath (path : Bytes) : Bytes :=
  let segments := resolveSegments (Bytes.split 47 path)
  ascii "/" ++ Bytes.join (ascii "/") segments
    ++ if !segments.isEmpty && endsAsDirectory path then ascii "/" else []

def canonicalPath (path : Bytes) (normalize doubleEncode : Bool) : Bytes :=
  let raw := if normalize then normalizePath path else path
  let encoded := Percent.encodePath (if raw.isEmpty then ascii "/" else raw)
  if doubleEncode then Percent.encodePath encoded else encoded

end SigV4.Canonical
