import SigV4.Bytes

/-!
# Dot segments

The algorithm of RFC 3986, section 5.2.4, as it stands there: an input buffer is consumed from its
front, and an output buffer collects segments, the last of which `..` takes back.
-/

namespace SigV4.Canonical

theorem length_drop_lt {start input : Bytes} (h : start.isPrefixOf input = true) (hs : start ≠ [])
    {n : Nat} (hn : n ≠ 0) : (input.drop n).length < input.length := by
  have := (List.isPrefixOf_iff_prefix.mp h).length_le
  have := List.length_pos_iff.mpr hs
  simp only [List.length_drop]
  omega

/-- The output buffer holds its segments in reverse, each with the slash in front of it. -/
def removeDotSegmentsFrom (output : List Bytes) (input : Bytes) : Bytes :=
  if (ascii "../").isPrefixOf input then removeDotSegmentsFrom output (input.drop 3)
  else if (ascii "./").isPrefixOf input then removeDotSegmentsFrom output (input.drop 2)
  else if (ascii "/./").isPrefixOf input then removeDotSegmentsFrom output (input.drop 2)
  else if input = ascii "/." then removeDotSegmentsFrom output (ascii "/")
  else if (ascii "/../").isPrefixOf input then removeDotSegmentsFrom output.tail (input.drop 3)
  else if input = ascii "/.." then removeDotSegmentsFrom output.tail (ascii "/")
  else if input = ascii "." ∨ input = ascii ".." then output.reverse.flatten
  else
    match input with
    | [] => output.reverse.flatten
    | b :: rest =>
      removeDotSegmentsFrom ((b :: rest.takeWhile (· != 47)) :: output) (rest.dropWhile (· != 47))
termination_by input.length
decreasing_by
  · exact length_drop_lt ‹_› (by decide) (by decide)
  · exact length_drop_lt ‹_› (by decide) (by decide)
  · exact length_drop_lt ‹_› (by decide) (by decide)
  · rename_i h
    subst h
    decide
  · exact length_drop_lt ‹_› (by decide) (by decide)
  · rename_i h
    subst h
    decide
  · exact Nat.lt_succ_of_le (List.dropWhile_suffix _).length_le

def removeDotSegments (path : Bytes) : Bytes := removeDotSegmentsFrom [] path

end SigV4.Canonical
