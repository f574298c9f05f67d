import Mathlib.Data.List.Find
import Mathlib.Data.List.Induction
import Mathlib.Data.List.TakeWhile
import SigV4.Proofs.Cutting
import SigV4.Response

/-!
# The search for an error code stays inside its text

A code is found by cutting the text at the first needle, the rest at the next one, and so on. The same
search can be made by places in the one text: where a needle stands, from which place on the next one is
looked for, and between which two places the code is. A slice between places that are not in order, or not
in the text, is a fault (`Bytes.OutOfRange`), and it has to be shown that none is ever asked for:

* **`Bytes.cut?_drop`**: to cut a rest is to look for the needle from the place where the rest starts.
* **`Bytes.slice_eq_ok`**: what a slice is, if its places are in range.
* **`Response.errorCodeAt_eq`**: the search by places returns for every response, and what it finds is the
  error code.
-/

namespace SigV4

namespace Bytes

/-! ## Places and slices

The reader of error codes goes by places in the text. A place that is found has the needle behind
it, so the slices between places are in range. -/

/-- The first place, from `start` on, where the needle stands. -/
def findFrom? (needle text : Bytes) (start : Nat) : Option Nat :=
  (List.range' start (text.length + 1 - start)).find? fun place => needle.isPrefixOf (text.drop place)

/-- The last place of a byte. -/
def findLast? (b : UInt8) (text : Bytes) : Option Nat :=
  (List.range text.length).reverse.find? fun place => text[place]? == some b

/-- A slice that leaves its text. -/
structure OutOfRange where
  start : Nat
  stop : Nat
  length : Nat
deriving DecidableEq, Repr

/-- The bytes from one place up to another. -/
def slice (text : Bytes) (start stop : Nat) : Except OutOfRange Bytes :=
  if start ≤ stop ∧ stop ≤ text.length then .ok ((text.take stop).drop start)
  else .error ⟨start, stop, text.length⟩

variable {b : UInt8} {needle text : Bytes} {start stop place : Nat}

theorem slice_eq_ok (hstart : start ≤ stop) (hstop : stop ≤ text.length) :
    text.slice start stop = .ok ((text.take stop).drop start) :=
  if_pos ⟨hstart, hstop⟩

/-- A place is found if the needle stands there and at no earlier place from the start on. A place at the
very end of the text is looked at too, where only the empty needle stands. -/
theorem findFrom?_eq_some_iff : findFrom? needle text start = some place
    ↔ (start ≤ place ∧ place ≤ text.length) ∧ needle <+: text.drop place
      ∧ ∀ earlier, start ≤ earlier → earlier < place → ¬ needle <+: text.drop earlier := by
  rw [findFrom?, List.find?_range'_eq_some, List.mem_range'_1]
  simp only [List.isPrefixOf_iff_prefix, Bool.not_eq_true', ← Bool.not_eq_true]
  constructor
  · rintro ⟨hstands, hrange, hfirst⟩
    exact ⟨by omega, hstands, hfirst⟩
  · rintro ⟨hrange, hstands, hfirst⟩
    exact ⟨hstands, by omega, hfirst⟩

/-- The whole needle is in the text, behind the start. Each place that is computed from a found one is in
range by this. -/
theorem findFrom?_range (h : findFrom? needle text start = some place) :
    start ≤ place ∧ place + needle.length ≤ text.length := by
  obtain ⟨hrange, hstands, -⟩ := findFrom?_eq_some_iff.mp h
  have hlength := hstands.length_le
  rw [List.length_drop] at hlength
  omega

/-- A search that finds nothing has looked at every place up to the end of the text. -/
theorem findFrom?_eq_none (h : findFrom? needle text start = none) (hstart : start ≤ place)
    (hplace : place ≤ text.length) : ¬ needle <+: text.drop place := by
  rw [findFrom?, List.find?_eq_none] at h
  have hnone := h place (List.mem_range'_1.mpr (by omega))
  rwa [List.isPrefixOf_iff_prefix] at hnone

/-- A place where the needle does not stand can be passed. So it does not matter whether the search for a
quote starts at the colon or behind it. -/
theorem findFrom?_succ (h : ¬ needle <+: text.drop start) :
    findFrom? needle text start = findFrom? needle text (start + 1) := by
  rw [findFrom?, findFrom?]
  by_cases hstart : start ≤ text.length
  · have hlength : text.length + 1 - start = (text.length + 1 - (start + 1)) + 1 := by omega
    rw [hlength, List.range'_succ, List.find?_cons_of_neg]
    rwa [List.isPrefixOf_iff_prefix]
  · have hnone : text.length + 1 - start = 0 := by omega
    have hnone' : text.length + 1 - (start + 1) = 0 := by omega
    rw [hnone, hnone']
    rfl

/-- **To cut a rest is to look for the needle from the place where the rest starts.** What is cut off lies
between that place and the needle, and what remains starts behind the needle. The two searches skip the same
places, counted from the start of the rest and from the start of the text. -/
theorem cut?_drop (needle : Bytes) (hstart : start ≤ text.length) :
    cut? needle (text.drop start) = (findFrom? needle text start).map fun place =>
      ((text.take place).drop start, text.drop (place + needle.length)) := by
  cases hfind : findFrom? needle text start with
  | some place =>
    obtain ⟨hrange, ⟨behind, hbehind⟩, hfirst⟩ := findFrom?_eq_some_iff.mp hfind
    -- What is found first in the rest stands first behind `start` in the text.
    refine cut?_eq_some_iff.mpr ⟨?_, fun k hk => ?_⟩
    · have hfront : (text.take place).drop start ++ text.drop place = text.drop start := by
        have hlength : start ≤ (text.take place).length := by
          rw [List.length_take]
          omega
        rw [← List.drop_append_of_le_length hlength, List.take_append_drop]
      rw [← hfront, ← List.drop_drop, ← hbehind, List.drop_left, List.append_assoc]
    · rw [List.length_drop, List.length_take] at hk
      rw [List.drop_drop]
      exact hfirst (start + k) (by omega) (by omega)
  | none =>
    show cut? needle (text.drop start) = none
    rw [cut?_eq_none_iff]
    -- If it stood in the rest, it would have been found at that place of the text.
    rintro ⟨front, rest, hinfix⟩
    have hlength := congrArg List.length hinfix
    simp only [List.length_append, List.length_drop] at hlength
    refine findFrom?_eq_none hfind (Nat.le_add_right start front.length) (by omega) ?_
    rw [← List.drop_drop, ← hinfix, List.append_assoc, List.drop_left]
    exact List.prefix_append needle rest

/-- The whole text is the rest from its start on. -/
theorem cut?_eq_findFrom? (needle text : Bytes) :
    cut? needle text = (findFrom? needle text 0).map fun place =>
      (text.take place, text.drop (place + needle.length)) :=
  cut?_drop needle (Nat.zero_le text.length)

/-- A needle of one byte does not occur in front of the place where the text is cut, as it would have been
found there. -/
theorem not_mem_of_cut? {front back : Bytes} (h : cut? [b] text = some (front, back)) : b ∉ front := by
  obtain ⟨rfl, hfirst⟩ := cut?_eq_some_iff.mp h
  intro hmem
  obtain ⟨before, behind, rfl⟩ := List.append_of_mem hmem
  refine hfirst before.length (by simp) ?_
  simp

theorem takeWhile_of_not_mem {b : UInt8} {text : Bytes} (h : b ∉ text) :
    text.takeWhile (· != b) = text := by
  refine List.takeWhile_eq_self_iff.mpr fun x hx => ?_
  rw [bne_iff_ne]
  rintro rfl
  exact h hx

/-- What stands in front of a byte is found by scanning up to the first one. -/
theorem takeWhile_append_cons {b : UInt8} {front : Bytes} (h : b ∉ front) (rest : Bytes) :
    (front ++ b :: rest).takeWhile (· != b) = front := by
  rw [List.takeWhile_append, takeWhile_of_not_mem h, if_pos rfl, List.takeWhile_cons_of_neg (by simp),
    List.append_nil]

/-- What stands in front of a byte ends at its first place, and at the end of the text if it has none. -/
theorem takeWhile_eq_take (b : UInt8) (text : Bytes) :
    text.takeWhile (· != b) = text.take ((findFrom? [b] text 0).getD text.length) := by
  have hcut := cut?_eq_findFrom? [b] text
  cases hfind : findFrom? [b] text 0 with
  | some place =>
    rw [hfind] at hcut
    obtain ⟨htext, -⟩ := cut?_eq_some_iff.mp hcut
    rw [List.append_assoc] at htext
    show text.takeWhile (· != b) = text.take place
    conv => lhs; rw [htext]
    exact takeWhile_append_cons (not_mem_of_cut? hcut) _
  | none =>
    rw [hfind] at hcut
    have hmem : b ∉ text := by
      intro hmem
      obtain ⟨before, behind, hsplit⟩ := List.append_of_mem hmem
      refine cut?_eq_none_iff.mp hcut ⟨before, behind, ?_⟩
      rw [hsplit, List.append_assoc]
      rfl
    show text.takeWhile (· != b) = text.take text.length
    rw [List.take_length, takeWhile_of_not_mem hmem]

/-- The search for a last place starts at the end, so the last byte decides if it is the one in question,
and else the search goes on in front of it. -/
theorem findLast?_concat (b x : UInt8) (text : Bytes) :
    findLast? b (text ++ [x]) = if x = b then some text.length else findLast? b text := by
  have hbefore : ∀ place ∈ (List.range text.length).reverse,
      ((text ++ [x])[place]? == some b) = (text[place]? == some b) := by
    intro place hplace
    have hlt : place < text.length := by simpa using hplace
    rw [List.getElem?_append_left hlt]
  rw [findLast?, List.length_append, List.length_singleton, List.range_succ, List.reverse_append,
    List.reverse_singleton, List.singleton_append, List.find?_cons, List.getElem?_concat_length]
  split
  next h =>
    rw [if_pos (by simpa using h)]
  next h =>
    rw [if_neg (by simpa using h), List.find?_congr hbefore]
    rfl

/-- A place that is found is in the text, so the next one is at most its end. -/
theorem findLast?_lt {b : UInt8} {text : Bytes} {place : Nat} (h : findLast? b text = some place) :
    place < text.length := by
  have hmem := List.mem_of_find?_eq_some h
  simpa using hmem

end Bytes

namespace Response

open Bytes

/-! ## The search by places -/

/-- What follows the last `#`, by its place. -/
def withoutNamespaceAt (name : Bytes) : Except OutOfRange Bytes :=
  match findLast? 35 name with
  | none => .ok name
  | some hash => name.slice (hash + 1) name.length

def xmlErrorCodeAt (body : Bytes) : Except OutOfRange (Option Bytes) :=
  match findFrom? (ascii "<Code>") body 0 with
  | none => .ok none
  | some tag =>
    let start := tag + (ascii "<Code>").length
    match findFrom? (ascii "</Code>") body start with
    | none => .ok none
    | some stop => some <$> body.slice start stop

/-- Where the string that follows the first `__type` key starts and stops. The place of the colon itself is
where the quote is looked for. -/
def jsonPlaces? (body : Bytes) : Option (Nat × Nat) := do
  let key ← findFrom? (ascii "\"__type\"") body 0
  let colon ← findFrom? (ascii ":") body (key + (ascii "\"__type\"").length)
  let quote ← findFrom? (ascii "\"") body colon
  let stop ← findFrom? (ascii "\"") body (quote + 1)
  some (quote + 1, stop)

def jsonErrorCodeAt (body : Bytes) : Except OutOfRange (Option Bytes) :=
  match jsonPlaces? body with
  | none => .ok none
  | some (start, stop) => do
    let code ← body.slice start stop
    some <$> withoutNamespaceAt code

/-- The error code, found by places. -/
def errorCodeAt (response : Response) : Except OutOfRange (Option Bytes) :=
  match response.headers.get? (ascii "x-amzn-ErrorType") with
  | some type => some <$> type.slice 0 ((findFrom? (ascii ":") type 0).getD type.length)
  | none => do
    match ← xmlErrorCodeAt response.body with
    | some code => return some code
    | none => jsonErrorCodeAt response.body

/-! ## It stays in range -/

/-- What follows the last `#` starts one place behind it, and at the start of the name if there is none. The
induction is on the end of the name, from which the last place is looked for. -/
theorem withoutNamespace_eq_drop (name : Bytes) :
    withoutNamespace name = name.drop (((findLast? 35 name).map (· + 1)).getD 0) := by
  induction name using List.reverseRecOn with
  | nil => rfl
  | append_singleton name b ih =>
    rw [withoutNamespace, List.reverse_append, List.reverse_singleton, List.singleton_append,
      List.takeWhile_cons, findLast?_concat]
    -- The last byte is a mark, and nothing follows it, or it belongs to what follows the last mark.
    by_cases hb : b = 35
    · subst hb
      simp
    · rw [if_pos (by simpa using hb), if_neg hb, List.reverse_cons]
      have hplace : ((findLast? 35 name).map (· + 1)).getD 0 ≤ name.length := by
        cases hlast : findLast? 35 name with
        | none => exact Nat.zero_le _
        | some hash => exact findLast?_lt hlast
      rw [List.drop_append_of_le_length hplace, ← ih]
      rfl

/-- The slice behind the last `#` reaches from the next place to the end, and so it is in range. -/
theorem withoutNamespaceAt_eq (name : Bytes) :
    withoutNamespaceAt name = .ok (withoutNamespace name) := by
  rw [withoutNamespaceAt, withoutNamespace_eq_drop]
  cases hlast : findLast? 35 name with
  | none => rfl
  | some hash =>
    show name.slice (hash + 1) name.length = _
    rw [slice_eq_ok (findLast?_lt hlast) (Nat.le_refl _), List.take_length]
    rfl

/-- The search for an element asks for one slice, from behind the opening tag up to the closing one. It is
in range since the closing tag is looked for from there on. -/
theorem xmlErrorCodeAt_eq (body : Bytes) : xmlErrorCodeAt body = .ok (xmlErrorCode body) := by
  rw [xmlErrorCodeAt, xmlErrorCode, cut?_eq_findFrom?]
  cases htag : findFrom? (ascii "<Code>") body 0 with
  | none => rfl
  | some tag =>
    have hstart := (findFrom?_range htag).2
    dsimp only [Option.map_some, Option.bind_eq_bind, Option.bind_some]
    rw [cut?_drop _ hstart]
    cases hstop : findFrom? (ascii "</Code>") body (tag + (ascii "<Code>").length) with
    | none => rfl
    | some stop =>
      obtain ⟨hle, hlength⟩ := findFrom?_range hstop
      dsimp only
      rw [slice_eq_ok hle (by omega)]
      rfl

/-- The two places of a member are in order and in the text, and what it names stands between them. Each
needle is looked for from the end of the one before, so the places ascend; the proof follows the four
searches and ends where one of them finds nothing. -/
theorem jsonErrorCode_eq (body : Bytes) :
    jsonErrorCode body = (jsonPlaces? body).map (fun (start, stop) =>
        withoutNamespace ((body.take stop).drop start))
      ∧ ∀ start stop, jsonPlaces? body = some (start, stop) → start ≤ stop ∧ stop ≤ body.length := by
  -- Each cut of the one reader is a place that the other one finds.
  rw [jsonErrorCode, jsonPlaces?, cut?_eq_findFrom?]
  cases hkey : findFrom? (ascii "\"__type\"") body 0 with
  | none => exact ⟨rfl, nofun⟩
  | some key =>
    have hkeyEnd := (findFrom?_range hkey).2
    dsimp only [Option.map_some, Option.bind_eq_bind, Option.bind_some]
    rw [cut?_drop _ hkeyEnd]
    cases hcolon : findFrom? (ascii ":") body (key + (ascii "\"__type\"").length) with
    | none => exact ⟨rfl, nofun⟩
    | some colon =>
      have hcolonEnd : colon + 1 ≤ body.length := (findFrom?_range hcolon).2
      -- A quote that is looked for from the colon on stands behind the colon.
      have hnext : findFrom? (ascii "\"") body colon = findFrom? (ascii "\"") body (colon + 1) := by
        obtain ⟨-, ⟨behind, hbehind⟩, -⟩ := findFrom?_eq_some_iff.mp hcolon
        refine findFrom?_succ ?_
        rw [← hbehind]
        simp [ascii, Bytes.ofChars]
      dsimp only [Option.map_some, Option.bind_some]
      rw [hnext]
      show (cut? (ascii "\"") (body.drop (colon + 1))).bind _ = _ ∧ _
      rw [cut?_drop _ hcolonEnd]
      cases hquote : findFrom? (ascii "\"") body (colon + 1) with
      | none => exact ⟨rfl, nofun⟩
      | some quote =>
        have hquoteEnd : quote + 1 ≤ body.length := (findFrom?_range hquote).2
        dsimp only [Option.map_some, Option.bind_some]
        show (cut? (ascii "\"") (body.drop (quote + 1))).bind _ = _ ∧ _
        rw [cut?_drop _ hquoteEnd]
        cases hstop : findFrom? (ascii "\"") body (quote + 1) with
        | none => exact ⟨rfl, nofun⟩
        | some stop =>
          obtain ⟨hle, hlength⟩ := findFrom?_range hstop
          refine ⟨rfl, fun start' stop' hplaces => ?_⟩
          obtain ⟨rfl, rfl⟩ := by simpa using hplaces
          exact ⟨hle, by omega⟩

/-- The search for a member asks for the slice between these places, and then for the one behind the
namespace. -/
theorem jsonErrorCodeAt_eq (body : Bytes) : jsonErrorCodeAt body = .ok (jsonErrorCode body) := by
  obtain ⟨hcode, hrange⟩ := jsonErrorCode_eq body
  rw [jsonErrorCodeAt, hcode]
  cases hplaces : jsonPlaces? body with
  | none => rfl
  | some places =>
    obtain ⟨hstart, hstop⟩ := hrange places.1 places.2 hplaces
    dsimp only [Option.map_some]
    rw [slice_eq_ok hstart hstop]
    show some <$> withoutNamespaceAt _ = _
    rw [withoutNamespaceAt_eq]
    rfl

/-- **Every slice that the search asks for is in range**, and the search by places finds the error code. The
code in a header ends at the first colon or at the end of the value, and both are places of it. -/
theorem errorCodeAt_eq (response : Response) : response.errorCodeAt = .ok response.errorCode := by
  rw [errorCodeAt, errorCode]
  cases response.headers.get? (ascii "x-amzn-ErrorType") with
  | some type =>
    -- The colon stands in the text, so the slice in front of it is in range.
    have hstop : (findFrom? (ascii ":") type 0).getD type.length ≤ type.length := by
      cases hcolon : findFrom? (ascii ":") type 0 with
      | none => exact Nat.le_refl _
      | some colon => exact Nat.le_trans (Nat.le_add_right _ _) (findFrom?_range hcolon).2
    have hcode : type.takeWhile (· != 58)
        = type.take ((findFrom? (ascii ":") type 0).getD type.length) := takeWhile_eq_take 58 type
    dsimp only
    rw [slice_eq_ok (Nat.zero_le _) hstop, hcode]
    rfl
  | none =>
    dsimp only
    rw [xmlErrorCodeAt_eq]
    show (match xmlErrorCode response.body with
      | some code => _
      | none => _) = _
    cases xmlErrorCode response.body with
    | some code => rfl
    | none => exact jsonErrorCodeAt_eq response.body

end Response

end SigV4
