import DreamSso.Library.JsConversions
import DreamSso.Library.JsonText
import DreamSso.Library.WebUrls

/-! Decoding of the escapes in a URI component, as decodeURIComponent does it. -/
namespace UriComponents

open JsConversions JsStrings WebUrls

/-- The byte of an escape at the front, and what is behind it. -/
def readOctet : JsString → Option (ℕ × JsString)
  | 0x25 :: a :: b :: rest => do
      let high ← JsonText.hexValue? a
      let low ← JsonText.hexValue? b
      some (16 * high + low, rest)
  | _ => none

def readOctets : ℕ → JsString → Option (List ℕ × JsString)
  | 0, s => some ([], s)
  | n + 1, s => do
      let (b, rest) ← readOctet s
      let (bs, rest) ← readOctets n rest
      some (b :: bs, rest)

/-- How many bytes follow a first byte. -/
def followers (b : ℕ) : ℕ := if b < 0xc0 then 0 else if b < 0xe0 then 1 else if b < 0xf0 then 2 else 3

/-- The code point that has these bytes. -/
def decodePoint (octets : List ℕ) : Option ℕ :=
  let p := match octets with
    | [a] => a
    | [a, b] => (a - 0xc0) * 0x40 + (b - 0x80)
    | [a, b, c] => (a - 0xe0) * 0x1000 + (b - 0x80) * 0x40 + (c - 0x80)
    | [a, b, c, d] => (a - 0xf0) * 0x40000 + (b - 0x80) * 0x1000 + (c - 0x80) * 0x40 + (d - 0x80)
    | _ => 0
  if utf8 p = octets ∧ p < 0x110000 then some p else none

/-- Each round takes at least one unit, so `fuel` is the length. -/
def decodeFrom : ℕ → JsString → Option JsString
  | _, [] => some []
  | 0, _ :: _ => none
  | fuel + 1, u :: rest =>
      if u = 0x25 then do
        let (b, behind) ← readOctet (u :: rest)
        let (bs, behind) ← readOctets (followers b) behind
        let p ← decodePoint (b :: bs)
        let tail ← decodeFrom fuel behind
        some (pointUnits p ++ tail)
      else (decodeFrom fuel rest).map (u :: ·)

/-- `none` where it throws. -/
def decodeURIComponent (s : JsString) : Option JsString := decodeFrom s.length s

/-- A text without escapes is itself. -/
theorem decodeURIComponent_plain {s : JsString} (h : 0x25 ∉ s) : decodeURIComponent s = some s := by
  unfold decodeURIComponent
  induction s with
  | nil => rfl
  | cons u rest ih =>
    have hu : u ≠ 0x25 := fun heq => h (heq ▸ List.mem_cons_self)
    rw [List.length_cons, decodeFrom, if_neg hu, ih fun hmem => h (List.mem_cons_of_mem u hmem)]
    rfl

example : decodeURIComponent (js "/a%2Fb%E2%82%AC") = some (js "/a/b€") := by decide

example : decodeURIComponent (js "%C0%AF") = none := by decide

end UriComponents
