/-
# LocalPlatform.Python.Encoding — texts of octets, and octets of texts.

`json.loads` takes octets in any of the encodings JSON was ever allowed in: it looks at the first four of them
(`detectEncoding`) and decodes with `surrogatepass`, so that half of a surrogate pair is let through.  `encode` is
`str.encode()`, which lets none through.
-/
import LocalPlatform.Codec.Escape
import LocalPlatform.Codec.Json.Quote
import LocalPlatform.Python.Files
import LocalPlatform.Python.Json

namespace LocalPlatform.Python

open Codec Codec.Json

/-- Half of a surrogate pair. -/
def isSurrogate (c : Nat) : Bool := Json.high c || Json.low c

/-- **`s.encode()`** -/
def encode (s : Str) : Py Bytes := if s.any isSurrogate = true then .error .valueError else .ok (s.flatMap fun c => (encodeRune c).bytes)

/-- The encodings `detect_encoding` may come to; the octets in front of the text are those of the mark. -/
inductive Encoding where
  | utf8 (mark : Nat)
  | utf16 (big : Bool) (mark : Nat)
  | utf32 (big : Bool) (mark : Nat)
  deriving DecidableEq

/-- `json.detect_encoding`, where no mark is in front -/
def detectUnmarked : Bytes → Encoding
  | a :: b :: c :: d :: _ =>
    if a = 0 then if b = 0 then .utf32 true 0 else .utf16 true 0
    else if b = 0 then if c = 0 ∧ d = 0 then .utf32 false 0 else .utf16 false 0
    else .utf8 0
  | [a, b] => if a = 0 then .utf16 true 0 else if b = 0 then .utf16 false 0 else .utf8 0
  | _ => .utf8 0

/-- **`json.detect_encoding`** -/
def detectEncoding : Bytes → Encoding
  | 0x00 :: 0x00 :: 0xfe :: 0xff :: _ => .utf32 true 4
  | 0xff :: 0xfe :: 0x00 :: 0x00 :: _ => .utf32 false 4
  | 0xfe :: 0xff :: _ => .utf16 true 2
  | 0xff :: 0xfe :: _ => .utf16 false 2
  | 0xef :: 0xbb :: 0xbf :: _ => .utf8 3
  | b => detectUnmarked b

/-- UTF-8, and the three octets half of a pair would have. -/
def decodeRunes : List Rune → Py Str
  | [] => .ok []
  | .bad a :: .bad b :: .bad c :: rs =>
    if a = 0xed ∧ 0xa0 ≤ b ∧ b ≤ 0xbf ∧ Rune.cont c = true then
      (codePoint (.three a b c) :: ·) <$> decodeRunes rs
    else .error .valueError
  | .bad _ :: _ => .error .valueError
  | r :: rs => (codePoint r :: ·) <$> decodeRunes rs

/-- Code units of two octets. -/
def units16 (big : Bool) : Bytes → Py Str
  | [] => .ok []
  | a :: b :: bs => ((if big then a.toNat * 256 + b.toNat else b.toNat * 256 + a.toNat) :: ·) <$> units16 big bs
  | _ => .error .valueError

/-- Code units of two octets as characters: two halves of a pair are one. -/
def joinPairs : Str → Str
  | h :: l :: r => if (Json.high h && Json.low l) = true then Json.combine h l :: joinPairs r else h :: joinPairs (l :: r)
  | [c] => [c]
  | [] => []

/-- Characters of four octets. -/
def units32 (big : Bool) : Bytes → Py Str
  | [] => .ok []
  | a :: b :: c :: d :: bs =>
    let n := if big then ((a.toNat * 256 + b.toNat) * 256 + c.toNat) * 256 + d.toNat
      else ((d.toNat * 256 + c.toNat) * 256 + b.toNat) * 256 + a.toNat
    if n < 0x110000 then (n :: ·) <$> units32 big bs else .error .valueError
  | _ => .error .valueError

/-- **`b.decode(detect_encoding(b), "surrogatepass")`** -/
def decodeDetected (b : Bytes) : Py Str :=
  match detectEncoding b with
  | .utf8 mark => decodeRunes (runes (b.drop mark))
  | .utf16 big mark => joinPairs <$> units16 big (b.drop mark)
  | .utf32 big mark => units32 big (b.drop mark)

/-- **`base64.b64decode(s, validate=True)`**: letters first and then padding, as much as the last group needs; behind whole
groups there may be any of it, but not in front of everything. -/
def b64decode (s : Str) : Py Bytes :=
  if s.any (0x80 ≤ ·) = true then .error .valueError
  else
    let data := s.map UInt8.ofNat
    let padding := data.dropWhile (· ≠ Base64.pad)
    match (data.takeWhile (· ≠ Base64.pad)).mapM Base64.sextet with
    | none => .error .valueError
    | some sextets =>
      if padding.all (· == Base64.pad) = true ∧
          (sextets.length % 4 = 0 ∧ (sextets = [] → padding = []) ∨ sextets.length % 4 = 2 ∧ padding.length = 2 ∨
            sextets.length % 4 = 3 ∧ padding.length = 1) then .ok (Base64.joinSextets sextets)
      else .error .valueError

/-- `b.splitlines()`, the octets of a line read so far in front of the rest -/
def splitlinesFrom (line : Bytes) : Bytes → List Bytes
  | [] => if line = [] then [] else [line]
  | 0x0d :: 0x0a :: r => line :: splitlinesFrom [] r
  | c :: r => if c = 0x0d ∨ c = 0x0a then line :: splitlinesFrom [] r else splitlinesFrom (line ++ [c]) r

/-- **`b.splitlines()`** -/
def splitlines (b : Bytes) : List Bytes := splitlinesFrom [] b

example : b64decode (lit "aGk=") = .ok [0x68, 0x69] := by decide

example : splitlines (ascii "a\r\nb\n\nc") = [ascii "a", ascii "b", [], ascii "c"] := by decide

/-! ## Well-formed UTF-8 -/

/-- Well-formed runes are decoded as they always are. -/
theorem decodeRunes_wellFormed {rs : List Rune} (h : rs.all Rune.wellFormed = true) : decodeRunes rs = .ok (rs.map codePoint) := by
  induction rs with
  | nil => rfl
  | cons r rs ih =>
    rw [List.all_cons, Bool.and_eq_true] at h
    cases r with
    | bad a => exact absurd h.1 (by simp [Rune.wellFormed])
    | _ => simp only [decodeRunes, ih h.2]; rfl

/-- A text with two ASCII octets in front, or one in all, none of them zero, is taken for UTF-8. -/
theorem detectEncoding_ascii {b : Bytes} (h : ∀ c ∈ b.take 2, 0 < c ∧ c < 0x80) : detectEncoding b = .utf8 0 := by
  have hunmarked : detectUnmarked b = .utf8 0 := by
    unfold detectUnmarked
    split
    · next a b c d rest =>
      have ha : a ≠ 0 := (UInt8.pos_iff_ne_zero.mp (h a (by simp)).1)
      have hb : b ≠ 0 := (UInt8.pos_iff_ne_zero.mp (h b (by simp)).1)
      rw [if_neg ha, if_neg hb]
    · next a b =>
      have ha : a ≠ 0 := (UInt8.pos_iff_ne_zero.mp (h a (by simp)).1)
      have hb : b ≠ 0 := (UInt8.pos_iff_ne_zero.mp (h b (by simp)).1)
      rw [if_neg ha, if_neg hb]
    · rfl
  unfold detectEncoding
  split
  · exact absurd (h 0x00 (by simp)).1 (by decide)
  · exact absurd (h 0xff (by simp)).2 (by decide)
  · exact absurd (h 0xfe (by simp)).2 (by decide)
  · exact absurd (h 0xff (by simp)).2 (by decide)
  · exact absurd (h 0xef (by simp)).2 (by decide)
  · exact hunmarked

/-- **ASCII is decoded to the characters it is.** -/
theorem decodeDetected_ascii {b : Bytes} (hascii : ∀ c ∈ b, c < 0x80) (hpos : ∀ c ∈ b.take 2, 0 < c) :
    decodeDetected b = .ok (b.map UInt8.toNat) := by
  have hdetect : detectEncoding b = .utf8 0 :=
    detectEncoding_ascii fun c hc => ⟨hpos c hc, hascii c (List.mem_of_mem_take hc)⟩
  have hvalid : (runes b).all Rune.wellFormed = true := validUtf8_of_ascii hascii
  have hrunes : ∀ t : Bytes, (∀ c ∈ t, c < 0x80) → runes t = t.map Rune.one := by
    intro t ht
    induction t with
    | nil => rfl
    | cons c t ih =>
      rw [runes_ascii_cons (ht c List.mem_cons_self), ih fun d hd => ht d (List.mem_cons_of_mem c hd), List.map_cons]
  unfold decodeDetected
  rw [hdetect]
  show decodeRunes (runes b) = _
  rw [decodeRunes_wellFormed hvalid, hrunes b hascii, List.map_map]
  rfl

end LocalPlatform.Python
