import AgentOpsGateway.JsonText

/-!
# Byte Strings Read as JSON

`json.loads` takes bytes too. It finds the Unicode encoding from a byte order mark or from
the zero bytes of the first characters, and decodes with the error handler `surrogatepass`,
which lets surrogates through. Bytes that are no text in that encoding are a
`UnicodeDecodeError`, which is a `ValueError`.
-/

namespace Python

/-- A byte string. -/
abbrev Bytes := List UInt8

/-! ### Decoding -/

/-- The code point with the given value, where it exists, in front of a text. -/
def consPoint (n : ℕ) (s : Option Str) : Option Str :=
  if h : n < 0x110000 then s.map (⟨n, h⟩ :: ·) else none

/-- The six bits of each of the continuation bytes of UTF-8, most significant first. -/
def continuation (n : ℕ) : Bytes → Option ℕ
  | [] => some n
  | b :: bs => if b.toNat / 64 = 2 then continuation (64 * n + b.toNat % 64) bs else none

/-- A sequence of UTF-8 whose code point must be at least `least`, in front of a text. -/
def consSequence (least n : ℕ) (bs : Bytes) (s : Option Str) : Option Str :=
  match continuation n bs with
  | none => none
  | some n => if n < least then none else consPoint n s

/-- `b.decode("utf-8", "surrogatepass")`. -/
def utf8Decode : Bytes → Option Str
  | [] => some []
  | a :: s =>
    if a.toNat < 0x80 then consPoint a.toNat (utf8Decode s)
    else if a.toNat < 0xC0 then none
    else if a.toNat < 0xE0 then
      match s with
      | b :: s => consSequence 0x80 (a.toNat - 0xC0) [b] (utf8Decode s)
      | _ => none
    else if a.toNat < 0xF0 then
      match s with
      | b :: c :: s => consSequence 0x800 (a.toNat - 0xE0) [b, c] (utf8Decode s)
      | _ => none
    else if a.toNat < 0xF8 then
      match s with
      | b :: c :: d :: s => consSequence 0x10000 (a.toNat - 0xF0) [b, c, d] (utf8Decode s)
      | _ => none
    else none

/-- The value of a unit of several bytes. -/
def unitOf (bigEndian : Bool) (bs : Bytes) : ℕ :=
  (if bigEndian then bs else bs.reverse).foldl (fun n b => 256 * n + b.toNat) 0

/-- The units of UTF-16, each as a code point. -/
def utf16Units (bigEndian : Bool) : Bytes → Option Str
  | [] => some []
  | [_] => none
  | a :: b :: s => consPoint (unitOf bigEndian [a, b]) (utf16Units bigEndian s)

/-- `b.decode("utf-16-be", "surrogatepass")` and `b.decode("utf-16-le", "surrogatepass")`. -/
def utf16Decode (bigEndian : Bool) (b : Bytes) : Option Str :=
  (utf16Units bigEndian b).map joinSurrogates

/-- `b.decode("utf-32-be", "surrogatepass")` and `b.decode("utf-32-le", "surrogatepass")`. -/
def utf32Decode (bigEndian : Bool) : Bytes → Option Str
  | [] => some []
  | a :: b :: c :: d :: s => consPoint (unitOf bigEndian [a, b, c, d]) (utf32Decode bigEndian s)
  | _ => none

/-! ### The encoding of a JSON text -/

/-- An encoding that `detect_encoding` finds; one that is named without its byte order
starts with a byte order mark. -/
inductive Encoding
  | utf8
  | utf8Sig
  | utf16
  | utf16be
  | utf16le
  | utf32
  | utf32be
  | utf32le
  deriving DecidableEq

/-- `detect_encoding(b)`. -/
def detectEncoding (b : Bytes) : Encoding :=
  if [0x00, 0x00, 0xFE, 0xFF].isPrefixOf b || [0xFF, 0xFE, 0x00, 0x00].isPrefixOf b then .utf32
  else if [0xFE, 0xFF].isPrefixOf b || [0xFF, 0xFE].isPrefixOf b then .utf16
  else if [0xEF, 0xBB, 0xBF].isPrefixOf b then .utf8Sig
  else
    match b with
    | b₀ :: b₁ :: b₂ :: b₃ :: _ =>
      if b₀ = 0 then if b₁ = 0 then .utf32be else .utf16be
      else if b₁ = 0 then if b₂ = 0 ∧ b₃ = 0 then .utf32le else .utf16le
      else .utf8
    | [b₀, b₁] => if b₀ = 0 then .utf16be else if b₁ = 0 then .utf16le else .utf8
    | _ => .utf8

/-- `b.decode(detect_encoding(b), "surrogatepass")`. -/
def decodeJson (b : Bytes) : Option Str :=
  match detectEncoding b with
  | .utf8 => utf8Decode b
  | .utf8Sig => utf8Decode (b.drop 3)
  | .utf16 => utf16Decode ([0xFE, 0xFF].isPrefixOf b) (b.drop 2)
  | .utf16be => utf16Decode true b
  | .utf16le => utf16Decode false b
  | .utf32 => utf32Decode ([0x00, 0x00, 0xFE, 0xFF].isPrefixOf b) (b.drop 4)
  | .utf32be => utf32Decode true b
  | .utf32le => utf32Decode false b

/-- `json.loads(b)` of a byte string. -/
def loadsBytes (depth : ℕ) (b : Bytes) : Except LoadsError Json :=
  match decodeJson b with
  | none => .error .valueError
  | some s => loads depth s

/-! ### ASCII -/

/-- `s.encode()` of an ASCII text. -/
def asciiBytes (s : Str) : Bytes := s.map fun c => UInt8.ofNat c.val

/-- A printable character keeps its value as a byte. -/
theorem toNat_ascii {c : CodePoint} (hc : isPrintableAscii c = true) :
    (UInt8.ofNat c.val).toNat = c.val := by
  simp only [isPrintableAscii, Bool.and_eq_true, decide_eq_true_eq] at hc
  rw [UInt8.toNat_ofNat']
  exact Nat.mod_eq_of_lt (by omega)

/-- ASCII is its own UTF-8. -/
theorem utf8Decode_asciiBytes {s : Str} (hs : Printable s) :
    utf8Decode (asciiBytes s) = some s := by
  induction s with
  | nil => rfl
  | cons c s ih =>
      obtain ⟨hc, hs⟩ := printable_cons.mp hs
      have hlt : c.val < 0x80 := by
        simp only [isPrintableAscii, Bool.and_eq_true, decide_eq_true_eq] at hc
        omega
      have hrest : utf8Decode (s.map fun c => UInt8.ofNat c.val) = some s := ih hs
      rw [asciiBytes, List.map_cons, utf8Decode.eq_def]
      simp only [toNat_ascii hc, if_pos hlt, hrest, consPoint, dif_pos c.isLt, Option.map_some]

end Python
