import SiemEngine.Python.Text

/-!
# UUIDs

A UUID is its 128-bit integer. `ofString` is the constructor `uuid.UUID(text)` and
`uuid5` the name-based UUID over SHA-1.
-/

namespace SiemEngine

abbrev UUID := Fin (2 ^ 128)

namespace Sha1

def word (n : ℕ) : ℕ := n % 2 ^ 32

def rotl (n x : ℕ) : ℕ := word (x <<< n) ||| (x >>> (32 - n))

def ofBytes (bs : List ℕ) : ℕ := bs.foldl (fun acc b => acc * 256 + b) 0

def toBytes : (width : ℕ) → ℕ → List ℕ
  | 0, _ => []
  | width + 1, n => n / 256 ^ width % 256 :: toBytes width n

def padding (len : ℕ) : List ℕ :=
  0x80 :: List.replicate ((119 - len % 64) % 64) 0 ++ toBytes 8 (8 * len)

def extend : ℕ → List ℕ → List ℕ
  | 0, ws => ws
  | n + 1, ws =>
    let w := rotl 1 (ws.getD 2 0 ^^^ ws.getD 7 0 ^^^ ws.getD 13 0 ^^^ ws.getD 15 0)
    extend n (w :: ws)

structure Digest where
  a : ℕ
  b : ℕ
  c : ℕ
  d : ℕ
  e : ℕ

def initial : Digest := ⟨0x67452301, 0xEFCDAB89, 0x98BADCFE, 0x10325476, 0xC3D2E1F0⟩

def round (i : ℕ) (h : Digest) (w : ℕ) : Digest :=
  let notB := 0xFFFFFFFF ^^^ h.b
  let (f, k) :=
    if i < 20 then ((h.b &&& h.c) ||| (notB &&& h.d), 0x5A827999)
    else if i < 40 then (h.b ^^^ h.c ^^^ h.d, 0x6ED9EBA1)
    else if i < 60 then ((h.b &&& h.c) ||| (h.b &&& h.d) ||| (h.c &&& h.d), 0x8F1BBCDC)
    else (h.b ^^^ h.c ^^^ h.d, 0xCA62C1D6)
  ⟨word (rotl 5 h.a + f + h.e + k + w), h.a, rotl 30 h.b, h.c, h.d⟩

def rounds : ℕ → List ℕ → Digest → Digest
  | _, [], h => h
  | i, w :: ws, h => rounds (i + 1) ws (round i h w)

def compress (h : Digest) (block : List ℕ) : Digest :=
  let ws := (List.range 16).map fun i => ofBytes ((block.drop (4 * i)).take 4)
  let h' := rounds 0 (extend 64 ws.reverse).reverse h
  ⟨word (h.a + h'.a), word (h.b + h'.b), word (h.c + h'.c), word (h.d + h'.d),
    word (h.e + h'.e)⟩

def blocks : (count : ℕ) → List ℕ → Digest → Digest
  | 0, _, h => h
  | n + 1, bs, h => blocks n (bs.drop 64) (compress h (bs.take 64))

def digest (bs : List ℕ) : List ℕ :=
  let padded := bs ++ padding bs.length
  let h := blocks (padded.length / 64) padded initial
  [h.a, h.b, h.c, h.d, h.e].flatMap (toBytes 4)

end Sha1

namespace Uuid

def namespaceUrl : ℕ := 0x6ba7b8119dad11d180b400c04fd430c8

def utf8 (s : String) : List ℕ :=
  s.toList.flatMap fun c => (String.utf8EncodeChar c).map UInt8.toNat

/-- `uuid.uuid5(uuid.NAMESPACE_URL, name)`: the first 16 bytes of the hash with the
variant and version bits set. -/
def uuid5 (name : String) : UUID :=
  let hash := Sha1.digest (Sha1.toBytes 16 namespaceUrl ++ utf8 name)
  let n := Sha1.ofBytes (hash.take 16)
  let n := (n - (n &&& (0xc000 <<< 48))) ||| (0x8000 <<< 48)
  let n := (n - (n &&& (0xf000 <<< 64))) ||| (5 <<< 76)
  Fin.ofNat (2 ^ 128) n

/-- `uuid.UUID(text)`, `none` for `ValueError`. -/
def ofString (py : Python) (s : String) : Option UUID :=
  let cs := Text.removeAll "urn:".toList s.toList 0
  let cs := Text.removeAll "uuid:".toList cs 0
  let hex := Text.removeAll ['-']
    (Text.stripBy (fun c => c = '\x7b' || c = '\x7d') (String.ofList cs)).toList 0
  if hex.length ≠ 32 then none
  else match Text.pyInt py 16 (String.ofList hex) with
    | some (.ofNat n) => if h : n < 2 ^ 128 then some ⟨n, h⟩ else none
    | _ => none

end Uuid

end SiemEngine
