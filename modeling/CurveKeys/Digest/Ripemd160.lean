import CurveKeys.Digest.Block
import CurveKeys.Digest.Word

/-!
# Digest — RIPEMD-160

Five chaining words and two lines of eighty rounds a block, joined at the end; all words
little-endian.
-/

namespace CurveKeys.Ripemd160

/-- The chaining value. -/
structure State where
  a : UInt32
  b : UInt32
  c : UInt32
  d : UInt32
  e : UInt32

def initial : State := ⟨0x67452301, 0xefcdab89, 0x98badcfe, 0x10325476, 0xc3d2e1f0⟩

/-- The boolean function of a group of sixteen rounds. -/
def mix (group : Nat) (x y z : UInt32) : UInt32 :=
  match group with
  | 0 => x ^^^ y ^^^ z
  | 1 => (x &&& y) ||| (~~~x &&& z)
  | 2 => (x ||| ~~~y) ^^^ z
  | 3 => (x &&& z) ||| (y &&& ~~~z)
  | _ => x ^^^ (y ||| ~~~z)

/-- One group of sixteen rounds of a line. -/
structure Group where
  mixer : Nat
  constant : UInt32
  words : List Nat
  shifts : List UInt32

/-- The left line. -/
def left : List Group :=
  [⟨0, 0x00000000, [0, 1, 2, 3, 4, 5, 6, 7, 8, 9, 10, 11, 12, 13, 14, 15],
    [11, 14, 15, 12, 5, 8, 7, 9, 11, 13, 14, 15, 6, 7, 9, 8]⟩,
   ⟨1, 0x5a827999, [7, 4, 13, 1, 10, 6, 15, 3, 12, 0, 9, 5, 2, 14, 11, 8],
    [7, 6, 8, 13, 11, 9, 7, 15, 7, 12, 15, 9, 11, 7, 13, 12]⟩,
   ⟨2, 0x6ed9eba1, [3, 10, 14, 4, 9, 15, 8, 1, 2, 7, 0, 6, 13, 11, 5, 12],
    [11, 13, 6, 7, 14, 9, 13, 15, 14, 8, 13, 6, 5, 12, 7, 5]⟩,
   ⟨3, 0x8f1bbcdc, [1, 9, 11, 10, 0, 8, 12, 4, 13, 3, 7, 15, 14, 5, 6, 2],
    [11, 12, 14, 15, 14, 15, 9, 8, 9, 14, 5, 6, 8, 6, 5, 12]⟩,
   ⟨4, 0xa953fd4e, [4, 0, 5, 9, 7, 12, 2, 10, 14, 1, 3, 8, 11, 6, 15, 13],
    [9, 15, 5, 11, 6, 8, 13, 12, 5, 12, 13, 14, 11, 8, 5, 6]⟩]

/-- The right line. -/
def right : List Group :=
  [⟨4, 0x50a28be6, [5, 14, 7, 0, 9, 2, 11, 4, 13, 6, 15, 8, 1, 10, 3, 12],
    [8, 9, 9, 11, 13, 15, 15, 5, 7, 7, 8, 11, 14, 14, 12, 6]⟩,
   ⟨3, 0x5c4dd124, [6, 11, 3, 7, 0, 13, 5, 10, 14, 15, 8, 12, 4, 9, 1, 2],
    [9, 13, 15, 7, 12, 8, 9, 11, 7, 7, 12, 7, 6, 15, 13, 11]⟩,
   ⟨2, 0x6d703ef3, [15, 5, 1, 3, 7, 14, 6, 9, 11, 8, 12, 2, 10, 0, 4, 13],
    [9, 7, 15, 11, 8, 6, 6, 14, 12, 13, 5, 14, 13, 13, 7, 5]⟩,
   ⟨1, 0x7a6d76e9, [8, 6, 4, 1, 3, 11, 15, 0, 5, 12, 2, 13, 9, 7, 10, 14],
    [15, 5, 8, 11, 14, 14, 6, 14, 6, 9, 12, 9, 12, 5, 15, 8]⟩,
   ⟨0, 0x00000000, [12, 15, 10, 4, 1, 5, 8, 7, 6, 2, 13, 14, 0, 3, 9, 11],
    [8, 5, 12, 9, 12, 5, 14, 6, 8, 13, 6, 5, 15, 13, 11, 11]⟩]

open Word (rotateLeft)

/-- One round of a group: which word it reads and how far it shifts. -/
def round (block : List UInt32) (g : Group) (s : State) (wordShift : Nat × UInt32) : State :=
  let sum := s.a + mix g.mixer s.b s.c s.d + block.getD wordShift.1 0 + g.constant
  let t := rotateLeft sum wordShift.2 + s.e
  ⟨s.e, t, s.b, rotateLeft s.c 10, s.d⟩

/-- All rounds of a line. -/
def line (block : List UInt32) (groups : List Group) (s : State) : State :=
  groups.foldl (fun s g => (g.words.zip g.shifts).foldl (round block g) s) s

/-- The chaining value after one more block. -/
def compress (s : State) (block : Bytes) : State :=
  let words := Word.ofLittleEndian block
  let l := line words left s
  let r := line words right s
  ⟨s.b + l.c + r.d, s.c + l.d + r.e, s.d + l.e + r.a, s.e + l.a + r.b, s.a + l.b + r.c⟩

/-- The octets of a chaining value. -/
def output (s : State) : Bytes := [s.a, s.b, s.c, s.d, s.e].flatMap Word.littleEndian

/-- The hash; its length field is little-endian. -/
def hash : BlockHash State :=
  ⟨initial, compress, fun n => (BigEndian.encode 8 n).reverse, by simp, output⟩

theorem length_output (s : State) : (output s).length = 20 := rfl

end CurveKeys.Ripemd160
