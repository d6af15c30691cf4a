import JavaSynth.Draw.Source
import JavaSynth.Draw.ChaCha

set_option autoImplicit false

/-!
# Word streams

A stream of words is a source. It gives the words of a tape first and the words of a seeded ChaCha
stream after them. A word is turned into a number below `n` by the high half of its product with
`n`, and words whose low half would favour some numbers are refused.
-/
namespace JavaSynth

structure WordStream where
  tape : List UInt64
  key : ChaCha.Key
  block : UInt64
  /-- The words of the current block that are still to come. -/
  pending : List UInt32

namespace WordStream

def ofTape (tape : List UInt64) (seed : UInt64) : WordStream :=
  { tape, key := ChaCha.keyOfSeed seed, block := 0, pending := [] }

def ofSeed (seed : UInt64) : WordStream := ofTape [] seed

/-- The next word of the ChaCha stream. -/
def generated (s : WordStream) : UInt32 × WordStream :=
  match s.pending with
  | w :: rest => (w, { s with pending := rest })
  | [] =>
    let words := ChaCha.block s.key s.block
    (words[0], { s with block := s.block + 1, pending := words.toList.tail })

/-- A 32-bit word; of a word of the tape the low half. -/
def next32 (s : WordStream) : UInt32 × WordStream :=
  match s.tape with
  | w :: rest => (w.toUInt32, { s with tape := rest })
  | [] => s.generated

/-- A 64-bit word; the stream gives its low half first. -/
def next64 (s : WordStream) : UInt64 × WordStream :=
  match s.tape with
  | w :: rest => (w, { s with tape := rest })
  | [] =>
    let (low, s) := s.generated
    let (high, s) := s.generated
    (high.toUInt64 <<< 32 ||| low.toUInt64, s)

def short (s : WordStream) : Fin UInt32.size × WordStream :=
  let (w, s) := s.next32
  (⟨w.toNat, w.toNat_lt⟩, s)

def long (s : WordStream) : Fin UInt64.size × WordStream :=
  let (w, s) := s.next64
  (⟨w.toNat, w.toNat_lt⟩, s)

/-- The number of words that may be refused in a row. Past the tape, that many refusals are less
likely than one in `2 ^ 256`. -/
def patience (s : WordStream) : Nat := s.tape.length + 256

/-- The greatest low half that is not refused for the range `n`, where words lie below `limit`, a
power of two. -/
def zone (limit n : Nat) : Nat := n * (limit >>> (n.log2 + 1)) - 1

theorem div_lt_of_lt {v n m : Nat} (h : v < m) (pos : 0 < n) : v * n / m < n :=
  Nat.div_lt_of_lt_mul (Nat.mul_lt_mul_of_pos_right h pos)

/-- A number below `n` from words below `limit`. -/
def drawIndex (limit : Nat) (word : WordStream → Fin limit × WordStream) (n : Nat)
    (pos : 0 < n) : Nat → WordStream → Fin n × WordStream
  | 0, s => (⟨0, pos⟩, s)
  | tries + 1, s =>
    let (v, s) := word s
    if v.val * n % limit ≤ zone limit n then
      (⟨v.val * n / limit, div_lt_of_lt v.isLt pos⟩, s)
    else drawIndex limit word n pos tries s

/-- A real in `[0, 1)` from the upper 52 bits of a word. -/
def unit (w : UInt64) : Float := Float.ofBits ((0x3FF0000000000000 : UInt64) ||| (w >>> 12)) - 1

def drawReal (bound : Float) (pos : 0 < bound) :
    Nat → WordStream → { r : Float // 0 ≤ r ∧ r < bound } × WordStream
  | 0, s => (⟨0, by decide, pos⟩, s)
  | tries + 1, s =>
    let (w, s) := s.next64
    let r := unit w * bound
    if h : 0 ≤ r ∧ r < bound then (⟨r, h⟩, s) else drawReal bound pos tries s

/-- The words below this one are heads. -/
def headsBelow (p : Float) : UInt64 := (p * 18446744073709551616).toUInt64

def drawCoin (p : Float) (s : WordStream) : Bool × WordStream :=
  let (w, s) := s.next64
  (decide (0 < p) && w < headsBelow p, s)

instance : Source WordStream where
  index n pos s := drawIndex UInt64.size long n pos s.patience s
  shortIndex n pos s := drawIndex UInt32.size short n pos s.patience s
  int32 s :=
    let (w, s) := s.next32
    (w.toInt32, s)
  real bound pos s := drawReal bound pos s.patience s
  coin := drawCoin
  coin_zero s h := by simp [drawCoin, h]

end WordStream
end JavaSynth
