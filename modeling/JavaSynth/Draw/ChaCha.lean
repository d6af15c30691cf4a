set_option autoImplicit false

/-!
# The ChaCha stream

Blocks of sixteen 32-bit words, made from a key and a block number by twelve rounds. A 64-bit seed
is stretched to a key of eight words by the PCG generator.
-/
namespace JavaSynth.ChaCha

abbrev Key := Vector UInt32 8

abbrev State := Vector UInt32 16

def rotateLeft (x : UInt32) (n : UInt32) : UInt32 := (x <<< n) ||| (x >>> (32 - n))

/-- `x` turned right by `n` places, where `n` may be zero. -/
def rotateRight (x : UInt32) (n : UInt32) : UInt32 := (x >>> n) ||| (x <<< (32 - n))

def quarterRound (s : State) (a b c d : Fin 16) : State :=
  let s := s.set a (s[a] + s[b])
  let s := s.set d (rotateLeft (s[d] ^^^ s[a]) 16)
  let s := s.set c (s[c] + s[d])
  let s := s.set b (rotateLeft (s[b] ^^^ s[c]) 12)
  let s := s.set a (s[a] + s[b])
  let s := s.set d (rotateLeft (s[d] ^^^ s[a]) 8)
  let s := s.set c (s[c] + s[d])
  s.set b (rotateLeft (s[b] ^^^ s[c]) 7)

def doubleRound (s : State) : State :=
  let s := quarterRound s 0 4 8 12
  let s := quarterRound s 1 5 9 13
  let s := quarterRound s 2 6 10 14
  let s := quarterRound s 3 7 11 15
  let s := quarterRound s 0 5 10 15
  let s := quarterRound s 1 6 11 12
  let s := quarterRound s 2 7 8 13
  quarterRound s 3 4 9 14

def rounds : Nat → State → State
  | 0, s => s
  | n + 1, s => rounds n (doubleRound s)

/-- The constants, the key, the block number in two words, and two words of zero. -/
def initial (key : Key) (block : UInt64) : State :=
  #v[0x61707865, 0x3320646e, 0x79622d32, 0x6b206574,
    key[0], key[1], key[2], key[3], key[4], key[5], key[6], key[7],
    block.toUInt32, (block >>> 32).toUInt32, 0, 0]

def block (key : Key) (number : UInt64) : State :=
  let start := initial key number
  (rounds 6 start).zipWith (· + ·) start

def seedStep (state : UInt64) : UInt64 := state * 6364136223846793005 + 11634580027462260723

def seedWord (state : UInt64) : UInt32 :=
  rotateRight (((state >>> 18) ^^^ state) >>> 27).toUInt32 (state >>> 59).toUInt32

def keyOfSeed (seed : UInt64) : Key :=
  let s0 := seedStep seed
  let s1 := seedStep s0
  let s2 := seedStep s1
  let s3 := seedStep s2
  let s4 := seedStep s3
  let s5 := seedStep s4
  let s6 := seedStep s5
  let s7 := seedStep s6
  #v[seedWord s0, seedWord s1, seedWord s2, seedWord s3, seedWord s4, seedWord s5, seedWord s6,
    seedWord s7]

end JavaSynth.ChaCha
