/-!
# XXH3 digests of 64 bits

A digest of a list of bytes, with no seed. Short inputs are mixed in one step, by length; inputs of more than
240 bytes go through eight accumulators, 64 bytes at a time.

Words are read least byte first. A byte past the end reads as zero.
-/

namespace CodeAtlas.Digest

/-! ## Words -/

/-- The word of the first `n` bytes, least byte first. -/
def littleEndian : Nat → List UInt8 → UInt64
  | 0, _ => 0
  | _ + 1, [] => 0
  | n + 1, b :: bs => b.toUInt64 ||| (littleEndian n bs <<< 8)

/-- The eight bytes from a place on, as a word. -/
def wordAt (bytes : List UInt8) (i : Nat) : UInt64 := littleEndian 8 (bytes.drop i)

/-- The four bytes from a place on, as a word. -/
def halfWordAt (bytes : List UInt8) (i : Nat) : UInt64 := littleEndian 4 (bytes.drop i)

/-- The word with its bytes in the other order. -/
def swapBytes (w : UInt64) : UInt64 :=
  (List.range 8).foldl (fun acc i => (acc <<< 8) ||| ((w >>> (8 * i).toUInt64) &&& 0xff)) 0

def rotateLeft (w k : UInt64) : UInt64 := (w <<< k) ||| (w >>> (64 - k))

/-- The halves of a product of two words, combined. -/
def foldedProduct (a b : UInt64) : UInt64 :=
  let p := a.toNat * b.toNat
  (p % UInt64.size).toUInt64 ^^^ (p / UInt64.size).toUInt64

/-! ## Constants -/

def prime32First : UInt64 := 0x9E3779B1

def prime32Second : UInt64 := 0x85EBCA77

def prime32Third : UInt64 := 0xC2B2AE3D

def primeFirst : UInt64 := 0x9E3779B185EBCA87

def primeSecond : UInt64 := 0xC2B2AE3D27D4EB4F

def primeThird : UInt64 := 0x165667B19E3779F9

def primeFourth : UInt64 := 0x85EBCA77C2B2AE63

def primeFifth : UInt64 := 0x27D4EB2F165667C5

def mixFirst : UInt64 := 0x165667919E3779F9

def mixSecond : UInt64 := 0x9FB21C651E98DF25

/-- The 192 bytes that inputs are mixed with. -/
def secret : List UInt8 :=
  [ 0xb8, 0xfe, 0x6c, 0x39, 0x23, 0xa4, 0x4b, 0xbe, 0x7c, 0x01, 0x81, 0x2c, 0xf7, 0x21, 0xad, 0x1c,
    0xde, 0xd4, 0x6d, 0xe9, 0x83, 0x90, 0x97, 0xdb, 0x72, 0x40, 0xa4, 0xa4, 0xb7, 0xb3, 0x67, 0x1f,
    0xcb, 0x79, 0xe6, 0x4e, 0xcc, 0xc0, 0xe5, 0x78, 0x82, 0x5a, 0xd0, 0x7d, 0xcc, 0xff, 0x72, 0x21,
    0xb8, 0x08, 0x46, 0x74, 0xf7, 0x43, 0x24, 0x8e, 0xe0, 0x35, 0x90, 0xe6, 0x81, 0x3a, 0x26, 0x4c,
    0x3c, 0x28, 0x52, 0xbb, 0x91, 0xc3, 0x00, 0xcb, 0x88, 0xd0, 0x65, 0x8b, 0x1b, 0x53, 0x2e, 0xa3,
    0x71, 0x64, 0x48, 0x97, 0xa2, 0x0d, 0xf9, 0x4e, 0x38, 0x19, 0xef, 0x46, 0xa9, 0xde, 0xac, 0xd8,
    0xa8, 0xfa, 0x76, 0x3f, 0xe3, 0x9c, 0x34, 0x3f, 0xf9, 0xdc, 0xbb, 0xc7, 0xc7, 0x0b, 0x4f, 0x1d,
    0x8a, 0x51, 0xe0, 0x4b, 0xcd, 0xb4, 0x59, 0x31, 0xc8, 0x9f, 0x7e, 0xc9, 0xd9, 0x78, 0x73, 0x64,
    0xea, 0xc5, 0xac, 0x83, 0x34, 0xd3, 0xeb, 0xc3, 0xc5, 0x81, 0xa0, 0xff, 0xfa, 0x13, 0x63, 0xeb,
    0x17, 0x0d, 0xdd, 0x51, 0xb7, 0xf0, 0xda, 0x49, 0xd3, 0x16, 0x55, 0x26, 0x29, 0xd4, 0x68, 0x9e,
    0x2b, 0x16, 0xbe, 0x58, 0x7d, 0x47, 0xa1, 0xfc, 0x8f, 0xf8, 0xb8, 0xd1, 0x7a, 0xd0, 0x31, 0xce,
    0x45, 0xcb, 0x3a, 0x8f, 0x95, 0x16, 0x04, 0x28, 0xaf, 0xd7, 0xfb, 0xca, 0xbb, 0x4b, 0x40, 0x7e ]

/-! ## Finishing steps -/

/-- The last step for inputs of up to three bytes. -/
def finishShort (h : UInt64) : UInt64 :=
  let h := (h ^^^ (h >>> 33)) * primeSecond
  let h := (h ^^^ (h >>> 29)) * primeThird
  h ^^^ (h >>> 32)

/-- The last step for all other inputs but those of four to eight bytes. -/
def finish (h : UInt64) : UInt64 :=
  let h := (h ^^^ (h >>> 37)) * mixFirst
  h ^^^ (h >>> 32)

/-- The last step for inputs of four to eight bytes. -/
def finishWithLength (h length : UInt64) : UInt64 :=
  let h := (h ^^^ rotateLeft h 49 ^^^ rotateLeft h 24) * mixSecond
  let h := (h ^^^ ((h >>> 35) + length)) * mixSecond
  h ^^^ (h >>> 28)

/-! ## Inputs of up to 240 bytes -/

/-- Sixteen bytes of the input, mixed with sixteen bytes of the secret. -/
def mixSixteen (input : List UInt8) (i j : Nat) : UInt64 :=
  foldedProduct (wordAt input i ^^^ wordAt secret j) (wordAt input (i + 8) ^^^ wordAt secret (j + 8))

/-- Up to three bytes : the first, the middle and the last one, and the length. -/
def digestUpTo3 (input : List UInt8) : UInt64 :=
  let n := input.length
  let byte (i : Nat) : UInt64 := ((input[i]?).getD 0).toUInt64
  if n == 0 then finishShort (wordAt secret 56 ^^^ wordAt secret 64)
  else
    let combined := (byte 0 <<< 16) ||| (byte (n / 2) <<< 24) ||| byte (n - 1) ||| (n.toUInt64 <<< 8)
    finishShort (combined ^^^ (halfWordAt secret 0 ^^^ halfWordAt secret 4))

/-- Four to eight bytes. -/
def digestUpTo8 (input : List UInt8) : UInt64 :=
  let n := input.length
  let keyed := (halfWordAt input (n - 4) + (halfWordAt input 0 <<< 32)) ^^^
    (wordAt secret 8 ^^^ wordAt secret 16)
  finishWithLength keyed n.toUInt64

/-- Nine to sixteen bytes. -/
def digestUpTo16 (input : List UInt8) : UInt64 :=
  let n := input.length
  let low := wordAt input 0 ^^^ (wordAt secret 24 ^^^ wordAt secret 32)
  let high := wordAt input (n - 8) ^^^ (wordAt secret 40 ^^^ wordAt secret 48)
  finish (n.toUInt64 + swapBytes low + high + foldedProduct low high)

/-- Up to 128 bytes : pairs of sixteen bytes from both ends. -/
def digestUpTo128 (input : List UInt8) : UInt64 :=
  let n := input.length
  let pairs := if 96 < n then 4 else if 64 < n then 3 else if 32 < n then 2 else 1
  finish ((List.range pairs).foldl
    (fun acc k =>
      acc + mixSixteen input (16 * k) (32 * k) + mixSixteen input (n - 16 * (k + 1)) (32 * k + 16))
    (n.toUInt64 * primeFirst))

/-- Up to 240 bytes : sixteen bytes after sixteen bytes. -/
def digestUpTo240 (input : List UInt8) : UInt64 :=
  let n := input.length
  let first := (List.range 8).foldl (fun acc k => acc + mixSixteen input (16 * k) (16 * k))
    (n.toUInt64 * primeFirst)
  let others := (List.range (n / 16 - 8)).foldl
    (fun acc k => acc + mixSixteen input (16 * (k + 8)) (16 * k + 3)) (finish first)
  finish (others + mixSixteen input (n - 16) (136 - 17))

/-! ## Longer inputs -/

/-- The eight accumulators at the beginning. -/
def initialLanes : List UInt64 :=
  [ prime32Third, primeFirst, primeSecond, primeThird, primeFourth, prime32Second, primeFifth,
    prime32First ]

/-- The words of 64 bytes. -/
def stripeWords (bytes : List UInt8) : List UInt64 := (List.range 8).map fun i => wordAt bytes (8 * i)

/-- Neighbours in pairs, exchanged. -/
def swapNeighbours {α : Type} : List α → List α
  | a :: b :: rest => b :: a :: swapNeighbours rest
  | rest => rest

/-- Take 64 bytes into the accumulators : each word is added to its neighbour's accumulator, and the product of
the halves of the word mixed with the secret to its own. -/
def accumulate (lanes : List UInt64) (stripe key : List UInt8) : List UInt64 :=
  let values := stripeWords stripe
  let keyed := (values.zip (stripeWords key)).map fun (v, k) => v ^^^ k
  let products := keyed.map fun w : UInt64 => (w &&& (0xFFFFFFFF : UInt64)) * (w >>> (32 : UInt64))
  (lanes.zip (products.zip (swapNeighbours values))).map fun (lane, product, value) =>
    lane + product + value

/-- The step after every 1024 bytes. -/
def scramble (lanes : List UInt64) : List UInt64 :=
  (lanes.zip (stripeWords (secret.drop 128))).map fun (lane, k) =>
    (lane ^^^ (lane >>> 47) ^^^ k) * prime32First

/-- Take `n` times 64 bytes into the accumulators, at the places `i`, `i + 1` and so on of a block. Sixteen
of them make a block. -/
def accumulateStripes : Nat → Nat → List UInt64 → List UInt8 → List UInt64
  | 0, _, lanes, _ => lanes
  | n + 1, i, lanes, input =>
    let lanes := accumulate lanes (input.take 64) (secret.drop (8 * i))
    if i == 15 then accumulateStripes n 0 (scramble lanes) (input.drop 64)
    else accumulateStripes n (i + 1) lanes (input.drop 64)

/-- Combine the accumulators. -/
def mergeLanes (lanes : List UInt64) (length : Nat) : UInt64 :=
  let keyed := (lanes.zip ((List.range 8).map fun i => wordAt secret (11 + 8 * i))).map
    fun (lane, k) => lane ^^^ k
  let rec products : List UInt64 → UInt64
    | a :: b :: rest => foldedProduct a b + products rest
    | _ => 0
  finish (length.toUInt64 * primeFirst + products keyed)

/-- More than 240 bytes. The last 64 bytes are taken once more, with a part of the secret of their own. -/
def digestLong (input : List UInt8) : UInt64 :=
  let n := input.length
  let lanes := accumulateStripes ((n - 1) / 64) 0 initialLanes input
  mergeLanes (accumulate lanes (input.drop (n - 64)) (secret.drop 121)) n

/-- The digest of a list of bytes. -/
def xxh3 (input : List UInt8) : UInt64 :=
  let n := input.length
  if n ≤ 3 then digestUpTo3 input
  else if n ≤ 8 then digestUpTo8 input
  else if n ≤ 16 then digestUpTo16 input
  else if n ≤ 128 then digestUpTo128 input
  else if n ≤ 240 then digestUpTo240 input
  else digestLong input

end CodeAtlas.Digest
