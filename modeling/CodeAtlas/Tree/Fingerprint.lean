import CodeAtlas.Digest.Xxh3
import CodeAtlas.Tree.Scan

/-!
# Fingerprints

The fingerprint of a scan is a digest of the path, the time of change and the size of each file. Any file that
is added, removed, renamed, changed or resized changes the bytes from which it is made.
-/

namespace CodeAtlas.Tree

/-- The `n` lowest bytes of a number, least first. -/
def littleEndianBytes : Nat → Nat → List UInt8
  | 0, _ => []
  | n + 1, v => (v % 256).toUInt8 :: littleEndianBytes n (v / 256)

/-- The bytes of a file : its path, a zero, the time and the size. -/
def fingerprintBytes (relPath : String) (changed size : Nat) : List UInt8 :=
  relPath.toUTF8.toList ++ 0 :: (littleEndianBytes 8 changed ++ littleEndianBytes 8 size)

/-- The bytes of a scan. -/
def scanBytes (files : List ScannedFile) : List UInt8 :=
  files.flatMap fun f => fingerprintBytes f.relPath f.changed f.size

/-- The fingerprint of a scan. -/
def fingerprint (files : List ScannedFile) : UInt64 := Digest.xxh3 (scanBytes files)

/-- A word in sixteen digits of base sixteen. -/
def hexText (w : UInt64) : String :=
  let digits := Nat.toDigits 16 w.toNat
  String.ofList (List.replicate (16 - digits.length) '0' ++ digits)

end CodeAtlas.Tree
