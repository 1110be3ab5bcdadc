import Mathlib.Data.List.Basic
import Mathlib.Data.BitVec

/-!
# SHA-256

The hash of a list of bytes, and its text in hex digits.

- `compress`: one block of sixteen words into the chaining state.
- `digest`, `hexdigest`: the hash of a message; `length_hexdigest` and `hexdigest_mem` say what the text looks like.
-/

namespace Sha256

abbrev Word := BitVec 32

abbrev Byte := BitVec 8

/-! ## The functions of a round -/

def ch (x y z : Word) : Word := (x &&& y) ^^^ (~~~x &&& z)

def maj (x y z : Word) : Word := (x &&& y) ^^^ (x &&& z) ^^^ (y &&& z)

def bigSigma0 (x : Word) : Word := x.rotateRight 2 ^^^ x.rotateRight 13 ^^^ x.rotateRight 22

def bigSigma1 (x : Word) : Word := x.rotateRight 6 ^^^ x.rotateRight 11 ^^^ x.rotateRight 25

def smallSigma0 (x : Word) : Word := x.rotateRight 7 ^^^ x.rotateRight 18 ^^^ (x >>> 3)

def smallSigma1 (x : Word) : Word := x.rotateRight 17 ^^^ x.rotateRight 19 ^^^ (x >>> 10)

/-- The round constants. -/
def roundConstants : List Word := [
  0x428a2f98, 0x71374491, 0xb5c0fbcf, 0xe9b5dba5, 0x3956c25b, 0x59f111f1, 0x923f82a4, 0xab1c5ed5,
  0xd807aa98, 0x12835b01, 0x243185be, 0x550c7dc3, 0x72be5d74, 0x80deb1fe, 0x9bdc06a7, 0xc19bf174,
  0xe49b69c1, 0xefbe4786, 0x0fc19dc6, 0x240ca1cc, 0x2de92c6f, 0x4a7484aa, 0x5cb0a9dc, 0x76f988da,
  0x983e5152, 0xa831c66d, 0xb00327c8, 0xbf597fc7, 0xc6e00bf3, 0xd5a79147, 0x06ca6351, 0x14292967,
  0x27b70a85, 0x2e1b2138, 0x4d2c6dfc, 0x53380d13, 0x650a7354, 0x766a0abb, 0x81c2c92e, 0x92722c85,
  0xa2bfe8a1, 0xa81a664b, 0xc24b8b70, 0xc76c51a3, 0xd192e819, 0xd6990624, 0xf40e3585, 0x106aa070,
  0x19a4c116, 0x1e376c08, 0x2748774c, 0x34b0bcb5, 0x391c0cb3, 0x4ed8aa4a, 0x5b9cca4f, 0x682e6ff3,
  0x748f82ee, 0x78a5636f, 0x84c87814, 0x8cc70208, 0x90befffa, 0xa4506ceb, 0xbef9a3f7, 0xc67178f2]

/-! ## The chaining state -/

structure State where
  a : Word
  b : Word
  c : Word
  d : Word
  e : Word
  f : Word
  g : Word
  h : Word

def initial : State :=
  ⟨0x6a09e667, 0xbb67ae85, 0x3c6ef372, 0xa54ff53a, 0x510e527f, 0x9b05688c, 0x1f83d9ab, 0x5be0cd19⟩

def State.words (s : State) : List Word := [s.a, s.b, s.c, s.d, s.e, s.f, s.g, s.h]

def State.add (s t : State) : State :=
  ⟨s.a + t.a, s.b + t.b, s.c + t.c, s.d + t.d, s.e + t.e, s.f + t.f, s.g + t.g, s.h + t.h⟩

/-- One round, with its constant and its word of the schedule. -/
def round (s : State) (k w : Word) : State :=
  let t₁ := s.h + bigSigma1 s.e + ch s.e s.f s.g + k + w
  let t₂ := bigSigma0 s.a + maj s.a s.b s.c
  ⟨t₁ + t₂, s.a, s.b, s.c, s.d + t₁, s.e, s.f, s.g⟩

/-- The next word of the schedule, whose last words are given, the last one first. -/
def nextWord (ws : List Word) : Word :=
  smallSigma1 (ws.getD 1 0) + ws.getD 6 0 + smallSigma0 (ws.getD 14 0) + ws.getD 15 0

/-- The schedule of a block, backwards. -/
def extend : ℕ → List Word → List Word
  | 0, ws => ws
  | n + 1, ws => extend n (nextWord ws :: ws)

def schedule (block : List Word) : List Word := (extend 48 block.reverse).reverse

def compress (s : State) (block : List Word) : State :=
  s.add ((roundConstants.zip (schedule block)).foldl (fun s x => round s x.1 x.2) s)

/-! ## Messages -/

/-- The number in `k` bytes, the highest first. -/
def bytesOf (k n : ℕ) : List Byte := (List.range k).reverse.map fun i => BitVec.ofNat 8 (n >>> (8 * i))

def wordOf (bs : List Byte) : Word := bs.foldl (fun w b => w <<< 8 ||| b.setWidth 32) 0

/-- A list cut into pieces of `n`. -/
def pieces {α : Type} (n : ℕ) : ℕ → List α → List (List α)
  | 0, _ => []
  | k + 1, l => l.take n :: pieces n k (l.drop n)

/-- The message, a one bit, zeros, and the length in bits. -/
def pad (m : List Byte) : List Byte :=
  m ++ [0x80] ++ List.replicate ((119 - m.length % 64) % 64) 0 ++ bytesOf 8 (8 * m.length)

def digest (m : List Byte) : List Byte :=
  let blocks := (pieces 64 ((m.length + 72) / 64) (pad m)).map fun b => (pieces 4 16 b).map wordOf
  (blocks.foldl compress initial).words.flatMap fun w => bytesOf 4 w.toNat

/-! ## Hex digits -/

def hexDigits : List Char := "0123456789abcdef".toList

def hexOf (b : Byte) : List Char := [hexDigits.getD (b.toNat / 16) '0', hexDigits.getD (b.toNat % 16) '0']

def hexdigest (m : List Byte) : List Char := (digest m).flatMap hexOf

example : String.ofList (hexdigest ("abc".toList.map fun c => BitVec.ofNat 8 c.toNat)) =
    "ba7816bf8f01cfea414140de5dae2223b00361a396177a9cb410ff61f20015ad" := by decide +kernel

section Laws

variable (m : List Byte)

theorem length_bytesOf (k n : ℕ) : (bytesOf k n).length = k := by simp [bytesOf]

theorem length_digest : (digest m).length = 32 := by
  simp only [digest, List.length_flatMap, length_bytesOf, State.words]
  rfl

/-- **A digest has 64 digits.** -/
theorem length_hexdigest : (hexdigest m).length = 64 := by
  have hsum : ((digest m).map fun b => (hexOf b).length).sum = (digest m).length * 2 := by
    have htwo : (fun b => (hexOf b).length) = fun _ => 2 := rfl
    rw [htwo, List.map_const', List.sum_replicate_nat]
  rw [hexdigest, List.length_flatMap, hsum, length_digest]

theorem hexOf_mem {b : Byte} {c : Char} (h : c ∈ hexOf b) : c ∈ hexDigits := by
  have hdigit : ∀ n < 16, hexDigits.getD n '0' ∈ hexDigits := by decide
  have hb : b.toNat < 256 := b.isLt
  rcases List.mem_pair.1 h with rfl | rfl
  · exact hdigit _ (by omega)
  · exact hdigit _ (by omega)

theorem hexdigest_mem {c : Char} (h : c ∈ hexdigest m) : c ∈ hexDigits := by
  obtain ⟨b, -, hc⟩ := List.mem_flatMap.1 h
  exact hexOf_mem hc

end Laws

end Sha256
