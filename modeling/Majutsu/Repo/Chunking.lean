import Majutsu.Lib.Ranges
import Majutsu.Repo.Basic
import Mathlib.Algebra.Order.Ring.Unbundled.Rat

/-!
# Cutting and compressing large files

A large file is cut into chunks, either at fixed distances or where a rolling
hash of the content says so, and a chunk is compressed when that gains enough.
Whether it is tried at all depends on the name of the file.
-/

namespace Majutsu.Repo

open Ranges

/-- The loop of `fixed_ranges`; every round advances, so `fuel` rounds reach the end. -/
def fixedRangesFrom (len size : Nat) : Nat → Nat → List (Nat × Nat)
  | 0, _ => []
  | fuel + 1, start =>
    if start < len then
      let stop := min (start + size) len
      (start, stop) :: fixedRangesFrom len size fuel stop
    else []

def fixedRanges (len chunkSize : Nat) : List (Nat × Nat) :=
  fixedRangesFrom len (max chunkSize 1) len 0

/-- One step of the rolling hash of `content_defined_ranges`. -/
def roll (rolling : UInt64) (byte : UInt8) : UInt64 :=
  ((rolling <<< 1 ||| rolling >>> 63) + byte.toUInt64) * 0x9E3779B185EBCA87

/-- The inner loop of `content_defined_ranges`: the length of the next chunk of what is left,
and the hash behind it. -/
def cut (shortest longest : Nat) (mask rolling : UInt64) (length : Nat) :
    Bytes → Nat × UInt64
  | [] => (length, rolling)
  | byte :: rest =>
    if length < longest then
      let rolling := roll rolling byte
      if shortest ≤ length + 1 ∧ rolling &&& mask = 0 then (length + 1, rolling)
      else cut shortest longest mask rolling (length + 1) rest
    else (length, rolling)

/-- The outer loop; the hash is carried from one chunk to the next. -/
def contentDefinedRangesFrom (shortest longest : Nat) (mask : UInt64) :
    Nat → Nat → UInt64 → Bytes → List (Nat × Nat)
  | 0, _, _, _ => []
  | _ + 1, _, _, [] => []
  | fuel + 1, start, rolling, rest@(_ :: _) =>
    let next := cut shortest longest mask rolling 0 rest
    (start, start + next.1) ::
      contentDefinedRangesFrom shortest longest mask fuel (start + next.1) next.2 (rest.drop next.1)

def contentDefinedRanges (bytes : Bytes) (target : Nat) : List (Nat × Nat) :=
  let target := max target 1024
  let shortest := min (max (target / 4) 1024) target
  let longest := max (target * 4) (shortest + 1)
  let mask := max (target.nextPowerOfTwo - 1) 1
  contentDefinedRangesFrom shortest longest mask.toUInt64 bytes.length 0 0 bytes

def chunkRangesForBytes (chunking : String) (chunkSize : Nat) (bytes : Bytes) : List (Nat × Nat) :=
  if chunking = "fastcdc" then contentDefinedRanges bytes chunkSize
  else fixedRanges bytes.length chunkSize

theorem fixedRangesFrom_covers {len size fuel start : Nat} (positive : 0 < size)
    (inside : start ≤ len) (enough : len ≤ start + fuel) :
    Covers start (fixedRangesFrom len size fuel start) len := by
  fun_induction fixedRangesFrom len size fuel start with
  | case1 start =>
    obtain rfl : start = len := by omega
    exact .nil
  | case2 fuel start more stop ih =>
    apply Covers.cons
    · omega
    · exact ih (by omega) (by omega)
  | case3 fuel start more =>
    obtain rfl : start = len := by omega
    exact .nil

theorem cut_le (shortest longest : Nat) (mask rolling : UInt64) (length : Nat) (bytes : Bytes) :
    length ≤ (cut shortest longest mask rolling length bytes).1 ∧
      (cut shortest longest mask rolling length bytes).1 ≤ length + bytes.length := by
  fun_induction cut shortest longest mask rolling length bytes with
  | case1 => simp
  | case2 rolling length byte rest more rolled here =>
    simp only [List.length_cons]
    omega
  | case3 rolling length byte rest more rolled here bounds =>
    simp only [List.length_cons]
    omega
  | case4 rolling length byte rest more =>
    simp only [List.length_cons]
    omega

theorem cut_pos (shortest : Nat) {longest : Nat} (positive : 0 < longest) (mask rolling : UInt64)
    (byte : UInt8) (rest : Bytes) : 0 < (cut shortest longest mask rolling 0 (byte :: rest)).1 := by
  rw [cut, if_pos positive]
  dsimp only
  split
  · exact Nat.one_pos
  · exact (cut_le shortest longest mask (roll rolling byte) 1 rest).1

theorem contentDefinedRangesFrom_covers (shortest : Nat) {longest : Nat} (positive : 0 < longest)
    (mask rolling : UInt64) (fuel start : Nat) (rest : Bytes) (enough : rest.length ≤ fuel) :
    Covers start (contentDefinedRangesFrom shortest longest mask fuel start rolling rest)
      (start + rest.length) := by
  induction fuel generalizing start rolling rest with
  | zero =>
    have done : rest = [] := List.eq_nil_of_length_eq_zero (by omega)
    subst done
    exact .nil
  | succ fuel ih =>
    cases rest with
    | nil => exact .nil
    | cons byte tail =>
      have progress := cut_pos shortest positive mask rolling byte tail
      have inside := (cut_le shortest longest mask rolling 0 (byte :: tail)).2
      simp only [Nat.zero_add] at inside
      rw [contentDefinedRangesFrom]
      apply Covers.cons
      · omega
      · have left : ((byte :: tail).drop
            (cut shortest longest mask rolling 0 (byte :: tail)).1).length ≤ fuel := by
          simp only [List.length_drop, List.length_cons] at enough ⊢
          omega
        have covers := ih (cut shortest longest mask rolling 0 (byte :: tail)).2
          (start + (cut shortest longest mask rolling 0 (byte :: tail)).1) _ left
        have ends : start + (cut shortest longest mask rolling 0 (byte :: tail)).1 +
            ((byte :: tail).drop (cut shortest longest mask rolling 0 (byte :: tail)).1).length =
            start + (byte :: tail).length := by
          rw [List.length_drop]
          omega
        rwa [ends] at covers

theorem longest_pos (target : Nat) :
    0 < max (max target 1024 * 4) (min (max (max target 1024 / 4) 1024) (max target 1024) + 1) := by
  omega

theorem chunkRangesForBytes_covers (chunking : String) (chunkSize : Nat) (bytes : Bytes) :
    Covers 0 (chunkRangesForBytes chunking chunkSize bytes) bytes.length := by
  unfold chunkRangesForBytes
  split
  · have covers := contentDefinedRangesFrom_covers
      (min (max (max chunkSize 1024 / 4) 1024) (max chunkSize 1024))
      (longest_pos chunkSize) (max ((max chunkSize 1024).nextPowerOfTwo - 1) 1).toUInt64 0
      bytes.length 0 bytes (Nat.le_refl _)
    rwa [Nat.zero_add] at covers
  · exact fixedRangesFrom_covers (by omega) (Nat.zero_le _) (by omega)

theorem flatten_chunkRangesForBytes (chunking : String) (chunkSize : Nat) (bytes : Bytes) :
    ((chunkRangesForBytes chunking chunkSize bytes).map (slice bytes)).flatten = bytes := by
  have covers := chunkRangesForBytes_covers chunking chunkSize bytes
  simpa using covers.flatten_slices bytes (Nat.le_refl _)

/-- A compressor that is read back whatever the level was. -/
structure Zstd where
  encodeAll : Bytes → Int → Bytes
  decodeAll : Bytes → Option Bytes
  decodeAll_encodeAll : ∀ bytes level, decodeAll (encodeAll bytes level) = some bytes

/-- A binary64 number; a finite one by its exact value. -/
inductive Binary64 where
  | nan
  | infinite (positive : Bool)
  | finite (value : Rat)

/-- The binary64 number nearest to a rational, of two such the even one. The exponents at hand
stay far inside their range. -/
def nearest (x : Rat) : Rat :=
  let n := x.num.natAbs
  let e : Int := (n.log2 : Int) - (x.den.log2 : Int)
  -- now 2 ^ e is the highest power of two that is not above x
  let e := if x.den <<< e.toNat ≤ n <<< (-e).toNat then e else e - 1
  let up := (52 - e).toNat
  let down := (e - 52).toNat
  let d := x.den <<< down
  let q := (n <<< up) / d
  let r := (n <<< up) % d
  let m := if d < 2 * r ∨ d = 2 * r ∧ q % 2 = 1 then q + 1 else q
  x.num.sign * mkRat (m <<< down) (1 <<< up)

/-- `gain < threshold` for a finite `gain`. -/
def Binary64.above (gain : Rat) : Binary64 → Bool
  | nan => false
  | infinite positive => positive
  | finite value => gain < value

/-- `gain >= threshold` for a finite `gain`. -/
def Binary64.within (gain : Rat) : Binary64 → Bool
  | nan => false
  | infinite positive => !positive
  | finite value => value ≤ gain

structure CompressionConfig where
  enabled : Bool
  algorithm : String
  level : Int
  sampleBytes : Nat
  minGainRatio : Binary64
  skipExtensions : List Text

structure LargeConfig where
  defaultChunking : String
  chunkSize : Nat
  compression : CompressionConfig

/-- The `compression` field of a chunk. A manifest may name an algorithm the reader does not know. -/
inductive Compression where
  | none
  | zstd
  | other (name : String)
  deriving DecidableEq

structure StoredLargeChunk where
  bytes : Bytes
  compression : Compression
  deriving DecidableEq

def globMatch (pattern name : Text) : Bool :=
  if pattern = ['*'] then true
  else if ['*', '.'].isPrefixOf pattern then (pattern.drop 1).isSuffixOf name
  else if ['*'].isSuffixOf pattern then pattern.dropLast.isPrefixOf name
  else pattern = name

def shouldCompress (config : CompressionConfig) (fileName : Text) : Bool :=
  config.enabled && config.algorithm = "zstd" &&
    !config.skipExtensions.any (fun pattern => globMatch pattern fileName)

/-- Each of the conversions, the division and the difference is rounded. -/
def compressionGain (originalLen storedLen : Nat) : Rat :=
  nearest (1 - nearest (nearest storedLen / nearest (max originalLen 1 : Nat)))

example : compressionGain 10 9 < nearest (1 / 10) := by decide +kernel

def compressChunkIfUseful (zstd : Zstd) (config : CompressionConfig) (fileName : Text)
    (bytes : Bytes) : StoredLargeChunk :=
  let sample := bytes.take config.sampleBytes
  if !shouldCompress config fileName then ⟨bytes, .none⟩
  else if 0 < sample.length ∧ sample.length < bytes.length ∧
      config.minGainRatio.above
        (compressionGain sample.length (zstd.encodeAll sample config.level).length) then
    ⟨bytes, .none⟩
  else
    let compressed := zstd.encodeAll bytes config.level
    if config.minGainRatio.within (compressionGain bytes.length compressed.length) then
      ⟨compressed, .zstd⟩
    else ⟨bytes, .none⟩

def decodeLargeChunkPayload (zstd : Zstd) (compression : Compression) (bytes : Bytes) :
    Option Bytes :=
  match compression with
  | .none => some bytes
  | .zstd => zstd.decodeAll bytes
  | .other _ => none

theorem compressChunkIfUseful_cases (zstd : Zstd) (config : CompressionConfig) (fileName : Text)
    (bytes : Bytes) :
    compressChunkIfUseful zstd config fileName bytes = ⟨bytes, .none⟩ ∨
      compressChunkIfUseful zstd config fileName bytes =
        ⟨zstd.encodeAll bytes config.level, .zstd⟩ := by
  unfold compressChunkIfUseful
  dsimp only
  split_ifs
  · exact Or.inl rfl
  · exact Or.inl rfl
  · exact Or.inr rfl
  · exact Or.inl rfl

theorem decode_compressChunkIfUseful (zstd : Zstd) (config : CompressionConfig) (fileName : Text)
    (bytes : Bytes) :
    decodeLargeChunkPayload zstd (compressChunkIfUseful zstd config fileName bytes).compression
      (compressChunkIfUseful zstd config fileName bytes).bytes = some bytes := by
  rcases compressChunkIfUseful_cases zstd config fileName bytes with plain | compressed
  · rw [plain]
    rfl
  · rw [compressed]
    exact zstd.decodeAll_encodeAll bytes config.level

end Majutsu.Repo
