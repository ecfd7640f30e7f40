-- SUMMARY: Hashing of contents: the bytes that reach the hash, and when they depend on the content alone.
import Mathlib.Algebra.Order.Group.Nat
import Voom.Lib.Reader

/-!
# Content hashes

A small file is hashed by a loop of reads, a large one by its size and three single reads, which
the system may cut short. `Canonical` is what the hash is meant to be of.
`hashFile_contentOnly_iff` says when it is.
-/

namespace Voom.Discovery.ContentHash

open Lib

/-- Size threshold above which we switch to partial hashing. -/
def partialHashThreshold : Nat := 2 * 1024 * 1024

/-- Size of each chunk sampled for partial hashing. -/
def hashChunkSize : Nat := 1024 * 1024

theorem partialHashThreshold_eq : partialHashThreshold = 2 * hashChunkSize := by decide

/-- The buffer of a full hash. -/
def fullBufferSize : Nat := 256 * 1024

/-- The hasher: the bytes it was fed. Its digest is a function of these alone. -/
structure Hasher where
  bytes : List UInt8 := []

def Hasher.update (h : Hasher) (data : List UInt8) : Hasher := ⟨h.bytes ++ data⟩

/-- `u64::to_le_bytes`. -/
def toLeBytes (n : Nat) : List UInt8 :=
  (List.range 8).map fun i => UInt8.ofNat (n / 256 ^ i)

/-- `{:016x}` of a digest. -/
def hex16 (digest : UInt64) : String :=
  let digits := Nat.toDigits 16 digest.toNat
  String.ofList (List.replicate (16 - digits.length) '0' ++ digits)

/-- The loop of `hash_file_full`. -/
def hashFileFull (r : Reader) (file : OpenFile UInt8) (hasher : Hasher) : Hasher :=
  if _h : (file.read r fullBufferSize).1 = [] then hasher
  else
    hashFileFull r (file.read r fullBufferSize).2
      (hasher.update (file.read r fullBufferSize).1)
termination_by file.left.length
decreasing_by exact OpenFile.left_length_lt _h

/-- What `hash_file` feeds its hasher, for a content and the reads the system grants. -/
def hashedStream (r : Reader) (content : List UInt8) : Hasher :=
  let file : OpenFile UInt8 := { content }
  let fileSize := content.length
  if fileSize ≤ partialHashThreshold then hashFileFull r file {}
  else
    let hasher := Hasher.update {} (toLeBytes fileSize)
    -- First chunk
    let (data, file) := file.read r hashChunkSize
    let hasher := hasher.update data
    -- Middle chunk
    let (data, file) := (file.seek (fileSize / 2)).read r hashChunkSize
    let hasher := hasher.update data
    -- Last chunk
    let (data, _) := (file.seek (fileSize - hashChunkSize)).read r hashChunkSize
    hasher.update data

section

variable (xxh3 : List UInt8 → UInt64)

/-- `hash_file` of a file that can be read. -/
def hashFile (r : Reader) (content : List UInt8) : String :=
  hex16 (xxh3 (hashedStream r content).bytes)

end

/-! ## The stream -/

/-- What the hash of a content is meant to be of. -/
def canonical (content : List UInt8) : List UInt8 :=
  if content.length ≤ partialHashThreshold then content
  else
    toLeBytes content.length ++ content.take hashChunkSize ++
      (content.drop (content.length / 2)).take hashChunkSize ++
      (content.drop (content.length - hashChunkSize)).take hashChunkSize

/-- The reads of the three chunks of a large file fill their buffers. -/
structure FillsChunks (r : Reader) (size : Nat) : Prop where
  first : r.count 0 hashChunkSize size = hashChunkSize
  middle : r.count 1 hashChunkSize (size - size / 2) = hashChunkSize
  last : r.count 2 hashChunkSize hashChunkSize = hashChunkSize

/-- The loop hashes all that is left of the file. -/
theorem hashFileFull_bytes (r : Reader) (file : OpenFile UInt8) (hasher : Hasher) :
    (hashFileFull r file hasher).bytes = hasher.bytes ++ file.left := by
  fun_induction hashFileFull r file hasher with
  | case1 file hasher hend =>
    rw [OpenFile.left_eq_nil (by decide) hend, List.append_nil]
  | case2 file hasher hmore ih =>
    rw [ih, Hasher.update, List.append_assoc, OpenFile.read_append_left]

/-- The reads of a large file. -/
theorem hashedStream_large (r : Reader) {content : List UInt8}
    (hlarge : partialHashThreshold < content.length) :
    (hashedStream r content).bytes = toLeBytes content.length ++
      content.take (r.count 0 hashChunkSize content.length) ++
      (content.drop (content.length / 2)).take
        (r.count 1 hashChunkSize (content.length - content.length / 2)) ++
      (content.drop (content.length - hashChunkSize)).take
        (r.count 2 hashChunkSize hashChunkSize) := by
  have htail : content.length - (content.length - hashChunkSize) = hashChunkSize := by
    rw [partialHashThreshold_eq] at hlarge
    omega
  unfold hashedStream
  rw [if_neg (Nat.not_le_of_lt hlarge)]
  simp only [OpenFile.read, OpenFile.left, OpenFile.seek, Hasher.update, List.drop_zero,
    List.length_drop, htail, List.nil_append, List.append_assoc]

/-- Chunks of which none is longer than it should be are as long as they should be if they are
together. -/
theorem fillsChunks_iff (r : Reader) (size : Nat) :
    FillsChunks r size ↔
      r.count 0 hashChunkSize size + r.count 1 hashChunkSize (size - size / 2) +
        r.count 2 hashChunkSize hashChunkSize = 3 * hashChunkSize := by
  have hfirst := r.le_buffer 0 hashChunkSize size
  have hmiddle := r.le_buffer 1 hashChunkSize (size - size / 2)
  have hlast := r.le_buffer 2 hashChunkSize hashChunkSize
  constructor
  · rintro ⟨h₁, h₂, h₃⟩
    omega
  · intro h
    exact ⟨by omega, by omega, by omega⟩

theorem hashedStream_small (r : Reader) {content : List UInt8}
    (hsmall : content.length ≤ partialHashThreshold) : (hashedStream r content).bytes = content := by
  unfold hashedStream
  rw [if_pos hsmall, hashFileFull_bytes]
  rfl

/-- Equally long streams have chunks that are as long as they should be. -/
theorem fillsChunks_of_stream {r : Reader} {content : List UInt8}
    (hlarge : partialHashThreshold < content.length)
    (h : (hashedStream r content).bytes = canonical content) : FillsChunks r content.length := by
  rw [hashedStream_large r hlarge, canonical, if_neg (Nat.not_le_of_lt hlarge)] at h
  have hlength := congrArg List.length h
  have hfirst := r.le_left 0 hashChunkSize content.length
  have hmiddle := r.le_left 1 hashChunkSize (content.length - content.length / 2)
  have hlast := r.le_left 2 hashChunkSize hashChunkSize
  simp only [List.length_append, List.length_take, List.length_drop] at hlength
  rw [partialHashThreshold_eq] at hlarge
  rw [fillsChunks_iff]
  -- the size of a chunk is kept out of the arithmetic
  generalize hashChunkSize = chunk at *
  omega

/-- The stream is the canonical one exactly if the file is small or no read of its chunks is
short. -/
theorem hashedStream_eq_canonical_iff (r : Reader) (content : List UInt8) :
    (hashedStream r content).bytes = canonical content ↔
      content.length ≤ partialHashThreshold ∨ FillsChunks r content.length := by
  rcases Nat.lt_or_ge partialHashThreshold content.length with hlarge | hsmall
  · have hsmall := Nat.not_le_of_lt hlarge
    rw [or_iff_right hsmall]
    constructor
    · exact fillsChunks_of_stream hlarge
    · rintro ⟨h₁, h₂, h₃⟩
      rw [hashedStream_large r hlarge, canonical, if_neg hsmall, h₁, h₂, h₃]
  · rw [hashedStream_small r hsmall, canonical, if_pos hsmall]
    exact iff_of_true rfl (.inl hsmall)

/-! ## The hash -/

/-- A content hash that depends on the content alone: two runs agree and hash the canonical
stream, from which a small content can be told. -/
structure ContentOnly (xxh3 : List UInt8 → UInt64) (content : List UInt8) (r₁ r₂ : Reader) :
    Prop where
  agree : hashFile xxh3 r₁ content = hashFile xxh3 r₂ content
  injective : content.length ≤ partialHashThreshold → ∀ other r, other.length = content.length →
    (hashedStream r other).bytes = (hashedStream r₁ content).bytes → other = content
  sections : partialHashThreshold < content.length → ∀ r, r = r₁ ∨ r = r₂ →
    (hashedStream r content).bytes = toLeBytes content.length ++ content.take hashChunkSize ++
      (content.drop (content.length / 2)).take hashChunkSize ++
      (content.drop (content.length - hashChunkSize)).take hashChunkSize

/-- A hash depends on the content alone exactly for small files and where the system fills the
buffers of both runs. -/
theorem hashFile_contentOnly_iff (xxh3 : List UInt8 → UInt64) (content : List UInt8)
    (r₁ r₂ : Reader) :
    ContentOnly xxh3 content r₁ r₂ ↔
      content.length ≤ partialHashThreshold ∨
        FillsChunks r₁ content.length ∧ FillsChunks r₂ content.length := by
  constructor
  · intro h
    rcases Nat.lt_or_ge partialHashThreshold content.length with hlarge | hsmall
    · have hfills (r : Reader) (hr : r = r₁ ∨ r = r₂) : FillsChunks r content.length := by
        have hstream := h.sections hlarge r hr
        rw [← show canonical content = _ from if_neg (Nat.not_le_of_lt hlarge)] at hstream
        exact ((hashedStream_eq_canonical_iff r content).mp hstream).resolve_left
          (Nat.not_le_of_lt hlarge)
      exact .inr ⟨hfills r₁ (.inl rfl), hfills r₂ (.inr rfl)⟩
    · exact .inl hsmall
  · intro h
    have hstream₁ := (hashedStream_eq_canonical_iff r₁ content).mpr (h.imp_right And.left)
    have hstream₂ := (hashedStream_eq_canonical_iff r₂ content).mpr (h.imp_right And.right)
    refine ⟨?_, fun hsmall other r hlength heq => ?_, ?_⟩
    · unfold hashFile
      rw [hstream₁, hstream₂]
    · have hother := (hashedStream_eq_canonical_iff r other).mpr (.inl (hlength ▸ hsmall))
      rw [hother, hstream₁, canonical, canonical, if_pos hsmall, if_pos (hlength ▸ hsmall)] at heq
      exact heq
    · rintro hlarge r (rfl | rfl)
      · exact hstream₁.trans (if_neg (Nat.not_le_of_lt hlarge))
      · exact hstream₂.trans (if_neg (Nat.not_le_of_lt hlarge))

/-- Three mebibytes of zeros, read byte by byte in one run. -/
theorem hashFile_short_reads :
    ¬∀ xxh3 content r₁ r₂, ContentOnly xxh3 content r₁ r₂ := by
  intro h
  let content : List UInt8 := List.replicate (3 * hashChunkSize) 0
  have hlength : content.length = 3 * hashChunkSize := List.length_replicate
  have hlarge : partialHashThreshold < content.length := by
    rw [hlength]
    decide
  have hstream := (h (fun _ => 0) content .single .whole).sections hlarge .single (.inl rfl)
  rw [hashedStream_large _ hlarge] at hstream
  have hshort := congrArg List.length hstream
  simp only [List.length_append, List.length_take, List.length_drop, hlength, Reader.single,
    hashChunkSize] at hshort
  omega

end Voom.Discovery.ContentHash
