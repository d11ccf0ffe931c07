import Mathlib.Data.List.Forall2
import PizzaChain.Swarm.Commitment

/-! # How a long buffer is split

The `while` loop of `swarmHash` stops at the one subtree size that fits, the
`for` loop covers the buffer with slices of that size, and along the recursion
no block outgrows a chunk or loses count of the data it stands for.
-/

namespace PizzaChain.Swarm

/-! ## One split -/

/-- The subtree size and the slices of a buffer are as the loops intend. -/
structure SoundSplit (data : Bytes) : Prop where
  power : ∃ power, subtreeSize data = 4096 * 128 ^ power
  below : subtreeSize data < data.length
  enough : data.length ≤ 128 * subtreeSize data
  several : 2 ≤ (subtrees data).length
  fits : (subtrees data).length ≤ 128
  covers : (subtrees data).flatten = data
  nonempty : ∀ slice ∈ subtrees data, slice ≠ []
  shorter : ∀ slice ∈ subtrees data, slice.length < data.length
  full : ∀ slice ∈ (subtrees data).dropLast, slice.length = subtreeSize data

theorem soundSplit {data : Bytes} (long : ¬data.length ≤ chunkSize) : SoundSplit data where
  power := growMaxSize_power _ _ _
  below := subtreeSize_lt long
  enough := by
    rw [Nat.mul_comm]
    exact le_growMaxSize_mul _ _ _
  several := by
    have below := subtreeSize_lt long
    have covered := length_le_size_mul_chunks (subtreeSize_pos data) data
    rw [← subtrees_eq_chunks] at covered
    by_contra few
    have bound : subtreeSize data * (subtrees data).length ≤ subtreeSize data * 1 :=
      Nat.mul_le_mul_left _ (by omega)
    omega
  fits := by
    rw [subtrees_eq_chunks]
    exact length_chunks_le (subtreeSize_pos data) 128 data (le_growMaxSize_mul _ _ _)
  covers := by rw [subtrees_eq_chunks, flatten_chunks]
  nonempty := by
    intro slice member
    rw [subtrees_eq_chunks] at member
    exact ne_nil_of_mem_chunks member
  shorter := fun _ member => length_lt_of_mem_subtrees long member
  full := by
    intro slice member
    rw [subtrees_eq_chunks] at member
    exact length_eq_of_mem_dropLast_chunks (subtreeSize_pos data) member

/-! ## The whole recursion -/

/-- What a hashed block stands for: a chunk for itself, and a block of digests
for everything that the digested blocks stand for, in order. -/
inductive StandsFor (keccak : Bytes → Digest) : (block part : Bytes) → Prop
  | chunk {part : Bytes} (small : part.length ≤ 4096) : StandsFor keccak part part
  | digests {blocks parts : List Bytes} : List.Forall₂ (StandsFor keccak) blocks parts →
      StandsFor keccak
        ((List.zipWith (fun block part => swarmHashBlock keccak block part.length)
          blocks parts).flatMap Digest.bytes) parts.flatten

/-- The block of the last call stands for the whole buffer. -/
theorem topBlock_standsFor (keccak : Bytes → Digest) (data : Bytes) :
    StandsFor keccak (topBlock keccak data) data := by
  generalize bound : data.length = length
  induction length using Nat.strongRecOn generalizing data with
  | ind length induction =>
      subst bound
      by_cases short : data.length ≤ chunkSize
      · rw [topBlock, if_pos short]
        exact .chunk short
      · have below : List.Forall₂ (StandsFor keccak)
            ((subtrees data).map (topBlock keccak)) (subtrees data) := by
          rw [List.forall₂_map_left_iff, List.forall₂_same]
          intro slice member
          exact induction slice.length (length_lt_of_mem_subtrees short member) slice rfl
        have digests : (subtrees data).map (swarmHash keccak) =
            List.zipWith (fun block part => swarmHashBlock keccak block part.length)
              ((subtrees data).map (topBlock keccak)) (subtrees data) := by
          rw [List.zipWith_map_left, List.zipWith_self]
          apply List.map_congr_left
          intro slice _
          exact swarmHash_eq_topBlock keccak slice
        have whole := StandsFor.digests below
        rw [← digests, (soundSplit short).covers] at whole
        rwa [topBlock, if_neg short]

theorem length_topBlock_le (keccak : Bytes → Digest) (data : Bytes) :
    (topBlock keccak data).length ≤ chunkSize := by
  by_cases short : data.length ≤ chunkSize
  · rwa [topBlock, if_pos short]
  · have fits := (soundSplit short).fits
    rw [topBlock, if_neg short, length_flatMap_of_length Digest.length_eq, List.length_map,
      chunkSize]
    omega

/-- Every call of `swarmHashBlock` hashes the top block of a part of the data
that stands together, with the length of that part. -/
theorem exists_part_of_mem_hashedBlocks (keccak : Bytes → Digest) {data block : Bytes}
    {length : Nat} (member : (block, length) ∈ hashedBlocks keccak data) :
    ∃ part, part <:+: data ∧ block = topBlock keccak part ∧ length = part.length := by
  generalize bound : data.length = size
  induction size using Nat.strongRecOn generalizing data with
  | ind size induction =>
      subst bound
      by_cases short : data.length ≤ chunkSize
      · rw [hashedBlocks_of_short keccak short, List.mem_singleton] at member
        rcases Prod.mk.inj member with ⟨blocks, lengths⟩
        exact ⟨data, List.infix_rfl, by rw [topBlock, if_pos short, blocks], lengths⟩
      · rw [hashedBlocks_of_long keccak short] at member
        rcases List.mem_append.mp member with below | last
        · rcases List.mem_flatMap.mp below with ⟨slice, sliceMember, inside⟩
          rcases induction slice.length (length_lt_of_mem_subtrees short sliceMember) inside rfl
            with ⟨part, contained, blocks, lengths⟩
          have sliceInside := List.infix_of_mem_flatten sliceMember
          rw [(soundSplit short).covers] at sliceInside
          exact ⟨part, contained.trans sliceInside, blocks, lengths⟩
        · rw [List.mem_singleton] at last
          rcases Prod.mk.inj last with ⟨blocks, lengths⟩
          exact ⟨data, List.infix_rfl, by rw [topBlock, if_neg short, blocks], lengths⟩

/-- A call of `swarmHashBlock` within its bounds: a block of at most one chunk,
the length of the part it stands for, and a header that holds that length. -/
structure SoundBlock (keccak : Bytes → Digest) (data block : Bytes) (length : Nat) : Prop where
  small : block.length ≤ 4096
  counted : ∃ part, part <:+: data ∧ StandsFor keccak block part ∧ length = part.length
  header : ofLittleEndian ((lengthHeader length).take 6) = length

theorem soundBlock (keccak : Bytes → Digest) {data block : Bytes} {length : Nat}
    (small : data.length < 2 ^ 48) (member : (block, length) ∈ hashedBlocks keccak data) :
    SoundBlock keccak data block length := by
  rcases exists_part_of_mem_hashedBlocks keccak member with ⟨part, contained, blocks, lengths⟩
  subst blocks lengths
  have partSmall : part.length < 2 ^ 48 := Nat.lt_of_le_of_lt contained.length_le small
  constructor
  · exact length_topBlock_le keccak part
  · exact ⟨part, contained, topBlock_standsFor keccak part, rfl⟩
  · have taken : (lengthHeader part.length).take 6 = littleEndian 6 part.length := by
      rw [lengthHeader]
      exact List.take_left' (by simp)
    rw [taken, ofLittleEndian_littleEndian 6 _ (by omega)]

/-- The recorded calls are those of `swarmHash`: it returns the digest of the last
one, and depends on no digest but theirs. -/
structure RecordsCalls (keccak : Bytes → Digest) (data : Bytes) : Prop where
  last : ∃ earlier block, hashedBlocks keccak data = earlier ++ [(block, data.length)] ∧
    swarmHash keccak data = swarmHashBlock keccak block data.length
  only : ∀ other : Bytes → Digest,
    (∀ block length, (block, length) ∈ hashedBlocks keccak data →
      swarmHashBlock other block length = swarmHashBlock keccak block length) →
    swarmHash other data = swarmHash keccak data

theorem swarmHash_eq_of_hashedBlocks {keccak other : Bytes → Digest} {data : Bytes}
    (same : ∀ block length, (block, length) ∈ hashedBlocks keccak data →
      swarmHashBlock other block length = swarmHashBlock keccak block length) :
    swarmHash other data = swarmHash keccak data := by
  generalize bound : data.length = size
  induction size using Nat.strongRecOn generalizing data with
  | ind size induction =>
      subst bound
      have top := same _ _ (topBlock_mem_hashedBlocks keccak data)
      by_cases short : data.length ≤ chunkSize
      · rw [topBlock, if_pos short] at top
        rw [swarmHash_of_short other short, swarmHash_of_short keccak short, top]
      · have below : (subtrees data).map (swarmHash other) =
            (subtrees data).map (swarmHash keccak) := by
          apply List.map_congr_left
          intro slice member
          have contained := hashedBlocks_subset_of_mem_subtrees keccak short member
          exact induction slice.length (length_lt_of_mem_subtrees short member)
            (fun block length inside => same block length (contained inside)) rfl
        rw [topBlock, if_neg short] at top
        rw [swarmHash_of_long other short, swarmHash_of_long keccak short, below, top]

theorem recordsCalls (keccak : Bytes → Digest) (data : Bytes) : RecordsCalls keccak data where
  last := by
    by_cases short : data.length ≤ chunkSize
    · exact ⟨[], data, hashedBlocks_of_short keccak short, swarmHash_of_short keccak short⟩
    · exact ⟨_, _, hashedBlocks_of_long keccak short, swarmHash_of_long keccak short⟩
  only := fun _ => swarmHash_eq_of_hashedBlocks

/-- Every buffer longer than a chunk is split soundly, and so is every block
that the recursion hashes for it. -/
theorem swarmHash_splits_soundly (keccak : Bytes → Digest) (data : Bytes)
    (long : 4096 < data.length) (small : data.length < 2 ^ 48) :
    SoundSplit data ∧ RecordsCalls keccak data ∧
      ∀ block length, (block, length) ∈ hashedBlocks keccak data →
        SoundBlock keccak data block length := by
  refine ⟨soundSplit (by rw [chunkSize]; omega), recordsCalls keccak data, ?_⟩
  intro block length member
  exact soundBlock keccak small member

/-- One byte more than a chunk. -/
theorem swarmHash_splits_soundly_chunk_and_byte :
    let constant : Bytes → Digest := fun _ => ⟨List.replicate 32 0, rfl⟩
    let data : Bytes := List.replicate 4097 0
    SoundSplit data ∧ RecordsCalls constant data ∧
      ∀ block length, (block, length) ∈ hashedBlocks constant data →
        SoundBlock constant data block length :=
  swarmHash_splits_soundly _ _ (by rw [List.length_replicate]; decide)
    (by rw [List.length_replicate]; decide)

end PizzaChain.Swarm
