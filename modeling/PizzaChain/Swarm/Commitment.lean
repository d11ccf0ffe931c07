import PizzaChain.Swarm.SwarmHash

/-! # What a swarm hash commits to

Two buffers with one swarm hash lead, through matching splits, to two different
messages with one Keccak digest. The length in front of each block keeps a chunk
of data apart from a block of digests.
-/

namespace PizzaChain.Swarm

/-- The block that the last call of `swarmHashBlock` hashes. -/
def topBlock (keccak : Bytes → Digest) (data : Bytes) : Bytes :=
  if data.length ≤ chunkSize then data
  else ((subtrees data).map (swarmHash keccak)).flatMap Digest.bytes

theorem swarmHash_eq_topBlock (keccak : Bytes → Digest) (data : Bytes) :
    swarmHash keccak data = keccak (blockMessage (topBlock keccak data) data.length) := by
  by_cases short : data.length ≤ chunkSize
  · rw [topBlock, if_pos short, swarmHash_of_short keccak short, swarmHashBlock]
  · rw [topBlock, if_neg short, swarmHash_of_long keccak short, swarmHashBlock]

theorem topBlock_mem_hashedBlocks (keccak : Bytes → Digest) (data : Bytes) :
    (topBlock keccak data, data.length) ∈ hashedBlocks keccak data := by
  by_cases short : data.length ≤ chunkSize
  · rw [topBlock, if_pos short, hashedBlocks_of_short keccak short]
    exact List.mem_singleton_self _
  · rw [topBlock, if_neg short, hashedBlocks_of_long keccak short]
    exact List.mem_append_right _ (List.mem_singleton_self _)

theorem hashedBlocks_subset_of_mem_subtrees (keccak : Bytes → Digest) {data slice : Bytes}
    (long : ¬data.length ≤ chunkSize) (member : slice ∈ subtrees data) :
    hashedBlocks keccak slice ⊆ hashedBlocks keccak data := by
  intro block blockMember
  rw [hashedBlocks_of_long keccak long]
  exact List.mem_append_left _ (List.mem_flatMap.mpr ⟨slice, member, blockMember⟩)

/-- Equal concatenated digests of two equally long buffers: the digests agree
subtree by subtree. -/
theorem map_swarmHash_eq_of_topBlock_eq (keccak : Bytes → Digest) {left right : Bytes}
    (long : ¬left.length ≤ chunkSize) (sameLength : left.length = right.length)
    (equal : topBlock keccak left = topBlock keccak right) :
    (subtrees left).map (swarmHash keccak) = (subtrees right).map (swarmHash keccak) := by
  have rightLong : ¬right.length ≤ chunkSize := sameLength ▸ long
  rw [topBlock, if_neg long, topBlock, if_neg rightLong] at equal
  exact flatMap_injective_of_length (by decide) Digest.length_eq Digest.bytes_injective equal

/-- Two buffers that differ are cut into slices that differ. -/
theorem subtrees_ne {left right : Bytes} (different : left ≠ right) :
    subtrees left ≠ subtrees right := by
  intro equal
  apply different
  rw [subtrees_eq_chunks, subtrees_eq_chunks] at equal
  have flattened := congrArg List.flatten equal
  simpa only [flatten_chunks] using flattened

/-- Every collision of the swarm hash comes from a collision of Keccak between
a message hashed for one buffer and a message hashed for the other. -/
theorem keccak_collision_of_swarmHash_eq (keccak : Bytes → Digest) {left right : Bytes}
    (leftSmall : left.length < 2 ^ 48) (rightSmall : right.length < 2 ^ 48)
    (different : left ≠ right) (equal : swarmHash keccak left = swarmHash keccak right) :
    ∃ first ∈ hashedBlocks keccak left, ∃ second ∈ hashedBlocks keccak right,
      blockMessage first.1 first.2 ≠ blockMessage second.1 second.2 ∧
        keccak (blockMessage first.1 first.2) = keccak (blockMessage second.1 second.2) := by
  generalize bound : left.length = length at leftSmall
  induction length using Nat.strongRecOn generalizing left right with
  | ind length induction =>
      subst bound
      by_cases messages :
          blockMessage (topBlock keccak left) left.length =
            blockMessage (topBlock keccak right) right.length
      · rcases blockMessage_injective leftSmall rightSmall messages with ⟨blocks, lengths⟩
        by_cases short : left.length ≤ chunkSize
        · rw [topBlock, if_pos short, topBlock, if_pos (lengths ▸ short)] at blocks
          exact absurd blocks different
        · have rightLong : ¬right.length ≤ chunkSize := lengths ▸ short
          have digests := map_swarmHash_eq_of_topBlock_eq keccak short lengths blocks
          rcases exists_ne_of_map_eq digests (subtrees_ne different) with
            ⟨leftSlice, leftMember, rightSlice, rightMember, slicesDiffer, slicesEqual⟩
          have leftShorter := length_lt_of_mem_subtrees short leftMember
          have rightShorter := length_lt_of_mem_subtrees rightLong rightMember
          rcases induction leftSlice.length leftShorter (by omega) slicesDiffer slicesEqual rfl
              (by omega) with
            ⟨first, firstMember, second, secondMember, collision⟩
          exact ⟨first, hashedBlocks_subset_of_mem_subtrees keccak short leftMember firstMember,
            second, hashedBlocks_subset_of_mem_subtrees keccak rightLong rightMember secondMember,
            collision⟩
      · refine ⟨_, topBlock_mem_hashedBlocks keccak left, _, topBlock_mem_hashedBlocks keccak right,
          messages, ?_⟩
        rw [swarmHash_eq_topBlock, swarmHash_eq_topBlock] at equal
        exact equal

/-- With a constant in the place of Keccak two buffers of a chunk and a byte collide, and so
do messages that are hashed for them. -/
theorem keccak_collision_of_constant :
    let constant : Bytes → Digest := fun _ => ⟨List.replicate 32 0, rfl⟩
    let ones : Bytes := List.replicate 4097 1
    let twos : Bytes := List.replicate 4097 2
    ∃ first ∈ hashedBlocks constant ones, ∃ second ∈ hashedBlocks constant twos,
      blockMessage first.1 first.2 ≠ blockMessage second.1 second.2 ∧
        constant (blockMessage first.1 first.2) = constant (blockMessage second.1 second.2) := by
  intro constant ones twos
  have different : ones ≠ twos := by
    intro equal
    have heads := congrArg List.head? equal
    rw [List.head?_replicate, List.head?_replicate] at heads
    exact absurd heads (by decide)
  refine keccak_collision_of_swarmHash_eq constant ?_ ?_ different ?_
  · rw [List.length_replicate]
    decide
  · rw [List.length_replicate]
    decide
  · rw [swarmHash_eq_topBlock, swarmHash_eq_topBlock]

end PizzaChain.Swarm
