import PizzaChain.Foundation.Bytes
import PizzaChain.Foundation.Chunks

/-! # The swarm hash

`swarm-hash.js`: a buffer of at most one chunk is hashed with its length; a
longer one is cut into at most 128 subtrees whose digests are hashed together.
Keccak-256 is the only part that is not in the repository, so it is a parameter.
-/

namespace PizzaChain.Swarm

/-- A Keccak-256 digest. -/
structure Digest where
  bytes : Bytes
  length_eq : bytes.length = 32
deriving DecidableEq

attribute [simp] Digest.length_eq

theorem Digest.bytes_injective : Function.Injective Digest.bytes := by
  rintro ⟨left, _⟩ ⟨right, _⟩ equal
  cases equal
  rfl

/-- The size of a chunk, in bytes. -/
def chunkSize : Nat := 4096

/-- How many digests fill a chunk: `4096 / 32`. -/
def branches : Nat := chunkSize / 32

theorem chunkSize_pos : 0 < chunkSize := by decide

theorem branches_eq : branches = 128 := by decide

/-! ## One block -/

/-- The eight bytes in front of a block: `writeUIntLE(totalLength, 0, 6)` into
a zeroed buffer. The write throws from `2 ^ 48` on, beyond any Node buffer; the
model keeps the low six bytes there. -/
def lengthHeader (totalLength : Nat) : Bytes :=
  littleEndian 6 totalLength ++ [0, 0]

@[simp] theorem length_lengthHeader (totalLength : Nat) :
    (lengthHeader totalLength).length = 8 := by
  simp [lengthHeader]

/-- The byte string that one call of `swarmHashBlock` feeds to Keccak. -/
def blockMessage (data : Bytes) (totalLength : Nat) : Bytes :=
  lengthHeader totalLength ++ data

def swarmHashBlock (keccak : Bytes → Digest) (data : Bytes) (totalLength : Nat) : Digest :=
  keccak (blockMessage data totalLength)

/-- Below `2 ^ 48` the message of a block determines the block and its length. -/
theorem blockMessage_injective {left right : Bytes} {leftLength rightLength : Nat}
    (leftSmall : leftLength < 2 ^ 48) (rightSmall : rightLength < 2 ^ 48)
    (equal : blockMessage left leftLength = blockMessage right rightLength) :
    left = right ∧ leftLength = rightLength := by
  obtain ⟨headers, blocks⟩ := List.append_inj equal (by simp)
  obtain ⟨lengths, _⟩ := List.append_inj headers (by simp)
  exact ⟨blocks, littleEndian_injective (by omega) (by omega) lengths⟩

/-! ## The loops -/

/-- The `while` loop: grow `maxSize` by a factor of 128 until 128 subtrees of
that size hold the data. -/
def growMaxSize (length maxSize : Nat) (positive : 0 < maxSize) : Nat :=
  if maxSize * branches < length then
    growMaxSize length (maxSize * branches)
      (Nat.mul_pos positive (by decide))
  else
    maxSize
termination_by length - maxSize
decreasing_by
  rw [branches_eq] at *
  omega

theorem growMaxSize_pos (length maxSize : Nat) (positive : 0 < maxSize) :
    0 < growMaxSize length maxSize positive := by
  induction maxSize, positive using growMaxSize.induct length with
  | case1 maxSize positive grows induction => rw [growMaxSize, if_pos grows]; exact induction
  | case2 maxSize positive stops => rw [growMaxSize, if_neg stops]; exact positive

theorem growMaxSize_lt {length maxSize : Nat} (positive : 0 < maxSize)
    (long : maxSize < length) : growMaxSize length maxSize positive < length := by
  induction maxSize, positive using growMaxSize.induct length with
  | case1 maxSize positive grows induction =>
      rw [growMaxSize, if_pos grows]
      exact induction grows
  | case2 maxSize positive stops => rw [growMaxSize, if_neg stops]; exact long

theorem growMaxSize_power (length maxSize : Nat) (positive : 0 < maxSize) :
    ∃ power, growMaxSize length maxSize positive = maxSize * branches ^ power := by
  induction maxSize, positive using growMaxSize.induct length with
  | case1 maxSize positive grows induction =>
      rcases induction with ⟨power, equal⟩
      refine ⟨power + 1, ?_⟩
      rw [growMaxSize, if_pos grows, equal, Nat.pow_succ', Nat.mul_assoc]
  | case2 maxSize positive stops => exact ⟨0, by rw [growMaxSize, if_neg stops]; simp⟩

theorem le_growMaxSize_mul (length maxSize : Nat) (positive : 0 < maxSize) :
    length ≤ growMaxSize length maxSize positive * branches := by
  induction maxSize, positive using growMaxSize.induct length with
  | case1 maxSize positive grows induction =>
      rw [growMaxSize, if_pos grows]
      exact induction
  | case2 maxSize positive stops =>
      rw [growMaxSize, if_neg stops]
      exact Nat.le_of_not_lt stops

/-- The loop stops at the only size of the form `maxSize * 128 ^ k` that is
below the length while 128 of it are not. -/
theorem growMaxSize_eq {length maxSize : Nat} (positive : 0 < maxSize) (power : Nat)
    (below : maxSize * branches ^ power < length)
    (enough : length ≤ maxSize * branches ^ (power + 1)) :
    growMaxSize length maxSize positive = maxSize * branches ^ power := by
  induction power generalizing maxSize with
  | zero =>
      rw [growMaxSize, if_neg]
      · simp
      · simpa using enough
  | succ power induction =>
      have shift (exponent : Nat) :
          maxSize * branches ^ (exponent + 1) = maxSize * branches * branches ^ exponent := by
        rw [Nat.pow_succ']
        exact (Nat.mul_assoc _ _ _).symm
      have grows : maxSize * branches < length := by
        refine Nat.lt_of_le_of_lt ?_ below
        rw [shift]
        exact Nat.le_mul_of_pos_right _ (Nat.pow_pos (by decide))
      rw [growMaxSize, if_pos grows, shift]
      apply induction
      · rwa [← shift]
      · rwa [← shift]

/-- The `for` loop from offset `i`: the slices it hands to the recursion. -/
def slices (data : Bytes) (maxSize : Nat) (positive : 0 < maxSize) (i : Nat) : List Bytes :=
  if i < data.length then
    let size := if maxSize < data.length - i then maxSize else data.length - i
    (data.drop i).take size :: slices data maxSize positive (i + maxSize)
  else
    []
termination_by data.length - i

/-- The slices are the consecutive blocks of the data that is left. -/
theorem slices_eq_chunks (data : Bytes) (maxSize : Nat) (positive : 0 < maxSize) (i : Nat) :
    slices data maxSize positive i = chunks maxSize (data.drop i) := by
  induction i using slices.induct data maxSize positive with
  | case1 i inside induction =>
      have nonempty : data.drop i ≠ [] := List.ne_nil_of_length_pos (by
        rw [List.length_drop]
        omega)
      have taken :
          (data.drop i).take (if maxSize < data.length - i then maxSize else data.length - i) =
            (data.drop i).take maxSize := by
        by_cases long : maxSize < data.length - i
        · rw [if_pos long]
        · have short : (data.drop i).length ≤ maxSize := by
            rw [List.length_drop]
            omega
          rw [if_neg long, List.take_of_length_le short,
            List.take_of_length_le (Nat.le_of_eq List.length_drop)]
      rw [slices, if_pos inside, induction, chunks_eq_cons positive nonempty, List.drop_drop]
      dsimp only
      rw [taken]
  | case2 i outside =>
      rw [slices, if_neg outside, List.drop_of_length_le (by omega), chunks_nil]

theorem length_lt_of_mem_slices {data slice : Bytes} {maxSize i : Nat} (positive : 0 < maxSize)
    (small : maxSize < data.length) (member : slice ∈ slices data maxSize positive i) :
    slice.length < data.length := by
  rw [slices_eq_chunks] at member
  exact Nat.lt_of_le_of_lt (length_le_of_mem_chunks positive member) small

/-! ## The hash -/

/-- The subtree size that a buffer longer than one chunk is cut by. -/
def subtreeSize (data : Bytes) : Nat :=
  growMaxSize data.length chunkSize chunkSize_pos

theorem subtreeSize_pos (data : Bytes) : 0 < subtreeSize data :=
  growMaxSize_pos _ _ _

theorem subtreeSize_lt {data : Bytes} (long : ¬data.length ≤ chunkSize) :
    subtreeSize data < data.length :=
  growMaxSize_lt _ (by omega)

/-- The slices of a buffer longer than one chunk. -/
def subtrees (data : Bytes) : List Bytes :=
  slices data (subtreeSize data) (subtreeSize_pos data) 0

theorem subtrees_eq_chunks (data : Bytes) : subtrees data = chunks (subtreeSize data) data := by
  rw [subtrees, slices_eq_chunks, List.drop_zero]

theorem length_lt_of_mem_subtrees {data slice : Bytes} (long : ¬data.length ≤ chunkSize)
    (member : slice ∈ subtrees data) : slice.length < data.length :=
  length_lt_of_mem_slices _ (subtreeSize_lt long) member

def swarmHash (keccak : Bytes → Digest) (data : Bytes) : Digest :=
  if data.length ≤ chunkSize then
    swarmHashBlock keccak data data.length
  else
    let innerNodes := (subtrees data).attach.map fun slice => swarmHash keccak slice.val
    swarmHashBlock keccak (innerNodes.flatMap Digest.bytes) data.length
termination_by data.length
decreasing_by exact length_lt_of_mem_subtrees ‹_› slice.property

theorem swarmHash_of_short (keccak : Bytes → Digest) {data : Bytes}
    (short : data.length ≤ chunkSize) :
    swarmHash keccak data = swarmHashBlock keccak data data.length := by
  rw [swarmHash, if_pos short]

theorem swarmHash_of_long (keccak : Bytes → Digest) {data : Bytes}
    (long : ¬data.length ≤ chunkSize) :
    swarmHash keccak data =
      swarmHashBlock keccak
        (((subtrees data).map (swarmHash keccak)).flatMap Digest.bytes) data.length := by
  rw [swarmHash, if_neg long]
  simp only [List.attach_map_val]

/-- The calls of `swarmHashBlock` that `swarmHash` makes, with their arguments,
in order. -/
def hashedBlocks (keccak : Bytes → Digest) (data : Bytes) : List (Bytes × Nat) :=
  if data.length ≤ chunkSize then
    [(data, data.length)]
  else
    (subtrees data).attach.flatMap (fun slice => hashedBlocks keccak slice.val) ++
      [(((subtrees data).map (swarmHash keccak)).flatMap Digest.bytes, data.length)]
termination_by data.length
decreasing_by exact length_lt_of_mem_subtrees ‹_› slice.property

theorem hashedBlocks_of_short (keccak : Bytes → Digest) {data : Bytes}
    (short : data.length ≤ chunkSize) :
    hashedBlocks keccak data = [(data, data.length)] := by
  rw [hashedBlocks, if_pos short]

theorem hashedBlocks_of_long (keccak : Bytes → Digest) {data : Bytes}
    (long : ¬data.length ≤ chunkSize) :
    hashedBlocks keccak data =
      (subtrees data).flatMap (hashedBlocks keccak) ++
        [(((subtrees data).map (swarmHash keccak)).flatMap Digest.bytes, data.length)] := by
  rw [hashedBlocks, if_neg long]
  simp

end PizzaChain.Swarm
