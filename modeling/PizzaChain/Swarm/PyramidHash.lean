import PizzaChain.Swarm.SwarmHash

/-! # The swarm hash as a pyramid

The usual description of the hash works bottom-up, level by level. This file
states it and shows that the recursion of `swarm-hash.js`, which splits the data
from the top, computes the same digest.
-/

namespace PizzaChain.Swarm

/-! ## The bottom-up description -/

/-- A node of the pyramid: a digest and the number of data bytes below it. -/
structure PyramidNode where
  digest : Digest
  length : Nat

/-- The chunks of the data; empty data has one empty chunk. -/
def dataChunks (data : Bytes) : List Bytes :=
  if data = [] then [[]] else chunks 4096 data

def leafNode (keccak : Bytes → Digest) (chunk : Bytes) : PyramidNode :=
  ⟨swarmHashBlock keccak chunk chunk.length, chunk.length⟩

/-- The node above a group. A lone node is carried up unchanged. -/
def joinGroup (keccak : Bytes → Digest) : List PyramidNode → PyramidNode
  | [node] => node
  | nodes =>
      let total := (nodes.map PyramidNode.length).sum
      ⟨swarmHashBlock keccak (nodes.flatMap fun node => node.digest.bytes) total, total⟩

def nextLevel (keccak : Bytes → Digest) (nodes : List PyramidNode) : List PyramidNode :=
  (chunks 128 nodes).map (joinGroup keccak)

theorem length_nextLevel_lt (keccak : Bytes → Digest) (nodes : List PyramidNode)
    (several : 2 ≤ nodes.length) : (nextLevel keccak nodes).length < nodes.length := by
  have enough : nodes.length ≤ 128 * (nodes.length - 1) := by omega
  have bound := length_chunks_le (by decide) (nodes.length - 1) nodes enough
  rw [nextLevel, List.length_map]
  omega

/-- Build level upon level until a single node remains. -/
def climb (keccak : Bytes → Digest) : List PyramidNode → Option PyramidNode
  | [] => none
  | [node] => some node
  | first :: second :: rest => climb keccak (nextLevel keccak (first :: second :: rest))
termination_by nodes => nodes.length
decreasing_by
  apply length_nextLevel_lt
  simp

@[simp] theorem climb_singleton (keccak : Bytes → Digest) (node : PyramidNode) :
    climb keccak [node] = some node := by
  rw [climb]

def pyramidHash (keccak : Bytes → Digest) (data : Bytes) : Option Digest :=
  (climb keccak ((dataChunks data).map (leafNode keccak))).map PyramidNode.digest

/-! ## Levels of the recursion -/

/-- The node that the recursion makes of a buffer. -/
def recursiveNode (keccak : Bytes → Digest) (data : Bytes) : PyramidNode :=
  ⟨swarmHash keccak data, data.length⟩

/-- The number of data bytes below a full node of a level. -/
def levelSize (level : Nat) : Nat :=
  chunkSize * branches ^ level

theorem levelSize_pos (level : Nat) : 0 < levelSize level :=
  Nat.mul_pos chunkSize_pos (Nat.pow_pos (by decide))

theorem levelSize_succ (level : Nat) : levelSize (level + 1) = levelSize level * 128 := by
  rw [levelSize, Nat.pow_succ, ← Nat.mul_assoc]
  rfl

theorem chunkSize_le_levelSize (level : Nat) : chunkSize ≤ levelSize level :=
  Nat.le_mul_of_pos_right chunkSize (Nat.pow_pos (by decide))

/-- Every length fits below one node of a high enough level. -/
theorem length_le_levelSize (length : Nat) : length ≤ levelSize length :=
  calc
    length ≤ 2 ^ length := Nat.le_of_lt Nat.lt_two_pow_self
    _ ≤ branches ^ length := Nat.pow_le_pow_left (by decide) length
    _ ≤ levelSize length := Nat.le_mul_of_pos_left _ chunkSize_pos

/-- The recursion cuts a buffer into full nodes of the level below its own. -/
theorem swarmHash_eq_of_levelSize (keccak : Bytes → Digest) (level : Nat) {data : Bytes}
    (below : levelSize level < data.length) (enough : data.length ≤ levelSize (level + 1)) :
    swarmHash keccak data =
      swarmHashBlock keccak
        (((chunks (levelSize level) data).map (swarmHash keccak)).flatMap Digest.bytes)
        data.length := by
  have long : ¬data.length ≤ chunkSize := by
    have := chunkSize_le_levelSize level
    omega
  have size : subtreeSize data = levelSize level :=
    growMaxSize_eq chunkSize_pos level below enough
  rw [swarmHash_of_long keccak long, subtrees_eq_chunks, size]

theorem sum_length_chunks (size : Nat) (data : Bytes) :
    ((chunks size data).map List.length).sum = data.length := by
  rw [← List.length_flatten, flatten_chunks]

/-- Joining the nodes of the level below gives the recursion's node. A buffer
that fits below one of them is a lone tail and is carried up. -/
theorem joinGroup_recursiveNode (keccak : Bytes → Digest) (level : Nat) {data : Bytes}
    (nonempty : data ≠ []) (enough : data.length ≤ levelSize (level + 1)) :
    joinGroup keccak ((chunks (levelSize level) data).map (recursiveNode keccak)) =
      recursiveNode keccak data := by
  by_cases short : data.length ≤ levelSize level
  · rw [chunks_of_length_le nonempty short]
    rfl
  · have restNonempty : data.drop (levelSize level) ≠ [] := List.ne_nil_of_length_pos (by
      rw [List.length_drop]
      omega)
    have recursion := swarmHash_eq_of_levelSize keccak level (by omega) enough
    have lengths := sum_length_chunks (levelSize level) data
    rw [chunks_eq_cons (levelSize_pos level) nonempty,
      chunks_eq_cons (levelSize_pos level) restNonempty] at recursion lengths ⊢
    simp only [List.map_cons, List.sum_cons, List.flatMap_cons, List.flatMap_map]
      at recursion lengths
    simp only [joinGroup, List.map_cons, List.map_map, List.sum_cons, List.flatMap_cons,
      List.flatMap_map, Function.comp_def, recursiveNode, lengths, recursion]

/-- One level up, the nodes are those of the recursion on blocks 128 times as
long. -/
theorem nextLevel_recursiveNode (keccak : Bytes → Digest) (level : Nat) (data : Bytes) :
    nextLevel keccak ((chunks (levelSize level) data).map (recursiveNode keccak)) =
      (chunks (levelSize (level + 1)) data).map (recursiveNode keccak) := by
  have groups :
      chunks 128 ((chunks (levelSize level) data).map (recursiveNode keccak)) =
        (chunks 128 (chunks (levelSize level) data)).map (List.map (recursiveNode keccak)) :=
    chunks_map 128 (recursiveNode keccak) _
  rw [nextLevel, groups, chunks_chunks (levelSize_pos level) (by decide), levelSize_succ]
  simp only [List.map_map]
  apply List.map_congr_left
  intro block member
  rw [← levelSize_succ] at member
  exact joinGroup_recursiveNode keccak level (ne_nil_of_mem_chunks member)
    (length_le_of_mem_chunks (levelSize_pos (level + 1)) member)

/-- A single node is the end of the climb, so building one more level from it
changes nothing; from more nodes the climb builds that level itself. -/
theorem climb_nextLevel (keccak : Bytes → Digest) (nodes : List PyramidNode) :
    climb keccak (nextLevel keccak nodes) = climb keccak nodes := by
  match nodes with
  | [] => simp [nextLevel]
  | [node] =>
      rw [nextLevel, chunks_of_length_le (List.cons_ne_nil _ _) (by simp)]
      rfl
  | first :: second :: rest => rw [← climb]

theorem climb_recursiveNode (keccak : Bytes → Digest) (level : Nat) (data : Bytes) :
    climb keccak ((chunks (levelSize level) data).map (recursiveNode keccak)) =
      climb keccak ((chunks 4096 data).map (recursiveNode keccak)) := by
  induction level with
  | zero => rfl
  | succ level induction =>
      rw [← nextLevel_recursiveNode, climb_nextLevel, induction]

/-- The leaves of the pyramid are the recursion's nodes on the chunks. -/
theorem leafNode_eq_recursiveNode (keccak : Bytes → Digest) {chunk : Bytes}
    (short : chunk.length ≤ chunkSize) : leafNode keccak chunk = recursiveNode keccak chunk := by
  rw [recursiveNode, swarmHash_of_short keccak short]
  rfl

/-- The top-down recursion of `swarmHash` and the bottom-up pyramid give the
same digest on every buffer. -/
theorem pyramidHash_eq_swarmHash (keccak : Bytes → Digest) (data : Bytes) :
    pyramidHash keccak data = some (swarmHash keccak data) := by
  by_cases empty : data = []
  · rw [pyramidHash, dataChunks, if_pos empty, empty, List.map_singleton,
      leafNode_eq_recursiveNode keccak (by simp), climb_singleton]
    rfl
  · have leaves :
        (chunks 4096 data).map (leafNode keccak) =
          (chunks 4096 data).map (recursiveNode keccak) := by
      apply List.map_congr_left
      intro chunk member
      exact leafNode_eq_recursiveNode keccak (length_le_of_mem_chunks (by decide) member)
    have top : chunks (levelSize data.length) data = [data] :=
      chunks_of_length_le empty (length_le_levelSize data.length)
    rw [pyramidHash, dataChunks, if_neg empty, leaves, ← climb_recursiveNode keccak data.length,
      top, List.map_singleton, climb_singleton]
    rfl

end PizzaChain.Swarm
