import Mathlib.Data.List.Basic

/-! # Cutting a list into blocks

Consecutive blocks of one size, the last of which may be shorter. Nothing here
depends on what the elements are.
-/

namespace PizzaChain

/-- Cut a list into consecutive blocks of `size` elements. A block size of zero
is read as one, so that every block has an element. -/
def chunks (size : Nat) : List α → List (List α)
  | [] => []
  | head :: tail => (head :: tail.take (size - 1)) :: chunks size (tail.drop (size - 1))
termination_by values => values.length
decreasing_by
  simp only [List.length_drop, List.length_cons]
  omega

@[simp] theorem chunks_nil (size : Nat) : chunks size ([] : List α) = [] := by
  rw [chunks]

/-- One turn of the cut: the first block and the blocks of the rest. -/
theorem chunks_eq_cons {size : Nat} (positive : 0 < size) {values : List α}
    (nonempty : values ≠ []) :
    chunks size values = values.take size :: chunks size (values.drop size) := by
  obtain ⟨rest, rfl⟩ : ∃ rest, size = rest + 1 := ⟨size - 1, by omega⟩
  cases values with
  | nil => exact absurd rfl nonempty
  | cons head tail => rw [chunks]; simp

/-- Blocks of a list whose first part has a whole number of blocks. -/
theorem chunks_append {size : Nat} (positive : 0 < size) (count : Nat)
    (left right : List α) (aligned : left.length = size * count) :
    chunks size (left ++ right) = chunks size left ++ chunks size right := by
  induction count generalizing left with
  | zero =>
      have empty : left = [] := List.eq_nil_of_length_eq_zero (by simpa using aligned)
      simp [empty]
  | succ count induction =>
      have long : size ≤ left.length := by
        rw [aligned]
        exact Nat.le_mul_of_pos_right size (Nat.succ_pos count)
      have nonempty : left ≠ [] := by
        rintro rfl
        simp at long
        omega
      rw [chunks_eq_cons positive (by simp [nonempty]), chunks_eq_cons positive nonempty,
        List.take_append_of_le_length long, List.drop_append_of_le_length long,
        induction (left.drop size), List.cons_append]
      rw [List.length_drop, aligned, Nat.mul_succ, Nat.add_sub_cancel]

@[simp] theorem flatten_chunks (size : Nat) (values : List α) :
    (chunks size values).flatten = values := by
  induction values using chunks.induct size with
  | case1 => simp
  | case2 head tail induction =>
      rw [chunks, List.flatten_cons, induction, List.cons_append, List.take_append_drop]

theorem chunks_map (size : Nat) (transform : α → β) (values : List α) :
    chunks size (values.map transform) = (chunks size values).map (List.map transform) := by
  induction values using chunks.induct size with
  | case1 => simp
  | case2 head tail induction =>
      rw [List.map_cons, chunks, chunks, ← List.map_take, ← List.map_drop, induction,
        List.map_cons, List.map_cons]

/-- A list of at most one block. -/
theorem chunks_of_length_le {size : Nat} {values : List α} (nonempty : values ≠ [])
    (short : values.length ≤ size) : chunks size values = [values] := by
  have positive : 0 < size := Nat.lt_of_lt_of_le (List.length_pos_iff.mpr nonempty) short
  rw [chunks_eq_cons positive nonempty, List.take_of_length_le short,
    List.drop_of_length_le short, chunks_nil]

theorem ne_nil_of_mem_chunks {size : Nat} {values block : List α}
    (member : block ∈ chunks size values) : block ≠ [] := by
  induction values using chunks.induct size with
  | case1 => simp at member
  | case2 head tail induction =>
      rw [chunks] at member
      rcases List.mem_cons.mp member with equal | member
      · simp [equal]
      · exact induction member

theorem length_le_of_mem_chunks {size : Nat} (positive : 0 < size) {values block : List α}
    (member : block ∈ chunks size values) : block.length ≤ size := by
  induction values using chunks.induct size with
  | case1 => simp at member
  | case2 head tail induction =>
      rw [chunks] at member
      rcases List.mem_cons.mp member with equal | member
      · simp only [equal, List.length_cons, List.length_take]
        omega
      · exact induction member

/-- `count` blocks suffice for `size * count` elements. -/
theorem length_chunks_le {size : Nat} (positive : 0 < size) (count : Nat) (values : List α)
    (short : values.length ≤ size * count) : (chunks size values).length ≤ count := by
  induction count generalizing values with
  | zero =>
      have empty : values = [] := List.eq_nil_of_length_eq_zero (by simpa using short)
      simp [empty]
  | succ count induction =>
      by_cases nonempty : values = []
      · simp [nonempty]
      · rw [chunks_eq_cons positive nonempty, List.length_cons]
        refine Nat.succ_le_succ (induction _ ?_)
        rw [Nat.mul_succ] at short
        rw [List.length_drop]
        omega

theorem chunks_ne_nil {size : Nat} (positive : 0 < size) {values : List α}
    (nonempty : values ≠ []) : chunks size values ≠ [] := by
  rw [chunks_eq_cons positive nonempty]
  exact List.cons_ne_nil _ _

theorem length_le_size_mul_chunks {size : Nat} (positive : 0 < size) (values : List α) :
    values.length ≤ size * (chunks size values).length := by
  induction values using chunks.induct size with
  | case1 => simp
  | case2 head tail induction =>
      rw [chunks, List.length_cons, List.length_cons, Nat.mul_succ]
      rw [List.length_drop] at induction
      omega

/-- Every block but the last is full. -/
theorem length_eq_of_mem_dropLast_chunks {size : Nat} (positive : 0 < size)
    {values block : List α} (member : block ∈ (chunks size values).dropLast) :
    block.length = size := by
  induction values using chunks.induct size with
  | case1 => simp at member
  | case2 head tail induction =>
      rw [chunks] at member
      by_cases last : tail.drop (size - 1) = []
      · simp [last] at member
      · have longer := List.length_pos_iff.mpr last
        rw [List.length_drop] at longer
        rw [List.dropLast_cons_of_ne_nil (chunks_ne_nil positive last)] at member
        rcases List.mem_cons.mp member with equal | member
        · rw [equal, List.length_cons, List.length_take]
          omega
        · exact induction member

/-- A whole number of blocks is cut into that many blocks. -/
theorem length_chunks_of_length_eq {size : Nat} (positive : 0 < size) (count : Nat)
    (values : List α) (aligned : values.length = size * count) :
    (chunks size values).length = count := by
  induction count generalizing values with
  | zero =>
      have empty : values = [] := List.eq_nil_of_length_eq_zero (by simpa using aligned)
      simp [empty]
  | succ count induction =>
      have nonempty : values ≠ [] := by
        rintro rfl
        rw [List.length_nil, Nat.mul_succ] at aligned
        omega
      rw [chunks_eq_cons positive nonempty, List.length_cons, induction]
      rw [List.length_drop, aligned, Nat.mul_succ, Nat.add_sub_cancel]

/-- Grouping blocks of `size` by `count` is cutting into blocks of
`size * count` and cutting each of those. -/
theorem chunks_chunks {size count : Nat} (sizePositive : 0 < size) (countPositive : 0 < count)
    (values : List α) :
    chunks count (chunks size values) = (chunks (size * count) values).map (chunks size) := by
  have widePositive : 0 < size * count := Nat.mul_pos sizePositive countPositive
  induction values using chunks.induct (size * count) with
  | case1 => simp
  | case2 head tail induction =>
      let values := head :: tail
      have nonempty : values ≠ [] := List.cons_ne_nil head tail
      have rest : tail.drop (size * count - 1) = values.drop (size * count) := by
        obtain ⟨width, equal⟩ : ∃ width, size * count = width + 1 :=
          ⟨size * count - 1, by omega⟩
        simp [values, equal]
      rw [rest] at induction
      change chunks count (chunks size values) = (chunks (size * count) values).map (chunks size)
      rw [chunks_eq_cons widePositive nonempty, List.map_cons, ← induction]
      by_cases short : values.length ≤ size * count
      · rw [List.drop_of_length_le short, List.take_of_length_le short, chunks_nil, chunks_nil]
        exact chunks_of_length_le (chunks_ne_nil sizePositive nonempty)
          (length_chunks_le sizePositive count values short)
      · have taken : (values.take (size * count)).length = size * count := by
          rw [List.length_take]
          omega
        have blocks : (chunks size (values.take (size * count))).length = count :=
          length_chunks_of_length_eq sizePositive count _ taken
        have first : chunks size (values.take (size * count)) ≠ [] :=
          List.ne_nil_of_length_pos (by omega)
        conv_lhs => rw [← List.take_append_drop (size * count) values]
        rw [chunks_append sizePositive count _ _ taken,
          chunks_append countPositive 1 _ _ (by omega),
          chunks_of_length_le first (Nat.le_of_eq blocks), List.singleton_append]

end PizzaChain
