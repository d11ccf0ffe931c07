import Mathlib.Algebra.GroupWithZero.Nat
import Mathlib.Data.List.Basic

/-! # Byte strings

Little-endian numbers, hexadecimal text and the cutting of a concatenation of
equally long pieces.
-/

namespace PizzaChain

abbrev Bytes := List UInt8

/-! ## Little-endian numbers -/

/-- The low `count` bytes of a number, least significant first. -/
def littleEndian : (count value : Nat) → Bytes
  | 0, _ => []
  | count + 1, value => UInt8.ofNat (value % 256) :: littleEndian count (value / 256)

/-- Read a little-endian number back. -/
def ofLittleEndian : Bytes → Nat
  | [] => 0
  | byte :: rest => byte.toNat + 256 * ofLittleEndian rest

@[simp] theorem length_littleEndian (count value : Nat) :
    (littleEndian count value).length = count := by
  induction count generalizing value with
  | zero => rfl
  | succ count induction => simp [littleEndian, induction]

theorem ofLittleEndian_littleEndian (count value : Nat) (small : value < 256 ^ count) :
    ofLittleEndian (littleEndian count value) = value := by
  induction count generalizing value with
  | zero =>
      have zero : value = 0 := by simpa using small
      simp [littleEndian, ofLittleEndian, zero]
  | succ count induction =>
      have quotientSmall : value / 256 < 256 ^ count := by
        rw [Nat.pow_succ] at small
        exact Nat.div_lt_of_lt_mul (by omega)
      have low : (UInt8.ofNat (value % 256)).toNat = value % 256 := by
        simp [UInt8.toNat_ofNat']
      rw [littleEndian, ofLittleEndian, induction _ quotientSmall, low]
      omega

theorem littleEndian_injective {count left right : Nat} (leftSmall : left < 256 ^ count)
    (rightSmall : right < 256 ^ count)
    (equal : littleEndian count left = littleEndian count right) : left = right := by
  rw [← ofLittleEndian_littleEndian count left leftSmall, equal,
    ofLittleEndian_littleEndian count right rightSmall]

/-! ## Concatenations of equally long pieces -/

theorem length_flatMap_of_length {pieceOf : α → List β} {length : Nat}
    (lengths : ∀ value, (pieceOf value).length = length) (values : List α) :
    (values.flatMap pieceOf).length = length * values.length := by
  induction values with
  | nil => simp
  | cons value values induction =>
      rw [List.flatMap_cons, List.length_append, lengths, induction, List.length_cons,
        Nat.mul_succ, Nat.add_comm]

/-- A concatenation of pieces of one positive length has only one way to be cut
into pieces of that length. -/
theorem flatMap_injective_of_length {pieceOf : α → List β} {length : Nat}
    (positive : 0 < length) (lengthOf : ∀ value, (pieceOf value).length = length)
    (injective : Function.Injective pieceOf) {left right : List α}
    (equal : left.flatMap pieceOf = right.flatMap pieceOf) : left = right := by
  have nonempty : ∀ value, pieceOf value ≠ [] := fun value =>
    List.ne_nil_of_length_pos (by rw [lengthOf]; exact positive)
  induction left generalizing right with
  | nil =>
      cases right with
      | nil => rfl
      | cons value rest => simp [nonempty] at equal
  | cons value rest induction =>
      cases right with
      | nil => simp [nonempty] at equal
      | cons other others =>
          rw [List.flatMap_cons, List.flatMap_cons] at equal
          obtain ⟨first, remaining⟩ :=
            List.append_inj equal ((lengthOf value).trans (lengthOf other).symm)
          rw [injective first, induction remaining]

/-- Two different lists with one image differ at a place where the images
agree. -/
theorem exists_ne_of_map_eq {transform : α → β} {left right : List α}
    (equal : left.map transform = right.map transform) (different : left ≠ right) :
    ∃ first ∈ left, ∃ second ∈ right, first ≠ second ∧ transform first = transform second := by
  induction left generalizing right with
  | nil =>
      cases right with
      | nil => exact absurd rfl different
      | cons other others => simp at equal
  | cons value rest induction =>
      cases right with
      | nil => simp at equal
      | cons other others =>
          rw [List.map_cons, List.map_cons, List.cons.injEq] at equal
          by_cases heads : value = other
          · subst heads
            have tails : rest ≠ others := fun same => different (same ▸ rfl)
            rcases induction equal.2 tails with
              ⟨first, firstMember, second, secondMember, differ⟩
            exact ⟨first, List.mem_cons_of_mem _ firstMember,
              second, List.mem_cons_of_mem _ secondMember, differ⟩
          · exact ⟨value, List.mem_cons_self, other, List.mem_cons_self, heads, equal.1⟩

/-! ## Hexadecimal text -/

/-- The two lower-case hexadecimal digits of a byte. -/
def hexByte (byte : UInt8) : List Char :=
  [Nat.digitChar (byte.toNat / 16), Nat.digitChar (byte.toNat % 16)]

/-- Lower-case hexadecimal text, as Node's `toString('hex')` writes it. -/
def hex (bytes : Bytes) : String :=
  String.ofList (bytes.flatMap hexByte)

theorem toList_hex (bytes : Bytes) : (hex bytes).toList = bytes.flatMap hexByte :=
  String.toList_ofList

theorem digitChar_injective : ∀ left < 16, ∀ right < 16,
    Nat.digitChar left = Nat.digitChar right → left = right := by
  decide

theorem hexByte_injective {left right : UInt8} (equal : hexByte left = hexByte right) :
    left = right := by
  simp only [hexByte, List.cons.injEq, and_true] at equal
  have leftBound := left.toNat_lt
  have rightBound := right.toNat_lt
  have high := digitChar_injective _ (by omega) _ (by omega) equal.1
  have low := digitChar_injective _ (by omega) _ (by omega) equal.2
  apply UInt8.toNat_inj.mp
  omega

theorem hex_injective : Function.Injective hex := by
  intro left right equal
  have digits : left.flatMap hexByte = right.flatMap hexByte := by
    have := congrArg String.toList equal
    simpa [hex] using this
  exact flatMap_injective_of_length Nat.two_pos (fun _ => rfl) (fun _ _ => hexByte_injective) digits

end PizzaChain
