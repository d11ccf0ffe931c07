import Mathlib.Algebra.BigOperators.Group.Finset.Piecewise
import Mathlib.Algebra.Order.BigOperators.Group.Finset
import Mathlib.Data.Fintype.Basic

/-! # Ledgers

Balances that add up to a fixed supply. Moving an amount from one account to
another, which may be the same, keeps the sum.
-/

namespace PizzaChain

/-- Debits the sender, then credits the recipient. -/
def moved [DecidableEq α] (balances : α → Nat) (sender recipient : α) (amount : Nat) : α → Nat :=
  let debited := Function.update balances sender (balances sender - amount)
  Function.update debited recipient (debited recipient + amount)

/-- What a move does to every balance, whichever accounts coincide. -/
theorem moved_add [DecidableEq α] {balances : α → Nat} {sender : α} (recipient : α) {amount : Nat}
    (enough : amount ≤ balances sender) (account : α) :
    moved balances sender recipient amount account + (if account = sender then amount else 0) =
      balances account + (if account = recipient then amount else 0) := by
  simp only [moved, Function.update_apply]
  by_cases isSender : account = sender
  · by_cases isRecipient : account = recipient
    · subst isSender
      simp only [isRecipient, if_true] at enough ⊢
      omega
    · subst isSender
      simp only [isRecipient, if_true, if_false]
      omega
  · by_cases isRecipient : account = recipient
    · subst isRecipient
      simp [isSender]
    · simp [isSender, isRecipient]

theorem sum_moved [Fintype α] [DecidableEq α] {balances : α → Nat} {sender : α} (recipient : α)
    {amount : Nat} (enough : amount ≤ balances sender) :
    ∑ account, moved balances sender recipient amount account = ∑ account, balances account := by
  have sums := Finset.sum_congr (rfl : (Finset.univ : Finset α) = Finset.univ) fun account _ =>
    moved_add recipient enough account
  simp only [Finset.sum_add_distrib, Finset.sum_ite_eq', Finset.mem_univ, if_true] at sums
  omega

structure Ledger (α : Type) [Fintype α] (supply : Nat) where
  balances : α → Nat
  total : ∑ account, balances account = supply

namespace Ledger

variable {α : Type} [Fintype α] {supply : Nat}

theorem balance_le (ledger : Ledger α supply) (account : α) : ledger.balances account ≤ supply :=
  calc ledger.balances account ≤ ∑ other, ledger.balances other :=
        Finset.single_le_sum (fun _ _ => Nat.zero_le _) (Finset.mem_univ account)
    _ = supply := ledger.total

variable [DecidableEq α]

/-- The whole supply on one account. -/
def single (account : α) : Ledger α supply where
  balances := Function.update (fun _ => 0) account supply
  total := by simp [Finset.sum_update_of_mem]

/-- Moves an amount, if the sender has it. -/
def move (ledger : Ledger α supply) (sender recipient : α) (amount : Nat) :
    Option (Ledger α supply) :=
  if enough : amount ≤ ledger.balances sender then
    some {
      balances := moved ledger.balances sender recipient amount
      total := (sum_moved recipient enough).trans ledger.total }
  else none

theorem move_eq_none_iff {ledger : Ledger α supply} {sender recipient : α} {amount : Nat} :
    ledger.move sender recipient amount = none ↔ ledger.balances sender < amount := by
  rw [move]
  split
  · rename_i enough
    simp [enough]
  · rename_i short
    simpa using short

theorem balances_move {ledger next : Ledger α supply} {sender recipient : α} {amount : Nat}
    (moves : ledger.move sender recipient amount = some next) (account : α) :
    next.balances account + (if account = sender then amount else 0) =
      ledger.balances account + (if account = recipient then amount else 0) := by
  rw [move] at moves
  split at moves
  · rename_i enough
    cases moves
    exact moved_add recipient enough account
  · cases moves

end Ledger

end PizzaChain
