import Mathlib.Algebra.GroupWithZero.Nat
import PizzaChain.Foundation.Ledger

/-! # PizzaCoin and ItemToken

The two token contracts. `PizzaCoin.sol` is an ERC-20 with a supply minted at
deployment; `ItemToken.sol` is an ERC-721 with metadata. A call that reverts is
`none`.
-/

namespace PizzaChain.Chain

abbrev Address := Fin (2 ^ 160)

instance addresses_neZero : NeZero (2 ^ 160) := ⟨by decide⟩

/-! ## PizzaCoin -/

/-- The amount that the migration mints for the admin account. -/
def supply : Nat := 10000000

abbrev PizzaCoin := Ledger Address supply

namespace PizzaCoin

def deployed (admin : Address) : PizzaCoin :=
  Ledger.single admin

def balanceOf (coin : PizzaCoin) (account : Address) : Nat :=
  coin.balances account

/-- `transfer(recipient, amount)` sent by `sender`. -/
def transfer (coin : PizzaCoin) (sender recipient : Address) (amount : Nat) : Option PizzaCoin :=
  if recipient = 0 then none
  else coin.move sender recipient amount

theorem transfer_isSome_iff {coin : PizzaCoin} {sender recipient : Address} {amount : Nat} :
    (coin.transfer sender recipient amount).isSome ↔
      recipient ≠ 0 ∧ amount ≤ coin.balanceOf sender := by
  rw [transfer]
  split
  · rename_i zero
    simp [zero]
  · rename_i nonzero
    rw [Option.isSome_iff_ne_none, ne_eq, Ledger.move_eq_none_iff, Nat.not_lt]
    simp [nonzero, balanceOf]

theorem balanceOf_transfer {coin next : PizzaCoin} {sender recipient : Address} {amount : Nat}
    (transfers : coin.transfer sender recipient amount = some next) (account : Address) :
    next.balanceOf account + (if account = sender then amount else 0) =
      coin.balanceOf account + (if account = recipient then amount else 0) := by
  rw [transfer] at transfers
  split at transfers
  · cases transfers
  · exact Ledger.balances_move transfers account

theorem amount_le_supply {coin next : PizzaCoin} {sender recipient : Address} {amount : Nat}
    (transfers : coin.transfer sender recipient amount = some next) : amount ≤ supply := by
  have allowed := transfer_isSome_iff.mp (Option.isSome_of_eq_some transfers)
  exact allowed.2.trans (coin.balance_le sender)

theorem transfer_eq_none_iff {coin : PizzaCoin} {sender recipient : Address} {amount : Nat}
    (nonzero : recipient ≠ 0) :
    coin.transfer sender recipient amount = none ↔ coin.balanceOf sender < amount := by
  rw [transfer, if_neg nonzero]
  exact Ledger.move_eq_none_iff

/-- The recipient's balance shows a transfer, unless it is made to oneself. -/
theorem balanceOf_recipient {coin next : PizzaCoin} {sender recipient : Address} {amount : Nat}
    (transfers : coin.transfer sender recipient amount = some next) :
    coin.balanceOf recipient + amount = next.balanceOf recipient ↔
      amount = 0 ∨ sender ≠ recipient := by
  have balance := balanceOf_transfer transfers recipient
  rw [if_pos rfl] at balance
  by_cases same : recipient = sender
  · rw [if_pos same] at balance
    simp only [same, ne_eq, not_true_eq_false, or_false] at balance ⊢
    omega
  · rw [if_neg same] at balance
    exact iff_of_true balance.symm (.inr (Ne.symm same))

/-- After the sender was given the amount, the recipient's balance shows the
transfer unless the recipient is the one who gave it. -/
theorem balanceOf_recipient_of_funded {coin funded next : PizzaCoin}
    {source sender recipient : Address} {amount : Nat}
    (funds : coin.transfer source sender amount = some funded)
    (transfers : funded.transfer sender recipient amount = some next) :
    coin.balanceOf recipient + amount = next.balanceOf recipient ↔
      amount = 0 ∨ recipient ≠ source := by
  have first := balanceOf_transfer funds recipient
  have second := balanceOf_transfer transfers recipient
  rw [if_pos rfl] at second
  by_cases same : recipient = source
  · rw [if_pos same] at first
    simp only [same, ne_eq, not_true_eq_false, or_false]
    rw [same] at first second
    omega
  · rw [if_neg same] at first
    refine iff_of_true ?_ (.inr same)
    omega

/-- Whoever was given an amount has it, even by themselves. -/
theorem amount_le_balanceOf_of_funded {coin funded : PizzaCoin} {source recipient : Address}
    {amount : Nat} (funds : coin.transfer source recipient amount = some funded) :
    amount ≤ funded.balanceOf recipient := by
  have balance := balanceOf_transfer funds recipient
  rw [if_pos rfl] at balance
  have enough := (transfer_isSome_iff.mp (Option.isSome_of_eq_some funds)).2
  by_cases same : recipient = source
  · rw [if_pos same] at balance
    rw [← same] at enough
    omega
  · rw [if_neg same] at balance
    omega

end PizzaCoin

/-! ## ItemToken -/

structure Item where
  itemType : Nat
  uom : String
  qty : Nat
  price : Nat
  deriving DecidableEq

instance : Inhabited Item := ⟨⟨0, "", 0, 0⟩⟩

/-- The storage of the contract. The zero address owns what is not minted. -/
structure ItemToken where
  tokenOwner : Nat → Address
  tokenApprovals : Nat → Address
  ownedTokensCount : Address → Nat
  operatorApprovals : Address → Address → Bool
  itemMetadata : Nat → Item

namespace ItemToken

def deployed : ItemToken where
  tokenOwner := fun _ => 0
  tokenApprovals := fun _ => 0
  ownedTokensCount := fun _ => 0
  operatorApprovals := fun _ _ => false
  itemMetadata := fun _ => default

def ownerOf (token : ItemToken) (tokenId : Nat) : Option Address :=
  if token.tokenOwner tokenId = 0 then none
  else some (token.tokenOwner tokenId)

def balanceOf (token : ItemToken) (owner : Address) : Option Nat :=
  if owner = 0 then none
  else some (token.ownedTokensCount owner)

def mint (token : ItemToken) (sender : Address) (tokenId : Nat) : Option ItemToken :=
  if sender = 0 then none
  else if token.tokenOwner tokenId ≠ 0 then none
  else some { token with
    tokenOwner := Function.update token.tokenOwner tokenId sender
    ownedTokensCount :=
      Function.update token.ownedTokensCount sender (token.ownedTokensCount sender + 1) }

def mintWithItemData (token : ItemToken) (sender : Address) (tokenId itemType : Nat) (uom : String)
    (qty price : Nat) : Option ItemToken :=
  match token.mint sender tokenId with
  | none => none
  | some token => some { token with
      itemMetadata := Function.update token.itemMetadata tokenId ⟨itemType, uom, qty, price⟩ }

/-- The fields of the metadata in the order in which the contract returns them. -/
def getMetadata (token : ItemToken) (tokenId : Nat) : Nat × Nat × String × Nat :=
  let item := token.itemMetadata tokenId
  (item.itemType, item.qty, item.uom, item.price)

/-- `approve(approved, tokenId)` called by `caller`. -/
def approve (token : ItemToken) (caller approved : Address) (tokenId : Nat) : Option ItemToken :=
  let owner := token.tokenOwner tokenId
  if owner = 0 then none
  else if approved = owner then none
  else if ¬(caller = owner ∨ token.operatorApprovals owner caller) then none
  else some { token with
    tokenApprovals := Function.update token.tokenApprovals tokenId approved }

def setApprovalForAll (token : ItemToken) (sender operator : Address) (approved : Bool) :
    Option ItemToken :=
  if operator = sender then none
  else some { token with
    operatorApprovals := Function.update token.operatorApprovals sender
      (Function.update (token.operatorApprovals sender) operator approved) }

def isApprovedOrOwner (token : ItemToken) (spender : Address) (tokenId : Nat) : Bool :=
  let owner := token.tokenOwner tokenId
  spender == owner || token.tokenApprovals tokenId == spender ||
    token.operatorApprovals owner spender

/-- `transferFrom(sender, recipient, tokenId)` called by `caller`. -/
def transferFrom (token : ItemToken) (caller sender recipient : Address) (tokenId : Nat) :
    Option ItemToken :=
  if token.tokenOwner tokenId = 0 then none
  else if ¬token.isApprovedOrOwner caller tokenId then none
  else if token.tokenOwner tokenId ≠ sender then none
  else if recipient = 0 then none
  else
    let debited :=
      Function.update token.ownedTokensCount sender (token.ownedTokensCount sender - 1)
    some { token with
      tokenApprovals := Function.update token.tokenApprovals tokenId 0
      ownedTokensCount := Function.update debited recipient (debited recipient + 1)
      tokenOwner := Function.update token.tokenOwner tokenId recipient }

theorem ownerOf_of_owner {token : ItemToken} {tokenId : Nat} {owner : Address}
    (owned : token.tokenOwner tokenId = owner) (nonzero : owner ≠ 0) :
    token.ownerOf tokenId = some owner := by
  rw [ownerOf, owned, if_neg nonzero]

theorem mint_of_unowned {token : ItemToken} {tokenId : Nat} {sender : Address}
    (unowned : token.tokenOwner tokenId = 0) (nonzero : sender ≠ 0) :
    ∃ minted, token.mint sender tokenId = some minted ∧
      minted.tokenOwner = Function.update token.tokenOwner tokenId sender := by
  simp [mint, unowned, nonzero]

theorem mint_of_owned {token : ItemToken} {tokenId : Nat}
    (owned : token.tokenOwner tokenId ≠ 0) (sender : Address) :
    token.mint sender tokenId = none := by
  simp [mint, owned]

theorem tokenOwner_transferFrom {token next : ItemToken} {caller sender recipient : Address}
    {tokenId : Nat} (transfers : token.transferFrom caller sender recipient tokenId = some next) :
    recipient ≠ 0 ∧ next.tokenOwner = Function.update token.tokenOwner tokenId recipient := by
  simp only [transferFrom, Option.ite_none_left_eq_some, Option.some.injEq] at transfers
  rcases transfers with ⟨_, _, _, nonzero, rfl⟩
  exact ⟨nonzero, rfl⟩

theorem transferFrom_of_owner {token : ItemToken} {sender recipient : Address} {tokenId : Nat}
    (owned : token.tokenOwner tokenId = sender) (senderNonzero : sender ≠ 0)
    (recipientNonzero : recipient ≠ 0) :
    ∃ next, token.transferFrom sender sender recipient tokenId = some next ∧
      next.tokenOwner = Function.update token.tokenOwner tokenId recipient := by
  simp [transferFrom, isApprovedOrOwner, owned, senderNonzero, recipientNonzero]

theorem transferFrom_of_not_owner {token : ItemToken} {caller sender : Address} {tokenId : Nat}
    (other : token.tokenOwner tokenId ≠ sender) (recipient : Address) :
    token.transferFrom caller sender recipient tokenId = none := by
  simp [transferFrom, other]

end ItemToken

end PizzaChain.Chain
