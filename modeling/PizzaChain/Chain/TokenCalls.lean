import Mathlib.Logic.Relation
import PizzaChain.Chain.Tokens

/-! # Calls of the ItemToken contract

Any accounts call the public functions in any order. The metadata mapping has no
guard of its own: it is written once because an id can be minted only while it
has no owner, and no call takes the last owner away.
-/

namespace PizzaChain.Chain

/-- A call of a public function with its sender. A contract that receives a token
by `safeTransferFrom` may make calls of its own before it accepts or refuses. -/
inductive TokenCall where
  | mint (sender : Address) (tokenId : Nat)
  | mintWithItemData (sender : Address) (tokenId itemType : Nat) (uom : String) (qty price : Nat)
  | approve (caller approved : Address) (tokenId : Nat)
  | setApprovalForAll (sender operator : Address) (approved : Bool)
  | transferFrom (caller sender recipient : Address) (tokenId : Nat)
  | safeTransferFrom (caller sender recipient : Address) (tokenId : Nat)
      (received : List TokenCall) (accepted : Bool)

/-- The contract together with the ids that were minted and the metadata that the
minting call gave them. -/
structure TokenHistory where
  token : ItemToken
  minted : List (Nat × Item)

namespace TokenHistory

def initial : TokenHistory where
  token := .deployed
  minted := []

mutual

/-- One call; `none` when it reverts. -/
def execute : (call : TokenCall) → (history : TokenHistory) → Option TokenHistory
  | .mint sender tokenId, history =>
      match history.token.mint sender tokenId with
      | none => none
      | some token => some ⟨token, history.minted ++ [(tokenId, default)]⟩
  | .mintWithItemData sender tokenId itemType uom qty price, history =>
      match history.token.mintWithItemData sender tokenId itemType uom qty price with
      | none => none
      | some token => some ⟨token, history.minted ++ [(tokenId, ⟨itemType, uom, qty, price⟩)]⟩
  | .approve caller approved tokenId, history =>
      match history.token.approve caller approved tokenId with
      | none => none
      | some token => some { history with token := token }
  | .setApprovalForAll sender operator approved, history =>
      match history.token.setApprovalForAll sender operator approved with
      | none => none
      | some token => some { history with token := token }
  | .transferFrom caller sender recipient tokenId, history =>
      match history.token.transferFrom caller sender recipient tokenId with
      | none => none
      | some token => some { history with token := token }
  | .safeTransferFrom caller sender recipient tokenId received accepted, history =>
      match history.token.transferFrom caller sender recipient tokenId with
      | none => none
      | some token =>
          let answered := executeAll received { history with token := token }
          if accepted then some answered else none

/-- Calls one after the other, where a call that reverts changes nothing. -/
def executeAll : (calls : List TokenCall) → (history : TokenHistory) → TokenHistory
  | [], history => history
  | call :: calls, history => executeAll calls ((execute call history).getD history)

end

theorem executeAll_append (calls later : List TokenCall) (history : TokenHistory) :
    executeAll (calls ++ later) history = executeAll later (executeAll calls history) := by
  induction calls generalizing history with
  | nil => rw [executeAll]; rfl
  | cons call calls induction => rw [List.cons_append, executeAll, executeAll, induction]

/-! ## What a call does -/

/-- What a call does to owners and metadata: a token or an approval changes hands,
or an id without an owner is minted, without or with metadata. -/
inductive Step (history : TokenHistory) : TokenHistory → Prop
  | moved {token : ItemToken} : token.itemMetadata = history.token.itemMetadata →
      (∀ tokenId, token.tokenOwner tokenId = 0 ↔ history.token.tokenOwner tokenId = 0) →
        Step history { history with token := token }
  | minted {token : ItemToken} {tokenId : Nat} {owner : Address} :
      history.token.tokenOwner tokenId = 0 → owner ≠ 0 →
      token.tokenOwner = Function.update history.token.tokenOwner tokenId owner →
      token.itemMetadata = history.token.itemMetadata →
        Step history ⟨token, history.minted ++ [(tokenId, default)]⟩
  | mintedWithData {token : ItemToken} {tokenId : Nat} {owner : Address} {item : Item} :
      history.token.tokenOwner tokenId = 0 → owner ≠ 0 →
      token.tokenOwner = Function.update history.token.tokenOwner tokenId owner →
      token.itemMetadata = Function.update history.token.itemMetadata tokenId item →
        Step history ⟨token, history.minted ++ [(tokenId, item)]⟩

abbrev Steps := Relation.ReflTransGen Step

theorem mint_cases {token minted : ItemToken} {sender : Address} {tokenId : Nat}
    (mints : token.mint sender tokenId = some minted) :
    token.tokenOwner tokenId = 0 ∧ sender ≠ 0 ∧
      minted.tokenOwner = Function.update token.tokenOwner tokenId sender ∧
      minted.itemMetadata = token.itemMetadata := by
  simp only [ItemToken.mint, Option.ite_none_left_eq_some, Option.some.injEq, not_not] at mints
  rcases mints with ⟨nonzero, unowned, rfl⟩
  exact ⟨unowned, nonzero, rfl, rfl⟩

theorem step_mint {history : TokenHistory} {token : ItemToken} {sender : Address} {tokenId : Nat}
    (mints : history.token.mint sender tokenId = some token) :
    Step history ⟨token, history.minted ++ [(tokenId, default)]⟩ := by
  rcases mint_cases mints with ⟨unowned, nonzero, owners, metadata⟩
  exact .minted unowned nonzero owners metadata

theorem step_mintWithItemData {history : TokenHistory} {token : ItemToken} {sender : Address}
    {tokenId itemType qty price : Nat} {uom : String}
    (mints : history.token.mintWithItemData sender tokenId itemType uom qty price = some token) :
    Step history ⟨token, history.minted ++ [(tokenId, ⟨itemType, uom, qty, price⟩)]⟩ := by
  rw [ItemToken.mintWithItemData] at mints
  split at mints
  · cases mints
  · rename_i plain plainMints
    cases mints
    rcases mint_cases plainMints with ⟨unowned, nonzero, owners, metadata⟩
    exact .mintedWithData unowned nonzero owners (by rw [← metadata])

theorem step_approve {history : TokenHistory} {token : ItemToken} {caller approved : Address}
    {tokenId : Nat} (approves : history.token.approve caller approved tokenId = some token) :
    Step history { history with token := token } := by
  simp only [ItemToken.approve, Option.ite_none_left_eq_some, Option.some.injEq] at approves
  rcases approves with ⟨_, _, _, rfl⟩
  exact .moved rfl fun _ => Iff.rfl

theorem step_setApprovalForAll {history : TokenHistory} {token : ItemToken}
    {sender operator : Address} {approved : Bool}
    (approves : history.token.setApprovalForAll sender operator approved = some token) :
    Step history { history with token := token } := by
  simp only [ItemToken.setApprovalForAll, Option.ite_none_left_eq_some,
    Option.some.injEq] at approves
  rcases approves with ⟨_, rfl⟩
  exact .moved rfl fun _ => Iff.rfl

theorem step_transferFrom {history : TokenHistory} {token : ItemToken}
    {caller sender recipient : Address} {tokenId : Nat}
    (transfers : history.token.transferFrom caller sender recipient tokenId = some token) :
    Step history { history with token := token } := by
  simp only [ItemToken.transferFrom, Option.ite_none_left_eq_some, Option.some.injEq] at transfers
  rcases transfers with ⟨owned, _, _, nonzero, rfl⟩
  refine .moved rfl ?_
  intro other
  by_cases same : other = tokenId
  · simp [same, owned, nonzero]
  · simp [same]

mutual

theorem steps_execute (call : TokenCall) (history next : TokenHistory)
    (executes : execute call history = some next) : Steps history next := by
  cases call with
  | mint sender tokenId =>
      rw [execute] at executes
      split at executes
      · cases executes
      · rename_i token mints
        cases executes
        exact .single (step_mint mints)
  | mintWithItemData sender tokenId itemType uom qty price =>
      rw [execute] at executes
      split at executes
      · cases executes
      · rename_i token mints
        cases executes
        exact .single (step_mintWithItemData mints)
  | approve caller approved tokenId =>
      rw [execute] at executes
      split at executes
      · cases executes
      · rename_i token approves
        cases executes
        exact .single (step_approve approves)
  | setApprovalForAll sender operator approved =>
      rw [execute] at executes
      split at executes
      · cases executes
      · rename_i token approves
        cases executes
        exact .single (step_setApprovalForAll approves)
  | transferFrom caller sender recipient tokenId =>
      rw [execute] at executes
      split at executes
      · cases executes
      · rename_i token transfers
        cases executes
        exact .single (step_transferFrom transfers)
  | safeTransferFrom caller sender recipient tokenId received accepted =>
      rw [execute] at executes
      split at executes
      · cases executes
      · rename_i token transfers
        dsimp only at executes
        split at executes
        · cases executes
          exact .head (step_transferFrom transfers) (steps_executeAll received _)
        · cases executes

theorem steps_executeAll (calls : List TokenCall) (history : TokenHistory) :
    Steps history (executeAll calls history) := by
  cases calls with
  | nil => rw [executeAll]
  | cons call calls =>
      rw [executeAll]
      cases executes : execute call history with
      | none => exact steps_executeAll calls history
      | some next =>
          exact (steps_execute call history next executes).trans (steps_executeAll calls next)

end

/-! ## The record of mintings -/

/-- The record says who has an owner and what the metadata is. -/
structure Recorded (history : TokenHistory) : Prop where
  owned : ∀ tokenId item, (tokenId, item) ∈ history.minted →
    history.token.tokenOwner tokenId ≠ 0
  metadata : ∀ tokenId item, (tokenId, item) ∈ history.minted →
    history.token.itemMetadata tokenId = item
  unminted : ∀ tokenId, (∀ item, (tokenId, item) ∉ history.minted) →
    history.token.tokenOwner tokenId = 0 ∧ history.token.itemMetadata tokenId = default

theorem recorded_initial : Recorded initial where
  owned := by simp [initial]
  metadata := by simp [initial]
  unminted := fun _ _ => ⟨rfl, rfl⟩

/-- Minting an id without an owner adds it to the record. -/
theorem Recorded.mint {history : TokenHistory} (recorded : Recorded history)
    {token : ItemToken} {tokenId : Nat} {owner : Address} {item : Item}
    (unowned : history.token.tokenOwner tokenId = 0) (nonzero : owner ≠ 0)
    (owners : token.tokenOwner = Function.update history.token.tokenOwner tokenId owner)
    (written : token.itemMetadata tokenId = item)
    (others : ∀ other, other ≠ tokenId →
      token.itemMetadata other = history.token.itemMetadata other) :
    Recorded ⟨token, history.minted ++ [(tokenId, item)]⟩ where
  owned := by
    intro other otherItem member
    rw [owners]
    rcases List.mem_append.mp member with earlier | last
    · by_cases same : other = tokenId
      · simpa [same] using nonzero
      · simpa [same] using recorded.owned other otherItem earlier
    · cases List.mem_singleton.mp last
      simpa using nonzero
  metadata := by
    intro other otherItem member
    rcases List.mem_append.mp member with earlier | last
    · have different : other ≠ tokenId := by
        intro same
        exact recorded.owned other otherItem earlier (same ▸ unowned)
      rw [others other different]
      exact recorded.metadata other otherItem earlier
    · cases List.mem_singleton.mp last
      exact written
  unminted := by
    intro other absent
    have different : other ≠ tokenId := by
      intro same
      exact absent item (by simp [same])
    have earlier := recorded.unminted other fun otherItem member =>
      absent otherItem (List.mem_append_left _ member)
    rw [owners, others other different]
    exact ⟨by simpa [different] using earlier.1, earlier.2⟩

theorem Recorded.step {history next : TokenHistory} (recorded : Recorded history)
    (step : Step history next) : Recorded next := by
  cases step with
  | moved metadata owners =>
      constructor
      · intro tokenId item member
        rw [ne_eq, owners]
        exact recorded.owned tokenId item member
      · intro tokenId item member
        rw [metadata]
        exact recorded.metadata tokenId item member
      · intro tokenId absent
        rw [owners, metadata]
        exact recorded.unminted tokenId absent
  | @minted token tokenId owner unowned nonzero owners metadata =>
      apply recorded.mint unowned nonzero owners
      · rw [metadata]
        refine (recorded.unminted tokenId ?_).2
        intro item member
        exact recorded.owned tokenId item member unowned
      · intro other _
        rw [metadata]
  | mintedWithData unowned nonzero owners metadata =>
      apply recorded.mint unowned nonzero owners
      · rw [metadata, Function.update_self]
      · intro other different
        rw [metadata, Function.update_of_ne different]

theorem Recorded.steps {history next : TokenHistory} (recorded : Recorded history)
    (steps : Steps history next) : Recorded next := by
  induction steps with
  | refl => exact recorded
  | tail _ step induction => exact induction.step step

/-- A minting stays on the record. -/
theorem minted_subset_of_steps {history next : TokenHistory} (steps : Steps history next) :
    history.minted ⊆ next.minted := by
  induction steps with
  | refl => exact List.Subset.refl _
  | tail _ step induction =>
      cases step with
      | moved _ _ => exact induction
      | minted _ _ _ _ => exact List.Subset.trans induction (List.subset_append_left _ _)
      | mintedWithData _ _ _ _ => exact List.Subset.trans induction (List.subset_append_left _ _)

/-- The contract after calls from its deployment on. -/
def after (calls : List TokenCall) : TokenHistory :=
  executeAll calls initial

/-- Whatever calls were made: an id that was minted has an owner and the metadata
of its minting call after any further calls, and one that was not has none. -/
theorem metadata_written_once (calls later : List TokenCall) (tokenId : Nat) :
    (∀ item, (tokenId, item) ∈ (after calls).minted →
      (after (calls ++ later)).token.ownerOf tokenId ≠ none ∧
        (after (calls ++ later)).token.getMetadata tokenId =
          (item.itemType, item.qty, item.uom, item.price)) ∧
      ((∀ item, (tokenId, item) ∉ (after calls).minted) →
        (after calls).token.getMetadata tokenId = (0, 0, "", 0)) := by
  constructor
  · intro item member
    have recorded : Recorded (after (calls ++ later)) :=
      recorded_initial.steps (steps_executeAll _ _)
    have kept : (tokenId, item) ∈ (after (calls ++ later)).minted := by
      rw [after, executeAll_append]
      exact minted_subset_of_steps (steps_executeAll later _) member
    constructor
    · simpa [ItemToken.ownerOf] using recorded.owned tokenId item kept
    · rw [ItemToken.getMetadata, recorded.metadata tokenId item kept]
  · intro absent
    have recorded : Recorded (after calls) := recorded_initial.steps (steps_executeAll _ _)
    rw [ItemToken.getMetadata, (recorded.unminted tokenId absent).2]
    rfl

end TokenHistory

end PizzaChain.Chain
