import PizzaChain.Api.Effects
import PizzaChain.Api.TokenMaking
import PizzaChain.Foundation.Lists
import PizzaChain.Semantics.RelyGuarantee

/-! # Concurrent token making

Requests to make tokens share the variables `fromAddress` and `toAddress`, and the
same invoice may be requested many times. Every request mints its own token, or is
stopped by the revert, and moves what it has minted itself. A token belongs to the
text by which its invoice was asked for, so there is one for each invoice if no
invoice is asked for by two texts.
-/

namespace PizzaChain.Api

open PizzaChain.Chain

/-- Concurrent requests with shared variables, each with the text of an invoice id. -/
abbrev tokenMakings (environment : Environment) : System where
  interface := server
  World := World
  serve := serve environment
  Request := String
  Result := Response (String × String)
  handler := Controller.makeTokens environment
  cell := fun _ => 0

/-- The token that is minted for an invoice id. -/
def tokenOf (environment : Environment) (start : World) (invoiceId : String) : Option Nat :=
  (environment.encodeUint invoiceId).bind fun invoice =>
    tokenNumber environment invoiceId (start.procurement.invoices invoice)

/-- The token that a call has minted. -/
def mintedBy : Event server → Option Nat
  | ⟨_, .mint tokenId, .ok _⟩ => tokenId
  | _ => none

theorem mintedBy_other {point : Point} {call : Call} (other : ∀ tokenId, call ≠ .mint tokenId)
    (answer : Except Failure call.Answer) : mintedBy ⟨point, call, answer⟩ = none := by
  cases call with
  | mint tokenId => exact absurd rfl (other tokenId)
  | _ => rfl

theorem append_mintedBy_other {mints : List (Nat × Nat)} {index : Nat} {point : Point}
    {call : Call} (other : ∀ tokenId, call ≠ .mint tokenId)
    (answer : Except Failure call.Answer) :
    mints ++ ((mintedBy ⟨point, call, answer⟩).map fun number => (index, number)).toList =
      mints := by
  rw [mintedBy_other other, Option.map_none, Option.toList_none, List.append_nil]

/-- The request has minted the token. -/
def HasMinted (trace : List (Event server)) (number : Nat) : Prop :=
  ∃ event ∈ trace, mintedBy event = some number

theorem HasMinted.append {trace : List (Event server)} {number : Nat}
    (minted : HasMinted trace number) (event : Event server) :
    HasMinted (trace ++ [event]) number := by
  rcases minted with ⟨earlier, member, mints⟩
  exact ⟨earlier, List.mem_append_left _ member, mints⟩

/-- The minted tokens with the requests that minted them. -/
def mintsOf (log : List (Nat × Event server)) : List (Nat × Nat) :=
  log.filterMap fun entry => (mintedBy entry.2).map fun number => (entry.1, number)

theorem mintsOf_append (log : List (Nat × Event server)) (index : Nat) (event : Event server) :
    mintsOf (log ++ [(index, event)]) =
      mintsOf log ++ ((mintedBy event).map fun number => (index, number)).toList := by
  rw [mintsOf, List.filterMap_append]
  rfl

theorem mem_mintsOf {log : List (Nat × Event server)} {index number : Nat} :
    (index, number) ∈ mintsOf log ↔
      ∃ event, (index, event) ∈ log ∧ mintedBy event = some number := by
  simp only [mintsOf, List.mem_filterMap, Option.map_eq_some_iff, Prod.mk.injEq]
  constructor
  · rintro ⟨entry, member, _, minted, rfl, rfl⟩
    exact ⟨entry.2, member, minted⟩
  · rintro ⟨event, member, minted⟩
    exact ⟨(index, event), member, number, minted, rfl, rfl⟩

/-! ## What the tokens are -/

section Tokens

variable (environment : Environment) (start : World)

/-- The token was minted by a request for the invoice id. -/
def MintedFor (requests : List String) (mints : List (Nat × Nat)) (invoiceId : String)
    (number : Nat) : Prop :=
  ∃ index, (index, number) ∈ mints ∧ requests[index]? = some invoiceId

/-- A token has the owner it had, or was minted for an invoice and is with the admin
or with the invoice's supplier. -/
def OwnerKept (requests : List String) (mints : List (Nat × Nat)) (world : World)
    (number : Nat) : Prop :=
  world.token.tokenOwner number = start.token.tokenOwner number ∨
    ∃ invoiceId invoice, MintedFor requests mints invoiceId number ∧
      environment.encodeUint invoiceId = some invoice ∧
      (world.token.tokenOwner number = environment.admin ∨
        supplierAccount environment (start.procurement.invoices invoice).supplierId =
          some (world.token.tokenOwner number))

/-- A row has the token id it had, or that of a token that was minted for the row's
invoice. -/
structure RowKept (requests : List String) (mints : List (Nat × Nat)) (old new : Row) :
    Prop where
  others : new = { old with tokenId := new.tokenId }
  tokenId : new.tokenId = old.tokenId ∨ ∃ invoiceId tokenId number,
    old.invoiceId = some invoiceId ∧ new.tokenId = some tokenId ∧
      environment.encodeUint tokenId = some number ∧ MintedFor requests mints invoiceId number

/-- The state of the tokens, for the requests and the minted tokens so far. -/
structure Minted (requests : List String) (mints : List (Nat × Nat)) (world : World) : Prop where
  invoices : world.procurement.invoices = start.procurement.invoices
  own : ∀ mint ∈ mints, ∃ invoiceId, requests[mint.1]? = some invoiceId ∧
    tokenOf environment start invoiceId = some mint.2
  distinct : (mints.map Prod.snd).Nodup
  owned : ∀ mint ∈ mints, world.token.tokenOwner mint.2 ≠ 0
  owners : ∀ number, OwnerKept environment start requests mints world number
  rows : start.rows.Forall₂ (RowKept environment requests mints) world.rows

/-- The calls of a request for an invoice id that has minted some tokens. -/
def OwnCall (invoiceId : String) (minted : Nat → Prop) : Call → Prop
  | .mint tokenId => tokenId = tokenOf environment start invoiceId
  | .transferFrom caller sender recipient tokenId =>
      caller = some environment.admin ∧ sender = some environment.admin ∧
      (∃ invoice, environment.encodeUint invoiceId = some invoice ∧
        recipient = supplierAccount environment
          (start.procurement.invoices invoice).supplierId) ∧
      ∃ number, tokenId = some number ∧ minted number
  | .updateTokenId named tokenId => named = invoiceId ∧
      ∃ number, environment.encodeUint tokenId = some number ∧ minted number
  | .swarmPost _ | .updatePOStatus _ _ => True
  | call => call.reads = true

end Tokens

/-! ## One call -/

section Grow

variable {environment : Environment} {start : World} {requests more : List String}
  {mints later : List (Nat × Nat)}
  (asked : ∀ (index : Nat) invoiceId, requests[index]? = some invoiceId →
    more[index]? = some invoiceId)
  (kept : ∀ mint ∈ mints, mint ∈ later)

include asked kept

theorem MintedFor.grow {invoiceId : String} {number : Nat}
    (minted : MintedFor requests mints invoiceId number) :
    MintedFor more later invoiceId number := by
  rcases minted with ⟨index, member, request⟩
  exact ⟨index, kept _ member, asked index invoiceId request⟩

theorem OwnerKept.grow {world : World} {number : Nat}
    (owner : OwnerKept environment start requests mints world number) :
    OwnerKept environment start more later world number := by
  rcases owner with same | ⟨invoiceId, invoice, minted, rest⟩
  · exact .inl same
  · exact .inr ⟨invoiceId, invoice, minted.grow asked kept, rest⟩

theorem RowKept.grow {old new : Row} (row : RowKept environment requests mints old new) :
    RowKept environment more later old new := by
  refine ⟨row.others, ?_⟩
  rcases row.tokenId with same | ⟨invoiceId, tokenId, number, linked, written, encoded, minted⟩
  · exact .inl same
  · exact .inr ⟨invoiceId, tokenId, number, linked, written, encoded, minted.grow asked kept⟩

end Grow

/-- What every row keeps, the change of the first that matches keeps. -/
theorem forall₂_updateFirst {relation : Row → Row → Prop} {condition : Row → Bool}
    {change : Row → Row} {old new : List Row} (related : old.Forall₂ relation new)
    (changes : ∀ before after, relation before after → condition after = true →
      relation before (change after)) :
    old.Forall₂ relation (updateFirst condition change new) := by
  induction related with
  | nil => exact .nil
  | @cons before after _ _ first rest induction =>
      rw [updateFirst]
      split
      · rename_i met
        exact .cons (changes before after first met) rest
      · exact .cons first induction

theorem serve_mint (environment : Environment) (tokenId : Option Nat) (world : World) :
    (∃ failure transactions, serve environment (.mint tokenId) world =
        (.error failure, { world with transactions := transactions })) ∨
      ∃ number token, tokenId = some number ∧ world.token.tokenOwner number = 0 ∧
        token.tokenOwner = Function.update world.token.tokenOwner number environment.admin ∧
        serve environment (.mint tokenId) world = (.ok world.transactions.length,
          { world with token := token }.mined environment.admin) := by
  cases tokenId with
  | none => exact .inl ⟨.invalidArgument, world.transactions, rfl⟩
  | some number =>
      by_cases unowned : world.token.tokenOwner number = 0
      · have nonzero := environment.nonzero environment.admin List.mem_cons_self
        rcases ItemToken.mint_of_unowned unowned nonzero with ⟨token, mints, owners⟩
        exact .inr ⟨number, token, rfl, unowned, owners, by simp [serve, World.send, mints]⟩
      · exact .inl ⟨.reverted, world.transactions ++ [environment.admin], by
          simp [serve, World.send, World.mined, ItemToken.mint_of_owned unowned]⟩

theorem serve_transferFrom (environment : Environment) (caller sender : Address)
    (recipient : Option Address) (number : Nat) (world : World) :
    (∃ failure transactions, serve environment (.transferFrom (some caller) (some sender)
        recipient (some number)) world =
          (.error failure, { world with transactions := transactions })) ∨
      ∃ address token, recipient = some address ∧ address ≠ 0 ∧
        token.tokenOwner = Function.update world.token.tokenOwner number address ∧
        serve environment (.transferFrom (some caller) (some sender) recipient (some number))
          world = (.ok world.transactions.length,
            { world with token := token }.mined caller) := by
  cases recipient with
  | none => exact .inl ⟨.invalidArgument, world.transactions, rfl⟩
  | some address =>
      cases transfers : world.token.transferFrom caller sender address number with
      | none =>
          exact .inl ⟨.reverted, world.transactions ++ [caller], by
            simp [serve, World.send, World.mined, transfers]⟩
      | some token =>
          rcases ItemToken.tokenOwner_transferFrom transfers with ⟨nonzero, owners⟩
          exact .inr ⟨address, token, rfl, nonzero, owners, by simp [serve, World.send, transfers]⟩

namespace Minted

variable {environment : Environment} {start : World} {requests : List String}
  {mints : List (Nat × Nat)} {world : World}

theorem initial (environment : Environment) (start : World) :
    Minted environment start [] [] start where
  invoices := rfl
  own := by simp
  distinct := by simp
  owned := by simp
  owners := fun _ => .inl rfl
  rows := List.forall₂_same.mpr fun _ _ => ⟨rfl, .inl rfl⟩

theorem start_request (minted : Minted environment start requests mints world)
    (invoiceId : String) : Minted environment start (requests ++ [invoiceId]) mints world where
  invoices := minted.invoices
  own := by
    intro mint member
    rcases minted.own mint member with ⟨asked, request, token⟩
    exact ⟨asked, getElem?_append_of_some request _, token⟩
  distinct := minted.distinct
  owned := minted.owned
  owners := fun number => (minted.owners number).grow
    (fun _ _ found => getElem?_append_of_some found _) fun _ member => member
  rows := minted.rows.imp fun _ _ row => row.grow
    (fun _ _ found => getElem?_append_of_some found _) fun _ member => member

/-- Only the owners, the rows and the invoices matter. -/
theorem of_same {next : World} (minted : Minted environment start requests mints world)
    (invoices : next.procurement.invoices = world.procurement.invoices)
    (token : next.token = world.token) (rows : next.rows = world.rows) :
    Minted environment start requests mints next where
  invoices := invoices.trans minted.invoices
  own := minted.own
  distinct := minted.distinct
  owned := by
    rw [token]
    exact minted.owned
  owners := by
    intro number
    have owner := minted.owners number
    rw [OwnerKept, ← token] at owner
    exact owner
  rows := by
    rw [rows]
    exact minted.rows

/-- A token that had no owner is minted by its request. -/
theorem mint (minted : Minted environment start requests mints world) {index number : Nat}
    {invoiceId : String} {token : ItemToken} (asked : requests[index]? = some invoiceId)
    (own : tokenOf environment start invoiceId = some number)
    (unowned : world.token.tokenOwner number = 0)
    (owners : token.tokenOwner =
      Function.update world.token.tokenOwner number environment.admin)
    (transactions : List Address) :
    Minted environment start requests (mints ++ [(index, number)])
      { world with token := token, transactions := transactions } := by
  have grows : ∀ mint ∈ mints, mint ∈ mints ++ [(index, number)] :=
    fun _ member => List.mem_append_left _ member
  have nonzero := environment.nonzero environment.admin List.mem_cons_self
  have unminted : number ∉ mints.map Prod.snd := by
    intro earlier
    rcases List.mem_map.mp earlier with ⟨mint, member, rfl⟩
    exact minted.owned mint member unowned
  rcases Option.bind_eq_some_iff.mp own with ⟨invoice, encoded, _⟩
  refine ⟨minted.invoices, ?_, ?_, ?_, ?_, ?_⟩
  · intro mint member
    rcases List.mem_append.mp member with old | new
    · exact minted.own mint old
    · cases List.mem_singleton.mp new
      exact ⟨invoiceId, asked, own⟩
  · rw [List.map_append, List.map_singleton, ← List.concat_eq_append]
    exact minted.distinct.concat unminted
  · intro mint member
    simp only [owners]
    rcases List.mem_append.mp member with old | new
    · have other : mint.2 ≠ number := by
        rintro rfl
        exact unminted (List.mem_map_of_mem old)
      rw [Function.update_of_ne other]
      exact minted.owned mint old
    · cases List.mem_singleton.mp new
      rw [Function.update_self]
      exact nonzero
  · intro other
    by_cases same : other = number
    · subst same
      refine .inr ⟨invoiceId, invoice, ⟨index, ?_, asked⟩, encoded, .inl ?_⟩
      · exact List.mem_append_right _ (List.mem_singleton_self _)
      · simp only [owners, Function.update_self]
    · have owner := (minted.owners other).grow (fun _ _ found => found) grows
      simp only [OwnerKept, owners, Function.update_of_ne same] at owner ⊢
      exact owner
  · exact minted.rows.imp fun _ _ row => row.grow (fun _ _ found => found) grows

/-- A minted token goes to the supplier of its invoice. -/
theorem transfer (minted : Minted environment start requests mints world)
    {index number invoice : Nat} {invoiceId : String} {supplier : Address} {token : ItemToken}
    (asked : requests[index]? = some invoiceId) (member : (index, number) ∈ mints)
    (encoded : environment.encodeUint invoiceId = some invoice)
    (known : supplierAccount environment (start.procurement.invoices invoice).supplierId =
      some supplier)
    (owners : token.tokenOwner = Function.update world.token.tokenOwner number supplier)
    (transactions : List Address) :
    Minted environment start requests mints
      { world with token := token, transactions := transactions } := by
  refine ⟨minted.invoices, minted.own, minted.distinct, ?_, ?_, minted.rows⟩
  · intro mint other
    simp only [owners]
    by_cases same : mint.2 = number
    · rw [same, Function.update_self]
      exact supplierAccount_ne_zero known
    · rw [Function.update_of_ne same]
      exact minted.owned mint other
  · intro other
    by_cases same : other = number
    · subst same
      refine .inr ⟨invoiceId, invoice, ⟨index, member, asked⟩, encoded, .inr ?_⟩
      simp only [owners, Function.update_self]
      exact known
    · have owner := minted.owners other
      simp only [OwnerKept, owners, Function.update_of_ne same] at owner ⊢
      exact owner

/-- A minted token is written to the row of its invoice. -/
theorem record (minted : Minted environment start requests mints world) {index number : Nat}
    {invoiceId tokenId : String} (asked : requests[index]? = some invoiceId)
    (member : (index, number) ∈ mints) (encoded : environment.encodeUint tokenId = some number) :
    Minted environment start requests mints { world with
      rows := updateFirst (fun row => row.invoiceId == some invoiceId)
        (fun row => { row with tokenId := some tokenId }) world.rows } := by
  refine ⟨minted.invoices, minted.own, minted.distinct, minted.owned, minted.owners, ?_⟩
  apply forall₂_updateFirst minted.rows
  intro old new kept met
  refine ⟨?_, .inr ⟨invoiceId, tokenId, number, ?_, rfl, encoded, index, member, asked⟩⟩
  · rw [kept.others]
  · have same : old.invoiceId = new.invoiceId := by rw [kept.others]
    rw [same]
    exact eq_of_beq met

theorem serve (minted : Minted environment start requests mints world) {index : Nat}
    {invoiceId : String} (asked : requests[index]? = some invoiceId) (point : Point) {call : Call}
    (own : OwnCall environment start invoiceId (fun number => (index, number) ∈ mints) call) :
    Minted environment start requests
      (mints ++ ((mintedBy ⟨point, call, (serve environment call world).1⟩).map
        fun number => (index, number)).toList)
      (serve environment call world).2 := by
  cases call with
  | mint tokenId =>
      rcases serve_mint environment tokenId world with
        ⟨failure, transactions, reverts⟩ | ⟨number, token, rfl, unowned, owners, mints⟩
      · rw [reverts]
        simp only [mintedBy, Option.map_none, Option.toList_none, List.append_nil]
        exact minted.of_same rfl rfl rfl
      · rw [mints]
        exact minted.mint asked own.symm unowned owners _
  | transferFrom caller sender recipient tokenId =>
      rcases own with ⟨rfl, rfl, ⟨invoice, encoded, rfl⟩, number, rfl, member⟩
      rw [append_mintedBy_other (by simp)]
      rcases serve_transferFrom environment environment.admin environment.admin
        (supplierAccount environment (start.procurement.invoices invoice).supplierId) number world
        with ⟨failure, transactions, reverts⟩ | ⟨supplier, token, known, _, owners, moves⟩
      · rw [reverts]
        exact minted.of_same rfl rfl rfl
      · rw [moves]
        exact minted.transfer asked member encoded known owners _
  | updateTokenId named tokenId =>
      rcases own with ⟨rfl, number, encoded, member⟩
      rw [append_mintedBy_other (by simp)]
      exact minted.record asked member encoded
  | updatePOStatus poId status =>
      rw [append_mintedBy_other (by simp)]
      have framed := serve_framed environment (.updatePOStatus poId status) world
      exact minted.of_same (invoices_updatePOStatus environment poId status world)
        (framed.token (by simp [Call.changes])) (framed.rows (by simp [Call.changes]))
  | swarmPost metadata =>
      rw [append_mintedBy_other (by simp)]
      have framed := serve_framed environment (.swarmPost metadata) world
      refine minted.of_same ?_ (framed.token (by simp [Call.changes]))
        (framed.rows (by simp [Call.changes]))
      rw [framed.procurement (by simp [Call.changes])]
  | _ =>
      rw [append_mintedBy_other (by simp), serve_of_reads environment own]
      exact minted

end Minted

/-! ## The discipline -/

section Discipline

variable (environment : Environment) (start : World)

/-- `fromAddress` is the admin's for all requests, and `toAddress` is read before the
next await. -/
def making : Discipline (tokenMakings environment) where
  assumes := fun _ _ _ view => view.world.procurement.invoices = start.procurement.invoices
  rely := fun _ _ view later => later.trace = view.trace ∧
    (view.globals.fromAddress = some environment.admin →
      later.globals.fromAddress = some environment.admin)
  rely_refl := fun _ _ _ => ⟨rfl, fun same => same⟩
  rely_trans := fun _ _ _ _ _ early late => ⟨late.1.trans early.1, late.2 ∘ early.2⟩
  holds := fun invoiceId moment view =>
    match moment with
    | .waiting _ call => OwnCall environment start invoiceId (HasMinted view.trace) call
    | _ => True
  changes := fun _ _ before after => before.fromAddress = some environment.admin →
    after.fromAddress = some environment.admin

variable {environment start} {invoiceId : String} {origin : Option Point} {before : Globals}
  {view : View (tokenMakings environment)} {point : Point}

theorem making_call {call : Call}
    {continuation : call.Answer → Handler (Response (String × String))}
    (own : OwnCall environment start invoiceId (HasMinted view.trace) call)
    (changed : before.fromAddress = some environment.admin →
      view.globals.fromAddress = some environment.admin)
    (continues : ∀ world resumed answer,
      world.procurement.invoices = start.procurement.invoices →
      (serve environment call world).1 = .ok answer →
      resumed.trace = view.trace ++ [⟨point, call, .ok answer⟩] →
      (view.globals.fromAddress = some environment.admin →
        resumed.globals.fromAddress = some environment.admin) →
      (making environment start).Robust invoiceId (some point) resumed.globals
        (continuation answer) resumed) :
    (making environment start).Robust invoiceId origin before (wait point call >>= continuation)
      view := by
  apply Discipline.robust_call changed
  intro later waits
  refine ⟨?_, fun invoices outcome next served resumed rests => ⟨trivial, ?_, ?_⟩⟩
  · rw [← waits.1] at own
    exact own
  · intro answer returned
    subst returned
    refine continues later.world resumed answer invoices (congrArg Prod.fst served) ?_ ?_
    · rw [rests.1, waits.1]
    · exact rests.2 ∘ waits.2
  · exact fun error _ => ⟨fun same => same, fun _ _ => trivial⟩

theorem serve_swarmPost (environment : Environment) (metadata : Metadata) (world : World) :
    (serve environment (.swarmPost metadata) world).1 = .ok (environment.rootHash metadata) := by
  simp only [serve]
  split <;> simp_all

/-- The part of `makeTokens` that follows the minting. -/
theorem making_minted {invoice number : Nat} {tokenId : String}
    (encoded : environment.encodeUint invoiceId = some invoice)
    (named : environment.encodeUint tokenId = some number)
    (minted : HasMinted view.trace number) :
    (making environment start).Robust invoiceId origin view.globals (do
      let _ ← ItemTokenClient.transfer environment (accountNumbers.lookup "ADMIN")
        (accountNumbers.lookup (start.procurement.invoices invoice).supplierId) tokenId
      Controller.updatedPOStatus (start.procurement.invoices invoice).poId .pendingDelivery
      ProcurementService.updateTokenId invoiceId tokenId
      return (⟨200, "Tokens transferred to Supplier",
        ((start.procurement.invoices invoice).supplierId, tokenId), none⟩ :
          Response (String × String))) view := by
  simp only [ItemTokenClient.transfer, Controller.updatedPOStatus, ProcurementClient.getPOById,
    ProcurementClient.updatePOStatus, ProcurementService.updateTokenId, Program.bind_assoc,
    Program.pure_eq_done, Program.done_bind]
  apply making_call
  · rfl
  · exact fun same => same
  intro world resumed accounts _ answered trace _
  cases answered
  have minted : HasMinted resumed.trace number := trace ▸ minted.append _
  apply Discipline.robust_modify
  apply making_call
  · rfl
  · exact fun _ => adminAccount environment
  intro world resumed accounts _ answered trace admin
  cases answered
  have minted : HasMinted resumed.trace number := trace ▸ minted.append _
  have fromAddress := admin (adminAccount environment)
  apply Discipline.robust_modify
  apply Discipline.robust_get
  apply making_call
  · exact ⟨rfl, fromAddress, ⟨invoice, encoded, rfl⟩, number, named, minted⟩
  · exact fun same => same
  intro world resumed receipt _ _ trace _
  have minted : HasMinted resumed.trace number := trace ▸ minted.append _
  apply making_call
  · rfl
  · exact fun same => same
  intro world resumed po _ _ trace _
  have minted : HasMinted resumed.trace number := trace ▸ minted.append _
  apply making_call
  · trivial
  · exact fun same => same
  intro world resumed receipt _ _ trace _
  have minted : HasMinted resumed.trace number := trace ▸ minted.append _
  apply making_call
  · exact ⟨rfl, number, named, minted⟩
  · exact fun same => same
  intro world resumed _ _ _ _ _
  exact ⟨fun same => same, fun _ _ => trivial⟩

theorem making_makeTokens (invoiceId : String) (view : View (tokenMakings environment)) :
    (making environment start).Robust invoiceId none view.globals
      (Controller.makeTokens environment invoiceId) view := by
  simp only [Controller.makeTokens, Controller.mintItemToken, ProcurementClient.getInvoiceById,
    Program.bind_assoc]
  cases encoded : environment.encodeUint invoiceId with
  | none =>
      apply making_call
      · rfl
      · exact fun same => same
      · intro world resumed answer _ answered _ _
        cases answered
  | some invoice =>
      apply making_call
      · rfl
      · exact fun same => same
      intro world resumed answer invoices answered _ _
      cases answered
      rw [Procurement.getInvoiceById, invoices]
      apply making_call
      · trivial
      · exact fun same => same
      intro world resumed answer invoices answered _ _
      have hashes : answer = environment.rootHash
          (metadataOf invoiceId (start.procurement.invoices invoice)) := by
        rw [serve_swarmPost] at answered
        exact (Except.ok.inj answered).symm
      cases answer with
      | none => exact ⟨fun same => same, fun _ _ => trivial⟩
      | some hash =>
          have token : environment.encodeUint ("0x" ++ hash) =
              tokenOf environment start invoiceId := by
            rw [tokenOf, encoded, Option.bind_some, tokenNumber, ← hashes, Option.bind_some]
          simp only [ItemTokenClient.mint, Program.bind_assoc, Program.pure_eq_done,
            Program.done_bind]
          apply making_call
          · exact token
          · exact fun same => same
          intro world resumed answer _ minted trace _
          cases named : environment.encodeUint ("0x" ++ hash) with
          | none =>
              rw [named] at minted
              cases minted
          | some number =>
              apply making_minted encoded named
              rw [trace, named]
              exact ⟨_, List.mem_append_right _ (List.mem_singleton_self _), rfl⟩

theorem OwnCall.mono {earlier later : Nat → Prop} {call : Call}
    (own : OwnCall environment start invoiceId earlier call)
    (grows : ∀ number, earlier number → later number) :
    OwnCall environment start invoiceId later call := by
  cases call with
  | transferFrom caller sender recipient tokenId =>
      rcases own with ⟨admin, owner, supplier, number, named, minted⟩
      exact ⟨admin, owner, supplier, number, named, grows number minted⟩
  | updateTokenId named tokenId =>
      rcases own with ⟨same, number, encoded, minted⟩
      exact ⟨same, number, encoded, grows number minted⟩
  | _ => exact own

theorem making_respected (environment : Environment) (start : World) :
    (making environment start).Respected fun pool _ =>
      True ∧ Minted environment start pool.requests (mintsOf pool.log) pool.world where
  assumed := fun _ _ _ _ _ _ _ meets => meets.2.invoices
  serve := fun _ _ _ _ _ _ _ _ _ _ _ _ _ => ⟨rfl, fun same => same⟩
  resume := fun _ _ _ _ _ _ _ _ changed _ _ _ _ _ => ⟨rfl, changed⟩
  start := fun _ _ _ _ changed _ _ _ _ => ⟨rfl, changed⟩
  handlers := fun pool request _ _ => making_makeTokens request (pool.view pool.tasks.length)

/-- Every state of a run accounts for its tokens. -/
theorem minted_run {globals : Nat → Globals} {actions : List (Action (tokenMakings environment))}
    {pool : Pool (tokenMakings environment)}
    (run : Transitions (Pool.Step fun _ _ => True) (Pool.initial start globals) actions pool) :
    Minted environment start pool.requests (mintsOf pool.log) pool.world := by
  apply And.right
  apply (making_respected environment start).sound_along _ run (Discipline.kept_initial _ _ _)
  · exact Minted.initial environment start
  · intro pool action next kept minted step
    cases Pool.step_cases step.1 with
    | start request =>
        simp only [Pool.requests, List.map_append]
        exact minted.start_request request
    | @serve index request point call rest found =>
        have holds := (kept.tasks index _ found).holds
        have asked : pool.requests[index]? = some request := by
          rw [Pool.requests, List.getElem?_map, found]
          rfl
        have own : OwnCall environment start request
            (fun number => (index, number) ∈ mintsOf pool.log) call := by
          refine OwnCall.mono holds fun number has => ?_
          rcases has with ⟨event, member, mints⟩
          exact mem_mintsOf.mpr ⟨event, Pool.mem_trace.mp member, mints⟩
        simp only [Pool.requests, Pool.requests_set found, mintsOf_append]
        exact minted.serve asked point own
    | resume found =>
        simp only [Pool.requests, Pool.requests_set found]
        exact minted

end Discipline

/-! ## One token for each invoice -/

/-- No invoice is asked for by two texts. -/
def SpelledAlike (environment : Environment) (requests : List String) : Prop :=
  ∀ first ∈ requests, ∀ second ∈ requests, ∀ invoice,
    environment.encodeUint first = some invoice →
    environment.encodeUint second = some invoice → first = second

/-- The minted tokens are different and belong to different invoices. Each is with the
admin or with the supplier of its invoice, no other token has moved, and the rows have
no token ids but those of their own invoices. -/
structure OneTokenEach (environment : Environment) (start : World)
    (pool : Pool (tokenMakings environment)) : Prop where
  once : (mintsOf pool.log).Pairwise fun first second => first.2 ≠ second.2 ∧
    ∀ firstId secondId, pool.requests[first.1]? = some firstId →
      pool.requests[second.1]? = some secondId →
      environment.encodeUint firstId ≠ environment.encodeUint secondId
  owners : ∀ number,
    OwnerKept environment start pool.requests (mintsOf pool.log) pool.world number
  rows : start.rows.Forall₂ (RowKept environment pool.requests (mintsOf pool.log))
    pool.world.rows

/-- In every state of every interleaving of requests that spell each invoice alike,
there is at most one token for each invoice, which is delivered to its supplier. -/
theorem oneTokenEach_of_spelledAlike (environment : Environment) (world : World)
    (globals : Nat → Globals) (actions : List (Action (tokenMakings environment)))
    (pool : Pool (tokenMakings environment))
    (run : Transitions (Pool.Step fun _ _ => True) (Pool.initial world globals) actions pool)
    (alike : SpelledAlike environment pool.requests) :
    OneTokenEach environment world pool := by
  have minted := minted_run run
  refine ⟨?_, minted.owners, minted.rows⟩
  have distinct := List.pairwise_map.mp minted.distinct
  apply distinct.imp_of_mem
  intro first second firstMember secondMember different
  refine ⟨different, fun firstId secondId firstAsked secondAsked same => different ?_⟩
  rcases minted.own first firstMember with ⟨_, asked, firstToken⟩
  cases asked.symm.trans firstAsked
  rcases minted.own second secondMember with ⟨_, asked, secondToken⟩
  cases asked.symm.trans secondAsked
  rcases Option.bind_eq_some_iff.mp firstToken with ⟨invoice, encoded, _⟩
  have sameId := alike firstId (List.mem_of_getElem? firstAsked) secondId
    (List.mem_of_getElem? secondAsked) invoice encoded (same.symm.trans encoded)
  rw [sameId] at firstToken
  exact Option.some.inj (firstToken.symm.trans secondToken)

/-- The description of the cheese under a text for its invoice. -/
def cheeseMetadata (invoiceId : String) : Metadata :=
  ⟨invoiceId, some "CHEESE", "KG", 2, 5⟩

/-- A Swarm service with a hash for each of two texts. -/
def twoHashes : Environment := { testNetwork with
  rootHash := fun metadata =>
    if metadata = cheeseMetadata "1002" then some "a1"
    else if metadata = cheeseMetadata "0x3ea" then some "b2"
    else none }

theorem rootHash_twoHashes {metadata : Metadata} {hash : String} :
    twoHashes.rootHash metadata = some hash ↔
      (metadata = cheeseMetadata "1002" ∧ hash = "a1") ∨
        (metadata = cheeseMetadata "0x3ea" ∧ hash = "b2") := by
  have different : cheeseMetadata "0x3ea" ≠ cheeseMetadata "1002" := by decide
  simp only [twoHashes]
  split
  · rename_i first
    simp [first, Ne.symm different, eq_comm]
  · rename_i other
    split
    · rename_i second
      simp [second, different, eq_comm]
    · rename_i neither
      simp [other, neither]

/-- The invoice 1002 has been issued. -/
def cheeseInvoiced : World :=
  (((Sequence.initial (World.deployed twoHashes) Globals.initial :
    Sequence (api twoHashes fun _ => 0)).next cheeseOrder).next cheeseInvoice).world

/-- The token is asked for twice, and the second minting reverts. -/
def sameSpelling : List (Action (tokenMakings twoHashes)) :=
  [.start "1002", .start "1002", .serve 0, .resume 0, .serve 1, .resume 1, .serve 0, .resume 0,
    .serve 1, .resume 1, .serve 0, .serve 1, .resume 1, .resume 0, .serve 0, .resume 0,
    .serve 0, .resume 0, .serve 0, .resume 0, .serve 0, .resume 0, .serve 0, .resume 0,
    .serve 0, .resume 0]

theorem sameSpelling_oneTokenEach :
    ∃ pool, Transitions (Pool.Step fun _ _ => True)
        (Pool.initial cheeseInvoiced fun _ => Globals.initial) sameSpelling pool ∧
      mintsOf pool.log = [(0, 161)] ∧ OneTokenEach twoHashes cheeseInvoiced pool := by
  have ran : ((Pool.initial cheeseInvoiced fun _ => Globals.initial).run (fun _ _ => true)
        sameSpelling).map (fun pool => (pool.requests, mintsOf pool.log)) =
      some (["1002", "1002"], [(0, 161)]) := by decide +kernel
  rcases Option.map_eq_some_iff.mp ran with ⟨pool, runs, reached⟩
  rcases Prod.mk.inj reached with ⟨requests, mints⟩
  have run := Pool.transitions_of_free_run runs
  refine ⟨pool, run, mints, oneTokenEach_of_spelledAlike twoHashes _ _ _ pool run ?_⟩
  rw [requests]
  intro first firstMember second secondMember _ _ _
  simp only [List.mem_cons, List.not_mem_nil, or_false, or_self] at firstMember secondMember
  rw [firstMember, secondMember]

/-- The invoice 1002 is asked for in decimal and in hexadecimal. The hashes are
different, and two tokens are minted for the invoice. -/
theorem otherSpelling_not_oneTokenEach :
    (∀ first second hash, twoHashes.rootHash first = some hash →
      twoHashes.rootHash second = some hash → first = second) ∧
    ∃ pool : Pool (tokenMakings twoHashes), Transitions (Pool.Step fun _ _ => True)
        (Pool.initial cheeseInvoiced fun _ => Globals.initial)
        (Action.alone 0 "1002" 9 ++ Action.alone 1 "0x3ea" 9) pool ∧
      ¬OneTokenEach twoHashes cheeseInvoiced pool := by
  constructor
  · intro first second hash firstHash secondHash
    rw [rootHash_twoHashes] at firstHash secondHash
    rcases firstHash with ⟨rfl, rfl⟩ | ⟨rfl, rfl⟩ <;>
      rcases secondHash with ⟨rfl, same⟩ | ⟨rfl, same⟩
    · rfl
    · exact absurd same (by decide)
    · exact absurd same (by decide)
    · rfl
  · have ran : ((Pool.initial cheeseInvoiced fun _ => Globals.initial :
            Pool (tokenMakings twoHashes)).run (fun _ _ => true)
          (Action.alone 0 "1002" 9 ++ Action.alone 1 "0x3ea" 9)).map (fun pool =>
            (pool.requests, mintsOf pool.log)) =
        some (["1002", "0x3ea"], [(0, 161), (1, 178)]) := by decide +kernel
    rcases Option.map_eq_some_iff.mp ran with ⟨pool, runs, reached⟩
    rcases Prod.mk.inj reached with ⟨requests, mints⟩
    refine ⟨pool, Pool.transitions_of_free_run runs, fun each => ?_⟩
    have once := each.once
    rw [mints, requests, List.pairwise_pair] at once
    exact once.2 "1002" "0x3ea" rfl rfl (by decide +kernel)

end PizzaChain.Api
