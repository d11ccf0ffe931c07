import Mathlib.Data.List.Induction
import Mathlib.Data.List.Nodup
import Mathlib.Logic.Function.Basic

/-! # Registries

Records under ids and the list of the ids that were issued. A record has terms,
which are set when it is issued, and a status, which is set then and later.
Nothing is refused: an id can be issued again, and the status of an id that was
never issued can be set.
-/

namespace PizzaChain

structure Registry (Key Terms Status : Type) where
  terms : Key → Terms
  status : Key → Status
  listed : List Key

inductive RegistryCall (Key Terms Status : Type)
  | issue (id : Key) (terms : Terms) (status : Status)
  | update (id : Key) (status : Status)

namespace RegistryCall

def issue? : RegistryCall Key Terms Status → Option (Key × Terms)
  | .issue id terms _ => some (id, terms)
  | .update _ _ => none

def write : RegistryCall Key Terms Status → Key × Status
  | .issue id _ status => (id, status)
  | .update id status => (id, status)

end RegistryCall

/-- A view of a state is folded along the calls that it sees. -/
theorem foldl_view {view : σ → τ} {step : σ → α → σ} {seen : α → Option β} {viewStep : τ → β → τ}
    (follows : ∀ state call, view (step state call) =
      (seen call).toList.foldl viewStep (view state))
    (calls : List α) (state : σ) :
    view (calls.foldl step state) = (calls.filterMap seen).foldl viewStep (view state) := by
  induction calls generalizing state with
  | nil => rfl
  | cons call calls induction =>
      rw [List.foldl_cons, induction, follows]
      cases sees : seen call with
      | none => simp [sees]
      | some operation => simp [sees]

namespace Registry

/-- The issued ids with their terms, in the order of the calls. -/
def issued (calls : List (RegistryCall Key Terms Status)) : List (Key × Terms) :=
  calls.filterMap RegistryCall.issue?

/-- The statuses that were written, in the order of the calls. -/
def written (calls : List (RegistryCall Key Terms Status)) : List (Key × Status) :=
  calls.map RegistryCall.write

def issuedIds (calls : List (RegistryCall Key Terms Status)) : List Key :=
  (issued calls).map Prod.fst

theorem mem_issuedIds_iff {calls : List (RegistryCall Key Terms Status)} {id : Key} :
    id ∈ issuedIds calls ↔ ∃ terms status, RegistryCall.issue id terms status ∈ calls := by
  simp only [issuedIds, issued, List.mem_map, List.mem_filterMap, Prod.exists]
  constructor
  · intro listed
    rcases listed with ⟨_, terms, ⟨call, member, issues⟩, rfl⟩
    cases call with
    | issue id terms status =>
        cases issues
        exact ⟨terms, status, member⟩
    | update id status => cases issues
  · intro issued
    rcases issued with ⟨terms, status, member⟩
    exact ⟨id, terms, ⟨_, member, rfl⟩, rfl⟩

variable {Key Terms Status : Type} [DecidableEq Key] [Inhabited Terms] [Inhabited Status]

def empty : Registry Key Terms Status where
  terms := fun _ => default
  status := fun _ => default
  listed := []

def apply (registry : Registry Key Terms Status) :
    RegistryCall Key Terms Status → Registry Key Terms Status
  | .issue id terms status =>
      { terms := Function.update registry.terms id terms
        status := Function.update registry.status id status
        listed := registry.listed ++ [id] }
  | .update id status => { registry with status := Function.update registry.status id status }

def after (calls : List (RegistryCall Key Terms Status)) : Registry Key Terms Status :=
  calls.foldl apply empty

/-! ## The registry by the calls -/

/-- The list has the issued ids in order, and what is stored is what was written
last. -/
structure Accounted (calls : List (RegistryCall Key Terms Status))
    (registry : Registry Key Terms Status) : Prop where
  listed : registry.listed = issuedIds calls
  terms : ∀ id, registry.terms id = ((issued calls).reverse.lookup id).getD default
  status : ∀ id, registry.status id = ((written calls).reverse.lookup id).getD default

theorem getD_lookup_cons (id other : Key) (value : α) (entries : List (Key × α)) (otherwise : α) :
    (((other, value) :: entries).lookup id).getD otherwise =
      if id = other then value else (entries.lookup id).getD otherwise := by
  rw [List.lookup_cons]
  by_cases same : id = other
  · simp [same]
  · rw [if_neg same, beq_false_of_ne same]

theorem Accounted.apply {calls : List (RegistryCall Key Terms Status)}
    {registry : Registry Key Terms Status} (accounted : registry.Accounted calls)
    (call : RegistryCall Key Terms Status) :
    (registry.apply call).Accounted (calls ++ [call]) := by
  have statuses : written (calls ++ [call]) = written calls ++ [call.write] := by
    simp [written]
  cases call with
  | issue id terms status =>
      have issues : issued (calls ++ [.issue id terms status]) = issued calls ++ [(id, terms)] := by
        simp [issued, RegistryCall.issue?]
      constructor
      · simp [Registry.apply, issuedIds, issues, accounted.listed]
      · intro other
        rw [issues, List.reverse_concat, getD_lookup_cons, ← accounted.terms]
        exact Function.update_apply _ _ _ _
      · intro other
        rw [statuses, List.reverse_concat, RegistryCall.write, getD_lookup_cons,
          ← accounted.status]
        exact Function.update_apply _ _ _ _
  | update id status =>
      have issues : issued (calls ++ [.update id status]) = issued calls := by
        simp [issued, RegistryCall.issue?]
      constructor
      · simp [Registry.apply, issuedIds, issues, accounted.listed]
      · intro other
        rw [issues]
        exact accounted.terms other
      · intro other
        rw [statuses, List.reverse_concat, RegistryCall.write, getD_lookup_cons,
          ← accounted.status]
        exact Function.update_apply _ _ _ _

theorem accounted_after (calls : List (RegistryCall Key Terms Status)) :
    (after calls).Accounted calls := by
  induction calls using List.reverseRecOn with
  | nil => exact ⟨rfl, fun _ => rfl, fun _ => rfl⟩
  | append_singleton calls call induction =>
      rw [after, List.foldl_concat]
      exact induction.apply call

/-! ## Registries that are in step -/

/-- Every id is listed once, those that are listed are those with a record or
that were issued, and the terms are those of the first issue. -/
structure InStep (calls : List (RegistryCall Key Terms Status))
    (registry : Registry Key Terms Status) : Prop where
  once : registry.listed.Nodup
  listed : ∀ id, id ∈ registry.listed ↔
    (registry.terms id ≠ default ∨ registry.status id ≠ default) ∨ id ∈ issuedIds calls
  firstTerms : ∀ id terms, (issued calls).lookup id = some terms → registry.terms id = terms

theorem mem_of_lookup {entries : List (Key × α)} {id : Key} {value : α}
    (found : entries.lookup id = some value) : (id, value) ∈ entries := by
  rcases List.lookup_eq_some_iff.mp found with ⟨front, back, rfl, _⟩
  simp

/-- Without repeated ids the first entry of an id is also the last. -/
theorem lookup_reverse_of_nodup {entries : List (Key × α)} {id : Key} {value : α}
    (once : (entries.map Prod.fst).Nodup) (found : entries.lookup id = some value) :
    entries.reverse.lookup id = some value := by
  have member := mem_of_lookup found
  cases last : entries.reverse.lookup id with
  | none =>
      rw [List.lookup_eq_none_iff] at last
      have absent := last _ (List.mem_reverse.mpr member)
      simp at absent
  | some other =>
      have otherMember := List.mem_reverse.mp (mem_of_lookup last)
      have same := List.inj_on_of_nodup_map once member otherMember rfl
      rw [(Prod.mk.inj same).2]

theorem lookup_reverse_of_not_mem {entries : List (Key × α)} {id : Key}
    (absent : id ∉ entries.map Prod.fst) : entries.reverse.lookup id = none := by
  rw [List.lookup_eq_none_iff]
  intro entry member
  have different : id ≠ entry.1 := by
    rintro rfl
    exact absent (List.mem_map_of_mem (List.mem_reverse.mp member))
  simpa using different

/-- No id is issued twice, and an id that is never issued is left without a
status. -/
def Proper (calls : List (RegistryCall Key Terms Status)) : Prop :=
  (issuedIds calls).Nodup ∧
    ∀ id, id ∉ issuedIds calls → ((written calls).reverse.lookup id).getD default = default

theorem Accounted.inStep_iff {calls : List (RegistryCall Key Terms Status)}
    {registry : Registry Key Terms Status} (accounted : registry.Accounted calls) :
    registry.InStep calls ↔ Proper calls := by
  constructor
  · intro inStep
    refine ⟨accounted.listed ▸ inStep.once, fun id absent => ?_⟩
    by_contra status
    rw [← accounted.status] at status
    exact absent (accounted.listed ▸ (inStep.listed id).mpr (.inl (.inr status)))
  · rintro ⟨once, blank⟩
    constructor
    · rw [accounted.listed]
      exact once
    · intro id
      rw [accounted.listed]
      constructor
      · exact .inr
      · intro known
        by_contra absent
        have terms : registry.terms id = default := by
          rw [accounted.terms, lookup_reverse_of_not_mem absent]
          rfl
        have status : registry.status id = default := by
          rw [accounted.status, blank id absent]
        rcases known with (hasTerms | hasStatus) | member
        · exact hasTerms terms
        · exact hasStatus status
        · exact absent member
    · intro id terms found
      rw [accounted.terms, lookup_reverse_of_nodup once found]
      rfl

end Registry

end PizzaChain
