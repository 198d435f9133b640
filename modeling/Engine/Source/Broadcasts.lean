import Engine.Concurrent.Answered
import Engine.Source.Calls

/-! The transactions that a program hands to accounts, and the records that it stores. -/
namespace Engine
open Concurrent Program

/-- The transaction of a call that hands one to an account. -/
def handed : Op → Option SerializableTransaction
  | .accountSendTransaction _ _ tx => some tx
  | _ => none

/-- The transactions that a program broadcasts. -/
def broadcasts (x : Replies Calls) (p : Prog α) : List SerializableTransaction := (p.calls x).filterMap handed

/-- The record of a call that stores one. -/
def storedRecord : Op → Option Transaction
  | .setTransaction t => some t
  | _ => none

/-- The records that a program stores. -/
def storedRecords (x : Replies Calls) (p : Prog α) : List Transaction := (p.calls x).filterMap storedRecord

section
variable {x : Replies Calls} {tx : SerializableTransaction} {t : Transaction} {p : Prog α} {f : α → Prog β}
  {c : Err → Prog α}

theorem mem_broadcasts_await {o : Op} : tx ∈ broadcasts x (await o) ↔ handed o = some tx :=
  mem_filterMap_calls_perform (I := Calls)

theorem mem_broadcasts_bind : tx ∈ broadcasts x (p.bind f) ↔
    tx ∈ broadcasts x p ∨ ∃ a, p.outcome x = .ok a ∧ tx ∈ broadcasts x (f a) :=
  mem_filterMap_calls_bind (I := Calls)

theorem mem_broadcasts_handle : tx ∈ broadcasts x (p.handle c) ↔
    tx ∈ broadcasts x p ∨ ∃ e, p.outcome x = .error e ∧ tx ∈ broadcasts x (c e) :=
  mem_filterMap_calls_handle (I := Calls)

theorem mem_storedRecords_await {o : Op} : t ∈ storedRecords x (await o) ↔ storedRecord o = some t :=
  mem_filterMap_calls_perform (I := Calls)

theorem mem_storedRecords_bind : t ∈ storedRecords x (p.bind f) ↔
    t ∈ storedRecords x p ∨ ∃ a, p.outcome x = .ok a ∧ t ∈ storedRecords x (f a) :=
  mem_filterMap_calls_bind (I := Calls)

theorem not_mem_broadcasts_of_only (hp : p.Only fun o : Op => handed o = none) : tx ∉ broadcasts x p := by
  intro h
  obtain ⟨o, ho, hsome⟩ := List.mem_filterMap.mp h
  have hnone := hp.of_mem_calls ho
  rw [hsome] at hnone
  cases hnone

theorem not_mem_storedRecords_of_only (hp : p.Only fun o : Op => storedRecord o = none) : t ∉ storedRecords x p := by
  intro h
  obtain ⟨o, ho, hsome⟩ := List.mem_filterMap.mp h
  have hnone := hp.of_mem_calls ho
  rw [hsome] at hnone
  cases hnone

instance lookups_handed : HasLookups fun o : Op => handed o = none where
  isLookup o ho := by cases o <;> first | rfl | cases ho

instance lookups_storedRecord : HasLookups fun o : Op => storedRecord o = none where
  isLookup o ho := by cases o <;> first | rfl | cases ho

theorem not_mem_broadcasts_storeSendResult (sent result : Transaction) :
    tx ∉ broadcasts x (storeSendResult sent result) :=
  not_mem_broadcasts_of_only (only_storeSendResult (fun _ => rfl) (fun _ _ => rfl) (fun _ => rfl) (fun _ => rfl) _ _)

end
end Engine
