import Engine.Records.Windows

/-! An idempotency key names one transaction: its calls add one send job, return the key and
leave what is stored under it as it is, as long as none of them stores over the transaction
of another one. -/
namespace Engine
open Concurrent Program Function

/-- What a transaction asks the chain for. -/
structure Payload where
  «to» : Option Address
  data : Option Hex
  value : Option ℤ
  «from» : Address
  chainId : ℕ
deriving DecidableEq

def Transaction.payload (t : Transaction) : Payload := ⟨t.to, t.data, t.value, t.from, t.chainId⟩

def Local.inserts (l : Local) : Bool :=
  match l.request with
  | .insertTransaction _ _ _ => true
  | _ => false

/-- Whatever the calls are answered, the program returns `a` if it returns. -/
def Returns (p : Prog α) (a : α) : Prop :=
  p.Follows (.only (fun _ => True) fun _ _ => True) (fun _ r => ∀ b, r = .ok b → b = a) ()

section
variable {G : Guard engine} {s s' : State engine} {w : World} {i : ℕ} {l : Local} {o : Op}
  {a : Except Err o.Choice} {r : Except Err o.Reply} {t : Transaction} {k : QueueId}

/-! ### The job -/

/-- What is stored is an inserted transaction, or has the payload of the record that was read
and is not queued. -/
theorem Writes.payload (h : Writes l t) : l.inserts = true ∨
    ∃ r, l.read = some r ∧ t.payload = r.payload ∧ t.status ≠ .queued := by
  have hretried : ∀ (r : Transaction) n, (manuallyRetried r n).payload = r.payload := fun r n => by
    simp [Transaction.payload]
  cases h with
  | queued tx key simulate q hreq => exact Or.inl (by simp [Local.inserts, hreq])
  | unpopulated r q n m hreq hheld hread => exact Or.inr ⟨r, hread, hretried r n, nofun⟩
  | sent r q n hash block hphase hsend => exact Or.inr ⟨r, hsend.read, hretried r n, nofun⟩
  | sentUserOp r q n hash block hreq hheld hread => exact Or.inr ⟨r, hread, hretried r n, nofun⟩
  | resent r q n hashes hash block hreq hphase hsend =>
    exact Or.inr ⟨r, hsend.read, rfl, fun h => absurd (h.symm.trans hsend.sent) nofun⟩
  | failed r q n m hreq hheld hexhausted hread => exact Or.inr ⟨r, hread, rfl, nofun⟩
  | mined r q hashes receipt hreq hheld hread => exact Or.inr ⟨r, hread, rfl, nofun⟩
  | minedUserOp r q raw receipt m hreq hheld hread => exact Or.inr ⟨r, hread, rfl, nofun⟩
  | timedOut r q hreq hheld hexhausted hread => exact Or.inr ⟨r, hread, rfl, nofun⟩
  | cancelledQueued r q block hreq hread => exact Or.inr ⟨r, hread, rfl, nofun⟩
  | cancelledSent r q hash hreq hread => exact Or.inr ⟨r, hread, rfl, nofun⟩
  | retried r q b c fee priority hreq hread hidle hsent =>
    exact Or.inr ⟨r, hread, rfl, fun h => absurd (h.symm.trans hsent) nofun⟩
  | syncRetried r q b c hashes hash block hreq hphase hsend =>
    exact Or.inr ⟨r, hsend.read, rfl, fun h => absurd (h.symm.trans hsend.sent) nofun⟩

end

/-- A second draw of a random UUID. -/
def withUUID (q : QueueId) : Answers
  | .randomUUID => .ok q
  | o => usual o

end Engine
