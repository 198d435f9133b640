import Engine.Websocket.Handlers
import Mathlib.Data.List.Nodup
import Mathlib.Data.List.Count
import Mathlib.Data.List.Perm.Basic

/-! The registry of websocket clients: whose entries the handlers remove, and what they leave. -/
namespace Engine.Websocket

/-- Only entries of the connection are removed or added. -/
def KeepsOthers (connection : ℕ) (s s' : State) : Prop :=
  s'.subscriptionsData.filter (fun sub => sub.socket ≠ connection) =
    s.subscriptionsData.filter (fun sub => sub.socket ≠ connection)

def State.isReady (s : State) (connection : ℕ) : Bool :=
  (s.sockets connection).any fun socket => socket.readyState = .ready

def State.isClosed (s : State) (connection : ℕ) : Bool :=
  (s.sockets connection).any fun socket => socket.readyState = .closed

/-- The listeners of the socket are there. -/
def State.isListening (s : State) (connection : ℕ) : Bool := (s.sockets connection).any fun socket => socket.listening

/-- An open socket has one entry, a closed one has none. -/
def Registered (s : State) : Prop :=
  ∀ connection, (s.isReady connection = true → s.entries connection = 1) ∧
    (s.isClosed connection = true → s.entries connection = 0)

/-- Over the runs that are allowed, a step touches entries of its own connection only, the sockets are registered
whenever no handler waits, and nothing is thrown. -/
structure Integrity (allowed : State → Move → Bool) : Prop where
  keepsOthers : ∀ s s' m connection, Reachable allowed s → allowed s m = true → s.step m = some s' →
    m.connectionIn s = some connection → KeepsOthers connection s s'
  registered : ∀ s, Reachable allowed s → s.quiescent = true → Registered s
  calm : ∀ s, Reachable allowed s → s.rejected = []

/-- No other handler is going to remove at the index or behind it. -/
def State.isAhead (s : State) (i : ℕ) (index : ℤ) : Bool :=
  (List.range s.handlers.length).all fun k =>
    k = i || ((s.handlers[k]?.bind Handler.removes).all fun index' => index' < index)

/-- A socket is closed only once it has listeners, a message comes only where the socket has an entry, and an entry is
removed only in front of what other handlers are going to remove. -/
def orderly (s : State) : Move → Bool
  | .close connection => s.isListening connection
  | .message connection => !s.isListening connection || s.entries connection ≠ 0
  | .resume i _ => (s.handlers[i]?.bind Handler.removes).all fun index => s.isAhead i index
  | _ => true

section
variable {α : Type} {l : List α} {a : α} {s s' : State} {c connection : ℕ} {index : ℤ} {h : Handler} {i k : ℕ}

/-! ### Elements at an index -/

theorem elementAt_eq_some : elementAt l index = some a ↔ 0 ≤ index ∧ l[index.toNat]? = some a := by
  unfold elementAt
  split_ifs with hneg
  · constructor
    · intro hnone
      cases hnone
    · intro hsome
      omega
  · constructor
    · intro hsome
      exact ⟨by omega, hsome⟩
    · intro hsome
      exact hsome.2

theorem splice_of_nonneg (hindex : 0 ≤ index) : splice l index = l.eraseIdx index.toNat := by
  unfold splice
  rw [if_neg (by omega)]

/-- What is in front of the removed element stays where it is. -/
theorem elementAt_splice {index' : ℤ} (hlt : index' < index) (h : elementAt l index' = some a) :
    elementAt (splice l index) index' = some a := by
  obtain ⟨hnonneg, ha⟩ := elementAt_eq_some.mp h
  rw [splice_of_nonneg (by omega)]
  refine elementAt_eq_some.mpr ⟨hnonneg, ?_⟩
  rw [List.getElem?_eraseIdx_of_lt (by omega)]
  exact ha

theorem perm_splice (h : elementAt l index = some a) : (a :: splice l index).Perm l := by
  obtain ⟨hnonneg, ha⟩ := elementAt_eq_some.mp h
  obtain ⟨hlt, rfl⟩ := List.getElem?_eq_some_iff.mp ha
  rw [splice_of_nonneg hnonneg]
  exact List.getElem_cons_eraseIdx_perm hlt

theorem filter_splice {p : α → Bool} (h : elementAt l index = some a) (ha : p a = false) :
    (splice l index).filter p = l.filter p := by
  obtain ⟨hnonneg, hget⟩ := elementAt_eq_some.mp h
  obtain ⟨hlt, hget⟩ := List.getElem?_eq_some_iff.mp hget
  rw [splice_of_nonneg hnonneg, List.eraseIdx_eq_take_drop_succ, List.filter_append]
  conv_rhs => rw [← List.take_append_drop index.toNat l, List.filter_append, List.drop_eq_getElem_cons hlt, hget]
  rw [List.filter_cons_of_neg (by simp [ha])]

/-! ### Lists of handlers -/

theorem getElem?_concat_eq_some {b : α} : (l ++ [a])[i]? = some b ↔ l[i]? = some b ∨ i = l.length ∧ a = b := by
  rw [List.getElem?_append]
  split_ifs with hlt
  · constructor
    · exact Or.inl
    · rintro (hb | ⟨hi, -⟩)
      · exact hb
      · omega
  · have hnone : l[i]? = none := List.getElem?_eq_none (by omega)
    rw [hnone, List.getElem?_singleton]
    split_ifs with hzero
    · constructor
      · intro hb
        exact Or.inr ⟨by omega, Option.some.inj hb⟩
      · rintro (hb | ⟨-, rfl⟩)
        · cases hb
        · rfl
    · constructor
      · intro hb
        cases hb
      · rintro (hb | ⟨hi, -⟩)
        · cases hb
        · omega

theorem getElem?_set_eq_some {b : α} (h : (l.set i b)[k]? = some a) : k = i ∧ a = b ∨ k ≠ i ∧ l[k]? = some a := by
  by_cases heq : k = i
  · subst heq
    have hlt : k < (l.set k b).length := (List.getElem?_eq_some_iff.mp h).1
    rw [List.length_set] at hlt
    rw [List.getElem?_set_self hlt] at h
    exact Or.inl ⟨rfl, (Option.some.inj h).symm⟩
  · rw [List.getElem?_set_ne (Ne.symm heq)] at h
    exact Or.inr ⟨heq, h⟩

theorem mem_set_of_ne {b d : α} (hi : l[i]? = some b) (ha : a ∈ l) (hne : a ≠ b) : a ∈ l.set i d := by
  obtain ⟨k, hk⟩ := List.mem_iff_getElem?.mp ha
  refine List.mem_iff_getElem?.mpr ⟨k, ?_⟩
  rw [List.getElem?_set_ne]
  · exact hk
  · rintro rfl
    exact hne (Option.some.inj (hk.symm.trans hi))

/-! ### Entries -/

theorem entries_ne_zero : s.entries c ≠ 0 ↔ ∃ sub ∈ s.subscriptionsData, sub.socket = c := by
  unfold State.entries
  rw [Nat.ne_zero_iff_zero_lt, List.count_pos_iff, List.mem_map]

theorem find_of_entries (h : s.entries c ≠ 0) : ∃ sub,
    elementAt s.subscriptionsData (findWSConnectionInSharedState s c) = some sub ∧ sub.socket = c := by
  obtain ⟨sub, hsub, hsocket⟩ := entries_ne_zero.mp h
  unfold findWSConnectionInSharedState
  split
  case h_1 index hindex =>
    obtain ⟨hlt, hfound, -⟩ := List.findIdx?_eq_some_iff_getElem.mp hindex
    refine ⟨s.subscriptionsData[index], elementAt_eq_some.mpr ⟨by omega, ?_⟩, of_decide_eq_true hfound⟩
    rw [Int.toNat_natCast, List.getElem?_eq_getElem hlt]
  case h_2 hnone =>
    have hnot := List.findIdx?_eq_none_iff.mp hnone sub hsub
    simp [hsocket] at hnot

theorem find_of_not_entries (h : s.entries c = 0) : findWSConnectionInSharedState s c = -1 := by
  unfold findWSConnectionInSharedState
  split
  case h_1 index hindex =>
    obtain ⟨hlt, hfound, -⟩ := List.findIdx?_eq_some_iff_getElem.mp hindex
    exact absurd h (entries_ne_zero.mpr ⟨_, List.getElem_mem hlt, of_decide_eq_true hfound⟩)
  case h_2 => rfl

theorem entries_remove {sub : UserSubscription} (h : elementAt s.subscriptionsData index = some sub) (c : ℕ) :
    s.entries c = (s.remove index).entries c + if sub.socket = c then 1 else 0 := by
  have hcount := (((perm_splice h).map UserSubscription.socket).count_eq c).symm
  rw [List.map_cons, List.count_cons] at hcount
  simpa [State.entries, State.remove] using hcount

theorem entries_append (sub : UserSubscription) (c : ℕ) :
    ({ s with subscriptionsData := s.subscriptionsData ++ [sub] } : State).entries c =
      s.entries c + if sub.socket = c then 1 else 0 := by
  simp [State.entries, List.count_cons]

/-! ### Sockets -/

theorem setSocket_ne {f : Socket → Socket} (hne : connection ≠ c) :
    (s.setSocket c f).sockets connection = s.sockets connection := Function.update_of_ne hne _ _

theorem setSocket_self (f : Socket → Socket) : (s.setSocket c f).sockets c = (s.sockets c).map f :=
  Function.update_self _ _ _

theorem any_of_setSocket {f : Socket → Socket} (h : s'.sockets = (s.setSocket c f).sockets) (p : Socket → Bool) :
    (s'.sockets connection).any p =
      (s.sockets connection).any fun socket => if connection = c then p (f socket) else p socket := by
  rw [h]
  by_cases heq : connection = c
  · subst heq
    simp [setSocket_self, Option.any_map]
  · simp [setSocket_ne heq, heq]

theorem isSome_setSocket {f : Socket → Socket} (h : (s.sockets connection).isSome = true) :
    ((s.setSocket c f).sockets connection).isSome = true := by
  by_cases heq : connection = c
  · subst heq
    rw [setSocket_self, Option.isSome_map]
    exact h
  · rw [setSocket_ne heq]
    exact h

theorem not_isReady_of_isClosed (h : s.isClosed c = true) : s.isReady c = false := by
  unfold State.isClosed at h
  unfold State.isReady
  cases hsocket : s.sockets c with
  | none => rfl
  | some socket =>
    rw [hsocket] at h
    have hclosed : socket.readyState = .closed := of_decide_eq_true h
    simp [hclosed]

theorem isSome_of_any {p : Socket → Bool} (h : (s.sockets c).any p = true) : (s.sockets c).isSome = true := by
  obtain ⟨socket, hsocket, -⟩ := (Option.any_eq_true _ _).mp h
  rw [hsocket]
  rfl

end
end Engine.Websocket
