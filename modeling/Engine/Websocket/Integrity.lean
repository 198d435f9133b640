import Engine.Websocket.Consistent

/-! Orderly runs of the websocket clients keep the registry whole. -/
namespace Engine.Websocket

section
variable {s s' : State} {c connection : ℕ} {index : ℤ} {h : Handler} {i k : ℕ}

@[simp] theorem send_subscriptionsData (s : State) (c : ℕ) (m : Message) :
    (s.send c m).subscriptionsData = s.subscriptionsData := by
  unfold State.send
  split_ifs <;> rfl

@[simp] theorem send_sockets (s : State) (c : ℕ) (m : Message) : (s.send c m).sockets = s.sockets := by
  unfold State.send
  split_ifs <;> rfl

@[simp] theorem send_rejected (s : State) (c : ℕ) (m : Message) : (s.send c m).rejected = s.rejected := by
  unfold State.send
  split_ifs <;> rfl

/-- Closing, as `closeSocket` does it. -/
def shut (socket : Socket) : Socket :=
  { socket with readyState := if socket.readyState = .ready then .closing else socket.readyState }

theorem shut_ne_ready (socket : Socket) : (shut socket).readyState ≠ .ready := by
  unfold shut
  split_ifs with h
  · exact nofun
  · exact h

theorem shut_closed (socket : Socket) : (shut socket).readyState = .closed ↔ socket.readyState = .closed := by
  unfold shut
  split_ifs with h
  · rw [h]
    simp
  · rfl

theorem sockets_closeSocket_send (s : State) (c c' : ℕ) (m : Message) :
    ((s.send c' m).closeSocket c).sockets = (s.setSocket c shut).sockets := by
  unfold State.closeSocket State.setSocket
  simp only [send_sockets]
  rfl

/-- A handler that goes on adds, removes at its index, or leaves the registry alone. -/
theorem Consistent.resume (hs : Consistent s) (hi : s.handlers[i]? = some h)
    (horderly : (h.removes).all (fun index => s.isAhead i index) = true)
    {transaction : Except Err (Option TransactionData)} (hresume : h.resume s transaction = some s') :
    Consistent { s' with handlers := s.handlers.set i h.next } := by
  have hid : s.sockets = (s.setSocket h.connection id).sockets := by
    funext connection
    by_cases heq : connection = h.connection
    · rw [heq, setSocket_self, Option.map_id]
      rfl
    · rw [setSocket_ne heq]
  cases h with
  | adding c q j =>
    cases hresume
    have hj := (hs.adding i c q j hi).1
    subst hj
    exact hs.added hi
  | awaiting c q =>
    cases hresume
    unfold wsHandler
    cases transaction with
    | error e =>
      exact hs.settle (f := shut) ⟨hi, rfl, rfl, rfl⟩ rfl nofun
        (fun socket h => absurd h (shut_ne_ready socket)) shut_closed rfl
    | ok returnData =>
      dsimp only
      split_ifs
      · refine hs.settle (f := shut) ⟨hi, ?_, ?_, rfl⟩ rfl nofun
          (fun socket h => absurd h (shut_ne_ready socket)) shut_closed ?_
        · exact send_rejected _ _ _
        · exact sockets_closeSocket_send _ _ _ _
        · exact send_subscriptionsData _ _ _
      · refine hs.settle (f := fun socket => { socket with listening := true })
          ⟨hi, ?_, ?_, rfl⟩ rfl nofun (fun _ h => h)
          (fun _ => Iff.rfl) ?_
        · exact send_rejected _ _ _
        · unfold State.setSocket
          simp only [send_sockets]
          rfl
        · exact send_subscriptionsData _ _ _
  | onError c message index =>
    cases hresume
    unfold Websocket.onError
    by_cases hindex : index = -1
    · rw [if_pos hindex]
      exact hs.settle (f := id) ⟨hi, rfl, hid, rfl⟩ (if_pos hindex) nofun (fun _ h => h) (fun _ => Iff.rfl) rfl
    · have hremoves : Handler.removes (.onError c message index) = some index := if_neg hindex
      rw [hremoves] at horderly
      obtain ⟨sub, hsub, -⟩ := hs.removes _ (List.mem_of_getElem? hi) index hremoves
      rw [if_neg hindex, hsub]
      refine hs.removed (f := shut) ⟨hi, ?_, ?_, rfl⟩ hremoves horderly (fun socket _ => shut_ne_ready socket)
        (fun socket h => (shut_closed socket).mpr h) ?_
      · exact send_rejected _ _ _
      · exact sockets_closeSocket_send _ _ _ _
      · exact send_subscriptionsData _ _ _
  | onMessage c index =>
    cases hresume
    unfold Websocket.onMessage
    obtain ⟨sub, hsub, hsocket⟩ := hs.removes _ (List.mem_of_getElem? hi) index rfl
    rw [hsub]
    dsimp only
    rw [hsocket]
    refine hs.removed (f := shut) ⟨hi, ?_, ?_, rfl⟩ rfl horderly (fun socket _ => shut_ne_ready socket)
      (fun socket h => (shut_closed socket).mpr h) ?_
    · exact send_rejected _ _ _
    · exact sockets_closeSocket_send _ _ _ _
    · exact send_subscriptionsData _ _ _
  | onClose c index =>
    cases hresume
    unfold Websocket.onClose
    by_cases hindex : index = -1
    · rw [if_pos hindex]
      exact hs.settle (f := id) ⟨hi, rfl, hid, rfl⟩ (if_pos hindex) nofun (fun _ h => h) (fun _ => Iff.rfl) rfl
    · have hremoves : Handler.removes (.onClose c index) = some index := if_neg hindex
      rw [hremoves] at horderly
      rw [if_neg hindex]
      refine hs.removed (f := id) ⟨hi, rfl, hid, rfl⟩ hremoves horderly ?_ (fun _ h => h) rfl
      intro socket hsocket hready
      have hsocket : s.sockets c = some socket := hsocket
      have hclosed := hs.onClose c index (List.mem_of_getElem? hi)
      unfold State.isClosed at hclosed
      rw [hsocket] at hclosed
      have hclosed : socket.readyState = .closed := of_decide_eq_true hclosed
      have hready : socket.readyState = .ready := hready
      cases hclosed.symm.trans hready
  | finished c => cases hresume

/-- An event is lost without listeners, and has its handler started with them. -/
theorem emit_eq_some {handler : ℤ → Handler} (h : s.emit c handler = some s') :
    s.isListening c = true ∧ s' = s.spawn (handler (findWSConnectionInSharedState s c)) ∨
      s.isListening c = false ∧ s' = s := by
  unfold State.emit at h
  unfold State.isListening
  cases hsocket : s.sockets c with
  | none =>
    rw [hsocket] at h
    cases h
  | some socket =>
    rw [hsocket] at h
    dsimp only at h
    split_ifs at h with hclosed hlistening
    · cases h
      exact Or.inl ⟨hlistening, rfl⟩
    · cases h
      exact Or.inr ⟨Bool.eq_false_iff.mpr hlistening, rfl⟩

theorem resume_eq_some {transaction : Except Err (Option TransactionData)}
    (h : s.step (.resume i transaction) = some s') : ∃ h' t, s.handlers[i]? = some h' ∧
      h'.resume s transaction = some t ∧ s' = { t with handlers := s.handlers.set i h'.next } := by
  obtain ⟨h', hi, h⟩ := Option.bind_eq_some_iff.mp h
  obtain ⟨t, ht, rfl⟩ := Option.map_eq_some_iff.mp h
  exact ⟨h', t, hi, ht, rfl⟩

/-- An orderly step keeps the registry consistent. -/
theorem Consistent.step {m : Move} (hs : Consistent s) (hm : orderly s m = true) (h : s.step m = some s') :
    Consistent s' := by
  cases m with
  | connect c q =>
    unfold State.step at h
    dsimp only at h
    split_ifs at h with hnew
    cases h
    exact hs.connect (Option.not_isSome_iff_eq_none.mp hnew) q
  | message c =>
    obtain ⟨hlistening, rfl⟩ | ⟨-, rfl⟩ := emit_eq_some h
    · have hentries : s.entries c ≠ 0 := by
        have hm : (!s.isListening c || decide (s.entries c ≠ 0)) = true := hm
        rw [hlistening] at hm
        simpa using hm
      refine hs.spawn hlistening ?_ nofun nofun
      intro j hj
      cases hj
      exact find_of_entries hentries
    · exact hs
  | error c message =>
    obtain ⟨hlistening, rfl⟩ | ⟨-, rfl⟩ := emit_eq_some h
    · refine hs.spawn hlistening ?_ nofun nofun
      intro j hj
      by_cases hentries : s.entries c = 0
      · rw [find_of_not_entries hentries] at hj
        cases hj
      · obtain ⟨sub, hsub, hsocket⟩ := find_of_entries hentries
        unfold Handler.removes at hj
        dsimp only at hj
        split_ifs at hj
        cases hj
        exact ⟨sub, hsub, hsocket⟩
    · exact hs
  | close c =>
    obtain ⟨t, ht, rfl⟩ := Option.map_eq_some_iff.mp h
    have hlistening : s.isListening c = true := hm
    obtain ⟨-, rfl⟩ | ⟨hnot, -⟩ := emit_eq_some ht
    · exact hs.close hlistening
    · rw [hlistening] at hnot
      cases hnot
  | resume i transaction =>
    obtain ⟨h', t, hi, ht, rfl⟩ := resume_eq_some h
    have horderly : (h'.removes).all (fun index => s.isAhead i index) = true := by
      have hm : (s.handlers[i]?.bind Handler.removes).all (fun index => s.isAhead i index) = true := hm
      rw [hi] at hm
      exact hm
    exact hs.resume hi horderly ht

theorem consistent_of_reachable (h : Reachable orderly s) : Consistent s := by
  induction h with
  | initial => exact consistent_initial
  | step _ hm hs ih => exact ih.step hm hs

/-- A handler that goes on touches no entry of another connection. -/
theorem Consistent.keepsOthers_resume (hs : Consistent s) (hi : s.handlers[i]? = some h)
    {transaction : Except Err (Option TransactionData)} (hresume : h.resume s transaction = some s') :
    KeepsOthers h.connection s s' := by
  have hsplice : ∀ {index sub}, elementAt s.subscriptionsData index = some sub → sub.socket = h.connection →
      (splice s.subscriptionsData index).filter (fun sub => sub.socket ≠ h.connection) =
        s.subscriptionsData.filter (fun sub => sub.socket ≠ h.connection) :=
    fun hsub hsocket => filter_splice hsub (by simp [hsocket])
  have hmem := List.mem_of_getElem? hi
  unfold KeepsOthers
  cases h with
  | adding c q j =>
    cases hresume
    unfold findOrAddWSConnectionInSharedState
    split_ifs
    · rfl
    · simp [Handler.connection]
  | awaiting c q =>
    cases hresume
    unfold wsHandler
    cases transaction with
    | error e => rfl
    | ok returnData =>
      dsimp only
      split_ifs
      · exact congrArg (List.filter _) (send_subscriptionsData _ _ _)
      · exact congrArg (List.filter _) (send_subscriptionsData _ _ _)
  | onError c message index =>
    cases hresume
    unfold Websocket.onError
    split_ifs with hindex
    · rfl
    · obtain ⟨sub, hsub, hsocket⟩ := hs.removes _ hmem index (if_neg hindex)
      rw [hsub]
      exact (congrArg (List.filter _) (send_subscriptionsData _ _ _)).trans (hsplice hsub hsocket)
  | onMessage c index =>
    cases hresume
    unfold Websocket.onMessage
    obtain ⟨sub, hsub, hsocket⟩ := hs.removes _ hmem index rfl
    rw [hsub]
    exact (congrArg (List.filter _) (send_subscriptionsData _ _ _)).trans (hsplice hsub hsocket)
  | onClose c index =>
    cases hresume
    unfold Websocket.onClose
    split_ifs with hindex
    · rfl
    · obtain ⟨sub, hsub, hsocket⟩ := hs.removes _ hmem index (if_neg hindex)
      exact hsplice hsub hsocket
  | finished c => cases hresume

theorem Consistent.keepsOthers {m : Move} (hs : Consistent s) (h : s.step m = some s')
    (hc : m.connectionIn s = some c) :
    KeepsOthers c s s' := by
  have hemit : ∀ {c} {handler : ℤ → Handler} {t}, s.emit c handler = some t →
      t.subscriptionsData = s.subscriptionsData := by
    intro c handler t ht
    obtain ⟨-, rfl⟩ | ⟨-, rfl⟩ := emit_eq_some ht <;> rfl
  cases m with
  | connect c q =>
    unfold State.step at h
    dsimp only at h
    split_ifs at h
    cases h
    rfl
  | message c => exact congrArg (List.filter _) (hemit h)
  | error c message => exact congrArg (List.filter _) (hemit h)
  | close connection =>
    obtain ⟨t, ht, rfl⟩ := Option.map_eq_some_iff.mp h
    show KeepsOthers c s t
    exact congrArg (List.filter _) (hemit ht)
  | resume i transaction =>
    obtain ⟨h', t, hi, ht, rfl⟩ := resume_eq_some h
    have hc : (s.handlers[i]?).map Handler.connection = some c := hc
    rw [hi] at hc
    cases hc
    show KeepsOthers h'.connection s t
    exact hs.keepsOthers_resume hi ht

theorem Consistent.registered (hs : Consistent s) (h : s.quiescent = true) : Registered s := by
  have hdone : ∀ h' ∈ s.handlers, h'.isFinished = true := List.all_eq_true.mp h
  intro c
  constructor
  · intro hready
    have hle := hs.unique c
    obtain hnonzero | ⟨q, j, hmem⟩ := hs.ready c hready
    · omega
    · cases hdone _ hmem
  · intro hclosed
    by_contra hnonzero
    obtain ⟨j, -, hmem⟩ := hs.closed c hclosed hnonzero
    cases hdone _ hmem

theorem Reachable.imp {allowed allowed' : State → Move → Bool} (h : Reachable allowed s)
    (hallowed : ∀ s m, allowed s m = true → allowed' s m = true) : Reachable allowed' s := by
  induction h with
  | initial => exact .initial
  | step _ hm hs ih => exact ih.step (hallowed _ _ hm) hs

/-- Runs whose steps are all orderly keep the registry whole. -/
theorem integrity_of_orderly {allowed : State → Move → Bool}
    (hallowed : ∀ s m, allowed s m = true → orderly s m = true) :
    Integrity allowed where
  keepsOthers _ _ _ _ hs _ h hc := (consistent_of_reachable (hs.imp hallowed)).keepsOthers h hc
  registered _ hs h := (consistent_of_reachable (hs.imp hallowed)).registered h
  calm _ hs := (consistent_of_reachable (hs.imp hallowed)).calm

/-- A run in which every step is allowed. -/
def State.run (allowed : State → Move → Bool) (s : State) : List Move → Option State
  | [] => some s
  | m :: ms => if allowed s m then (s.step m).bind fun s' => s'.run allowed ms else none

theorem reachable_of_run {allowed : State → Move → Bool} {ms : List Move} (hs : Reachable allowed s)
    (h : s.run allowed ms = some s') : Reachable allowed s' := by
  induction ms generalizing s with
  | nil =>
    cases h
    exact hs
  | cons m ms ih =>
    unfold State.run at h
    split_ifs at h with hm
    obtain ⟨t, ht, h⟩ := Option.bind_eq_some_iff.mp h
    exact ih (hs.step hm ht) h

/-- A transaction that is not mined yet. -/
def sentTransaction (queueId : QueueId) : Option TransactionData := some ⟨queueId, .sent, none⟩

/-- Two clients connect at once. The first one writes, and is disconnected; the other one stays. -/
def twoClients : List Move :=
  [.connect 0 "first", .connect 1 "second", .resume 0 (.ok none), .resume 1 (.ok none),
    .resume 1 (.ok (sentTransaction "second")), .resume 0 (.ok (sentTransaction "first")), .message 0,
    .resume 2 (.ok none), .close 0, .resume 3 (.ok none)]

/-- The client that stays has the only entry. -/
theorem integrity_of_orderly_twoClients : ∃ s, Reachable orderly s ∧ s.entries 0 = 0 ∧ s.entries 1 = 1 := by
  obtain ⟨s, hs⟩ : ∃ s, State.run orderly {} twoClients = some s := ⟨_, rfl⟩
  have hreachable : Reachable orderly s := reachable_of_run .initial hs
  have hregistered := (integrity_of_orderly fun _ _ h => h).registered s hreachable
  cases hs
  exact ⟨_, hreachable, (hregistered rfl 0).2 rfl, (hregistered rfl 1).1 rfl⟩

/-- The steps of a client that asks for an unknown transaction. -/
def unknownTransaction : List Move :=
  [.connect 0 "unknown", .resume 0 (.ok none), .resume 0 (.ok none), .close 0]

/-- The entry of a client that is told that its transaction is unknown stays when it is gone. -/
theorem not_integrity : ¬ Integrity fun _ _ => true := by
  intro h
  obtain ⟨s, hs⟩ : ∃ s, State.run (fun _ _ => true) {} unknownTransaction = some s := ⟨_, rfl⟩
  have hregistered := h.registered s (reachable_of_run .initial hs)
  cases hs
  have hentries := (hregistered rfl 0).2 rfl
  cases hentries

end
end Engine.Websocket
