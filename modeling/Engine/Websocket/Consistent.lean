import Engine.Websocket.Registry

/-! The invariant of the registry in orderly runs, over each kind of change. -/
namespace Engine.Websocket

section
variable {s s' : State} {c connection : ℕ} {index : ℤ} {h : Handler} {i k : ℕ}

/-- What holds of the registry in orderly runs. Every index is that of an entry of the connection, and the handler that
adds the entry of a connection is its only one. -/
structure Consistent (s : State) : Prop where
  unique : ∀ c, s.entries c ≤ 1
  known : ∀ c, s.entries c ≠ 0 → (s.sockets c).isSome = true
  handled : ∀ h ∈ s.handlers, (s.sockets h.connection).isSome = true
  adding : ∀ (i c : ℕ) q j, s.handlers[i]? = some (Handler.adding c q j) →
    j = -1 ∧ s.entries c = 0 ∧ s.isReady c = true ∧ s.isListening c = false ∧
      ∀ (k : ℕ) (h : Handler), s.handlers[k]? = some h → h.connection = c → k = i
  ready : ∀ c, s.isReady c = true → s.entries c ≠ 0 ∨ ∃ q j, Handler.adding c q j ∈ s.handlers
  closed : ∀ c, s.isClosed c = true → s.entries c ≠ 0 → ∃ j, j ≠ -1 ∧ Handler.onClose c j ∈ s.handlers
  removes : ∀ h ∈ s.handlers, ∀ j, h.removes = some j →
    ∃ sub, elementAt s.subscriptionsData j = some sub ∧ sub.socket = h.connection
  onClose : ∀ c j, Handler.onClose c j ∈ s.handlers → s.isClosed c = true
  calm : s.rejected = []

theorem consistent_initial : Consistent {} where
  unique c := Nat.zero_le _
  known c h := absurd rfl h
  handled h hh := by cases hh
  adding i c q j h := by cases h
  ready c h := by cases h
  closed c h := by cases h
  removes h hh := by cases hh
  onClose c j h := by cases h
  calm := rfl

/-- A handler of an event is started on a socket with listeners. -/
theorem Consistent.spawn (hs : Consistent s) (hlistening : s.isListening h.connection = true)
    (hremoves : ∀ j, h.removes = some j →
      ∃ sub, elementAt s.subscriptionsData j = some sub ∧ sub.socket = h.connection)
    (hadding : ∀ c q j, h ≠ .adding c q j) (hclose : ∀ c j, h ≠ .onClose c j) : Consistent (s.spawn h) where
  unique := hs.unique
  known := hs.known
  handled h' hh' := by
    rcases List.mem_append.mp hh' with hh' | hh'
    · exact hs.handled h' hh'
    · rw [List.mem_singleton.mp hh']
      exact isSome_of_any hlistening
  adding i c q j hi := by
    rcases getElem?_concat_eq_some.mp hi with hi | ⟨-, hi⟩
    · obtain ⟨hj, hentries, hready, hnot, honly⟩ := hs.adding i c q j hi
      refine ⟨hj, hentries, hready, hnot, ?_⟩
      intro k h' hk hconnection
      rcases getElem?_concat_eq_some.mp hk with hk | ⟨-, rfl⟩
      · exact honly k h' hk hconnection
      · rw [hconnection, hnot] at hlistening
        cases hlistening
    · exact absurd hi (hadding c q j)
  ready c hc := by
    obtain hentries | ⟨q, j, hmem⟩ := hs.ready c hc
    · exact Or.inl hentries
    · exact Or.inr ⟨q, j, List.mem_append_left _ hmem⟩
  closed c hc hentries := by
    obtain ⟨j, hj, hmem⟩ := hs.closed c hc hentries
    exact ⟨j, hj, List.mem_append_left _ hmem⟩
  removes h' hh' := by
    rcases List.mem_append.mp hh' with hh' | hh'
    · exact hs.removes h' hh'
    · rw [List.mem_singleton.mp hh']
      exact hremoves
  onClose c j hmem := by
    rcases List.mem_append.mp hmem with hmem | hmem
    · exact hs.onClose c j hmem
    · exact absurd (List.mem_singleton.mp hmem).symm (hclose c j)
  calm := hs.calm

theorem removes_onClose {j : ℤ} (hj : j ≠ -1) : (Handler.onClose c j).removes = some j := if_neg hj

/-- A new connection. -/
theorem Consistent.connect (hs : Consistent s) (hnew : s.sockets c = none) (q : QueueId) :
    Consistent (({ s with sockets := Function.update s.sockets c (some {}) } : State).spawn
      (.adding c q (findWSConnectionInSharedState s c))) := by
  have hne : ∀ {connection}, (s.sockets connection).isSome = true → connection ≠ c := by
    intro connection hsome heq
    rw [heq, hnew] at hsome
    cases hsome
  have hentries : s.entries c = 0 := by
    by_contra hentries
    exact hne (hs.known c hentries) rfl
  have hother : ∀ h ∈ s.handlers, h.connection ≠ c := fun h hh => hne (hs.handled h hh)
  have hkeep : ∀ {connection}, connection ≠ c →
      Function.update s.sockets c (some {}) connection = s.sockets connection :=
        fun heq => Function.update_of_ne heq _ _
  have hself : Function.update s.sockets c (some {}) c = some {} := Function.update_self _ _ _
  rw [find_of_not_entries hentries]
  refine ⟨hs.unique, ?_, ?_, ?_, ?_, ?_, ?_, ?_, hs.calm⟩
  · intro connection hconnection
    have hsome := hs.known connection hconnection
    show (Function.update s.sockets c (some {}) connection).isSome = true
    rw [hkeep (hne hsome)]
    exact hsome
  · intro h hh
    show (Function.update s.sockets c (some {}) h.connection).isSome = true
    rcases List.mem_append.mp hh with hh | hh
    · rw [hkeep (hother h hh)]
      exact hs.handled h hh
    · rw [List.mem_singleton.mp hh]
      exact congrArg Option.isSome hself
  · intro i connection q' j hi
    rcases getElem?_concat_eq_some.mp hi with hi | ⟨hlast, hi⟩
    · have hconnection : connection ≠ c := hother _ (List.mem_of_getElem? hi)
      obtain ⟨hj, hzero, hready, hnot, honly⟩ := hs.adding i connection q' j hi
      refine ⟨hj, hzero, ?_, ?_, ?_⟩
      · show (Function.update s.sockets c (some {}) connection).any _ = true
        rw [hkeep hconnection]
        exact hready
      · show (Function.update s.sockets c (some {}) connection).any _ = false
        rw [hkeep hconnection]
        exact hnot
      · intro k h hk hh
        rcases getElem?_concat_eq_some.mp hk with hk | ⟨-, rfl⟩
        · exact honly k h hk hh
        · exact absurd hh.symm hconnection
    · cases hi
      refine ⟨rfl, hentries, ?_, ?_, ?_⟩
      · exact congrArg (Option.any _) hself
      · exact congrArg (Option.any _) hself
      · intro k h hk hh
        rcases getElem?_concat_eq_some.mp hk with hk | ⟨hk, -⟩
        · exact absurd hh (hother h (List.mem_of_getElem? hk))
        · exact hk.trans hlast.symm
  · intro connection hready
    by_cases heq : connection = c
    · subst heq
      exact Or.inr ⟨q, -1, List.mem_append_right _ List.mem_cons_self⟩
    · have hready : (Function.update s.sockets c (some {}) connection).any _ = true := hready
      rw [hkeep heq] at hready
      obtain hnonzero | ⟨q', j, hmem⟩ := hs.ready connection hready
      · exact Or.inl hnonzero
      · exact Or.inr ⟨q', j, List.mem_append_left _ hmem⟩
  · intro connection hclosed hnonzero
    have hclosed : (Function.update s.sockets c (some {}) connection).any _ = true := hclosed
    rw [hkeep (hne (hs.known connection hnonzero))] at hclosed
    obtain ⟨j, hj, hmem⟩ := hs.closed connection hclosed hnonzero
    exact ⟨j, hj, List.mem_append_left _ hmem⟩
  · intro h hh j hj
    rcases List.mem_append.mp hh with hh | hh
    · exact hs.removes h hh j hj
    · rw [List.mem_singleton.mp hh] at hj
      cases hj
  · intro connection j hmem
    rcases List.mem_append.mp hmem with hmem | hmem
    · have hconnection : connection ≠ c := hother _ hmem
      show (Function.update s.sockets c (some {}) connection).any _ = true
      rw [hkeep hconnection]
      exact hs.onClose connection j hmem
    · cases List.mem_singleton.mp hmem

/-- A socket with listeners is closed. -/
theorem Consistent.close (hs : Consistent s) (hlistening : s.isListening c = true) :
    Consistent ((s.spawn (.onClose c (findWSConnectionInSharedState s c))).setSocket c
      fun socket => { socket with readyState := .closed }) := by
  have hself : ∀ {f : Socket → Socket} {p : Socket → Bool}, ((s.setSocket c f).sockets c).any p =
      (s.sockets c).any fun socket => p (f socket) := by
    intro f p
    rw [setSocket_self, Option.any_map]
  have hsome := isSome_of_any hlistening
  refine ⟨hs.unique, ?_, ?_, ?_, ?_, ?_, ?_, ?_, hs.calm⟩
  · exact fun connection hconnection => isSome_setSocket (s := s) (hs.known connection hconnection)
  · intro h hh
    apply isSome_setSocket (s := s)
    rcases List.mem_append.mp hh with hh | hh
    · exact hs.handled h hh
    · rw [List.mem_singleton.mp hh]
      exact hsome
  · intro i connection q j hi
    rcases getElem?_concat_eq_some.mp hi with hi | ⟨-, hi⟩
    · obtain ⟨hj, hzero, hready, hnot, honly⟩ := hs.adding i connection q j hi
      have hne : connection ≠ c := by
        rintro rfl
        rw [hlistening] at hnot
        cases hnot
      refine ⟨hj, hzero, ?_, ?_, ?_⟩
      · show ((s.setSocket c _).sockets connection).any _ = true
        rw [setSocket_ne hne]
        exact hready
      · show ((s.setSocket c _).sockets connection).any _ = false
        rw [setSocket_ne hne]
        exact hnot
      · intro k h hk hh
        rcases getElem?_concat_eq_some.mp hk with hk | ⟨-, rfl⟩
        · exact honly k h hk hh
        · exact absurd hh.symm hne
    · cases hi
  · intro connection hready
    have hne : connection ≠ c := by
      rintro rfl
      have hready : ((s.setSocket connection _).sockets connection).any _ = true := hready
      rw [hself] at hready
      obtain ⟨socket, -, hsocket⟩ := (Option.any_eq_true _ _).mp hready
      simp at hsocket
    have hready : ((s.setSocket c _).sockets connection).any _ = true := hready
    rw [setSocket_ne hne] at hready
    obtain hnonzero | ⟨q, j, hmem⟩ := hs.ready connection hready
    · exact Or.inl hnonzero
    · exact Or.inr ⟨q, j, List.mem_append_left _ hmem⟩
  · intro connection hclosed hnonzero
    by_cases heq : connection = c
    · subst heq
      obtain ⟨sub, hsub, -⟩ := find_of_entries (s := s) hnonzero
      refine ⟨findWSConnectionInSharedState s connection, ?_, List.mem_append_right _ List.mem_cons_self⟩
      have hnonneg := (elementAt_eq_some.mp hsub).1
      omega
    · have hclosed : ((s.setSocket c _).sockets connection).any _ = true := hclosed
      rw [setSocket_ne heq] at hclosed
      obtain ⟨j, hj, hmem⟩ := hs.closed connection hclosed hnonzero
      exact ⟨j, hj, List.mem_append_left _ hmem⟩
  · intro h hh j hj
    rcases List.mem_append.mp hh with hh | hh
    · exact hs.removes h hh j hj
    · rw [List.mem_singleton.mp hh] at hj ⊢
      by_cases hentries : s.entries c = 0
      · rw [find_of_not_entries hentries] at hj
        cases hj
      · obtain ⟨sub, hsub, hsocket⟩ := find_of_entries hentries
        have hnonneg := (elementAt_eq_some.mp hsub).1
        have hindex : Handler.removes (.onClose c (findWSConnectionInSharedState s c)) =
            some (findWSConnectionInSharedState s c) := if_neg (by omega)
        rw [hindex] at hj
        cases hj
        exact ⟨sub, hsub, hsocket⟩
  · intro connection j hmem
    by_cases heq : connection = c
    · subst heq
      show ((s.setSocket connection _).sockets connection).any _ = true
      rw [hself]
      obtain ⟨socket, hsocket⟩ := Option.isSome_iff_exists.mp hsome
      rw [hsocket]
      rfl
    · show ((s.setSocket c _).sockets connection).any _ = true
      rw [setSocket_ne heq]
      rcases List.mem_append.mp hmem with hmem | hmem
      · exact hs.onClose connection j hmem
      · cases List.mem_singleton.mp hmem
        exact absurd rfl heq

/-! ### A handler that is done -/

/-- A handler is done, and changed no socket but its own. -/
structure Finishes (s s' : State) (i : ℕ) (h : Handler) (f : Socket → Socket) : Prop where
  running : s.handlers[i]? = some h
  rejected : s'.rejected = s.rejected
  sockets : s'.sockets = (s.setSocket h.connection f).sockets
  handlers : s'.handlers = s.handlers.set i (.finished h.connection)

section
variable {f : Socket → Socket} {h' : Handler}

theorem Finishes.mem (hf : Finishes s s' i h f) (hh' : h' ∈ s'.handlers) :
    h' ∈ s.handlers ∨ h' = .finished h.connection := by
  rw [hf.handlers] at hh'
  exact List.mem_or_eq_of_mem_set hh'

theorem Finishes.stays (hf : Finishes s s' i h f) (hh' : h' ∈ s.handlers) (hne : h' ≠ h) : h' ∈ s'.handlers := by
  rw [hf.handlers]
  exact mem_set_of_ne hf.running hh' hne

theorem Finishes.any_eq (hf : Finishes s s' i h f) {p : Socket → Bool} (hne : c ≠ h.connection) :
    (s'.sockets c).any p = (s.sockets c).any p := by
  rw [any_of_setSocket hf.sockets]
  simp only [hne, if_false]

theorem Finishes.isSome (hf : Finishes s s' i h f) (hc : (s.sockets c).isSome = true) :
    (s'.sockets c).isSome = true := by
  rw [hf.sockets]
  exact isSome_setSocket hc

theorem Finishes.handled (hf : Finishes s s' i h f) (hs : Consistent s) (hh' : h' ∈ s'.handlers) :
    (s'.sockets h'.connection).isSome = true := by
  apply hf.isSome
  rcases hf.mem hh' with hh' | rfl
  · exact hs.handled h' hh'
  · exact hs.handled h (List.mem_of_getElem? hf.running)

theorem Finishes.adding (hf : Finishes s s' i h f) (hs : Consistent s)
    (hkeep : ∀ {c}, c ≠ h.connection → s'.entries c = s.entries c) {k : ℕ} {q : QueueId} {j : ℤ}
    (hk : s'.handlers[k]? = some (Handler.adding c q j)) :
    j = -1 ∧ s'.entries c = 0 ∧ s'.isReady c = true ∧ s'.isListening c = false ∧
      ∀ (k' : ℕ) (h' : Handler), s'.handlers[k']? = some h' → h'.connection = c → k' = k := by
  rw [hf.handlers] at hk
  obtain ⟨-, hk⟩ | ⟨hki, hk⟩ := getElem?_set_eq_some hk
  · cases hk
  obtain ⟨hj, hzero, hc, hnot, honly⟩ := hs.adding k c q j hk
  have hne : c ≠ h.connection := fun heq => hki (honly i h hf.running heq.symm).symm
  refine ⟨hj, (hkeep hne).trans hzero, (hf.any_eq hne).trans hc, (hf.any_eq hne).trans hnot, ?_⟩
  intro k' h' hk' hconnection
  rw [hf.handlers] at hk'
  obtain ⟨-, rfl⟩ | ⟨-, hk'⟩ := getElem?_set_eq_some hk'
  · exact absurd hconnection.symm hne
  · exact honly k' h' hk' hconnection

/-- The handler removes nothing. Its socket may be closing now, or have listeners. -/
theorem Consistent.settle (hs : Consistent s) (hf : Finishes s s' i h f) (hnone : h.removes = none)
    (hadding : ∀ c q j, h ≠ .adding c q j)
    (hready : ∀ socket, (f socket).readyState = .ready → socket.readyState = .ready)
    (hclosed : ∀ socket, (f socket).readyState = .closed ↔ socket.readyState = .closed)
    (hsubs : s'.subscriptionsData = s.subscriptionsData) : Consistent s' := by
  have hentries : ∀ c, s'.entries c = s.entries c := by
    intro c
    unfold State.entries
    rw [hsubs]
  have hready' : ∀ {c}, s'.isReady c = true → s.isReady c = true := by
    intro c hc
    unfold State.isReady at hc ⊢
    rw [any_of_setSocket hf.sockets] at hc
    obtain ⟨socket, hsocket, hc⟩ := (Option.any_eq_true _ _).mp hc
    refine (Option.any_eq_true _ _).mpr ⟨socket, hsocket, ?_⟩
    split_ifs at hc
    · exact decide_eq_true (hready socket (of_decide_eq_true hc))
    · exact hc
  have hclosed' : ∀ {c}, s'.isClosed c = s.isClosed c := by
    intro c
    unfold State.isClosed
    rw [any_of_setSocket hf.sockets]
    simp [hclosed]
  refine ⟨?_, ?_, fun h' => hf.handled hs, fun k c q j => hf.adding hs fun _ => hentries _, ?_, ?_, ?_, ?_,
    hf.rejected.trans hs.calm⟩
  · intro c
    rw [hentries]
    exact hs.unique c
  · intro c hc
    rw [hentries] at hc
    exact hf.isSome (hs.known c hc)
  · intro c hc
    rw [hentries]
    obtain hnonzero | ⟨q, j, hh⟩ := hs.ready c (hready' hc)
    · exact Or.inl hnonzero
    · exact Or.inr ⟨q, j, hf.stays hh (hadding c q j).symm⟩
  · intro c hc hnonzero
    rw [hentries] at hnonzero
    rw [hclosed'] at hc
    obtain ⟨j, hj, hh⟩ := hs.closed c hc hnonzero
    refine ⟨j, hj, hf.stays hh ?_⟩
    rintro rfl
    rw [removes_onClose hj] at hnone
    cases hnone
  · intro h' hh' j hj
    rw [hsubs]
    rcases hf.mem hh' with hh' | rfl
    · exact hs.removes h' hh' j hj
    · cases hj
  · intro c j hh
    rw [hclosed']
    rcases hf.mem hh with hh | hh
    · exact hs.onClose c j hh
    · cases hh

/-! The handler removes the entry of its connection. -/

/-- Its entry is gone, and no other. -/
theorem entries_removed (hs : Consistent s) (hh : h ∈ s.handlers) (hindex : h.removes = some index)
    (hsubs : s'.subscriptionsData = (s.remove index).subscriptionsData) :
    s'.entries h.connection = 0 ∧ ∀ {c}, c ≠ h.connection → s'.entries c = s.entries c := by
  obtain ⟨sub, hsub, hsocket⟩ := hs.removes h hh index hindex
  have hcount : ∀ c, s.entries c = s'.entries c + if h.connection = c then 1 else 0 := by
    intro c
    rw [entries_remove hsub c, hsocket]
    unfold State.entries
    rw [hsubs]
  constructor
  · have hle := hs.unique h.connection
    rw [hcount, if_pos rfl] at hle
    omega
  · intro c hne
    rw [hcount c, if_neg (Ne.symm hne)]
    rfl

/-- The indices of the other handlers are in front of the one that is removed, and stay. -/
theorem Finishes.removes (hf : Finishes s s' i h f) (hs : Consistent s) (hahead : s.isAhead i index = true)
    (hsubs : s'.subscriptionsData = (s.remove index).subscriptionsData) (hh' : h' ∈ s'.handlers) {j : ℤ}
    (hj : h'.removes = some j) : ∃ sub, elementAt s'.subscriptionsData j = some sub ∧ sub.socket = h'.connection := by
  rw [hsubs]
  rw [hf.handlers] at hh'
  obtain ⟨k, hk⟩ := List.mem_iff_getElem?.mp hh'
  obtain ⟨-, rfl⟩ | ⟨hki, hk⟩ := getElem?_set_eq_some hk
  · cases hj
  · obtain ⟨sub, hsub, hsocket⟩ := hs.removes h' (List.mem_of_getElem? hk) j hj
    have hlt : j < index := by
      have hall := List.all_eq_true.mp hahead k (List.mem_range.mpr (List.getElem?_eq_some_iff.mp hk).1)
      rw [hk, Option.bind_some, hj] at hall
      simpa [hki] using hall
    exact ⟨sub, elementAt_splice hlt hsub, hsocket⟩

/-- A socket that was closed still is. -/
theorem Finishes.onClose (hf : Finishes s s' i h f) (hs : Consistent s)
    (hclosed : ∀ socket, socket.readyState = .closed → (f socket).readyState = .closed) {j : ℤ}
    (hh : Handler.onClose c j ∈ s'.handlers) : s'.isClosed c = true := by
  have hh : Handler.onClose c j ∈ s.handlers := by
    rcases hf.mem hh with hh | hh
    · exact hh
    · cases hh
  obtain ⟨socket, hsome, hc⟩ := (Option.any_eq_true _ _).mp (hs.onClose c j hh)
  unfold State.isClosed
  rw [any_of_setSocket hf.sockets]
  refine (Option.any_eq_true _ _).mpr ⟨socket, hsome, ?_⟩
  split_ifs
  · exact decide_eq_true (hclosed socket (of_decide_eq_true hc))
  · exact hc

/-- The entry is behind all others that are to be removed, and the socket is not open any more. -/
theorem Consistent.removed (hs : Consistent s) (hf : Finishes s s' i h f) (hindex : h.removes = some index)
    (hahead : s.isAhead i index = true)
    (hready : ∀ socket, s.sockets h.connection = some socket → (f socket).readyState ≠ .ready)
    (hclosed : ∀ socket, socket.readyState = .closed → (f socket).readyState = .closed)
    (hsubs : s'.subscriptionsData = (s.remove index).subscriptionsData) : Consistent s' := by
  obtain ⟨hgone, hkeep⟩ := entries_removed hs (List.mem_of_getElem? hf.running) hindex hsubs
  have hother : ∀ {c}, s'.entries c ≠ 0 → c ≠ h.connection := by
    rintro c hnonzero rfl
    exact hnonzero hgone
  refine ⟨?_, ?_, fun h' => hf.handled hs, fun k c q j => hf.adding hs hkeep, ?_, ?_,
    fun h' hh' j => hf.removes hs hahead hsubs hh', fun c j => hf.onClose hs hclosed, hf.rejected.trans hs.calm⟩
  · intro c
    by_cases heq : c = h.connection
    · rw [heq, hgone]
      omega
    · rw [hkeep heq]
      exact hs.unique c
  · intro c hc
    have hne := hother hc
    rw [hkeep hne] at hc
    exact hf.isSome (hs.known c hc)
  · intro c hc
    have hne : c ≠ h.connection := by
      rintro rfl
      unfold State.isReady at hc
      rw [any_of_setSocket hf.sockets] at hc
      obtain ⟨socket, hsome, hc⟩ := (Option.any_eq_true _ _).mp hc
      rw [if_pos rfl] at hc
      exact hready socket hsome (of_decide_eq_true hc)
    obtain hnonzero | ⟨q, j, hh⟩ := hs.ready c ((hf.any_eq hne).symm.trans hc)
    · exact Or.inl (by rw [hkeep hne]; exact hnonzero)
    · refine Or.inr ⟨q, j, hf.stays hh ?_⟩
      rintro rfl
      cases hindex
  · intro c hc hnonzero
    have hne := hother hnonzero
    obtain ⟨j, hj, hh⟩ := hs.closed c ((hf.any_eq hne).symm.trans hc) (by rw [← hkeep hne]; exact hnonzero)
    refine ⟨j, hj, hf.stays hh ?_⟩
    rintro rfl
    exact hne rfl

end

/-- The entry of a connection is added. -/
theorem Consistent.added (hs : Consistent s) {q : QueueId} (hi : s.handlers[i]? = some (Handler.adding c q index)) :
    Consistent { s with
      subscriptionsData := s.subscriptionsData ++ [⟨c, q⟩]
      handlers := s.handlers.set i (.awaiting c q) } := by
  obtain ⟨-, hzero, hready, hnot, honly⟩ := hs.adding i c q index hi
  have hcount : ∀ c', ({ s with
      subscriptionsData := s.subscriptionsData ++ [⟨c, q⟩]
      handlers := s.handlers.set i (.awaiting c q) } : State).entries c' = s.entries c' + if c = c' then 1 else 0 :=
    fun c' => entries_append ⟨c, q⟩ c'
  refine ⟨?_, ?_, ?_, ?_, ?_, ?_, ?_, ?_, hs.calm⟩
  · intro c'
    rw [hcount]
    have hle := hs.unique c'
    split_ifs with heq
    · subst heq
      omega
    · exact hle
  · intro c' hc'
    rw [hcount] at hc'
    by_cases heq : c = c'
    · subst heq
      exact isSome_of_any hready
    · rw [if_neg heq] at hc'
      exact hs.known c' hc'
  · intro h hh
    rcases List.mem_or_eq_of_mem_set hh with hh | rfl
    · exact hs.handled h hh
    · exact isSome_of_any hready
  · intro k c' q' j hk
    obtain ⟨-, hk⟩ | ⟨hki, hk⟩ := getElem?_set_eq_some hk
    · cases hk
    obtain ⟨hj, hzero', hready', hnot', honly'⟩ := hs.adding k c' q' j hk
    have hne : c ≠ c' := fun heq => hki (honly k _ hk heq.symm)
    refine ⟨hj, ?_, hready', hnot', ?_⟩
    · rw [hcount, if_neg hne]
      exact hzero'
    · intro k' h hk' hconnection
      obtain ⟨-, rfl⟩ | ⟨-, hk'⟩ := getElem?_set_eq_some hk'
      · exact absurd hconnection hne
      · exact honly' k' h hk' hconnection
  · intro c' hc'
    rw [hcount]
    by_cases heq : c = c'
    · exact Or.inl (by rw [if_pos heq]; omega)
    · obtain hnonzero | ⟨q', j, hh⟩ := hs.ready c' hc'
      · exact Or.inl (by omega)
      · refine Or.inr ⟨q', j, mem_set_of_ne hi hh ?_⟩
        intro hadding
        cases hadding
        exact heq rfl
  · intro c' hc' hnonzero
    rw [hcount] at hnonzero
    have hne : c ≠ c' := by
      rintro rfl
      have hfalse := not_isReady_of_isClosed hc'
      have htrue : State.isReady s c = true := hready
      cases htrue.symm.trans hfalse
    rw [if_neg hne] at hnonzero
    obtain ⟨j, hj, hh⟩ := hs.closed c' hc' hnonzero
    refine ⟨j, hj, mem_set_of_ne hi hh ?_⟩
    intro hadding
    cases hadding
  · intro h hh j hj
    rcases List.mem_or_eq_of_mem_set hh with hh | rfl
    · obtain ⟨sub, hsub, hsocket⟩ := hs.removes h hh j hj
      obtain ⟨hnonneg, hget⟩ := elementAt_eq_some.mp hsub
      refine ⟨sub, elementAt_eq_some.mpr ⟨hnonneg, ?_⟩, hsocket⟩
      exact getElem?_concat_eq_some.mpr (Or.inl hget)
    · cases hj
  · intro c' j hh
    rcases List.mem_or_eq_of_mem_set hh with hh | hh
    · exact hs.onClose c' j hh
    · cases hh

end
end Engine.Websocket
