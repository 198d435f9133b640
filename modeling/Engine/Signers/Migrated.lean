import Engine.Signers.LocalWallets

/-! The keys of local wallets through any run: they are never lost, and once a wallet was loaded it stays under the
new password. -/
namespace Engine.LocalWallets
open Concurrent Program Function

namespace World

/-- The encrypted text of a row. -/
def rowText (w : World) (address : String) : Option String := (w.rows address).bind Row.encryptedJson

/-- What `getItem` finds. -/
def text (w : World) (address : String) : Option String := truthy (w.rowText address) <|> w.files address

variable {w w' : World} {o : Op} {a : String}

theorem files_after : (w.after o).files = w.files := by
  unfold after
  cases w.written o <;> rfl

theorem upserted_text {t : String} {label : Option String} {row : Row} (h : w.upserted a t label = some row) :
    row.encryptedJson = some t := by
  unfold upserted at h
  split at h
  · rw [← Option.some.inj h]
  · split_ifs at h
    rw [← Option.some.inj h]

theorem rowText_upsert {t : String} {label : Option String} (h : (w.written (.upsert a t label)).isSome = true) :
    (w.after (.upsert a t label)).rowText a = some t := by
  obtain ⟨write, hwrite⟩ := Option.isSome_iff_exists.mp h
  obtain ⟨row, hrow, rfl⟩ := Option.map_eq_some_iff.mp hwrite
  have hafter : (w.after (.upsert a t label)).rows = update w.rows a (some row) := by simp [after, hwrite]
  rw [rowText, hafter, update_self]
  exact upserted_text hrow

/-- What a call does to the text of a row. -/
theorem rowText_after (w : World) (o : Op) (a : String) :
    (w.after o).rowText a = w.rowText a ∨
      (∃ t label, o = .upsert a t label ∧ (w.after o).rowText a = some t) ∨
        (o = .delete a ∧ (w.after o).rowText a = none) ∨
          ∃ row, o = .create a row ∧ w.rows a = none ∧ (w.after o).rowText a = row.encryptedJson := by
  cases hwritten : w.written o with
  | none =>
    have hafter : w.after o = w := by simp [after, hwritten]
    exact Or.inl (by rw [hafter])
  | some write =>
    have hafter : (w.after o).rows = update w.rows write.1 write.2 := by simp [after, hwritten]
    by_cases ha : write.1 = a
    · subst ha
      have htext : (w.after o).rowText write.1 = write.2.bind Row.encryptedJson := by
        rw [rowText, hafter, update_self]
      rw [htext]
      cases o with
      | upsert address t label =>
        obtain ⟨row, hrow, rfl⟩ := Option.map_eq_some_iff.mp hwritten
        exact Or.inr (Or.inl ⟨t, label, rfl, upserted_text hrow⟩)
      | create address row =>
        simp only [written] at hwritten
        split_ifs at hwritten with hnone
        obtain rfl := Option.some.inj hwritten
        exact Or.inr (Or.inr (Or.inr ⟨row, rfl, by simpa using hnone, rfl⟩))
      | update address label =>
        obtain ⟨row, hrow, rfl⟩ := Option.map_eq_some_iff.mp hwritten
        refine Or.inl ?_
        simp [rowText, hrow]
      | delete address =>
        obtain ⟨row, -, rfl⟩ := Option.map_eq_some_iff.mp hwritten
        exact Or.inr (Or.inr (Or.inl ⟨rfl, rfl⟩))
      | _ => cases hwritten
    · refine Or.inl ?_
      rw [rowText, rowText, hafter, update_of_ne (Ne.symm ha)]

theorem effect_cases {c : Except Err o.Choice} {r : Except Err o.Reply} (h : w.effect o c = some (r, w')) :
    w' = w ∨ w' = w.after o := by
  cases c with
  | ok c => exact Or.inr (Prod.mk.inj (Option.some.inj h)).2.symm
  | error e =>
    cases e with
    | refused => exact Or.inl (Prod.mk.inj (Option.some.inj h)).2.symm
    | lost => exact Or.inr (Prod.mk.inj (Option.some.inj h)).2.symm
    | _ => cases h

/-- What is replied comes from the table. -/
theorem effect_ok {c : Except Err o.Choice} {x : o.Reply} (h : w.effect o c = some (.ok x, w')) :
    w' = w.after o ∧ ∃ d, w.reply o d = .ok x := by
  cases c with
  | ok d =>
    obtain ⟨hreply, hafter⟩ := Prod.mk.inj (Option.some.inj h)
    exact ⟨hafter.symm, d, hreply⟩
  | error e => cases e <;> simp [effect] at h

theorem files_of_effect {c : Except Err o.Choice} {r : Except Err o.Reply} (h : w.effect o c = some (r, w')) :
    w'.files = w.files := by
  rcases effect_cases h with rfl | rfl
  · rfl
  · exact files_after

/-- What a performed call does to the text of a row. -/
theorem rowText_of_effect {c : Except Err o.Choice} {r : Except Err o.Reply} (h : w.effect o c = some (r, w'))
    (a : String) :
    w'.rowText a = w.rowText a ∨ (∃ t label, o = .upsert a t label ∧ w'.rowText a = some t) ∨
      (o = .delete a ∧ w'.rowText a = none) ∨
        ∃ row, o = .create a row ∧ w.rows a = none ∧ w'.rowText a = row.encryptedJson := by
  rcases effect_cases h with rfl | rfl
  · exact Or.inl rfl
  · exact rowText_after w o a

end World

section
variable {K : Keystore} {env : Env} {w w' : World} {l : Progress K} {o : Op} {c : Except Err o.Choice}
  {r : Except Err o.Reply} {t : String}

/-- A text that a request has seen was in the row right after the call. -/
theorem seen_of_effect (h : w.effect o c = some (r, w')) (ht : t ∈ (l.next o r).seen) :
    t ∈ l.seen ∨ ∃ a, w'.rowText a = some t ∧ (o = .findUnique a ∨ ∃ label, o = .upsert a t label) := by
  cases r with
  | error e => cases o <;> exact Or.inl ht
  | ok x =>
    obtain ⟨rfl, d, hreply⟩ := World.effect_ok h
    cases o with
    | findUnique a =>
      obtain rfl := Except.ok.inj hreply
      simp only [Progress.next] at ht
      split at ht
      · rename_i found hfound
        rcases List.mem_cons.mp ht with rfl | ht
        · exact Or.inr ⟨a, (truthy_eq_some.mp hfound).1, Or.inl rfl⟩
        · exact Or.inl ht
      · exact Or.inl ht
    | upsert a t' label =>
      rcases List.mem_cons.mp ht with rfl | ht
      · refine Or.inr ⟨a, World.rowText_upsert ?_, Or.inr ⟨label, rfl⟩⟩
        simp only [World.reply] at hreply
        split_ifs at hreply with hwritten
        exact hwritten
      · exact Or.inl ht
    | _ => exact Or.inl ht

/-- A file that a request has read was there. -/
theorem files_of_next (h : w.effect o c = some (r, w')) (ht : t ∈ (l.next o r).files) :
    t ∈ l.files ∨ ∃ a, o = .readFile a ∧ w.files a = some t := by
  cases r with
  | error e => cases o <;> exact Or.inl ht
  | ok x =>
    obtain ⟨-, d, hreply⟩ := World.effect_ok h
    cases o with
    | readFile a =>
      obtain rfl := Except.ok.inj hreply
      rcases List.mem_append.mp ht with hfile | hold
      · exact Or.inr ⟨a, rfl, by simpa using hfile⟩
      · exact Or.inl hold
    | findUnique a =>
      simp only [Progress.next] at ht
      split at ht <;> exact Or.inl ht
    | _ => exact Or.inl ht

/-- A request that found no text found the row without one. -/
theorem missed_of_next (h : w.effect o c = some (r, w')) (hmissed : (l.next o r).missed = true) :
    l.missed = true ∨ ∃ a, o = .findUnique a ∧ truthy (w'.rowText a) = none := by
  cases r with
  | error e => cases o <;> exact Or.inl hmissed
  | ok x =>
    obtain ⟨rfl, d, hreply⟩ := World.effect_ok h
    cases o with
    | findUnique a =>
      obtain rfl := Except.ok.inj hreply
      simp only [Progress.next] at hmissed
      split at hmissed
      · exact Or.inl hmissed
      · rename_i hnone
        exact Or.inr ⟨a, rfl, hnone⟩
    | _ => exact Or.inl hmissed

end

/-! ### Whose keys the texts hold -/

section
variable (K : Keystore) (env : Env)

/-- The text opens to keys of the address only. -/
def Of (address t : String) : Prop :=
  ∀ password key, K.decrypt t password = some key → normalizeAddress (K.addressOf key) = address

/-- Rows and files are of the wallets that they are kept for. -/
structure World.Sound (w : World) : Prop where
  rows : ∀ a t, w.rowText a = some t → Of K a t
  files : ∀ a t, w.files a = some t → Of K a t

/-- What holds in every run from a world. -/
structure Genuine (w₀ : World) (s : State (processes K env)) : Prop where
  files : s.world.files = w₀.files
  rows : ∀ a t, s.world.rowText a = some t → Of K a t
  seen : ∀ i l, s.localOf (contract K env) i = some l → ∀ t ∈ l.seen, Of K l.kind.address t
  read : ∀ i l, s.localOf (contract K env) i = some l → ∀ t ∈ l.files, w₀.files l.kind.address = some t

end

section
variable {K : Keystore} {env : Env} {G : Guard (processes K env)} {w₀ : World} {s s' : State (processes K env)}
  {i n : ℕ} {k : Kind K} {l : Progress K} {o : Op} {c : Except Err o.Choice} {r : Except Err o.Reply}

abbrev Called (G : Guard (processes K env)) (s s' : State (processes K env)) (i : ℕ) (l : Progress K) (o : Op)
    (c : Except Err o.Choice) (r : Except Err o.Reply) : Prop := Stepped (contract K env) G s s' i l o c r

theorem local_after_call (st : Called G s s' i l o c r) {j : ℕ} {l' : Progress K}
    (h : s'.localOf (contract K env) j = some l') :
    (j = i ∧ l' = l.next o r) ∨ s.localOf (contract K env) j = some l' := by
  by_cases hj : j = i
  · subst hj
    exact Or.inl ⟨rfl, (Option.some.inj (st.self.symm.trans h)).symm⟩
  · exact Or.inr ((st.others j hj).symm.trans h)

theorem local_after_start (st : Started (contract K env) G s s' n k) {j : ℕ} {l' : Progress K}
    (h : s'.localOf (contract K env) j = some l') :
    (j = n ∧ l' = { kind := k }) ∨ s.localOf (contract K env) j = some l' := by
  by_cases hj : j = n
  · subst hj
    exact Or.inl ⟨rfl, (Option.some.inj (st.self.symm.trans h)).symm⟩
  · exact Or.inr ((st.others j hj).symm.trans h)

theorem world_after_start (st : Started (contract K env) G s s' n k) : s'.world = s.world := by
  obtain ⟨p, hp⟩ := st.started
  exact (Prod.mk.inj (Option.some.inj hp)).2.symm

/-- The key that a request holds is of the wallet that it is about. -/
theorem Genuine.address_of_holds (h : Genuine K env w₀ s) (hl : s.localOf (contract K env) i = some l) {key : K.Key}
    (hkey : l.Holds key) : normalizeAddress (K.addressOf key) = l.kind.address := by
  rcases hkey with ⟨label, hkind⟩ | ⟨t, ht, password, hopen⟩
  · rw [hkind]
    rfl
  · exact h.seen i l hl t ht password key hopen

/-- What a request may write is of the wallet that it is about. -/
theorem Genuine.of_upsert (h : Genuine K env w₀ s) (hsound : w₀.Sound K) (hl : s.localOf (contract K env) i = some l)
    {a t : String} {label : Option String} (hallowed : l.Allowed env (.upsert a t label)) : Of K a t := by
  obtain ⟨rfl, hfile | ⟨key, m, rfl, hkey⟩⟩ := hallowed
  · exact hsound.files _ t (h.read i l hl t hfile)
  · intro password key' hopen
    rw [K.decrypt_other key _ m password key' hopen]
    exact h.address_of_holds hl hkey

theorem Genuine.called (h : Genuine K env w₀ s) (hsound : w₀.Sound K) (st : Called G s s' i l o c r) :
    Genuine K env w₀ s' := by
  have hrows : ∀ a t, s'.world.rowText a = some t → Of K a t := by
    intro a t ht
    rcases World.rowText_of_effect st.performed a with
      hsame | ⟨t', label, rfl, hnew⟩ | ⟨rfl, hnew⟩ | ⟨row, rfl, -, hnew⟩
    · exact h.rows a t (hsame ▸ ht)
    · obtain rfl := Option.some.inj (hnew.symm.trans ht)
      have hallowed : l.Allowed env (.upsert a t' label) := st.allowed
      exact h.of_upsert hsound st.caller hallowed
    · rw [hnew] at ht
      cases ht
    · have hnone : row.encryptedJson = none := st.allowed
      rw [hnew, hnone] at ht
      cases ht
  refine ⟨(World.files_of_effect st.performed).trans h.files, hrows, fun j l' hl' t ht => ?_, fun j l' hl' t ht => ?_⟩
  · rcases local_after_call st hl' with ⟨rfl, rfl⟩ | hold
    · rw [(Progress.grows_next l o r).kind]
      rcases seen_of_effect st.performed ht with hseen | ⟨a, hrow, hop⟩
      · exact h.seen j l st.caller t hseen
      · have ha : a = l.kind.address := by
          rcases hop with rfl | ⟨label, rfl⟩
          · exact st.allowed
          · exact st.allowed.1
        exact ha ▸ hrows a t hrow
    · exact h.seen j l' hold t ht
  · rcases local_after_call st hl' with ⟨rfl, rfl⟩ | hold
    · rw [(Progress.grows_next l o r).kind]
      rcases files_of_next st.performed ht with hread | ⟨a, rfl, hfile⟩
      · exact h.read j l st.caller t hread
      · have ha : a = l.kind.address := st.allowed
        rw [← ha, ← h.files]
        exact hfile
    · exact h.read j l' hold t ht

theorem Genuine.started (h : Genuine K env w₀ s) (st : Started (contract K env) G s s' n k) : Genuine K env w₀ s' := by
  have hworld := world_after_start st
  refine ⟨hworld ▸ h.files, hworld ▸ h.rows, fun j l' hl' t ht => ?_, fun j l' hl' t ht => ?_⟩
  · rcases local_after_start st hl' with ⟨rfl, rfl⟩ | hold
    · cases ht
    · exact h.seen j l' hold t ht
  · rcases local_after_start st hl' with ⟨rfl, rfl⟩ | hold
    · cases ht
    · exact h.read j l' hold t ht

theorem genuine_of_reachable (hsound : w₀.Sound K) (h : Reachable G (State.initial w₀) s) : Genuine K env w₀ s := by
  refine h.invariant (contract K env) _ ⟨rfl, hsound.rows, ?_, ?_⟩ (fun _ _ _ _ _ ih st => ih.started st)
    fun _ _ _ _ _ _ _ _ ih st => ih.called hsound st
  · exact fun i l hl => by cases hl
  · exact fun i l hl => by cases hl

end

/-! ### Nothing is lost -/

section
variable (K : Keystore) (env : Env)

/-- One of the two passwords opens the text. -/
def Opens (t : String) : Prop :=
  ∃ password ∈ [env.ENCRYPTION_PASSWORD, env.THIRDWEB_API_SECRET_KEY], ∃ key, K.decrypt t password = some key

/-- The text that is found for the address opens to its key. -/
def Held (w : World) (a : String) : Prop :=
  ∃ t, w.text a = some t ∧ ∃ password ∈ [env.ENCRYPTION_PASSWORD, env.THIRDWEB_API_SECRET_KEY],
    ∃ key, K.decrypt t password = some key ∧ normalizeAddress (K.addressOf key) = a

/-- Nobody removes the wallet. -/
def keeping (a : String) : Guard (processes K env) where
  start _ _ := true
  call _ _ o _ := o ≠ .delete a

end

section
variable {K : Keystore} {env : Env} {w₀ : World} {s s' : State (processes K env)}
  {i n : ℕ} {k : Kind K} {l : Progress K} {o : Op} {c : Except Err o.Choice} {r : Except Err o.Reply} {a : String}

/-- The text of a wallet that nobody removes is replaced only by one of its file, or by one under the new password. -/
theorem rowText_kept (hg : Genuine K env w₀ s) (st : Called (keeping K env a) s s' i l o c r) :
    s'.world.rowText a = s.world.rowText a ∨ (∃ t, s'.world.rowText a = some t ∧ w₀.files a = some t) ∨
      ∃ key m, s'.world.rowText a = some (K.encrypt key env.ENCRYPTION_PASSWORD m) := by
  rcases World.rowText_of_effect st.performed a with hsame | ⟨t, label, rfl, hnew⟩ | ⟨rfl, -⟩ | ⟨row, rfl, hnone, hnew⟩
  · exact Or.inl hsame
  · obtain ⟨haddress, hfile | ⟨key, m, rfl, -⟩⟩ := st.allowed
    · refine Or.inr (Or.inl ⟨t, hnew, ?_⟩)
      rw [haddress]
      exact hg.read i l st.caller t hfile
    · exact Or.inr (Or.inr ⟨key, m, hnew⟩)
  · have hgranted := st.granted
    simp [keeping] at hgranted
  · have hblank : row.encryptedJson = none := st.allowed
    have hbefore : s.world.rowText a = none := by rw [World.rowText, hnone]; rfl
    exact Or.inl (by rw [hnew, hblank, hbefore])

theorem opens_after_call (hfile : ∀ t, w₀.files a = some t → Opens K env t) (hg : Genuine K env w₀ s)
    (hopens : ∃ t, s.world.text a = some t ∧ Opens K env t) (st : Called (keeping K env a) s s' i l o c r) :
    ∃ t, s'.world.text a = some t ∧ Opens K env t := by
  have hfiles : s'.world.files = s.world.files := World.files_of_effect st.performed
  rcases rowText_kept hg st with hsame | ⟨t, hnew, hread⟩ | ⟨key, m, hnew⟩
  · have htext : s'.world.text a = s.world.text a := by rw [World.text, World.text, hsame, hfiles]
    rw [htext]
    exact hopens
  · refine ⟨t, ?_, hfile t hread⟩
    rw [World.text, hnew, hfiles, hg.files, hread]
    by_cases hempty : t = ""
    · simp [truthy, Option.filter, hempty]
    · simp [truthy, Option.filter, hempty]
  · refine ⟨_, ?_, env.ENCRYPTION_PASSWORD, List.mem_cons_self, key, K.decrypt_encrypt key _ m⟩
    have htruthy : truthy (some (K.encrypt key env.ENCRYPTION_PASSWORD m))
        = some (K.encrypt key env.ENCRYPTION_PASSWORD m) := truthy_eq_some.mpr ⟨rfl,
          K.ne_of_decrypt (K.decrypt_encrypt key _ m)⟩
    rw [World.text, hnew, htruthy]
    rfl

end

/-! ### A wallet under the old password -/

section
/-- One key, in texts that show the password. -/
def oneKey : Keystore where
  Key := Unit
  addressOf _ := "0xab"
  encrypt _ password _ := password ++ "#"
  decrypt t password := if t = password ++ "#" then some () else none
  decrypt_empty password := by
    refine if_neg fun h => ?_
    have hlength := congrArg String.length h
    rw [String.length_append] at hlength
    have hmark : "#".length = 1 := rfl
    rw [hmark] at hlength
    simp at hlength
  decrypt_encrypt key password _ := by simp
  decrypt_other _ _ _ _ _ _ := rfl

def passwords : Env := { ENCRYPTION_PASSWORD := "new", THIRDWEB_API_SECRET_KEY := "old" }

def oldTable : World :=
  { rows := fun a => if a = "0xab" then some { type := .local, label := none, encryptedJson := some "old#" } else none
    files := fun _ => none }

theorem normalizeAddress_ab : normalizeAddress "0xab" = "0xab" := by
  unfold normalizeAddress
  rw [← String.toList_inj, toList_toLower]
  decide

theorem of_oneKey (t : String) : Of oneKey "0xab" t := fun _ _ _ => normalizeAddress_ab

theorem sound_oldTable : oldTable.Sound oneKey := by
  refine ⟨fun a t ht => ?_, fun a t ht => by cases ht⟩
  by_cases ha : a = "0xab"
  · rw [ha]
    exact of_oneKey t
  · simp [World.rowText, oldTable, ha] at ht

theorem held_oldTable : Held oneKey passwords oldTable "0xab" :=
  ⟨"old#", rfl, "old", by simp [passwords], (), rfl, normalizeAddress_ab⟩

def answering : (o : Op) → Except Err o.Choice
  | .getChainMetadata _ => .ok true
  | .randomBytes => .ok 0
  | .findUnique _ => .ok ()
  | .upsert _ _ _ => .ok ()
  | .create _ _ => .ok ()
  | .update _ _ => .ok ()
  | .delete _ => .ok ()
  | .readFile _ => .ok ()

/-- A request that moves the wallet to the new password, with all its calls. -/
def moving : List (Move (processes oneKey passwords)) :=
  .start (.getLocalWallet 1 "0xab") :: List.replicate 6 (.call 0 answering)

end

/-- However many processes load, add, relabel and migrate wallets at once, and wherever calls fail or processes stop: a
wallet that nobody removes can always be opened with one of the two passwords, and gives the key of its address. -/
theorem key_kept (K : Keystore) (env : Env) (w : World) (a : String) (hsound : w.Sound K)
    (hfile : ∀ t, w.files a = some t → Opens K env t) (hheld : Held K env w a) (s : State (processes K env))
    (h : Reachable (keeping K env a) (State.initial w) s) : Held K env s.world a := by
  have hopens : ∃ t, s.world.text a = some t ∧ Opens K env t := by
    refine h.invariant (contract K env) (fun s => ∃ t, s.world.text a = some t ∧ Opens K env t) ?_ ?_ ?_
    · obtain ⟨t, ht, password, hpassword, key, hkey, -⟩ := hheld
      exact ⟨t, ht, password, hpassword, key, hkey⟩
    · intro s s' n k _ hs st
      rw [world_after_start st]
      exact hs
    · intro s s' i l o c r hr hs st
      exact opens_after_call hfile (genuine_of_reachable hsound hr) hs st
  have hgenuine : Genuine K env w s := genuine_of_reachable hsound h
  obtain ⟨t, ht, password, hpassword, key, hkey⟩ := hopens
  refine ⟨t, ht, password, hpassword, key, hkey, ?_⟩
  have hof : Of K a t := by
    unfold World.text at ht
    cases hrow : truthy (s.world.rowText a) with
    | some t' =>
      have heq : t' = t := by simpa [hrow] using ht
      exact hgenuine.rows a t (heq ▸ (truthy_eq_some.mp hrow).1)
    | none =>
      have hfound : s.world.files a = some t := by simpa [hrow] using ht
      exact hsound.files a t (hgenuine.files ▸ hfound)
  exact hof password key hkey

theorem key_kept_moving : ∃ s, Reachable (keeping oneKey passwords "0xab") (State.initial oldTable) s ∧
    s.world.rowText "0xab" = some "new#" ∧ Held oneKey passwords s.world "0xab" := by
  have hrun := exists_reachable_of_run (keeping oneKey passwords "0xab") oldTable moving
    (fun s => s.world.rowText "0xab" = some "new#") (by decide +kernel)
  obtain ⟨s, hs, hmoved⟩ := hrun
  have hheld := key_kept oneKey passwords oldTable "0xab" sound_oldTable nofun held_oldTable s hs
  exact ⟨s, hs, of_decide_eq_true hmoved, hheld⟩

/-! ### What was loaded stays loadable -/

section
variable (K : Keystore) (env : Env)

/-- The row opens with the new password. -/
def Migrated (w : World) (a : String) : Prop :=
  ∃ t key, truthy (w.rowText a) = some t ∧ K.decrypt t env.ENCRYPTION_PASSWORD = some key

end

section
variable {K : Keystore} {env : Env} {w₀ : World} {s s' : State (processes K env)}
  {i n : ℕ} {k : Kind K} {l : Progress K} {o : Op} {c : Except Err o.Choice} {r : Except Err o.Reply} {a t : String}

theorem migrated_of_text {w : World} {key : K.Key} (ht : w.rowText a = some t)
    (hkey : K.decrypt t env.ENCRYPTION_PASSWORD = some key) : Migrated K env w a :=
  ⟨t, key, truthy_eq_some.mpr ⟨ht, K.ne_of_decrypt hkey⟩, hkey⟩

/-- Without a file, a migrated wallet stays so. -/
theorem migrated_after_call (hfile : w₀.files a = none) (hg : Genuine K env w₀ s) (h : Migrated K env s.world a)
    (st : Called (keeping K env a) s s' i l o c r) : Migrated K env s'.world a := by
  rcases rowText_kept hg st with hsame | ⟨t, -, hread⟩ | ⟨key, m, hnew⟩
  · obtain ⟨t, key, ht, hkey⟩ := h
    exact ⟨t, key, hsame ▸ ht, hkey⟩
  · rw [hfile] at hread
    cases hread
  · exact migrated_of_text hnew (K.decrypt_encrypt key _ m)

/-- Who has seen a text under the new password, saw it in the row. -/
def SeenMigrated (a : String) (s : State (processes K env)) : Prop :=
  ∀ i l, s.localOf (contract K env) i = some l → l.kind.address = a →
    ∀ t ∈ l.seen, ∀ key, K.decrypt t env.ENCRYPTION_PASSWORD = some key → Migrated K env s.world a

theorem address_of_seen (st : Called (keeping K env a) s s' i l o c r) {x : String}
    (hop : o = .findUnique x ∨ ∃ label, o = .upsert x t label) : x = l.kind.address := by
  rcases hop with rfl | ⟨label, rfl⟩
  · exact st.allowed
  · exact st.allowed.1

theorem seenMigrated_of_reachable (hfile : w₀.files a = none) (hsound : w₀.Sound K)
    (h : Reachable (keeping K env a) (State.initial w₀) s) : SeenMigrated a s := by
  refine h.invariant (contract K env) (SeenMigrated a) (fun i l hl => by cases hl) ?_ ?_
  · intro s s' n k _ ih st j l' hl' haddress t ht key hkey
    rw [world_after_start st]
    rcases local_after_start st hl' with ⟨rfl, rfl⟩ | hold
    · cases ht
    · exact ih j l' hold haddress t ht key hkey
  · intro s s' i l o c r hr ih st j l' hl' haddress t ht key hkey
    have hg : Genuine K env w₀ s := genuine_of_reachable hsound hr
    have hkeeps : Migrated K env s.world a → Migrated K env s'.world a :=
      fun hm => migrated_after_call hfile hg hm st
    rcases local_after_call st hl' with ⟨rfl, rfl⟩ | hold
    · rw [(Progress.grows_next l o r).kind] at haddress
      rcases seen_of_effect st.performed ht with hseen | ⟨x, hrow, hop⟩
      · exact hkeeps (ih j l st.caller haddress t hseen key hkey)
      · rw [address_of_seen st hop, haddress] at hrow
        exact migrated_of_text hrow hkey
    · exact hkeeps (ih j l' hold haddress t ht key hkey)

/-- After a wallet was migrated, whoever starts then sees it so. -/
structure Smooth (a : String) (n : ℕ) (s : State (processes K env)) : Prop where
  migrated : Migrated K env s.world a
  found : ∀ j l, n ≤ j → s.localOf (contract K env) j = some l → l.kind.address = a →
    l.missed = false ∧ ∀ t ∈ l.seen, ∃ key, K.decrypt t env.ENCRYPTION_PASSWORD = some key

theorem Smooth.called {n : ℕ} (h : Smooth a n s) (hfile : w₀.files a = none) (hg : Genuine K env w₀ s)
    (st : Called (keeping K env a) s s' i l o c r) : Smooth a n s' := by
  have hmigrated := migrated_after_call hfile hg h.migrated st
  refine ⟨hmigrated, fun j l' hj hl' haddress => ?_⟩
  rcases local_after_call st hl' with ⟨rfl, rfl⟩ | hold
  · have hkind := (Progress.grows_next l o r).kind
    rw [hkind] at haddress
    obtain ⟨hmissed, hseen⟩ := h.found j l hj st.caller haddress
    obtain ⟨t₀, key₀, htext, hkey₀⟩ := hmigrated
    constructor
    · by_contra hnow
      rcases missed_of_next st.performed (by simpa using hnow) with hbefore | ⟨x, rfl, hblank⟩
      · rw [hmissed] at hbefore
        cases hbefore
      · have hx : x = l.kind.address := st.allowed
        rw [hx, haddress, htext] at hblank
        cases hblank
    · intro t ht
      rcases seen_of_effect st.performed ht with hbefore | ⟨x, hrow, hop⟩
      · exact hseen t hbefore
      · rw [address_of_seen st hop, haddress, (truthy_eq_some.mp htext).1] at hrow
        exact ⟨key₀, Option.some.inj hrow ▸ hkey₀⟩
  · exact h.found j l' hj hold haddress

theorem Smooth.started {m : ℕ} (h : Smooth a m s) {G : Guard (processes K env)}
    (st : Started (contract K env) G s s' n k) : Smooth a m s' := by
  refine ⟨world_after_start st ▸ h.migrated, fun j l' hj hl' haddress => ?_⟩
  rcases local_after_start st hl' with ⟨rfl, rfl⟩ | hold
  · exact ⟨rfl, fun t ht => by cases ht⟩
  · exact h.found j l' hj hold haddress

/-- Who knows of a failure has had one. -/
theorem failed_of_faulty (l : Progress K) (hl : l.faulty = false) (i : ℕ) (tr : List (Event Calls))
    (h : ((protocol K env).after l i tr).faulty = true) : ∃ e ∈ tr, e.thread = i ∧ ∃ x, e.reply = .error x := by
  induction tr with
  | nil =>
    have hnone : l.faulty = true := h
    rw [hl] at hnone
    cases hnone
  | cons e tr ih =>
    rw [Protocol.after] at h
    split_ifs at h with hthread
    · cases hreply : e.reply with
      | error x => exact ⟨e, List.mem_cons_self, hthread, x, hreply⟩
      | ok x =>
        have hbefore : ((protocol K env).after l i tr).faulty = true := by
          rw [hreply] at h
          generalize (protocol K env).after l i tr = l' at h ⊢
          obtain ⟨thread, op, answer, reply⟩ := e
          cases op with
          | findUnique x =>
            simp only [Progress.next] at h
            split at h <;> exact h
          | _ => exact h
        obtain ⟨e', he', hlater⟩ := ih hbefore
        exact ⟨e', List.mem_cons_of_mem _ he', hlater⟩
    · obtain ⟨e', he', hlater⟩ := ih h
      exact ⟨e', List.mem_cons_of_mem _ he', hlater⟩

private theorem migrated_of_returned (hfile : w₀.files a = none) (hsound : w₀.Sound K)
    (h : Reachable (keeping K env a) (State.initial w₀) s) {key : K.Key} (hreturned : s.returned i = some (k, some key))
    (hk : k.address = a) : Migrated K env s.world a := by
  obtain ⟨⟨k', p⟩, hthread, hresult⟩ := Option.bind_eq_some_iff.mp hreturned
  obtain ⟨result, hp, hpair⟩ := Option.map_eq_some_iff.mp hresult
  obtain ⟨rfl, rfl⟩ := Prod.mk.inj hpair
  have hdone : p = .done (some key) := result?_eq_some.mp hp
  subst hdone
  have hends := (h.conforms (contract K env)).follows i k' _ hthread
  obtain ⟨t, ht, hkey⟩ := hends
  have hkind : ((contract K env).after ((contract K env).init k') i s.trace).kind = k' :=
    (contract K env).after_keeps (J := fun l => l.kind = k') rfl
      (fun l o r hl => (Progress.grows_next l o r).kind.trans hl) i s.trace
  exact seenMigrated_of_reachable hfile hsound h i _ (localOf_eq (contract K env) hthread)
    (by rw [hkind, hk]) t ht key hkey

private theorem smooth_of_reachable (hfile : w₀.files a = none) (hsound : w₀.Sound K)
    (h : Reachable (keeping K env a) (State.initial w₀) s) (hmigrated : Migrated K env s.world a)
    (h' : Reachable (keeping K env a) s s') : Smooth a s.threads.length s' := by
  refine h.invariant_from (contract K env) h' (Smooth a s.threads.length) ⟨hmigrated, fun j l hj hl _ => ?_⟩
    (fun _ _ _ _ _ ih st => ih.started st)
    fun _ _ _ _ _ _ _ hr ih st => ih.called hfile (genuine_of_reachable hsound hr) st
  have hnone : s.localOf (contract K env) j = none := by simp [State.localOf, List.getElem?_eq_none hj]
  rw [hnone] at hl
  cases hl

end

/-- Once a wallet without a file was loaded, in whichever way, and as long as nobody removes it, whoever starts to load
it later gets the key of its address, unless one of its own calls fails or the chain is unknown. -/
theorem loads_later (K : Keystore) (env : Env) (w : World) (a : String) (hsound : w.Sound K) (hfile : w.files a = none)
    (s : State (processes K env)) (h : Reachable (keeping K env a) (State.initial w) s)
    (hloaded : ∃ i k key, s.returned i = some (k, some key) ∧ k.address = a)
    (s' : State (processes K env)) (h' : Reachable (keeping K env a) s s') (j : ℕ) (hj : s.threads.length ≤ j)
    (k : Kind K) (hloads : k.loads = true) (hk : k.address = a) (p : Program Calls (Option K.Key))
    (hp : s'.threads[j]? = some (k, p)) (hfinished : p.isFinished = true) :
    (∃ key, p = .done (some key) ∧ normalizeAddress (K.addressOf key) = a) ∨
      (∃ e ∈ s'.trace, e.thread = j ∧ ∃ x, e.reply = .error x) ∨ ∃ chainId, p = .raise (.badChain chainId) := by
  obtain ⟨i₀, k₀, key₀, hreturned, hk₀⟩ := hloaded
  have hsmooth := smooth_of_reachable hfile hsound h (migrated_of_returned hfile hsound h hreturned hk₀) h'
  have hr' := h.trans h'
  have hgenuine : Genuine K env w s' := genuine_of_reachable hsound hr'
  have hends := (hr'.conforms (contract K env)).follows j k p hp
  have hlocal := localOf_eq (contract K env) hp
  have hkind : ((contract K env).after ((contract K env).init k) j s'.trace).kind = k :=
    (contract K env).after_keeps (J := fun l => l.kind = k) rfl
      (fun l o r hl => (Progress.grows_next l o r).kind.trans hl) j s'.trace
  have ⟨hmissed, hseen⟩ := hsmooth.found j _ hj hlocal (by rw [hkind, hk])
  cases p with
  | call o next => cases hfinished
  | done result =>
    cases result with
    | none =>
      have hnot : ((contract K env).after ((contract K env).init k) j s'.trace).kind.loads = false := hends
      rw [hkind, hloads] at hnot
      cases hnot
    | some key =>
      obtain ⟨t, ht, hkey⟩ := hends
      have hof := hgenuine.seen j _ hlocal t ht _ key hkey
      exact Or.inl ⟨key, rfl, by rw [hof, hkind, hk]⟩
  | raise e =>
    have hwhy := hends (by rw [hkind, hloads])
    rcases hwhy with (hfaulty | hnone | ⟨t, ht, hclosed⟩) | ⟨chainId, rfl⟩
    · exact Or.inr (Or.inl (failed_of_faulty { kind := k } rfl j s'.trace hfaulty))
    · rw [hmissed] at hnone
      cases hnone
    · obtain ⟨key, hkey⟩ := hseen t ht
      rw [hclosed] at hkey
      cases hkey
    · exact Or.inr (Or.inr ⟨chainId, rfl⟩)

theorem loads_later_moving : ∃ s s' k p, Reachable (keeping oneKey passwords "0xab") (State.initial oldTable) s ∧
    Reachable (keeping oneKey passwords "0xab") s s' ∧ s'.threads[1]? = some (k, p) ∧
      ((∃ key, p = .done (some key) ∧ normalizeAddress (oneKey.addressOf key) = "0xab") ∨
        (∃ e ∈ s'.trace, e.thread = 1 ∧ ∃ x, e.reply = .error x) ∨ ∃ chainId, p = .raise (.badChain chainId)) := by
  have hruns := exists_reachable_of_runs (keeping oneKey passwords "0xab") oldTable moving
    [.start (.getLocalWalletAccount "0xab"), .call 1 answering]
    (fun s s' => s.threads.length = 1 && (s.returned 0).any (fun r => r.2.isSome && r.1.address = "0xab") &&
      s'.threads[1]?.any fun t => t.2.isFinished && t.1.loads && t.1.address = "0xab") (by decide +kernel)
  obtain ⟨s, s', hs, hs', hcheck⟩ := hruns
  simp only [Bool.and_eq_true, decide_eq_true_eq, Option.any_eq_true] at hcheck
  obtain ⟨⟨hlength, ⟨k₀, key₀⟩, hreturned, hsome, hk₀⟩, ⟨k, p⟩, hthread, ⟨hfinished, hloads⟩, hk⟩ := hcheck
  obtain ⟨key, rfl⟩ := Option.isSome_iff_exists.mp hsome
  have hlater := loads_later oneKey passwords oldTable "0xab" sound_oldTable rfl s hs
    ⟨0, k₀, key, hreturned, hk₀⟩ s' hs' 1
    (by omega) k hloads hk p hthread hfinished
  exact ⟨s, s', k, p, hs, hs', hthread, hlater⟩

end Engine.LocalWallets
