import Mathlib.Data.List.Nodup
import Mathlib.Data.Set.Image
import Engine.Concurrent.Locks
import Engine.Cors.Configuration

/-! The requests that change the configured origins keep the mandatory URLs, and compose as
long as each replaces the list that it has read. -/
namespace Engine.Cors

open Concurrent Program

/-! ### Lists and sets -/

/-- The list has every mandatory URL. -/
def HasMandatory (list : String) : Prop := mandatory ⊆ urlsOf list

/-- No URL of the request has a comma. -/
def Request.commaFree : Request → Bool
  | .add _ urls | .remove _ urls | .set _ urls => urls.all fun url => ',' ∉ url.toList
  | .getConfig _ _ | .clearCache _ => true

/-- The request stores a list, when nothing fails. -/
def Request.stores : Request → Bool
  | .add _ _ | .set _ _ => true
  | .remove _ urls => !containsMandatoryUrl urls
  | .getConfig _ _ | .clearCache _ => false

/-- What it stores is made of the list that it has read. -/
def Request.reads : Request → Bool
  | .add _ _ | .remove _ _ => true
  | .set _ _ | .getConfig _ _ | .clearCache _ => false

/-- The list that it stores, from the one it has read. -/
def Request.listFrom (old : String) : Request → String
  | .add _ urls => addUrls urls old
  | .remove _ urls => removeUrls urls old
  | .set _ urls => setUrls urls
  | .getConfig _ _ | .clearCache _ => old

section
variable {urls l : List String} {list url old : String} {k : Request}

theorem mem_urlsOf_join (hl : l ≠ []) (hc : ∀ url ∈ l, ',' ∉ url.toList) :
    url ∈ urlsOf (join ',' (dedupe l)) ↔ url ∈ l := by
  have hne : dedupe l ≠ [] := fun h => hl (dedupe_eq_nil.mp h)
  have hsplit := split_join hne fun url hurl => hc url (mem_dedupe.mp hurl)
  show url ∈ split ',' (join ',' (dedupe l)) ↔ _
  rw [hsplit, mem_dedupe]

theorem not_mem_trimmed (h : urls.all (fun url => ',' ∉ url.toList) = true) (hurl : url ∈ urls.map trim) :
    ',' ∉ url.toList := by
  obtain ⟨url', hmem, rfl⟩ := List.mem_map.mp hurl
  have hall := List.all_eq_true.mp h url' hmem
  exact not_mem_trim (of_decide_eq_true hall)

theorem not_mem_mandatory (h : url ∈ mandatoryAllowedCorsUrls) : ',' ∉ url.toList := by
  revert url
  decide

theorem trim_mandatory (h : url ∈ mandatoryAllowedCorsUrls) : trim url = url := by
  revert url
  decide +kernel

theorem mem_withRequired : url ∈ withRequired urls ↔ url ∈ urls ∨ url ∈ mandatoryAllowedCorsUrls := by
  have hfold : ∀ (required : List String) (urls : List String), url ∈ required.foldl
      (fun urls url => if url ∈ urls then urls else urls ++ [url]) urls ↔ url ∈ urls ∨ url ∈ required := by
    intro required
    induction required with
    | nil => simp
    | cons r required ih =>
      intro urls
      rw [List.foldl_cons, ih]
      split_ifs with hr
      · constructor
        · intro h
          exact h.imp_right (List.mem_cons_of_mem r)
        · intro h
          rcases h with h | h
          · exact Or.inl h
          · rcases List.mem_cons.mp h with rfl | h
            · exact Or.inl hr
            · exact Or.inr h
      · simp [or_assoc]
  exact hfold mandatoryAllowedCorsUrls urls

theorem urlsOf_addUrls (h : urls.all (fun url => ',' ∉ url.toList) = true) :
    urlsOf (addUrls urls old) = trimmed urls ∪ mandatory ∪ urlsOf old := by
  ext url
  unfold addUrls
  rw [mem_urlsOf_join]
  · rw [List.mem_append, mem_withRequired]
    rfl
  · intro hnil
    exact absurd (List.append_eq_nil_iff.mp hnil).1 (by
      intro hreq
      have hmem : "https://thirdweb.com" ∈ withRequired (urls.map trim) := mem_withRequired.mpr (Or.inr (by decide))
      rw [hreq] at hmem
      cases hmem)
  · intro url hurl
    rcases List.mem_append.mp hurl with hurl | hurl
    · rcases mem_withRequired.mp hurl with hurl | hurl
      · exact not_mem_trimmed h hurl
      · exact not_mem_mandatory hurl
    · exact not_mem_of_mem_split hurl

theorem urlsOf_setUrls (h : urls.all (fun url => ',' ∉ url.toList) = true) :
    urlsOf (setUrls urls) = trimmed urls ∪ mandatory := by
  ext url
  unfold setUrls
  rw [mem_urlsOf_join]
  · exact List.mem_append
  · intro hnil
    cases (List.append_eq_nil_iff.mp hnil).2
  · intro url hurl
    rcases List.mem_append.mp hurl with hurl | hurl
    · exact not_mem_trimmed h hurl
    · exact not_mem_mandatory hurl

/-- A mandatory URL is left by a removal that is not rejected. -/
theorem not_removed (h : containsMandatoryUrl urls = false) (hurl : url ∈ mandatoryAllowedCorsUrls) :
    url ∉ urls.map trim := by
  intro hmem
  have hany : containsMandatoryUrl urls = true := List.any_eq_true.mpr ⟨url, hmem, decide_eq_true hurl⟩
  rw [h] at hany
  cases hany

private theorem urlsOf_removeUrls (hold : HasMandatory old) (h : containsMandatoryUrl urls = false) :
    urlsOf (removeUrls urls old) = trim '' urlsOf old \ trimmed urls := by
  have hkept : "https://thirdweb.com" ∈ ((split ',' old).map trim).filter (· ∉ urls.map trim) := by
    have hmem : "https://thirdweb.com" ∈ mandatoryAllowedCorsUrls := by decide
    refine List.mem_filter.mpr ⟨?_, decide_eq_true (not_removed h hmem)⟩
    exact List.mem_map.mpr ⟨_, hold hmem, trim_mandatory hmem⟩
  ext url
  unfold removeUrls
  rw [mem_urlsOf_join]
  · rw [List.mem_filter, decide_eq_true_eq]
    exact and_congr List.mem_map Iff.rfl
  · exact List.ne_nil_of_mem hkept
  · intro url hurl
    obtain ⟨url', hmem, rfl⟩ := List.mem_map.mp (List.mem_filter.mp hurl).1
    exact not_mem_trim (not_mem_of_mem_split hmem)

/-- The list that a request stores, as a set, is what the request is for. -/
theorem urlsOf_listFrom (hold : HasMandatory old) (hc : k.commaFree = true) (hs : k.stores = true) :
    urlsOf (k.listFrom old) = k.applyTo (urlsOf old) := by
  cases k with
  | add p urls => exact urlsOf_addUrls hc
  | remove p urls =>
    have h : containsMandatoryUrl urls = false := by simpa [Request.stores] using hs
    show urlsOf (removeUrls urls old) = if containsMandatoryUrl urls then _ else _
    rw [urlsOf_removeUrls hold h, h]
    rfl
  | set p urls => exact urlsOf_setUrls hc
  | getConfig p retrieveFromCache => cases hs
  | clearCache p => cases hs

theorem applyTo_of_not_stores {allowed : Set String} (hs : k.stores = false) : k.applyTo allowed = allowed := by
  cases k with
  | add p urls => cases hs
  | remove p urls =>
    have h : containsMandatoryUrl urls = true := by simpa [Request.stores] using hs
    exact if_pos h
  | set p urls => cases hs
  | getConfig p retrieveFromCache => rfl
  | clearCache p => rfl

theorem mandatory_subset_applyTo {allowed : Set String} (h : mandatory ⊆ allowed) : mandatory ⊆ k.applyTo allowed := by
  intro url hurl
  cases k with
  | add p urls => exact Or.inl (Or.inr hurl)
  | remove p urls =>
    unfold Request.applyTo
    dsimp only
    split_ifs with hm
    · exact h hurl
    · refine ⟨⟨url, h hurl, trim_mandatory hurl⟩, ?_⟩
      exact not_removed (Bool.eq_false_of_not_eq_true hm) hurl
  | set p urls => exact Or.inr hurl
  | getConfig p retrieveFromCache => exact h hurl
  | clearCache p => exact h hurl

theorem HasMandatory.ne_empty (h : HasMandatory list) : list ≠ "" := by
  intro hlist
  have hmem : "https://thirdweb.com" ∈ split ',' list :=
    h (by decide : "https://thirdweb.com" ∈ mandatoryAllowedCorsUrls)
  rw [hlist] at hmem
  revert hmem
  decide +kernel

end

/-! ### Contract -/

/-- How far a request is. -/
structure Progress where
  request : Request
  /-- The list that it read last. -/
  list : Option String := none
  /-- It has found an empty list, and not filled it. -/
  missing : Bool := false
  /-- It has stored its own list. -/
  stored : Bool := false

namespace Progress

def next (l : Progress) : (o : Op) → Except Thrown o.Reply → Progress
  | .getCached _, .ok config => { l with list := config }
  | .findConfiguration, .ok config => { l with list := some config, missing := config = "" }
  | .updateConfiguration _, .ok config =>
    if l.missing then { l with list := some config, missing := false } else { l with stored := true }
  | _, _ => l

/-- A request caches a list that it has read. It stores a list once, made of the one it has read. -/
inductive Allowed (l : Progress) : Op → Prop
  | getCached (p : ℕ) : Allowed l (.getCached p)
  | findConfiguration : Allowed l .findConfiguration
  | cache (p : ℕ) (config : String) (h : l.list = some config) : Allowed l (.setCached p (some config))
  | clear (p : ℕ) : Allowed l (.setCached p none)
  | fill (h : l.missing = true) : Allowed l (.updateConfiguration (join ',' mandatoryAllowedCorsUrls))
  | store (list old : String) (hmissing : l.missing = false) (hfirst : l.stored = false) (hs : l.request.stores = true)
      (hold : l.request.reads = true → l.list = some old) (hlist : list = l.request.listFrom old) :
      Allowed l (.updateConfiguration list)

def protocol : Protocol Calls where
  Local := Progress
  next := next
  allowed := Allowed
  possible _ r := ∀ e, r = .error e → e = .database

/-- An answered request that stores a list has stored it. -/
def Ends (l : Progress) : Except Thrown (List String) → Prop
  | .ok _ => l.request.stores = true → l.stored = true
  | .error e => e = cannotRemove → l.request.stores = false

/-- What reading the configuration leaves as it was, and that it read a list. -/
structure Reads (l l' : Progress) (r : Except Thrown String) : Prop where
  request : l'.request = l.request
  stored : l'.stored = l.stored
  list : ∀ config, r = .ok config → l'.list = some config ∧ l'.missing = false
  error : ∀ e, r = .error e → e = .database

variable {l l' : Progress}

theorem Reads.failed {e : Thrown} (hr : l'.request = l.request) (hs : l'.stored = l.stored) (he : e = .database) :
    Reads l l' (.error e) where
  request := hr
  stored := hs
  list _ h := by cases h
  error e' h := by
    cases h
    exact he

theorem Reads.read {config : String} (hr : l'.request = l.request) (hs : l'.stored = l.stored)
    (hl : l'.list = some config) (hm : l'.missing = false) : Reads l l' (.ok config) where
  request := hr
  stored := hs
  list config' h := by
    cases h
    exact ⟨hl, hm⟩
  error _ h := by cases h

theorem Reads.of_same {l₁ : Progress} {r : Except Thrown String} (h : Reads l₁ l' r) (hr : l₁.request = l.request)
    (hs : l₁.stored = l.stored) : Reads l l' r where
  request := h.request.trans hr
  stored := h.stored.trans hs
  list := h.list
  error := h.error

theorem next_fill (list config : String) (hm : l.missing = true) :
    l.next (.updateConfiguration list) (.ok config) = { l with list := some config, missing := false } := if_pos hm

theorem next_store (list config : String) (hm : l.missing = false) :
    l.next (.updateConfiguration list) (.ok config) = { l with stored := true } := by
  unfold next
  rw [hm]
  rfl

theorem follows_getConfiguration : getConfiguration.Follows protocol (Reads l) l := by
  unfold getConfiguration
  refine follows_await (P := protocol) .findConfiguration (fun config _ => ?_) (fun e he => ?_)
  · show Program.Follows protocol (Reads l) (if config = "" then _ else _) _
    split_ifs with hempty
    · have hmissing : (l.next .findConfiguration (.ok config)).missing = true := decide_eq_true hempty
      apply follows_perform (P := protocol) (.fill hmissing)
      intro r hr
      cases r with
      | error e => exact .failed rfl rfl (hr e rfl)
      | ok filled =>
        have hfilled := next_fill (join ',' mandatoryAllowedCorsUrls) filled hmissing
        have hread : Reads l (next (next l .findConfiguration (.ok config))
            (.updateConfiguration (join ',' mandatoryAllowedCorsUrls)) (.ok filled)) (.ok filled) := by
          rw [hfilled]
          exact .read rfl rfl rfl rfl
        exact hread
    · exact .read rfl rfl rfl (decide_eq_false hempty)
  · exact .failed rfl rfl (he e rfl)

theorem follows_retrieveConfig (p : ℕ) : (retrieveConfig p).Follows protocol (Reads l) l := by
  apply follows_getConfiguration.bind
  · intro l' config h
    obtain ⟨hlist, hmissing⟩ := h.list config rfl
    refine follows_await (P := protocol) (.cache p config hlist) (fun _ _ => ?_) (fun e he => ?_)
    · exact .read h.request h.stored hlist hmissing
    · exact .failed h.request h.stored (he e rfl)
  · intro l' e h
    exact h

/-- Reading the configuration, from the cache or anew. -/
theorem follows_getConfig (p : ℕ) (retrieveFromCache : Bool) (hm : l.missing = false) :
    (getConfig p retrieveFromCache).Follows protocol (Reads l) l := by
  unfold getConfig
  refine follows_await (P := protocol) (.getCached p) (fun config _ => ?_) (fun e he => ?_)
  · have hretrieve : (retrieveConfig p).Follows protocol (Reads l) (l.next (.getCached p) (.ok config)) :=
      (follows_retrieveConfig p).mono fun _ _ h => h.of_same rfl rfl
    cases config with
    | none => exact hretrieve
    | some config =>
      show Program.Follows protocol (Reads l) (if retrieveFromCache then _ else _) _
      split_ifs
      · exact .read rfl rfl rfl hm
      · exact hretrieve
  · exact .failed rfl rfl (he e rfl)

theorem ends_of_database {e : Thrown} (he : e = .database) : Ends l (.error e) := by
  intro h
  rw [he] at h
  cases h

theorem follows_storeAndFetch (p : ℕ) {list : String} (ha : Allowed l (.updateConfiguration list))
    (hm : l.missing = false) : (storeAndFetch p list).Follows protocol Ends l := by
  unfold storeAndFetch
  refine follows_await (P := protocol) ha (fun config _ => ?_) (fun e he => ends_of_database (he e rfl))
  have hstored := next_store list config hm
  show Program.Follows protocol Ends _ (next l (.updateConfiguration list) (.ok config))
  rw [hstored]
  apply (follows_getConfig (l := { l with stored := true }) p false hm).bind
  · intro l' _ h _
    exact h.stored
  · intro l' e h
    exact ends_of_database (h.error e rfl)

theorem follows_add (p : ℕ) (urlsToAdd : List String) :
    (addUrlToCorsConfiguration p urlsToAdd).Follows protocol Ends { request := .add p urlsToAdd } := by
  apply (follows_getConfig p true rfl).bind
  · intro l oldConfig h
    obtain ⟨hlist, hmissing⟩ := h.list oldConfig rfl
    refine follows_storeAndFetch p (.store _ oldConfig hmissing h.stored ?_ (fun _ => hlist) ?_) hmissing
    · rw [h.request]
      rfl
    · rw [h.request]
      rfl
  · intro l e h
    exact ends_of_database (h.error e rfl)

theorem follows_remove (p : ℕ) (urlsToRemove : List String) :
    (removeUrlToCorsConfiguration p urlsToRemove).Follows protocol Ends { request := .remove p urlsToRemove } := by
  apply (follows_getConfig p true rfl).bind
  · intro l currentConfig h
    obtain ⟨hlist, hmissing⟩ := h.list currentConfig rfl
    show Program.Follows protocol Ends (if containsMandatoryUrl urlsToRemove then _ else _) _
    split_ifs with hmandatory
    · intro _
      rw [h.request]
      show (!containsMandatoryUrl urlsToRemove) = false
      rw [hmandatory]
      rfl
    · refine follows_storeAndFetch p (.store _ currentConfig hmissing h.stored ?_ (fun _ => hlist) ?_) hmissing
      · rw [h.request]
        show (!containsMandatoryUrl urlsToRemove) = true
        rw [Bool.eq_false_of_not_eq_true hmandatory]
        rfl
      · rw [h.request]
        rfl
  · intro l e h
    exact ends_of_database (h.error e rfl)

theorem follows_set (p : ℕ) (urls : List String) :
    (setUrlsToCorsConfiguration p urls).Follows protocol Ends { request := .set p urls } := by
  refine follows_storeAndFetch p (.store _ "" rfl rfl rfl ?_ rfl) rfl
  intro h
  cases h

theorem follows_fetchConfig (p : ℕ) (retrieveFromCache : Bool) : (fetchConfig p retrieveFromCache).Follows protocol
    Ends { request := .getConfig p retrieveFromCache } := by
  apply (follows_getConfig p retrieveFromCache rfl).bind
  · intro l config h hs
    rw [h.request] at hs
    cases hs
  · intro l e h
    exact ends_of_database (h.error e rfl)

theorem follows_invalidateConfig (p : ℕ) :
    (invalidateConfig p).Follows protocol Ends { request := .clearCache p } := by
  refine follows_await (P := protocol) (.clear p) (fun _ _ => ?_) (fun e he => ends_of_database (he e rfl))
  intro hs
  cases hs

end Progress

def corsContract : Contract corsRequests where
  toProtocol := Progress.protocol
  init k := { request := k }
  ends := Progress.Ends
  answers w o a r w' h := by
    intro e he
    rcases World.effect_cases h with ⟨rfl, -⟩ | ⟨rfl, -⟩
    · cases he
      rfl
    · cases he
  starts w k p w' h := by
    cases k with
    | add p urlsToAdd =>
      cases Option.some.inj h
      exact Progress.follows_add p urlsToAdd
    | remove p urlsToRemove =>
      cases Option.some.inj h
      exact Progress.follows_remove p urlsToRemove
    | set p urls =>
      cases Option.some.inj h
      exact Progress.follows_set p urls
    | getConfig p retrieveFromCache =>
      cases Option.some.inj h
      exact Progress.follows_fetchConfig p retrieveFromCache
    | clearCache p =>
      cases Option.some.inj h
      exact Progress.follows_invalidateConfig p

/-! ### Runs -/

/-- Any interleaving of requests whose URLs have no comma. -/
def anyOrder : Guard corsRequests where
  start _ k := k.commaFree
  call _ _ _ _ := true

/-- The list that the request is about to replace is the one it has read. -/
def Progress.current (w : World) (l : Progress) : Bool :=
  l.missing || !l.request.reads || l.list = some w.accessControlAllowOrigin

/-- An addition or a removal stores its list while the one it has read is still stored. -/
def onCurrentList : Guard corsRequests where
  start := anyOrder.start
  call s i
    | .updateConfiguration _, _ => (s.localOf corsContract i).all (Progress.current s.world)
    | _, _ => true

/-- The stored list and the cached ones have every mandatory URL. -/
structure World.Intact (w : World) : Prop where
  stored : HasMandatory w.accessControlAllowOrigin
  cached : ∀ p config, w.config p = some config → HasMandatory config

section
variable {G : Guard corsRequests} {s s' : State corsRequests} {w : World} {i n : ℕ} {l : Progress} {k : Request}
  {o : Op} {a : Except Thrown Unit} {r : Except Thrown o.Reply} {order : List ℕ}

/-- What a request is about to store has every mandatory URL as well. -/
structure Intact (s : State corsRequests) : Prop where
  world : s.world.Intact
  read : ∀ i l config, s.localOf corsContract i = some l → l.list = some config → HasMandatory config
  filled : ∀ i l, s.localOf corsContract i = some l → l.missing = false
  commaFree : ∀ i l, s.localOf corsContract i = some l → l.request.commaFree = true

theorem Progress.request_next (l : Progress) (o : Op) (r : Except Thrown o.Reply) :
    (l.next o r).request = l.request := by
  unfold Progress.next
  split
  · rfl
  · rfl
  · split_ifs <;> rfl
  · rfl

theorem Progress.next_error (l : Progress) (o : Op) (e : Thrown) : l.next o (.error e) = l := by cases o <;> rfl

theorem Intact.start (h : Intact s) (st : Started corsContract G s s' n k) (hG : G.start = anyOrder.start) :
    Intact s' := by
  have hworld : s'.world = s.world := by
    obtain ⟨p, hp⟩ := st.started
    cases k <;> exact (Prod.mk.inj (Option.some.inj hp)).2.symm
  have hfree : k.commaFree = true := by
    have hgranted := st.granted
    rw [hG] at hgranted
    exact hgranted
  constructor
  · rw [hworld]
    exact h.world
  · intro j l config hl hlist
    rcases st.localOf hl with ⟨rfl, rfl⟩ | ⟨-, hj⟩
    · cases hlist
    · exact h.read j l config hj hlist
  · intro j l hl
    rcases st.localOf hl with ⟨rfl, rfl⟩ | ⟨-, hj⟩
    · rfl
    · exact h.filled j l hj
  · intro j l hl
    rcases st.localOf hl with ⟨rfl, rfl⟩ | ⟨-, hj⟩
    · exact hfree
    · exact h.commaFree j l hj

/-- What a request stores has every mandatory URL. -/
theorem Intact.hasMandatory_listFrom (h : Intact s) {old : String} (hl : s.localOf corsContract i = some l)
    (hs : l.request.stores = true) (hold : l.request.reads = true → l.list = some old) :
    HasMandatory (l.request.listFrom old) := by
  cases hreads : l.request.reads with
  | true =>
    have hmandatory := h.read i l old hl (hold hreads)
    unfold HasMandatory
    rw [urlsOf_listFrom hmandatory (h.commaFree i l hl) hs]
    exact mandatory_subset_applyTo hmandatory
  | false =>
    have hfree := h.commaFree i l hl
    cases hk : l.request with
    | set p urls =>
      rw [hk] at hfree
      show mandatory ⊆ urlsOf (setUrls urls)
      rw [urlsOf_setUrls hfree]
      exact Set.subset_union_right
    | add p urls =>
      rw [hk] at hreads
      cases hreads
    | remove p urls =>
      rw [hk] at hreads
      cases hreads
    | getConfig p retrieveFromCache =>
      rw [hk] at hs
      cases hs
    | clearCache p =>
      rw [hk] at hs
      cases hs

/-- What a call of a request does to the lists of the world, and to the one that it has read. -/
theorem Intact.performed (h : Intact s) (st : Stepped corsContract G s s' i l o a r) : s'.world.Intact ∧
    (∀ config, (l.next o r).list = some config → HasMandatory config) ∧ (l.next o r).missing = false := by
  have hmissing := h.filled i l st.caller
  have hread := h.read i l
  rcases World.effect_cases st.performed with ⟨rfl, hworld⟩ | ⟨rfl, hworld⟩
  · rw [hworld, Progress.next_error]
    exact ⟨h.world, fun config => hread config st.caller, hmissing⟩
  · rw [hworld]
    cases o with
    | getCached p => exact ⟨h.world, fun config hconfig => h.world.cached p config hconfig, hmissing⟩
    | findConfiguration =>
      refine ⟨h.world, fun config hconfig => ?_, decide_eq_false h.world.stored.ne_empty⟩
      rw [← Option.some.inj hconfig]
      exact h.world.stored
    | setCached p config =>
      refine ⟨⟨h.world.stored, fun p' config' hconfig => ?_⟩, fun config => hread config st.caller, hmissing⟩
      have hcached : (if p' = p then config else s.world.config p') = some config' := hconfig
      split_ifs at hcached
      · cases st.allowed with
        | cache _ config hlist =>
          rw [← Option.some.inj hcached]
          exact hread config st.caller hlist
        | clear => cases hcached
      · exact h.world.cached p' config' hcached
    | updateConfiguration list =>
      have hnext := Progress.next_store list list hmissing
      show World.Intact _ ∧ (∀ config, (l.next (.updateConfiguration list) (.ok list)).list = _ → _) ∧
        (l.next (.updateConfiguration list) (.ok list)).missing = false
      rw [hnext]
      refine ⟨⟨?_, h.world.cached⟩, fun config => hread config st.caller, hmissing⟩
      cases st.allowed with
      | fill hfill =>
        rw [hmissing] at hfill
        cases hfill
      | store _ old _ _ hs hold hlist =>
        show HasMandatory list
        rw [hlist]
        exact h.hasMandatory_listFrom st.caller hs hold

theorem Intact.call (h : Intact s) (st : Stepped corsContract G s s' i l o a r) : Intact s' := by
  obtain ⟨hworld, hread, hmissing⟩ := h.performed st
  constructor
  · exact hworld
  · intro j l' config hl hlist
    rcases st.localOf hl with ⟨-, rfl⟩ | ⟨-, hj⟩
    · exact hread config hlist
    · exact h.read j l' config hj hlist
  · intro j l' hl
    rcases st.localOf hl with ⟨-, rfl⟩ | ⟨-, hj⟩
    · exact hmissing
    · exact h.filled j l' hj
  · intro j l' hl
    rcases st.localOf hl with ⟨-, rfl⟩ | ⟨-, hj⟩
    · rw [show (corsContract.next l o r).request = l.request from Progress.request_next l o r]
      exact h.commaFree i l st.caller
    · exact h.commaFree j l' hj

theorem Intact.reachable (hw : w.Intact) (hG : G.start = anyOrder.start) (h : Reachable G (State.initial w) s) :
    Intact s := by
  apply h.invariant corsContract Intact
  · constructor
    · exact hw
    · intro i l config hl
      cases hl
    · intro i l hl
      cases hl
    · intro i l hl
      cases hl
  · intro s s' n k _ ih st
    exact ih.start st hG
  · intro s s' i l o a r _ ih st
    exact ih.call st

/-! ### The order -/

private theorem request_after (l : Progress) (i : ℕ) (tr : List (Event Calls)) :
    (corsContract.after l i tr).request = l.request :=
  corsContract.after_keeps (J := fun l' => Progress.request l' = l.request) rfl
    (fun l' o r h => (Progress.request_next l' o r).trans h) i tr

theorem applyAt_of_localOf {allowed : Set String} (hl : s.localOf corsContract i = some l) :
    applyAt s allowed i = l.request.applyTo allowed := by
  obtain ⟨t, ht, rfl⟩ := Option.map_eq_some_iff.mp hl
  have hrequest : (corsContract.after (corsContract.init t.1) i s.trace).request = t.1 := request_after _ _ _
  unfold applyAt
  rw [ht, hrequest]

/-- The requests that have stored their lists, in the order in which they did. -/
structure Ordered (w : World) (s : State corsRequests) (order : List ℕ) : Prop where
  nodup : order.Nodup
  mem : ∀ i, i ∈ order ↔ ∃ l, s.localOf corsContract i = some l ∧ l.stored = true
  applied : urlsOf s.world.accessControlAllowOrigin = order.foldl (applyAt s) (urlsOf w.accessControlAllowOrigin)

/-- The order of the requests that have stored makes the same of the URLs, when these are the same ones. -/
theorem Ordered.foldl_eq (h : Ordered w s order) {allowed : Set String}
    (hkept : ∀ j l, s.localOf corsContract j = some l →
      ∃ l', s'.localOf corsContract j = some l' ∧ l'.request = l.request) :
    order.foldl (applyAt s') allowed = order.foldl (applyAt s) allowed := by
  apply List.foldl_ext
  intro allowed j hj
  obtain ⟨l, hl, -⟩ := (h.mem j).mp hj
  obtain ⟨l', hl', hrequest⟩ := hkept j l hl
  rw [applyAt_of_localOf hl, applyAt_of_localOf hl', hrequest]

theorem request_kept_of_call (st : Stepped corsContract G s s' i l o a r) (j : ℕ) (l' : Progress)
    (hl : s.localOf corsContract j = some l') :
    ∃ l'', s'.localOf corsContract j = some l'' ∧ l''.request = l'.request := by
  by_cases hj : j = i
  · subst hj
    obtain rfl := Option.some.inj (st.caller.symm.trans hl)
    exact ⟨_, st.self, Progress.request_next l o r⟩
  · exact ⟨l', (st.others j hj).trans hl, rfl⟩

theorem Ordered.start (h : Ordered w s order) (st : Started corsContract G s s' n k) : Ordered w s' order := by
  have hworld : s'.world = s.world := by
    obtain ⟨p, hp⟩ := st.started
    cases k <;> exact (Prod.mk.inj (Option.some.inj hp)).2.symm
  constructor
  · exact h.nodup
  · intro j
    rw [h.mem]
    by_cases hj : j = n
    · subst hj
      constructor
      · intro hstored
        obtain ⟨l, hl, -⟩ := hstored
        rw [st.unused] at hl
        cases hl
      · intro hstored
        obtain ⟨l, hl, hs⟩ := hstored
        cases st.self.symm.trans hl
        cases hs
    · rw [st.others j hj]
  · rw [hworld, h.applied]
    refine (h.foldl_eq fun j l hl => ⟨l, ?_, rfl⟩).symm
    have hj : j ≠ n := by
      intro hj
      rw [hj, st.unused] at hl
      cases hl
    exact (st.others j hj).trans hl

/-- A call stores the list of its request, or leaves the stored list. -/
theorem Intact.stores_or_keeps (h : Intact s) (st : Stepped corsContract G s s' i l o a r) :
    (∃ list old, o = .updateConfiguration list ∧ l.stored = false ∧ (l.next o r).stored = true ∧
      l.request.stores = true ∧ (l.request.reads = true → l.list = some old) ∧
      s'.world.accessControlAllowOrigin = l.request.listFrom old) ∨
    ((l.next o r).stored = l.stored ∧ s'.world.accessControlAllowOrigin = s.world.accessControlAllowOrigin) := by
  have hmissing := h.filled i l st.caller
  rcases World.effect_cases st.performed with ⟨rfl, hworld⟩ | ⟨rfl, hworld⟩
  · rw [hworld, Progress.next_error]
    exact Or.inr ⟨rfl, rfl⟩
  · rw [hworld]
    cases o with
    | getCached p => exact Or.inr ⟨rfl, rfl⟩
    | findConfiguration => exact Or.inr ⟨rfl, rfl⟩
    | setCached p config => exact Or.inr ⟨rfl, rfl⟩
    | updateConfiguration list =>
      cases st.allowed with
      | fill hfill =>
        rw [hmissing] at hfill
        cases hfill
      | store _ old _ hfirst hs hold hlist =>
        have hnext := Progress.next_store list list hmissing
        exact Or.inl ⟨list, old, rfl, hfirst, congrArg Progress.stored hnext, hs, hold, hlist⟩

private theorem listFrom_of_not_reads {old old' : String} (h : k.reads = false) (hs : k.stores = true) :
    k.listFrom old = k.listFrom old' := by
  cases k with
  | set p urls => rfl
  | add p urls => cases h
  | remove p urls => cases h
  | getConfig p retrieveFromCache => cases hs
  | clearCache p => cases hs

/-- What is stored is made of what was stored before. -/
theorem listFrom_of_current {old : String} (hcurrent : l.current s.world = true) (hmissing : l.missing = false)
    (hs : l.request.stores = true) (hold : l.request.reads = true → l.list = some old) :
    l.request.listFrom old = l.request.listFrom s.world.accessControlAllowOrigin := by
  unfold Progress.current at hcurrent
  cases hreads : l.request.reads with
  | false => exact listFrom_of_not_reads hreads hs
  | true =>
    rw [hmissing, hreads] at hcurrent
    have hlist : l.list = some s.world.accessControlAllowOrigin := of_decide_eq_true hcurrent
    obtain rfl := Option.some.inj ((hold hreads).symm.trans hlist)
    rfl

theorem Ordered.call (h : Ordered w s order) (hi : Intact s) (st : Stepped corsContract onCurrentList s s' i l o a r) :
    ∃ order, Ordered w s' order := by
  have hstored : (l.next o r).stored = true ∨ (l.next o r).stored = l.stored := by
    rcases hi.stores_or_keeps st with ⟨_, _, _, _, hnext, _⟩ | ⟨hnext, _⟩
    · exact Or.inl hnext
    · exact Or.inr hnext
  have hmem : ∀ j, (∃ l', s'.localOf corsContract j = some l' ∧ l'.stored = true) ↔
      j ∈ order ∨ (j = i ∧ (l.next o r).stored = true) := by
    intro j
    rw [h.mem]
    by_cases hj : j = i
    · subst hj
      constructor
      · intro hnext
        obtain ⟨l', hl', hs⟩ := hnext
        obtain rfl := Option.some.inj (st.self.symm.trans hl')
        exact Or.inr ⟨rfl, hs⟩
      · intro hnext
        refine ⟨_, st.self, ?_⟩
        rcases hnext with ⟨l', hl', hs⟩ | ⟨-, hs⟩
        · obtain rfl := Option.some.inj (st.caller.symm.trans hl')
          rcases hstored with hstored | hstored
          · exact hstored
          · exact hstored.trans hs
        · exact hs
    · rw [st.others j hj]
      simp [hj]
  rcases hi.stores_or_keeps st with ⟨list, old, rfl, hfirst, hnext, hs, hold, hlist⟩ | ⟨hnext, hlist⟩
  · have hnew : i ∉ order := by
      intro hi
      obtain ⟨l', hl', hs'⟩ := (h.mem i).mp hi
      obtain rfl := Option.some.inj (st.caller.symm.trans hl')
      rw [hfirst] at hs'
      cases hs'
    have hcurrent : l.current s.world = true := by
      have hgranted : (s.localOf corsContract i).all (Progress.current s.world) = true := st.granted
      rw [st.caller] at hgranted
      exact hgranted
    refine ⟨order ++ [i], ?_, fun j => ?_, ?_⟩
    · exact List.nodup_append.mpr ⟨h.nodup, List.nodup_singleton i, fun j hj j' hj' hjj => hnew (by
        rw [← List.mem_singleton.mp hj', ← hjj]
        exact hj)⟩
    · rw [hmem, List.mem_append, List.mem_singleton]
      simp [hnext]
    · rw [hlist, listFrom_of_current hcurrent (hi.filled i l st.caller) hs hold,
        urlsOf_listFrom hi.world.stored (hi.commaFree i l st.caller) hs, h.applied, List.foldl_append,
        h.foldl_eq (request_kept_of_call st), List.foldl_cons, List.foldl_nil, applyAt_of_localOf st.self]
      exact congrArg _ (Progress.request_next l (.updateConfiguration list) r).symm
  · refine ⟨order, h.nodup, fun j => ?_, ?_⟩
    · rw [hmem, hnext]
      constructor
      · intro hj
        exact Or.inl hj
      · intro hj
        rcases hj with hj | ⟨rfl, hs⟩
        · exact hj
        · exact (h.mem j).mpr ⟨l, st.caller, hs⟩
    · rw [hlist, h.applied, h.foldl_eq (request_kept_of_call st)]

theorem exists_ordered (hw : w.Intact) (h : Reachable onCurrentList (State.initial w) s) :
    ∃ order, Ordered w s order := by
  apply h.invariant corsContract fun s => ∃ order, Ordered w s order
  · refine ⟨[], List.nodup_nil, fun i => ?_, rfl⟩
    constructor
    · intro hi
      cases hi
    · intro hi
      obtain ⟨l, hl, -⟩ := hi
      cases hl
  · intro s s' n k _ ih st
    obtain ⟨order, ih⟩ := ih
    exact ⟨order, ih.start st⟩
  · intro s s' i l o a r hs ih st
    obtain ⟨order, ih⟩ := ih
    exact ih.call (Intact.reachable (G := onCurrentList) hw rfl hs) st

/-- An answered request that has not stored leaves the URLs as they are. -/
theorem applyAt_of_answered {allowed : Set String} (hs : Reachable onCurrentList (State.initial w) s)
    (ho : Ordered w s order) (ha : Answered s) (hi : i ∉ order) :
    applyAt s allowed i = allowed := by
  cases ht : s.threads[i]? with
  | none =>
    unfold applyAt
    rw [ht]
  | some t =>
    obtain ⟨k, p⟩ := t
    have hl := localOf_eq corsContract ht
    have hends := (hs.conforms corsContract).follows i k p ht
    have hstored : (corsContract.after (corsContract.init k) i s.trace).stored = false := by
      cases hstored : (corsContract.after (corsContract.init k) i s.trace).stored with
      | false => rfl
      | true => exact absurd ((ho.mem i).mpr ⟨_, hl, hstored⟩) hi
    have hnot : (corsContract.after (corsContract.init k) i s.trace).request.stores = false := by
      obtain ⟨urls, rfl⟩ | rfl := ha i k p ht
      · cases hs : (corsContract.after (corsContract.init k) i s.trace).request.stores with
        | false => rfl
        | true =>
          have hdone := hends hs
          rw [hstored] at hdone
          cases hdone
      · exact hends rfl
    rw [applyAt_of_localOf hl]
    exact applyTo_of_not_stores hnot

private theorem composed (hs : Reachable onCurrentList (State.initial w) s) (ho : Ordered w s order)
    (ha : Answered s) : Composed w s := by
  have hlt : ∀ i ∈ order, i < s.threads.length := by
    intro i hi
    obtain ⟨l, hl, -⟩ := (ho.mem i).mp hi
    obtain ⟨t, ht, -⟩ := Option.map_eq_some_iff.mp hl
    exact (List.getElem?_eq_some_iff.mp ht).1
  have hrest : ∀ (rest : List ℕ) (allowed : Set String), (∀ i ∈ rest, i ∉ order) →
    rest.foldl (applyAt s) allowed = allowed := by
    intro rest
    induction rest with
    | nil =>
      intro allowed _
      rfl
    | cons i rest ih =>
      intro allowed hrest
      rw [List.foldl_cons, applyAt_of_answered hs ho ha (hrest i List.mem_cons_self)]
      exact ih allowed fun j hj => hrest j (List.mem_cons_of_mem i hj)
  refine ⟨order ++ (List.range s.threads.length).filter (· ∉ order), ?_, fun i => ?_, ?_⟩
  · refine List.nodup_append.mpr ⟨ho.nodup, List.nodup_range.filter _, fun i hi j hj hij => ?_⟩
    exact of_decide_eq_true (List.mem_filter.mp hj).2 (hij ▸ hi)
  · rw [List.mem_append, List.mem_filter, List.mem_range]
    constructor
    · intro hi
      rcases hi with hi | ⟨hi, -⟩
      · exact hlt i hi
      · exact hi
    · intro hi
      by_cases hmem : i ∈ order
      · exact Or.inl hmem
      · exact Or.inr ⟨hi, decide_eq_true hmem⟩
  · rw [List.foldl_append, hrest _ _ fun i hi => of_decide_eq_true (List.mem_filter.mp hi).2, ho.applied]

/-- The mandatory URLs are kept in any run. The requests compose in every run in which additions
and removals replace the list that they have read. -/
theorem compose_onCurrentList (hw : w.Intact) :
    (∀ s, Reachable anyOrder (State.initial w) s → mandatory ⊆ urlsOf s.world.accessControlAllowOrigin) ∧
    Compose onCurrentList w := by
  constructor
  · intro s hs
    exact (Intact.reachable (G := anyOrder) hw rfl hs).world.stored
  · intro s hs
    obtain ⟨order, ho⟩ := exists_ordered hw hs
    exact ⟨(Intact.reachable (G := onCurrentList) hw rfl hs).world.stored, composed hs ho⟩

end

/-- The list of a new service. -/
def mandatoryOnly : World where
  accessControlAllowOrigin := join ',' mandatoryAllowedCorsUrls

theorem intact_mandatoryOnly : mandatoryOnly.Intact where
  stored := by
    have hmem : ∀ url ∈ mandatoryAllowedCorsUrls, url ∈ split ',' mandatoryOnly.accessControlAllowOrigin := by
      decide +kernel
    exact hmem
  cached p config h := by cases h

abbrev starts (k : Request) : Move corsRequests := .start k

def proceeds (i n : ℕ) : List (Move corsRequests) := List.replicate n (.call i fun _ => .ok ())

/-- Every request has returned. -/
def allReturned (s : State corsRequests) : Bool := s.threads.all fun t => t.2.result?.isSome

theorem answered_of_allReturned {s : State corsRequests} (h : allReturned s = true) : Answered s := by
  intro i k p hi
  have hresult : p.result?.isSome = true := List.all_eq_true.mp h (k, p) (List.mem_of_getElem? hi)
  obtain ⟨urls, hurls⟩ := Option.isSome_iff_exists.mp hresult
  exact Or.inl ⟨urls, result?_eq_some.mp hurls⟩

/-- Two additions at one process. -/
def addedInTurn : List (Move corsRequests) :=
  starts (.add 0 ["https://a.com"]) :: proceeds 0 7 ++ starts (.add 0 ["https://b.com"]) :: proceeds 1 5

theorem compose_onCurrentList_addedInTurn :
    (∃ s, Reachable onCurrentList (State.initial mandatoryOnly) s ∧ Composed mandatoryOnly s ∧
      s.world.accessControlAllowOrigin =
        "https://b.com,https://thirdweb.com,https://embed.ipfscdn.io,https://a.com") ∧
    ∀ s, Reachable anyOrder (State.initial mandatoryOnly) s → mandatory ⊆ urlsOf s.world.accessControlAllowOrigin := by
  obtain ⟨hmandatory, hcompose⟩ := compose_onCurrentList intact_mandatoryOnly
  constructor
  · obtain ⟨s, hs, hcheck⟩ := exists_reachable_of_run onCurrentList mandatoryOnly addedInTurn
      (fun s => allReturned s && s.world.accessControlAllowOrigin =
        "https://b.com,https://thirdweb.com,https://embed.ipfscdn.io,https://a.com") (by decide +kernel)
    obtain ⟨hreturned, hlist⟩ := Bool.and_eq_true_iff.mp hcheck
    exact ⟨s, hs, (hcompose s hs).2 (answered_of_allReturned hreturned), of_decide_eq_true hlist⟩
  · exact hmandatory

/-- The process 1 has the list in its cache when the process 0 adds a URL, and then adds another. -/
def addedFromCache : List (Move corsRequests) :=
  starts (.getConfig 1 true) :: proceeds 0 3 ++ starts (.add 0 ["https://a.com"]) :: proceeds 1 7 ++
    starts (.add 1 ["https://b.com"]) :: proceeds 2 5

/-- A request that adds a URL allows it, whatever requests that only add come later. -/
theorem mem_foldl_of_mem {f : Set String → ℕ → Set String} {order : List ℕ} {i : ℕ} {url : String}
    {allowed : Set String} (hgrows : ∀ allowed i, allowed ⊆ f allowed i) (hi : i ∈ order)
    (hadd : ∀ allowed, url ∈ f allowed i) : url ∈ order.foldl f allowed := by
  have hkept : ∀ (order : List ℕ) (allowed : Set String), url ∈ allowed → url ∈ order.foldl f allowed := by
    intro order
    induction order with
    | nil => exact fun _ h => h
    | cons j order ih => exact fun allowed h => ih _ (hgrows allowed j h)
  induction order generalizing allowed with
  | nil => cases hi
  | cons j order ih =>
    rcases List.mem_cons.mp hi with rfl | hi
    · exact hkept order _ (hadd allowed)
    · exact ih hi

private theorem applyAt_of_kinds {s : State corsRequests} {ks : List Request} {allowed : Set String} {i : ℕ}
    (h : s.threads.map Prod.fst = ks) : applyAt s allowed i = (ks[i]?).elim allowed (Request.applyTo allowed) := by
  unfold applyAt
  rw [← h, List.getElem?_map]
  cases s.threads[i]? <;> rfl

theorem not_compose : ¬ ∀ w : World, w.Intact → Compose anyOrder w := by
  intro hgeneral
  obtain ⟨s, hs, hcheck⟩ := exists_reachable_of_run anyOrder mandatoryOnly addedFromCache
    (fun s => allReturned s && (s.threads.map Prod.fst = [.getConfig 1 true, .add 0 ["https://a.com"],
      .add 1 ["https://b.com"]] && "https://a.com" ∉ split ',' s.world.accessControlAllowOrigin)) (by decide +kernel)
  obtain ⟨hreturned, hcheck⟩ := Bool.and_eq_true_iff.mp hcheck
  obtain ⟨hkinds, hlost⟩ := Bool.and_eq_true_iff.mp hcheck
  have hkinds : s.threads.map Prod.fst = [.getConfig 1 true, .add 0 ["https://a.com"], .add 1 ["https://b.com"]] :=
    of_decide_eq_true hkinds
  obtain ⟨-, hcomposed⟩ := hgeneral mandatoryOnly intact_mandatoryOnly s hs
  obtain ⟨order, -, hmem, hurls⟩ := hcomposed (answered_of_allReturned hreturned)
  have hlength : s.threads.length = 3 := by
    rw [← List.length_map (f := Prod.fst), hkinds]
    rfl
  have hadded : "https://a.com" ∈ urlsOf s.world.accessControlAllowOrigin := by
    rw [hurls]
    apply mem_foldl_of_mem (i := 1)
    · intro allowed i url hurl
      rw [applyAt_of_kinds hkinds]
      match i with
      | 0 => exact hurl
      | 1 => exact Or.inr hurl
      | 2 => exact Or.inr hurl
      | _ + 3 => exact hurl
    · rw [hmem]
      omega
    · intro allowed
      rw [applyAt_of_kinds hkinds]
      have htrimmed : "https://a.com" ∈ ["https://a.com"].map trim := by decide +kernel
      exact Or.inl (Or.inl htrimmed)
  exact of_decide_eq_true hlost hadded

end Engine.Cors
