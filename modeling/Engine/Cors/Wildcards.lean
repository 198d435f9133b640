import Engine.Cors.Origins
import Mathlib.Data.List.Forall2

/-! What a wildcard of the configuration lets in, and when that is what it was meant to. -/
namespace Engine.Cors

/-- The origin of a request. -/
structure Origin where
  scheme : String
  host : String
  port : Option String

/-- The header `Origin`. -/
def Origin.header (o : Origin) : String :=
  o.scheme ++ "://" ++ o.host ++ (o.port.map (":" ++ ·)).getD ""

def hostChar (c : Char) : Bool := c.isLower || c.isDigit || c = '.' || c = '-'

structure HostName (d : String) : Prop where
  nonempty : d ≠ ""
  chars : ∀ c ∈ d.toList, hostChar c = true

/-- An entry that is neither a wildcard nor the source of a regular expression. -/
structure Plain (e : String) : Prop where
  not_wildcard : startsWith e "*." = false
  not_regExp : startsWith e "/" = false
  not_star : e ≠ "*"
  not_star_slash : e ≠ "*/"

inductive Entry : String → Prop
  | plain {e : String} (h : Plain e) : Entry e
  | wildcard {d : String} (h : HostName d) : Entry ("*." ++ d)

def builtIn : List String := ["thirdweb-preview.com", "thirdweb-dev.com"]

/-- The origins that the entries are there for. -/
inductive Justified (entries : List String) (o : Origin) : Prop
  | plain {e : String} (he : e ∈ entries) (hplain : Plain e) (h : e = o.header ∨ e = o.header ++ "/")
  | wildcard {d sub : String} (he : "*." ++ d ∈ entries) (h : o.host = sub ++ "." ++ d)
  | builtIn {e domain scheme sub : String} (he : e ∈ entries) (hdomain : domain ∈ builtIn)
      (hincludes : includesText e domain = true) (hscheme : scheme ∈ ["http", "https"])
      (h : o.header = scheme ++ "://" ++ sub ++ "." ++ domain)

/-- A host name read as a pattern: each of its dots stands for any character of a line. -/
def classOf (c : Char) : Char → Bool := if c = '.' then dot else itself c

/-- The host name so read stands somewhere in the text, not at its start. -/
def Occurs (d text : String) : Prop :=
  ∃ front c word rest, text.toList = front ++ c :: (word ++ rest) ∧ dot c = true ∧
    List.Forall₂ (fun p b => classOf p b = true) d.toList word

private theorem tokenOf_hostChar {c : Char} (h : hostChar c = true) : tokenOf c = some (.atom (classOf c)) := by
  have hother : ∀ b ∈ "*?^$+()[]{}|\\".toList, c ≠ b := by
    intro b hb hc
    have hnone : "*?^$+()[]{}|\\".toList.all (fun b => !hostChar b) = true := by decide
    have hnot := List.all_eq_true.mp hnone b hb
    rw [← hc, h] at hnot
    cases hnot
  have hspecial : special c = false := by
    unfold special
    rw [decide_eq_false_iff_not]
    intro hmem
    exact hother c (List.mem_append_right "*?^$".toList hmem) rfl
  unfold tokenOf classOf
  split_ifs with hdot hstar hquestion hstart hstop hnot
  · rfl
  · exact absurd hstar (hother '*' (by decide))
  · exact absurd hquestion (hother '?' (by decide))
  · exact absurd hstart (hother '^' (by decide))
  · exact absurd hstop (hother '$' (by decide))
  · exact absurd hnot (by simp [hspecial])
  · rfl

theorem tokens_cons {c : Char} {cs : List Char} (h : c ≠ '\\') :
    tokens (c :: cs) = (tokenOf c).bind fun t => (tokens cs).map (t :: ·) := by
  rw [tokens]
  · cases tokens cs with
    | none => rfl
    | some ts => rfl
  · intro b bs hbackslash
    exact absurd hbackslash h

private theorem tokens_hostChar {c : Char} {cs : List Char} (h : hostChar c = true) :
    tokens (c :: cs) = (tokens cs).map (.atom (classOf c) :: ·) := by
  have hb : c ≠ '\\' := by
    rintro rfl
    exact absurd h (by decide)
  rw [tokens_cons hb, tokenOf_hostChar h]
  rfl

private theorem tokens_hostName {cs : List Char} (h : ∀ c ∈ cs, hostChar c = true) :
    tokens cs = some (cs.map fun c => .atom (classOf c)) := by
  induction cs with
  | nil => rfl
  | cons c cs ih =>
    rw [tokens_hostChar (h c List.mem_cons_self), ih fun b hb => h b (List.mem_cons_of_mem c hb)]
    rfl

private theorem pieces_atoms (ps : List (Char → Bool)) : pieces (ps.map .atom) = some (ps.map .one) := by
  induction ps with
  | nil => rfl
  | cons p ps ih =>
    rw [List.map_cons, pieces, ih]
    · rfl
    · intro ts h
      cases ps <;> cases h
    · intro ts h
      cases ps <;> cases h

/-- The expression that a wildcard is turned into. -/
theorem new_wildcard {d : String} (h : HostName d) :
    RegExp.new (".*." ++ d) = some ⟨.many dot :: .one dot :: (d.toList.map classOf).map .one⟩ := by
  have htokens : tokens (".*." ++ d).toList =
      some (.atom dot :: .star :: ((dot :: d.toList.map classOf).map .atom)) := by
    rw [String.toList_append]
    show tokens ('.' :: '*' :: '.' :: d.toList) = _
    rw [tokens_cons (by decide), tokens_cons (by decide), tokens_cons (by decide), tokens_hostName h.chars,
      List.map_cons, List.map_map]
    rfl
  have hpieces : pieces (.atom dot :: .star :: ((dot :: d.toList.map classOf).map .atom)) =
      some (.many dot :: .one dot :: (d.toList.map classOf).map .one) := by
    rw [pieces, pieces_atoms]
    rfl
  unfold RegExp.new
  rw [htokens, Option.bind_eq_bind, Option.bind_some, hpieces]
  rfl

private theorem replace_wildcard (d : String) : replace ("*." ++ d) "*." ".*." = ".*." ++ d := by
  unfold replace
  rw [String.toList_append, ← String.toList_inj, String.toList_ofList, String.toList_append]
  rfl

theorem startsWith_wildcard (d : String) : startsWith ("*." ++ d) "*." = true := startsWith_iff.mpr ⟨d, rfl⟩

theorem sanitizeOrigin_wildcard {d : String} (h : HostName d) : sanitizeOrigin ("*." ++ d) =
    some (.regExp ⟨.many dot :: .one dot :: (d.toList.map classOf).map .one⟩) := by
  have hslash : startsWith ("*." ++ d) "/" = false := by
    unfold startsWith
    rw [String.toList_append]
    rfl
  unfold sanitizeOrigin
  rw [hslash, startsWith_wildcard, replace_wildcard, new_wildcard h]
  rfl

theorem test_wildcard {d text : String} :
    RegExp.test ⟨.many dot :: .one dot :: (d.toList.map classOf).map .one⟩ text = true ↔ Occurs d text := by
  unfold RegExp.test Occurs
  rw [Text.search_iff]
  constructor
  · intro h
    obtain ⟨front, rest, htext, h⟩ := h
    obtain ⟨line, rest, rfl, -, h⟩ := Text.matchAt_many.mp h
    obtain ⟨c, rest, rfl, hc, h⟩ := Text.matchAt_one.mp h
    rw [← List.append_nil (List.map _ _)] at h
    obtain ⟨word, rest, rfl, hword, -⟩ := Text.matchAt_word.mp h
    refine ⟨front ++ line, c, word, rest, by rw [htext, List.append_assoc], hc, ?_⟩
    exact List.forall₂_map_left_iff.mp hword
  · intro h
    obtain ⟨front, c, word, rest, htext, hc, hword⟩ := h
    refine ⟨front, c :: (word ++ rest), htext, Text.matchAt_many.mpr ?_⟩
    refine ⟨[], c :: (word ++ rest), rfl, by simp, Text.matchAt_one.mpr ?_⟩
    refine ⟨c, word ++ rest, rfl, hc, ?_⟩
    rw [← List.append_nil (List.map _ _)]
    exact Text.matchAt_word.mpr ⟨word, rest, rfl, List.forall₂_map_left_iff.mpr hword, by rw [Text.matchAt]⟩

/-- A word that stands for itself. -/
def literal (w : List Char) : List (Text.Piece Char) := w.map fun c => .one (itself c)

/-- The expression of the service's own domains. -/
def builtInPattern (domain : String) : List (Text.Piece Char) :=
  .start :: (literal "http".toList ++ .maybe (itself 's') :: (literal "://".toList ++
    .many dot :: (literal ('.' :: domain.toList) ++ [.stop])))

theorem test_builtIn {domain text : String} (h : RegExp.test ⟨builtInPattern domain⟩ text = true) :
    ∃ scheme ∈ ["http", "https"], ∃ sub, text = scheme ++ "://" ++ sub ++ "." ++ domain := by
  unfold RegExp.test builtInPattern at h
  obtain ⟨front, rest, htext, h⟩ := Text.search_iff.mp h
  obtain ⟨hfront, h⟩ := Text.matchAt_start.mp h
  obtain rfl := List.isEmpty_iff.mp hfront
  obtain ⟨rest, rfl, hmaybe⟩ := Text.matchAt_literal.mp h
  -- what follows the scheme, with or without its `s`
  have hafter {cs : List Char} {first : Bool} (h : Text.matchAt (literal "://".toList ++
      .many dot :: (literal ('.' :: domain.toList) ++ [.stop])) first cs = true) :
      ∃ sub, cs = "://".toList ++ (sub ++ ('.' :: domain.toList)) := by
    obtain ⟨rest, rfl, hmany⟩ := Text.matchAt_literal.mp h
    obtain ⟨sub, rest, rfl, -, hdomain⟩ := Text.matchAt_many.mp hmany
    obtain ⟨rest, rfl, hstop⟩ := Text.matchAt_literal.mp hdomain
    obtain ⟨rfl, -⟩ := Text.matchAt_stop.mp hstop
    exact ⟨sub, by rw [List.append_nil]⟩
  obtain h | ⟨c, rest, rfl, hc, h⟩ := Text.matchAt_maybe.mp hmaybe
  · obtain ⟨sub, rfl⟩ := hafter h
    refine ⟨"http", by simp, String.ofList sub, String.toList_inj.mp ?_⟩
    simpa [String.toList_append] using htext
  · obtain ⟨sub, rfl⟩ := hafter h
    obtain rfl : c = 's' := by simpa [itself] using hc
    refine ⟨"https", by simp, String.ofList sub, String.toList_inj.mp ?_⟩
    simpa [String.toList_append] using htext

section
variable {entries : List String} {o : Origin} {e : String} {t : OriginType}

private theorem header_ne (o : Origin) : o.header ≠ "" := by
  intro h
  have hlen : o.header.length = 0 := by rw [h]; rfl
  unfold Origin.header at hlen
  simp only [String.length_append] at hlen
  have : "://".length = 3 := rfl
  omega

theorem allowedBy_regExp (o : Origin) (r : RegExp) : allowedBy (some o.header) (.regExp r) = r.test o.header := by
  have htruthy : truthy (some o.header) = some o.header := truthy_eq_some.mpr ⟨rfl, header_ne o⟩
  unfold allowedBy
  rw [htruthy]

/-- A plain entry lets in itself or, if it mentions one of them, the service's own domains. -/
theorem justified_of_plain (he : e ∈ entries) (h : Plain e) (ht : sanitizeOrigin e = some t)
    (hallowed : allowedBy (some o.header) t = true) : Justified entries o := by
  unfold sanitizeOrigin at ht
  rw [h.not_regExp, h.not_wildcard] at ht
  have hbuiltIn {domain : String} (hdomain : domain ∈ builtIn) (hincludes : includesText e domain = true)
      (ht : some (OriginType.regExp ⟨builtInPattern domain⟩) = some t) : Justified entries o := by
    cases ht
    rw [allowedBy_regExp] at hallowed
    obtain ⟨scheme, hscheme, sub, hheader⟩ := test_builtIn hallowed
    exact .builtIn he hdomain hincludes hscheme hheader
  simp only [Bool.false_and, Bool.false_eq_true, if_false] at ht
  split_ifs at ht with hpreview hdev hslash
  · exact hbuiltIn (by simp [builtIn]) hpreview ht
  · exact hbuiltIn (by simp [builtIn]) hdev ht
  · cases ht
    obtain ⟨front, rfl⟩ := endsWith_iff.mp hslash
    have hslice : sliceTo (front ++ "/") 0 1 = front := sliceTo_append front "/"
    rw [hslice] at hallowed
    refine .plain he h (Or.inr ?_)
    have : o.header = front := by simpa [allowedBy] using hallowed
    rw [this]
  · cases ht
    refine .plain he h (Or.inl ?_)
    have : o.header = e := by simpa [allowedBy] using hallowed
    rw [this]

theorem wildcard_inj {d d' : String} (h : "*." ++ d = "*." ++ d') : d = d' := by
  have hlist := congrArg String.toList h
  rw [String.toList_append, String.toList_append] at hlist
  exact String.toList_inj.mp (List.append_cancel_left hlist)

theorem Entry.hostName {d : String} (h : Entry e) (he : e = "*." ++ d) : HostName d := by
  cases h with
  | plain h =>
    have hstarts : startsWith e "*." = true := by
      rw [he]
      exact startsWith_wildcard d
    exact absurd hstarts (by simp [h.not_wildcard])
  | wildcard h => exact wildcard_inj he ▸ h

theorem isStar_text {s : String} : (OriginType.text s).isStar = false ↔ s ≠ "*" := by simp [OriginType.isStar]

/-- An entry stands for an origin, never for all of them. -/
theorem sanitizeOrigin_entry (h : Entry e) : ∃ t, sanitizeOrigin e = some t ∧ t.isStar = false := by
  cases h with
  | wildcard h => exact ⟨_, sanitizeOrigin_wildcard h, rfl⟩
  | plain h =>
    unfold sanitizeOrigin
    rw [h.not_regExp, h.not_wildcard]
    simp only [Bool.false_and, Bool.false_eq_true, if_false]
    split_ifs with hpreview hdev hslash
    · exact ⟨.regExp ⟨builtInPattern "thirdweb-preview.com"⟩, rfl, rfl⟩
    · exact ⟨.regExp ⟨builtInPattern "thirdweb-dev.com"⟩, rfl, rfl⟩
    · obtain ⟨front, rfl⟩ := endsWith_iff.mp hslash
      have hslice : sliceTo (front ++ "/") 0 1 = front := sliceTo_append front "/"
      refine ⟨.text (sliceTo (front ++ "/") 0 1), rfl, isStar_text.mpr ?_⟩
      rw [hslice]
      rintro rfl
      exact h.not_star_slash rfl
    · exact ⟨.text e, rfl, isStar_text.mpr h.not_star⟩

theorem mapM_sanitizeOrigin (h : ∀ e ∈ entries, Entry e) : ∃ os, entries.mapM sanitizeOrigin = some os ∧
    ∀ t, t ∈ os ↔ ∃ e ∈ entries, sanitizeOrigin e = some t := by
  induction entries with
  | nil => exact ⟨[], rfl, by simp⟩
  | cons e entries ih =>
    obtain ⟨os, hos, hmem⟩ := ih fun e' he' => h e' (List.mem_cons_of_mem e he')
    obtain ⟨t, ht, -⟩ := sanitizeOrigin_entry (h e List.mem_cons_self)
    refine ⟨t :: os, by rw [List.mapM_cons, ht, hos]; rfl, ?_⟩
    intro t'
    rw [List.mem_cons, hmem]
    simp [ht, eq_comm]

/-- The option made of the entries lets in what one of them lets in. -/
theorem fastifyCors_entries (h : ∀ e ∈ entries, Entry e) (o : Origin) : ∃ option, fastifyCors entries = some option ∧
    (getAccessControlAllowOriginHeader (some o.header) option ≠ none ↔
      ∃ e ∈ entries, ∃ t, sanitizeOrigin e = some t ∧ allowedBy (some o.header) t = true) := by
  obtain ⟨os, hos, hmem⟩ := mapM_sanitizeOrigin h
  have hstar : os.any OriginType.isStar = false := by
    rw [List.any_eq_false]
    intro t ht
    obtain ⟨e, he, hte⟩ := (hmem t).mp ht
    obtain ⟨t', ht', hstar⟩ := sanitizeOrigin_entry (h e he)
    obtain rfl := Option.some.inj (hte.symm.trans ht')
    simp [hstar]
  refine ⟨.array os, ?_, ?_⟩
  · unfold fastifyCors normalizeCorsOptions
    rw [hos, Option.map_some, hstar]
    rfl
  · have hallowed : isRequestOriginAllowed (some o.header) (.array os) = true ↔
        ∃ e ∈ entries, ∃ t, sanitizeOrigin e = some t ∧ allowedBy (some o.header) t = true := by
      unfold isRequestOriginAllowed
      rw [List.any_eq_true]
      constructor
      · intro hany
        obtain ⟨t, ht, hallowed⟩ := hany
        obtain ⟨e, he, hte⟩ := (hmem t).mp ht
        exact ⟨e, he, t, hte, hallowed⟩
      · intro hany
        obtain ⟨e, he, t, hte, hallowed⟩ := hany
        exact ⟨t, (hmem t).mpr ⟨e, he, hte⟩, hallowed⟩
    rw [← hallowed]
    unfold getAccessControlAllowOriginHeader
    by_cases hos : isRequestOriginAllowed (some o.header) (.array os) = true
    · simp [hos]
    · simp [hos]

/-- The middleware lets in only what the entries are there for exactly when no wildcard's host
name occurs, its dots read as any character, in an origin that nothing is there for. -/
theorem origin_allowed_iff (h : ∀ e ∈ entries, Entry e) (o : Origin) : ∃ option, fastifyCors entries = some option ∧
    ((getAccessControlAllowOriginHeader (some o.header) option ≠ none → Justified entries o) ↔
      ∀ d, "*." ++ d ∈ entries → Occurs d o.header → Justified entries o) := by
  obtain ⟨option, hoption, hiff⟩ := fastifyCors_entries h o
  refine ⟨option, hoption, ?_⟩
  rw [hiff]
  constructor
  · intro hsound d hd hoccurs
    have hname : HostName d := (h ("*." ++ d) hd).hostName rfl
    refine hsound ⟨"*." ++ d, hd, _, sanitizeOrigin_wildcard hname, ?_⟩
    rw [allowedBy_regExp, test_wildcard]
    exact hoccurs
  · intro hoccurs hallowed
    obtain ⟨e, he, t, ht, hallowed⟩ := hallowed
    cases h e he with
    | plain hplain => exact justified_of_plain he hplain ht hallowed
    | @wildcard d hd =>
      obtain rfl := Option.some.inj (ht.symm.trans (sanitizeOrigin_wildcard hd))
      rw [allowedBy_regExp, test_wildcard] at hallowed
      exact hoccurs d he hallowed

end

theorem entry_foobar : ∀ e ∈ ["*.foobar.com"], Entry e := by
  intro e he
  obtain rfl := List.mem_singleton.mp he
  exact .wildcard (d := "foobar.com") ⟨by decide, List.all_eq_true.mp (by decide)⟩

theorem origin_allowed_iff_foobar : ∃ option, fastifyCors ["*.foobar.com"] = some option ∧
    ((getAccessControlAllowOriginHeader (some (Origin.header ⟨"https", "a.foobar.com", none⟩)) option ≠ none →
        Justified ["*.foobar.com"] ⟨"https", "a.foobar.com", none⟩) ↔
      ∀ d, "*." ++ d ∈ ["*.foobar.com"] → Occurs d (Origin.header ⟨"https", "a.foobar.com", none⟩) →
        Justified ["*.foobar.com"] ⟨"https", "a.foobar.com", none⟩) :=
  origin_allowed_iff entry_foobar ⟨"https", "a.foobar.com", none⟩

/-- The wildcard of a domain lets in another domain that ends alike. -/
theorem not_origin_justified : ¬ ∀ entries : List String, (∀ e ∈ entries, Entry e) → ∀ o : Origin,
    ∃ option, fastifyCors entries = some option ∧
      (getAccessControlAllowOriginHeader (some o.header) option ≠ none → Justified entries o) := by
  intro h
  obtain ⟨option, hoption, hsound⟩ := h ["*.foobar.com"] entry_foobar ⟨"https", "evilfoobar.com", none⟩
  have hallowed : (fastifyCors ["*.foobar.com"]).bind
      (getAccessControlAllowOriginHeader (some (Origin.header ⟨"https", "evilfoobar.com", none⟩))) =
        some "https://evilfoobar.com" := by decide +kernel
  rw [hoption, Option.bind_some] at hallowed
  have hjustified := hsound (by rw [hallowed]; simp)
  cases hjustified with
  | plain he hplain =>
    obtain rfl := List.mem_singleton.mp he
    exact absurd hplain.not_wildcard (by decide)
  | @wildcard d sub he hhost =>
    have hd : d = "foobar.com" := wildcard_inj (List.mem_singleton.mp he)
    have hends : endsWith "evilfoobar.com" ("." ++ d) = true :=
      endsWith_iff.mpr ⟨sub, by rw [← String.append_assoc]; exact hhost⟩
    rw [hd] at hends
    exact absurd hends (by decide)
  | builtIn he hdomain hincludes =>
    obtain rfl := List.mem_singleton.mp he
    obtain rfl | hdomain := List.mem_cons.mp hdomain
    · exact absurd hincludes (by decide)
    · obtain rfl := List.mem_singleton.mp hdomain
      exact absurd hincludes (by decide)

end Engine.Cors
