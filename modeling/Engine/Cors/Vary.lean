import Engine.Caching.Memo
import Engine.Text.Separated

/-! `server/middleware/cors/vary.ts`: field names are added to the `Vary` header of a reply, once each. -/
namespace Engine.Cors
open Caching

/-- What `reply.getHeader` returns for a header that is set. -/
inductive HeaderValue
  | text (s : String)
  | array (l : List String)
deriving DecidableEq

/-- The characters of `validFieldnameRE`. -/
def isFieldnameChar (c : Char) : Bool := c.isAlphanum || c = '_' || c ∈ "!#$%&'*+-.^`|~".toList

def isFieldname (s : String) : Bool := s.toList ≠ [] && s.toList.all isFieldnameChar

/-- The loop over the characters of a header: `token` is what came after the last space or comma. -/
def tokens (token : List Char) : List Char → List (List Char)
  | [] => if token = [] then [] else [token]
  | c :: cs =>
    if c = ' ' then tokens [] cs
    else if c = ',' then (if token = [] then [] else [token]) ++ tokens [] cs
    else tokens (token ++ [c]) cs

/-- Headers are ASCII. -/
def parse (header : String) : List String :=
  let header := (trim header).toLower
  if header = "" then []
  else if ',' ∉ header.toList then [header]
  else (tokens [] header.toList).map String.ofList

/-- `l.join(", ")`. -/
def joinNames (l : List String) : String := String.ofList ([',', ' '].intercalate (l.map String.toList))

def HeaderValue.joined : HeaderValue → String
  | .text s => s
  | .array l => joinNames l

/-- What is cached for a header: the header to set, or `null`. -/
def extended (fieldname header : String) : Option String :=
  let vals := parse header
  if "*" ∈ vals then some "*"
  else if fieldname.toLower ∉ vals then some (header ++ ", " ++ fieldname)
  else none

/-- The header that is replied when `cached` is in the cache for it. -/
def withCached (header : Option HeaderValue) : Option (Option String) → Option HeaderValue
  | some (some cached) => some (.text cached)
  | some none => header
  | none => none

/-- The function that `createAddFieldnameToVary` returns: the new header, and the cache after it. -/
def addFieldname (C : Cache String (Option String)) (fieldname : String) (headerCache : C.State)
    (header : Option HeaderValue) : Option HeaderValue × C.State :=
  match header with
  | none => (some (.text fieldname), headerCache)
  | some h =>
    if h = .text "" then (some (.text fieldname), headerCache)
    else if h = .text "*" then (some h, headerCache)
    else if fieldname = "*" then (some (.text "*"), headerCache)
    else
      let cached := C.memo (extended fieldname) headerCache h.joined
      (withCached (some h) cached.1, cached.2)

def invalidFieldname : String := "Fieldname contains invalid characters."

def createAddFieldnameToVary (C : Cache String (Option String)) (fieldname : String) :
    Except String (C.State → Option HeaderValue → Option HeaderValue × C.State) :=
  if isFieldname fieldname then .ok (addFieldname C fieldname) else .error invalidFieldname

/-- What is replied when nothing is cached. -/
def withFieldname (fieldname : String) (header : Option HeaderValue) : Option HeaderValue :=
  match header with
  | none => some (.text fieldname)
  | some h =>
    if h = .text "" then some (.text fieldname)
    else if h = .text "*" then some h
    else if fieldname = "*" then some (.text "*")
    else withCached (some h) (some (extended fieldname h.joined))

/-- The headers of the replies to a sequence of requests, with one cache. -/
def replies {S : Type} (add : S → Option HeaderValue → Option HeaderValue × S) (headerCache : S) :
    List (Option HeaderValue) → List (Option HeaderValue)
  | [] => []
  | header :: headers => (add headerCache header).1 :: replies add (add headerCache header).2 headers

section
variable {C : Cache String (Option String)} {fieldname f : String} {headerCache : C.State} {header : Option HeaderValue}
  {names fs : List String}

/-! ### The cache -/

private theorem addFieldname_eq (header : Option HeaderValue) (h : C.Sound (extended fieldname) headerCache) :
    (addFieldname C fieldname headerCache header).1 = withFieldname fieldname header ∧
      C.Sound (extended fieldname) (addFieldname C fieldname headerCache header).2 := by
  cases header with
  | none => exact ⟨rfl, h⟩
  | some header =>
    unfold addFieldname withFieldname
    dsimp only
    split_ifs
    · exact ⟨rfl, h⟩
    · exact ⟨rfl, h⟩
    · exact ⟨rfl, h⟩
    · obtain ⟨hvalue, hsound⟩ := h.memo header.joined
      exact ⟨congrArg (withCached (some header)) hvalue, hsound⟩

private theorem replies_eq (h : C.Sound (extended fieldname) headerCache) (headers : List (Option HeaderValue)) :
    replies (addFieldname C fieldname) headerCache headers = headers.map (withFieldname fieldname) := by
  induction headers generalizing headerCache with
  | nil => rfl
  | cons header headers ih =>
    obtain ⟨hvalue, hsound⟩ := addFieldname_eq header h
    rw [replies, List.map_cons, hvalue, ih hsound]

/-- Whatever the cache has seen and forgotten, each reply has the header that it would have without a cache. -/
theorem cached_replies {add : C.State → Option HeaderValue → Option HeaderValue × C.State}
    (hadd : createAddFieldnameToVary C fieldname = .ok add) (headers : List (Option HeaderValue)) :
    replies add C.new headers = headers.map (withFieldname fieldname) := by
  unfold createAddFieldnameToVary at hadd
  split_ifs at hadd
  cases hadd
  exact replies_eq Cache.sound_new headers

/-- The cache of a thousand headers. -/
theorem cached_replies_lru : ∃ add, createAddFieldnameToVary (lru 999) "Origin" = .ok add ∧
    replies add (lru 999).new [none, some (.text "Accept"), some (.text "Accept")] =
      [none, some (.text "Accept"), some (.text "Accept")].map (withFieldname "Origin") :=
  ⟨_, rfl, cached_replies (C := lru 999) rfl _⟩

/-! ### Field names -/

/-- What a field name is made of: ASCII, without spaces and commas, and lower case is as good. -/
theorem fieldnameChar {c : Char} (h : isFieldnameChar c = true) :
    c ≠ ' ' ∧ c ≠ ',' ∧ Codec.isWhitespace c = false ∧ isFieldnameChar c.toLower = true ∧
      (c.toLower = '*' ↔ c = '*') := by
  have hascii : c.toNat < 128 := by
    unfold isFieldnameChar at h
    simp only [Bool.or_eq_true, decide_eq_true_eq] at h
    rcases h with (h | rfl) | h
    · unfold Char.isAlphanum Char.isAlpha Char.isUpper Char.isLower Char.isDigit at h
      simp only [Bool.or_eq_true, Bool.and_eq_true, decide_eq_true_eq, ge_iff_le, UInt32.le_iff_toNat_le] at h
      have hval : c.toNat = c.val.toNat := rfl
      simp at h
      omega
    · decide
    · have hall : "!#$%&'*+-.^`|~".toList.all (fun d => decide (d.toNat < 128)) = true := by decide
      exact of_decide_eq_true (List.all_eq_true.mp hall c h)
  have hall : ∀ n < 128, isFieldnameChar (Char.ofNat n) = true → Char.ofNat n ≠ ' ' ∧ Char.ofNat n ≠ ',' ∧
      Codec.isWhitespace (Char.ofNat n) = false ∧ isFieldnameChar (Char.ofNat n).toLower = true ∧
      ((Char.ofNat n).toLower = '*' ↔ Char.ofNat n = '*') := by
    decide +kernel
  have hc := hall c.toNat hascii
  rw [Char.ofNat_toNat] at hc
  exact hc h

theorem isFieldname_iff {s : String} : isFieldname s = true ↔ s.toList ≠ [] ∧
    ∀ c ∈ s.toList, isFieldnameChar c = true := by
  unfold isFieldname
  rw [Bool.and_eq_true, decide_eq_true_eq, List.all_eq_true]

theorem isFieldname_toLower {s : String} (h : isFieldname s = true) : isFieldname s.toLower = true := by
  rw [isFieldname_iff] at h ⊢
  rw [toList_toLower]
  refine ⟨fun hnil => h.1 (List.map_eq_nil_iff.mp hnil), fun c hc => ?_⟩
  obtain ⟨c', hc', rfl⟩ := List.mem_map.mp hc
  exact (fieldnameChar (h.2 c' hc')).2.2.2.1

theorem toLower_eq_star {s : String} (h : isFieldname s = true) : s.toLower = "*" ↔ s = "*" := by
  have hchars := (isFieldname_iff.mp h).2
  constructor
  · intro heq
    have hlist : s.toList.map Char.toLower = ['*'] := by
      rw [← String.toList_map]
      exact congrArg String.toList heq
    obtain ⟨c, hc, hlower⟩ := List.map_eq_singleton_iff.mp hlist
    have hstar : c = '*' := (fieldnameChar (hchars c (by rw [hc]; exact List.mem_singleton_self c))).2.2.2.2.mp hlower
    rw [← String.toList_inj, hc, hstar]
    rfl
  · rintro rfl
    decide +kernel

/-! ### Lists of field names -/

theorem toList_joinNames (l : List String) : (joinNames l).toList = [',', ' '].intercalate (l.map String.toList) :=
  String.toList_ofList

theorem toList_joinNames_cons {name : String} (hne : names ≠ []) :
    (joinNames (name :: names)).toList = name.toList ++ ',' :: ' ' :: (joinNames names).toList := by
  rw [toList_joinNames, toList_joinNames]
  cases names with
  | nil => exact absurd rfl hne
  | cons n names => simp [List.intercalate]

theorem joinNames_singleton (name : String) : joinNames [name] = name := by
  rw [← String.toList_inj, toList_joinNames]
  simp [List.intercalate]

theorem joinNames_append (hne : names ≠ []) (name : String) :
    joinNames (names ++ [name]) = joinNames names ++ ", " ++ name := by
  rw [← String.toList_inj, String.toList_append, String.toList_append]
  induction names with
  | nil => exact absurd rfl hne
  | cons n names ih =>
    cases names with
    | nil =>
      rw [List.cons_append, toList_joinNames_cons (by simp), List.nil_append, joinNames_singleton, joinNames_singleton]
      simp
    | cons n' names =>
      have hrest : n' :: names ≠ [] := List.cons_ne_nil n' names
      rw [List.cons_append, toList_joinNames_cons (by simp), ih hrest, toList_joinNames_cons hrest]
      simp only [List.append_assoc, List.cons_append]

theorem toLower_joinNames (l : List String) : (joinNames l).toLower = joinNames (l.map String.toLower) := by
  induction l with
  | nil =>
    rw [← String.toList_inj, toList_toLower]
    rfl
  | cons n l ih =>
    by_cases hne : l = []
    · subst hne
      rw [List.map_singleton, joinNames_singleton, joinNames_singleton]
    · have hne' : l.map String.toLower ≠ [] := fun h => hne (List.map_eq_nil_iff.mp h)
      rw [List.map_cons, ← String.toList_inj, toList_joinNames_cons hne', ← ih]
      simp only [toList_toLower]
      rw [toList_joinNames_cons hne]
      simp

/-- The first and the last character of a list of field names are of field names. -/
theorem ends_joinNames (hne : names ≠ []) (h : ∀ n ∈ names, isFieldname n = true) :
    (∃ c cs, (joinNames names).toList = c :: cs ∧ isFieldnameChar c = true) ∧
      ∃ c cs, (joinNames names).toList = cs ++ [c] ∧ isFieldnameChar c = true := by
  induction names with
  | nil => exact absurd rfl hne
  | cons n names ih =>
    obtain ⟨hn, hchars⟩ := isFieldname_iff.mp (h n List.mem_cons_self)
    have hfirst : ∃ c cs, n.toList = c :: cs ∧ isFieldnameChar c = true := by
      obtain ⟨c, cs, hcs⟩ := List.exists_cons_of_ne_nil hn
      exact ⟨c, cs, hcs, hchars c (by rw [hcs]; exact List.mem_cons_self)⟩
    by_cases hnames : names = []
    · subst hnames
      rw [joinNames_singleton]
      refine ⟨hfirst, n.toList.getLast hn, n.toList.dropLast, (List.dropLast_append_getLast hn).symm, ?_⟩
      exact hchars _ (List.getLast_mem hn)
    · obtain ⟨-, c', cs', hlast, hc'⟩ := ih hnames fun m hm => h m (List.mem_cons_of_mem n hm)
      obtain ⟨c, cs, hcs, hc⟩ := hfirst
      rw [toList_joinNames_cons hnames]
      refine ⟨⟨c, _, by rw [hcs, List.cons_append], hc⟩, c', n.toList ++ ',' :: ' ' :: cs', ?_, hc'⟩
      rw [hlast]
      simp

theorem trim_joinNames (h : ∀ n ∈ names, isFieldname n = true) : trim (joinNames names) = joinNames names := by
  by_cases hne : names = []
  · subst hne
    decide
  · obtain ⟨⟨c, cs, hfirst, hc⟩, c', cs', hlast, hc'⟩ := ends_joinNames hne h
    have hblank := (fieldnameChar hc).2.2.1
    have hblank' := (fieldnameChar hc').2.2.1
    unfold trim
    rw [hfirst, List.dropWhile_cons_of_neg (by simp [hblank]), ← hfirst, hlast, List.reverse_append,
      List.reverse_singleton, List.singleton_append, List.dropWhile_cons_of_neg (by simp [hblank'])]
    rw [← String.toList_inj, String.toList_ofList, hlast]
    simp

/-! ### Tokens -/

private theorem tokens_append {token cs : List Char} (h : ∀ c ∈ cs, c ≠ ' ' ∧ c ≠ ',') (rest : List Char) :
    tokens token (cs ++ rest) = tokens (token ++ cs) rest := by
  induction cs generalizing token with
  | nil => rw [List.nil_append, List.append_nil]
  | cons c cs ih =>
    obtain ⟨hspace, hcomma⟩ := h c List.mem_cons_self
    rw [List.cons_append, tokens, if_neg hspace, if_neg hcomma, ih fun c' hc' => h c' (List.mem_cons_of_mem c hc'),
      List.append_assoc, List.singleton_append]

private theorem tokens_joinNames (h : ∀ n ∈ names, isFieldname n = true) :
    tokens [] (joinNames names).toList = names.map String.toList := by
  induction names with
  | nil => rfl
  | cons n names ih =>
    obtain ⟨hn, hchars⟩ := isFieldname_iff.mp (h n List.mem_cons_self)
    have hplain : ∀ c ∈ n.toList, c ≠ ' ' ∧ c ≠ ',' := by
      intro c hc
      obtain ⟨hspace, hcomma, -⟩ := fieldnameChar (hchars c hc)
      exact ⟨hspace, hcomma⟩
    by_cases hnames : names = []
    · subst hnames
      have hlast : tokens [] (n.toList ++ []) = tokens ([] ++ n.toList) [] := tokens_append hplain []
      rw [List.append_nil, List.nil_append] at hlast
      rw [joinNames_singleton, hlast, tokens, if_neg hn]
      rfl
    · rw [toList_joinNames_cons hnames, tokens_append hplain, List.nil_append, tokens, if_neg (by decide), if_pos rfl,
        if_neg hn, tokens, if_pos rfl, ih fun m hm => h m (List.mem_cons_of_mem n hm)]
      rfl

private theorem comma_not_mem {n : String} (h : isFieldname n = true) : ',' ∉ n.toList := by
  intro hc
  exact (fieldnameChar ((isFieldname_iff.mp h).2 ',' hc)).2.1 rfl

/-- A list of field names is read back, in lower case. -/
theorem parse_joinNames (h : ∀ n ∈ names, isFieldname n = true) :
    parse (joinNames names) = names.map String.toLower := by
  have hlower : ∀ n ∈ names.map String.toLower, isFieldname n = true := by
    intro n hn
    obtain ⟨n', hn', rfl⟩ := List.mem_map.mp hn
    exact isFieldname_toLower (h n' hn')
  unfold parse
  rw [trim_joinNames h, toLower_joinNames]
  generalize names.map String.toLower = lowered at hlower
  dsimp only
  cases lowered with
  | nil => rfl
  | cons n rest =>
    have hne : joinNames (n :: rest) ≠ "" := by
      obtain ⟨⟨c, cs, hfirst, -⟩, -⟩ := ends_joinNames (by simp) hlower
      intro hempty
      rw [hempty] at hfirst
      cases hfirst
    rw [if_neg hne]
    by_cases hrest : rest = []
    · subst hrest
      rw [joinNames_singleton, if_pos (comma_not_mem (hlower n List.mem_cons_self))]
    · have hcomma : ',' ∈ (joinNames (n :: rest)).toList := by
        rw [toList_joinNames_cons hrest]
        simp
      rw [if_neg (not_not.mpr hcomma), tokens_joinNames hlower, List.map_map]
      simp

/-! ### What the header lists -/

/-- A name is added to names in lower case: once, and `*` stands for all. -/
def including (names : List String) (name : String) : List String :=
  if "*" ∈ names ∨ name = "*" then ["*"] else if name ∈ names then names else names ++ [name]

/-- The field names of a header. -/
def fieldsOf : Option HeaderValue → List String
  | none => []
  | some header => parse header.joined

/-- The header is a list of these field names, with a comma and a space between them. Lists that are separated
otherwise are not covered. -/
structure Lists (header : Option HeaderValue) (names : List String) : Prop where
  fieldnames : ∀ n ∈ names, isFieldname n = true
  header : header = none ∧ names = [] ∨ names ≠ [] ∧ ∃ h, header = some h ∧ h.joined = joinNames names

theorem Lists.fieldsOf_eq (h : Lists header names) : fieldsOf header = names.map String.toLower := by
  rcases h.header with ⟨rfl, rfl⟩ | ⟨-, v, rfl, hv⟩
  · rfl
  · have hparsed := parse_joinNames h.fieldnames
    rw [← hv] at hparsed
    exact hparsed

theorem lists_singleton {s : String} (h : isFieldname s = true) : Lists (some (.text s)) [s] := by
  refine ⟨fun n hn => ?_, Or.inr ⟨List.cons_ne_nil s [], .text s, rfl, (joinNames_singleton s).symm⟩⟩
  rw [List.mem_singleton.mp hn]
  exact h

theorem isFieldname_star : isFieldname "*" = true := by decide +kernel

private theorem including_of_star {lowered : List String} (h : "*" ∈ lowered ∨ f.toLower = "*") :
    including lowered f.toLower = ["*"] := if_pos h

/-- Adding a field name to a header adds it to the names that the header lists. -/
theorem Lists.add (h : Lists header names) (hf : isFieldname f = true) :
    ∃ names', Lists (withFieldname f header) names' ∧
      names'.map String.toLower = including (names.map String.toLower) f.toLower := by
  have hfields := h.fieldsOf_eq
  rcases h.header with ⟨rfl, rfl⟩ | ⟨hne, v, rfl, hv⟩
  · refine ⟨[f], lists_singleton hf, ?_⟩
    unfold including
    split_ifs with hstar hmem
    · rcases hstar with hstar | hstar
      · cases hstar
      · rw [List.map_singleton, hstar]
    · cases hmem
    · rfl
  · have hstarred : ∀ {lowered : List String}, "*" ∈ lowered ∨ f.toLower = "*" →
      ∃ names', Lists (some (.text "*")) names' ∧
        names'.map String.toLower = including lowered f.toLower := by
      intro lowered hstar
      refine ⟨["*"], lists_singleton isFieldname_star, ?_⟩
      rw [including_of_star hstar, List.map_singleton, (toLower_eq_star isFieldname_star).mpr rfl]
    have hempty : v ≠ .text "" := by
      rintro rfl
      obtain ⟨⟨c, cs, hfirst, -⟩, -⟩ := ends_joinNames hne h.fieldnames
      rw [← hv] at hfirst
      cases hfirst
    unfold withFieldname
    dsimp only
    rw [if_neg hempty]
    split_ifs with hstar hname
    · subst hstar
      have hread : names.map String.toLower = ["*"] := hfields.symm.trans (by decide +kernel)
      exact hstarred (Or.inl (by rw [hread]; exact List.mem_singleton_self "*"))
    · exact hstarred (Or.inr ((toLower_eq_star hf).mpr hname))
    · have hvals : parse v.joined = names.map String.toLower := hfields
      have hlower : f.toLower ≠ "*" := fun heq => hname ((toLower_eq_star hf).mp heq)
      unfold extended
      dsimp only
      rw [hvals]
      by_cases hmem : "*" ∈ names.map String.toLower
      · rw [if_pos hmem]
        exact hstarred (Or.inl hmem)
      have hnot : ¬ ("*" ∈ names.map String.toLower ∨ f.toLower = "*") := by
        rintro (hold | heq)
        · exact hmem hold
        · exact hlower heq
      rw [if_neg hmem]
      split_ifs with hnew
      · refine ⟨names, h, ?_⟩
        unfold including
        rw [if_neg hnot, if_pos hnew]
      · refine ⟨names ++ [f], ⟨fun n hn => ?_, Or.inr ⟨by simp, _, rfl, ?_⟩⟩, ?_⟩
        · rcases List.mem_append.mp hn with hn | hn
          · exact h.fieldnames n hn
          · rw [List.mem_singleton.mp hn]
            exact hf
        · rw [joinNames_append hne, ← hv]
          rfl
        · unfold including
          rw [if_neg hnot, if_neg hnew, List.map_append, List.map_singleton]

theorem Lists.addAll (h : Lists header names) (hfs : ∀ f ∈ fs, isFieldname f = true) :
    ∃ names', Lists (fs.foldl (fun header f => withFieldname f header) header) names' ∧
      names'.map String.toLower = (fs.map String.toLower).foldl including (names.map String.toLower) := by
  induction fs generalizing header names with
  | nil => exact ⟨names, h, rfl⟩
  | cons f fs ih =>
    obtain ⟨names', hlists, hnames⟩ := h.add (hfs f List.mem_cons_self)
    obtain ⟨names'', hlists', hnames'⟩ := ih hlists fun g hg => hfs g (List.mem_cons_of_mem f hg)
    refine ⟨names'', hlists', ?_⟩
    rw [hnames', hnames]
    rfl

/-- What was listed stays, or everything is. -/
theorem mem_including {lowered : List String} {n name : String} (h : n ∈ lowered ∨ n = name) :
    n ∈ including lowered name ∨ including lowered name = ["*"] := by
  unfold including
  split_ifs with hstar hmem
  · exact Or.inr rfl
  · rcases h with h | rfl
    · exact Or.inl h
    · exact Or.inl hmem
  · exact Or.inl (List.mem_append.mpr (h.imp_right List.mem_singleton.mpr))

private theorem mem_foldl_including {lowered added : List String} {n : String}
    (h : n ∈ lowered ∨ n ∈ added ∨ lowered = ["*"]) :
    n ∈ added.foldl including lowered ∨ added.foldl including lowered = ["*"] := by
  induction added generalizing lowered with
  | nil =>
    rcases h with h | h | h
    · exact Or.inl h
    · cases h
    · exact Or.inr h
  | cons name added ih =>
    refine ih ?_
    rcases h with h | h | rfl
    · rcases mem_including (Or.inl h) with hmem | hall
      · exact Or.inl hmem
      · exact Or.inr (Or.inr hall)
    · rcases List.mem_cons.mp h with heq | h
      · have hincluded : n ∈ including lowered name ∨ including lowered name = ["*"] := mem_including (Or.inr heq)
        rcases hincluded with hmem | hall
        · exact Or.inl hmem
        · exact Or.inr (Or.inr hall)
      · exact Or.inr (Or.inl h)
    · exact Or.inr (Or.inr (if_pos (Or.inl (List.mem_singleton_self "*"))))

/-- However many field names are added to a header, it lists each of them once, in lower case and in the order in which
they came, or it is `*`; no name is lost. -/
theorem vary_lists (h : Lists header names) (hfs : ∀ f ∈ fs, isFieldname f = true) :
    fieldsOf (fs.foldl (fun header f => withFieldname f header) header) =
        (fs.map String.toLower).foldl including (names.map String.toLower) ∧
      ∀ n ∈ names ++ fs, n.toLower ∈ fieldsOf (fs.foldl (fun header f => withFieldname f header) header) ∨
        fieldsOf (fs.foldl (fun header f => withFieldname f header) header) = ["*"] := by
  obtain ⟨names', hlists, hnames⟩ := h.addAll hfs
  have hfields := hlists.fieldsOf_eq.trans hnames
  refine ⟨hfields, fun n hn => ?_⟩
  rw [hfields]
  refine mem_foldl_including ?_
  rcases List.mem_append.mp hn with hn | hn
  · exact Or.inl (List.mem_map_of_mem hn)
  · exact Or.inr (Or.inl (List.mem_map_of_mem hn))

theorem vary_lists_origin : fieldsOf (["Origin", "accept"].foldl (fun header f => withFieldname f header)
    (some (.text "Accept"))) = ["accept", "origin"] := by
  have hlists := lists_singleton (s := "Accept") (by decide +kernel)
  have hfieldnames : ∀ f ∈ ["Origin", "accept"], isFieldname f = true := by decide +kernel
  rw [(vary_lists hlists hfieldnames).1]
  decide +kernel

end
end Engine.Cors
