import Engine.Concurrent.Program

/-! Protocols: what a program may call next, as a function of a summary of its
own past calls. A program follows a protocol when this holds for all possible replies. -/
namespace Concurrent

structure Protocol (I : Interface) where
  /-- Summary of the calls made so far. -/
  Local : Type
  next : Local → (o : I.Op) → Except I.Err (I.Reply o) → Local
  allowed : Local → I.Op → Prop
  possible : (o : I.Op) → Except I.Err (I.Reply o) → Prop

namespace Program
variable {I : Interface} {P : Protocol I} {α β : Type}

/-- From the summary `l` the program only makes allowed calls, and ends with a
summary and a result related by `Q`. -/
def Follows (P : Protocol I) (Q : P.Local → Except I.Err α → Prop) : Program I α → P.Local → Prop
  | done a, l => Q l (.ok a)
  | raise e, l => Q l (.error e)
  | call o next, l => P.allowed l o ∧ ∀ r, P.possible o r → (next r).Follows P Q (P.next l o r)

variable {Q : P.Local → Except I.Err α → Prop} {R : P.Local → Except I.Err β → Prop} {l : P.Local}

theorem Follows.mono {p : Program I α} {Q' : P.Local → Except I.Err α → Prop}
    (h : p.Follows P Q l) (hQ : ∀ l r, Q l r → Q' l r) : p.Follows P Q' l := by
  induction p generalizing l with
  | done a => exact hQ _ _ h
  | raise e => exact hQ _ _ h
  | call o next ih => exact ⟨h.1, fun r hr => ih r (h.2 r hr)⟩

theorem Follows.bind {p : Program I α} {f : α → Program I β} (h : p.Follows P Q l)
    (hok : ∀ l a, Q l (.ok a) → (f a).Follows P R l)
    (herr : ∀ l e, Q l (.error e) → R l (.error e)) : (p.bind f).Follows P R l := by
  induction p generalizing l with
  | done a => exact hok _ _ h
  | raise e => exact herr _ _ h
  | call o next ih => exact ⟨h.1, fun r hr => ih r (h.2 r hr)⟩

theorem Follows.handle {p : Program I α} {c : I.Err → Program I α}
    {Q' : P.Local → Except I.Err α → Prop} (h : p.Follows P Q l)
    (hok : ∀ l a, Q l (.ok a) → Q' l (.ok a))
    (herr : ∀ l e, Q l (.error e) → (c e).Follows P Q' l) : (p.handle c).Follows P Q' l := by
  induction p generalizing l with
  | done a => exact hok _ _ h
  | raise e => exact herr _ _ h
  | call o next ih => exact ⟨h.1, fun r hr => ih r (h.2 r hr)⟩

theorem Follows.attempt {p : Program I α} {Q' : P.Local → Except I.Err (Except I.Err α) → Prop}
    (h : p.Follows P Q l) (hQ : ∀ l r, Q l r → Q' l (.ok r)) : p.attempt.Follows P Q' l := by
  induction p generalizing l with
  | done a => exact hQ _ _ h
  | raise e => exact hQ _ _ h
  | call o next ih => exact ⟨h.1, fun r hr => ih r (h.2 r hr)⟩

theorem follows_perform {o : I.Op} {Q : P.Local → Except I.Err (I.Reply o) → Prop}
    (ha : P.allowed l o) (hQ : ∀ r, P.possible o r → Q (P.next l o r) r) : (perform o).Follows P Q l := by
  refine ⟨ha, fun r hr => ?_⟩
  cases r with
  | ok r => exact hQ (.ok r) hr
  | error e => exact hQ (.error e) hr

/-- One awaited call and what comes after it. -/
theorem follows_await {o : I.Op} {f : I.Reply o → Program I β} (ha : P.allowed l o)
    (hok : ∀ r, P.possible o (.ok r) → (f r).Follows P R (P.next l o (.ok r)))
    (herr : ∀ e, P.possible o (.error e) → R (P.next l o (.error e)) (.error e)) :
    ((perform o).bind f).Follows P R l := by
  refine ⟨ha, fun r hr => ?_⟩
  cases r with
  | ok r => exact hok r hr
  | error e => exact herr e hr

/-- A loop: `S` relates the elements that are left to the summary. -/
theorem follows_forEach {f : β → Program I Unit} {bs : List β} {S : List β → P.Local → Prop}
    {R : P.Local → Except I.Err Unit → Prop} (h0 : S bs l)
    (hf : ∀ b bs l, S (b :: bs) l → (f b).Follows P (fun l r => match r with
      | .ok _ => S bs l
      | .error e => R l (.error e)) l)
    (hR : ∀ l, S [] l → R l (.ok ())) : (forEach f bs).Follows P R l := by
  induction bs generalizing l with
  | nil => exact hR _ h0
  | cons b bs ih => exact (hf b bs _ h0).bind (fun l _ hl => ih hl) (fun _ _ hl => hl)

/-- A loop that gives a list, in which every round keeps the summary. -/
theorem follows_collect {f : β → Program I α} {bs : List β}
    (hf : ∀ b ∈ bs, (f b).Follows P (fun l' _ => l' = l) l) :
    (collect f bs).Follows P (fun l' _ => l' = l) l := by
  induction bs with
  | nil => exact rfl
  | cons b bs ih =>
    have hrest := ih fun b' hb' => hf b' (List.mem_cons_of_mem b hb')
    refine (hf b List.mem_cons_self).bind (fun l' a hl => ?_) fun l' e hl => hl
    subst hl
    exact hrest.bind (fun l' as hl => hl) fun l' e hl => hl

/-- A family of settled calls: `S` relates the summary to the outcomes so far. -/
theorem follows_settle {f : β → Program I α} {bs : List β}
    {S : P.Local → List β → List (Except I.Err α) → Prop} (h0 : S l [] [])
    (hf : ∀ b ∈ bs, ∀ l ds rs, S l ds rs →
      (f b).Follows P (fun l r => S l (ds ++ [b]) (rs ++ [r])) l) :
    (settle f bs).Follows P (fun l r => ∃ rs, r = .ok rs ∧ S l bs rs) l := by
  suffices h : ∀ (bs' ds : List β) (rs : List (Except I.Err α)) l, bs = ds ++ bs' → S l ds rs →
      (settle f bs').Follows P (fun l r => ∃ rs', r = .ok rs' ∧ S l bs (rs ++ rs')) l by
    simpa using h bs [] [] l rfl h0
  intro bs'
  induction bs' with
  | nil =>
    intro ds rs l hb hl
    subst hb
    exact ⟨[], rfl, by simpa using hl⟩
  | cons b bs' ih =>
    intro ds rs l hb hl
    have hmem : b ∈ bs := by simp [hb]
    have hattempt : (f b).attempt.Follows P
        (fun l r => ∃ r', r = .ok r' ∧ S l (ds ++ [b]) (rs ++ [r'])) l :=
      (hf b hmem l ds rs hl).attempt fun l r hr => ⟨r, rfl, hr⟩
    refine hattempt.bind ?_ ?_
    · rintro l a ⟨r', hr', hl⟩
      cases hr'
      refine (ih (ds ++ [b]) (rs ++ [a]) l (by simp [hb]) hl).bind ?_ ?_
      · rintro l rs' ⟨rs'', hr'', hl⟩
        cases hr''
        exact ⟨_, rfl, by simpa using hl⟩
      · rintro l e ⟨_, he, _⟩
        cases he
    · rintro l e ⟨_, he, _⟩
      cases he

end Program

/-- The protocol of programs that make calls of one kind only. -/
def Protocol.only {I : Interface} (S : I.Op → Prop) (possible : (o : I.Op) → Except I.Err (I.Reply o) → Prop) :
    Protocol I where
  Local := Unit
  next _ _ _ := ()
  allowed _ := S
  possible := possible

/-- A call that is allowed and leaves the summary as it is. -/
structure Protocol.Ignores {I : Interface} (P : Protocol I) (l : P.Local) (o : I.Op) : Prop where
  allowed : P.allowed l o
  next : ∀ r, P.possible o r → P.next l o r = l

namespace Program
variable {I : Interface} {P : Protocol I} {α β : Type} {l : P.Local}

/-- The program makes calls of one kind only. -/
def Only (S : I.Op → Prop) : Program I α → Prop
  | done _ => True
  | raise _ => True
  | call o next => S o ∧ ∀ r, (next r).Only S

section
variable {S : I.Op → Prop} {p : Program I α}

@[simp] theorem only_done (a : α) : (done a : Program I α).Only S := trivial

@[simp] theorem only_raise (e : I.Err) : (raise e : Program I α).Only S := trivial

@[simp] theorem only_perform {o : I.Op} (h : S o) : (perform o : Program I (I.Reply o)).Only S := by
  refine ⟨h, fun r => ?_⟩
  cases r <;> trivial

theorem Only.mono {T : I.Op → Prop} (h : p.Only S) (hST : ∀ o, S o → T o) : p.Only T := by
  induction p with
  | done a => trivial
  | raise e => trivial
  | call o next ih => exact ⟨hST o h.1, fun r => ih r (h.2 r)⟩

theorem Only.bind {f : α → Program I β} (h : p.Only S) (hf : ∀ a, (f a).Only S) : (p.bind f).Only S := by
  induction p with
  | done a => exact hf a
  | raise e => trivial
  | call o next ih => exact ⟨h.1, fun r => ih r (h.2 r)⟩

theorem Only.handle {c : I.Err → Program I α} (h : p.Only S) (hc : ∀ e, (c e).Only S) : (p.handle c).Only S := by
  induction p with
  | done a => trivial
  | raise e => exact hc e
  | call o next ih => exact ⟨h.1, fun r => ih r (h.2 r)⟩

theorem Only.attempt (h : p.Only S) : p.attempt.Only S := by
  induction p with
  | done a => trivial
  | raise e => trivial
  | call o next ih => exact ⟨h.1, fun r => ih r (h.2 r)⟩

theorem only_forEach {f : β → Program I Unit} (hf : ∀ b, (f b).Only S) (bs : List β) : (forEach f bs).Only S := by
  induction bs with
  | nil => trivial
  | cons b bs ih => exact (hf b).bind fun _ => ih

theorem Only.follows (h : p.Only S) (possible : (o : I.Op) → Except I.Err (I.Reply o) → Prop) :
    p.Follows (.only S possible) (fun _ _ => True) () := by
  induction p with
  | done a => trivial
  | raise e => trivial
  | call o next ih => exact ⟨h.1, fun r _ => ih r (h.2 r)⟩

end

/-- The program makes calls of one kind only, and what it returns satisfies `Q`. -/
def Makes (S : I.Op → Prop) (Q : α → Prop) : Program I α → Prop
  | done a => Q a
  | raise _ => True
  | call o next => S o ∧ ∀ r, (next r).Makes S Q

section
variable {S : I.Op → Prop} {Q : α → Prop} {R : β → Prop}

theorem makes_perform {o : I.Op} (h : S o) : (perform o : Program I (I.Reply o)).Makes S fun _ => True := by
  refine ⟨h, fun r => ?_⟩
  cases r <;> trivial

theorem Makes.bind {p : Program I α} {f : α → Program I β} (h : p.Makes S Q) (hf : ∀ a, Q a → (f a).Makes S R) :
    (p.bind f).Makes S R := by
  induction p with
  | done a => exact hf a h
  | raise e => trivial
  | call o next ih => exact ⟨h.1, fun r => ih r (h.2 r)⟩

theorem Makes.imp {Q' : α → Prop} {p : Program I α} (h : p.Makes S Q) (hQ : ∀ a, Q a → Q' a) : p.Makes S Q' := by
  induction p with
  | done a => exact hQ a h
  | raise e => trivial
  | call o next ih => exact ⟨h.1, fun r => ih r (h.2 r)⟩

theorem makes_collect {f : β → Program I α} {bs : List β} (hf : ∀ b ∈ bs, (f b).Makes S Q) :
    (collect f bs).Makes S fun as => ∀ a ∈ as, Q a := by
  induction bs with
  | nil =>
    intro a ha
    cases ha
  | cons b bs ih =>
    have hrest := ih fun b' hb' => hf b' (List.mem_cons_of_mem b hb')
    refine (hf b List.mem_cons_self).bind fun a ha => hrest.bind fun as has => ?_
    intro a' ha'
    rcases List.mem_cons.mp ha' with rfl | ha'
    · exact ha
    · exact has a' ha'

/-- A program of ignored calls, and what comes after it. -/
theorem Makes.follows_bind {R : P.Local → Except I.Err β → Prop} {p : Program I α} {f : α → Program I β}
    (h : p.Makes S Q) (hS : ∀ o, S o → P.Ignores l o) (hok : ∀ a, Q a → (f a).Follows P R l)
    (herr : ∀ e, R l (.error e)) : (p.bind f).Follows P R l := by
  induction p with
  | done a => exact hok a h
  | raise e => exact herr e
  | call o next ih =>
    have ho := hS o h.1
    refine ⟨ho.allowed, fun r hr => ?_⟩
    rw [ho.next r hr]
    exact ih r (h.2 r)

end

/-- A program of ignored calls is known by its results. -/
theorem Follows.of_only {S : I.Op → Prop} {possible : (o : I.Op) → Except I.Err (I.Reply o) → Prop}
    {Q : Except I.Err α → Prop} {p : Program I α} (h : p.Follows (.only S possible) (fun _ r => Q r) ())
    (hS : ∀ o, S o → P.Ignores l o) (hP : ∀ o r, P.possible o r → possible o r) :
    p.Follows P (fun l' r => l' = l ∧ Q r) l := by
  induction p with
  | done a => exact ⟨rfl, h⟩
  | raise e => exact ⟨rfl, h⟩
  | call o next ih =>
    have ho := hS o h.1
    refine ⟨ho.allowed, fun r hr => ?_⟩
    rw [ho.next r hr]
    exact ih r (h.2 r (hP o r hr))

/-- A program of ignored calls, and what comes after it. -/
theorem Follows.only_bind {S : I.Op → Prop} {possible : (o : I.Op) → Except I.Err (I.Reply o) → Prop}
    {Q : Except I.Err α → Prop} {R : P.Local → Except I.Err β → Prop} {p : Program I α} {f : α → Program I β}
    (h : p.Follows (.only S possible) (fun _ r => Q r) ()) (hS : ∀ o, S o → P.Ignores l o)
    (hP : ∀ o r, P.possible o r → possible o r) (hok : ∀ a, Q (.ok a) → (f a).Follows P R l)
    (herr : ∀ e, Q (.error e) → R l (.error e)) : (p.bind f).Follows P R l :=
  (h.of_only hS hP).bind (fun l' a hl => by obtain ⟨rfl, ha⟩ := hl; exact hok a ha)
    (fun l' e hl => by obtain ⟨rfl, he⟩ := hl; exact herr e he)

/-- A program of ignored calls whose result does not matter. -/
theorem Only.follows_bind {S : I.Op → Prop} {R : P.Local → Except I.Err β → Prop} {p : Program I α}
    {f : α → Program I β} (h : p.Only S) (hS : ∀ o, S o → P.Ignores l o)
    (hok : ∀ a, (f a).Follows P R l) (herr : ∀ e, R l (.error e)) : (p.bind f).Follows P R l :=
  (h.follows P.possible).only_bind hS (fun _ _ hr => hr) (fun a _ => hok a) (fun e _ => herr e)

theorem Only.follows_last {S : I.Op → Prop} {Q : P.Local → Except I.Err α → Prop} {p : Program I α}
    (h : p.Only S) (hS : ∀ o, S o → P.Ignores l o) (hQ : ∀ r, Q l r) : p.Follows P Q l :=
  ((h.follows P.possible).of_only hS fun _ _ hr => hr).mono fun _ r hl => hl.1 ▸ hQ r

end Program
end Concurrent
