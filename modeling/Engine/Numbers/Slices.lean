import Engine.Numbers.Number

/-! The loop over a list in slices, where the step is any number. -/
namespace Numbers.Number
variable {α σ ε : Type} {size i : Number} {l : List α} {length : ℕ} {d : Double}

/-- `for (i; i < l.length; i += size)`, with `f` on `l.slice(i, i + size)`; `none`: the fuel runs out. -/
def forSlices (f : σ → List α → Except ε σ) (size : Number) (l : List α) : ℕ → Number → σ → Option (Except ε σ)
  | 0, _, _ => none
  | fuel + 1, i, acc =>
    if lt i (ofNat l.length) then
      match f acc (slice l i (add i size)) with
      | .error e => some (.error e)
      | .ok acc => forSlices f size l fuel (add i size) acc
    else some (.ok acc)

/-- The loop variable, turn by turn. -/
def counter (size : Number) : ℕ → Number
  | 0 => ofNat 0
  | k + 1 => add (counter size k) size

/-- What a turn works on. -/
def turn (size : Number) (l : List α) (k : ℕ) : List α := slice l (counter size k) (counter size (k + 1))

theorem ofNat_eq (length : ℕ) (h : length ≤ 2 ^ 53) : ∃ d, ofNat length = finite d ∧ d.val = length :=
  eq_finite (value_ofNat h)

theorem lt_ofNat (h : length ≤ 2 ^ 53) : lt (finite d) (ofNat length) = true ↔ d.val < length := by
  obtain ⟨d', hd', hval⟩ := ofNat_eq _ h
  rw [hd', ← hval]
  exact decide_eq_true_iff

theorem sliceIndex_finite (h : 0 ≤ d.val) : sliceIndex length (finite d) = Nat.min ⌊d.val⌋.toNat length := by
  have htrunc : trunc d.val = ⌊d.val⌋ := if_neg (not_lt.mpr h)
  show (if trunc d.val < 0 then _ else _) = _
  rw [htrunc, if_neg (not_lt.mpr (Int.floor_nonneg.mpr h))]

theorem sliceIndex_zero : sliceIndex length (ofNat 0) = 0 := by
  obtain ⟨d, hd, hval⟩ := ofNat_eq 0 (by decide)
  rw [hd, sliceIndex_finite hval.symm.le, hval, Nat.cast_zero, Int.floor_zero]
  exact Nat.zero_min _

/-! ### Steps of one at least -/

/-- A number that the loop can be at. -/
inductive Ahead : Number → Prop
  | infinity : Ahead infinity
  | finite (d : Double) (h : 0 ≤ d.val) : Ahead (finite d)

theorem sliceIndex_of_not_lt (h : length ≤ 2 ^ 53) (hi : Ahead i) (hlt : ¬ lt i (ofNat length) = true) :
    sliceIndex length i = length := by
  cases hi with
  | infinity => rfl
  | finite d hd =>
    rw [lt_ofNat h, not_lt] at hlt
    have hfloor : (length : ℤ) ≤ ⌊d.val⌋ := Int.le_floor.mpr (by exact_mod_cast hlt)
    rw [sliceIndex_finite hd]
    exact Nat.min_eq_right (by omega)

/-- A step of one at least gets to a later index, whatever it is rounded to. -/
theorem sliceIndex_add (h : length ≤ 2 ^ 53) (hsize : le (ofNat 1) size = true) (hi : Ahead i)
    (hlt : lt i (ofNat length) = true) :
    Ahead (add i size) ∧ sliceIndex length i < length ∧ sliceIndex length i < sliceIndex length (add i size) := by
  obtain ⟨one, hone, hval⟩ := ofNat_eq 1 (by decide)
  cases hi with
  | infinity =>
    obtain ⟨d', hd', -⟩ := ofNat_eq _ h
    rw [hd'] at hlt
    cases hlt
  | finite d hd =>
    rw [lt_ofNat h] at hlt
    have hfloor : ⌊d.val⌋ < (length : ℤ) := Int.floor_lt.mpr (by exact_mod_cast hlt)
    have hnonneg : 0 ≤ ⌊d.val⌋ := Int.floor_nonneg.mpr hd
    have hindex : sliceIndex length (finite d) = ⌊d.val⌋.toNat := by
      rw [sliceIndex_finite hd]
      exact Nat.min_eq_left (by omega)
    rw [hindex]
    have hinside : ⌊d.val⌋.toNat < length := by omega
    rw [hone] at hsize
    cases size with
    | nan => cases hsize
    | negInfinity => cases hsize
    | infinity => exact ⟨.infinity, hinside, hinside⟩
    | finite s =>
      have hs : 1 ≤ s.val := by
        have hnot : ¬ s.val < one.val := by simpa [le, lt] using hsize
        rw [hval, Nat.cast_one] at hnot
        exact not_lt.mp hnot
      have habs : |⌊d.val⌋ + 1| ≤ 2 ^ 53 := by
        rw [abs_of_nonneg (by omega)]
        omega
      have hnext : ((⌊d.val⌋ + 1 : ℤ) : ℚ) ≤ d.val + s.val := by
        have hd' := Int.floor_le d.val
        push_cast
        linarith
      have hzero : (0 : ℚ) ≤ ((⌊d.val⌋ + 1 : ℤ) : ℚ) := by exact_mod_cast (by omega : (0 : ℤ) ≤ ⌊d.val⌋ + 1)
      show Ahead (nearest (d.val + s.val)) ∧ _ ∧ _ < sliceIndex length (nearest (d.val + s.val))
      rcases nearest_of_le (onGrid_intCast habs) hzero hnext with hinf | ⟨d', hd', hle⟩
      · rw [hinf]
        exact ⟨.infinity, hinside, hinside⟩
      · rw [hd']
        have hd'nonneg : 0 ≤ d'.val := hzero.trans hle
        have hlater : ⌊d.val⌋ + 1 ≤ ⌊d'.val⌋ := Int.le_floor.mpr hle
        refine ⟨.finite d' hd'nonneg, hinside, ?_⟩
        rw [sliceIndex_finite hd'nonneg]
        exact lt_of_lt_of_le (by omega) (Nat.le_min.mpr ⟨(by omega : ⌊d.val⌋.toNat + 1 ≤ ⌊d'.val⌋.toNat), hinside⟩)

theorem sliceIndex_le (hi : Ahead i) : sliceIndex length i ≤ length := by
  cases hi with
  | infinity => exact le_rfl
  | finite d hd =>
    rw [sliceIndex_finite hd]
    exact Nat.min_le_right _ _

/-- The loop goes ahead, also behind the end of the list. -/
theorem ahead_add (hsize : le (ofNat 1) size = true) (hi : Ahead i) :
    Ahead (add i size) ∧ sliceIndex length i ≤ sliceIndex length (add i size) := by
  obtain ⟨one, hone, hval⟩ := ofNat_eq 1 (by decide)
  rw [hone] at hsize
  cases size with
  | nan => cases hsize
  | negInfinity => cases hsize
  | infinity =>
    have hlater : sliceIndex length i ≤ length := sliceIndex_le hi
    cases hi with
    | infinity => exact ⟨.infinity, hlater⟩
    | finite d hd => exact ⟨.infinity, hlater⟩
  | finite s =>
    cases hi with
    | infinity => exact ⟨.infinity, le_rfl⟩
    | finite d hd =>
      have hs : 1 ≤ s.val := by
        have hnot : ¬ s.val < one.val := by simpa [le, lt] using hsize
        rw [hval, Nat.cast_one] at hnot
        exact not_lt.mp hnot
      have hsum : d.val ≤ d.val + s.val := by linarith
      have hbound : sliceIndex length (finite d) ≤ length := sliceIndex_le (.finite d hd)
      show Ahead (nearest (d.val + s.val)) ∧ _ ≤ sliceIndex length (nearest (d.val + s.val))
      rcases nearest_of_le d.onGrid hd hsum with hinf | ⟨d', hd', hle⟩
      · rw [hinf]
        exact ⟨.infinity, hbound⟩
      · have hd'nonneg : 0 ≤ d'.val := hd.trans hle
        have hfloor : ⌊d.val⌋ ≤ ⌊d'.val⌋ := Int.floor_le_floor hle
        rw [hd', sliceIndex_finite hd, sliceIndex_finite hd'nonneg]
        refine ⟨.finite d' hd'nonneg, Nat.le_min.mpr ⟨?_, Nat.min_le_right _ _⟩⟩
        exact (Nat.min_le_left _ _).trans (by omega)

theorem ahead_counter (hsize : le (ofNat 1) size = true) (k : ℕ) : Ahead (counter size k) := by
  induction k with
  | zero =>
    obtain ⟨d, hd, hval⟩ := ofNat_eq 0 (by decide)
    rw [counter, hd]
    exact .finite d hval.symm.le
  | succ k ih =>
    have hnext : Ahead (add (counter size k) size) ∧ sliceIndex 0 _ ≤ sliceIndex 0 _ := ahead_add hsize ih
    exact hnext.1

theorem sliceIndex_counter_mono (hsize : le (ofNat 1) size = true) {j k : ℕ} (h : j ≤ k) :
    sliceIndex length (counter size j) ≤ sliceIndex length (counter size k) := by
  induction k, h using Nat.le_induction with
  | base => exact le_rfl
  | succ k _ ih => exact ih.trans (ahead_add hsize (ahead_counter hsize k)).2

theorem slice_eq_nil {j : Number} (h : sliceIndex l.length j ≤ sliceIndex l.length i) : slice l i j = [] := by
  unfold slice
  rw [List.drop_eq_nil_iff, List.length_take]
  omega

/-- A turn behind the end of the list has nothing to work on. -/
theorem turn_eq_nil (hsize : le (ofNat 1) size = true) {j k : ℕ}
    (hend : sliceIndex l.length (counter size k) = l.length) (h : k ≤ j) : turn size l j = [] := by
  have hlast : sliceIndex l.length (counter size (j + 1)) ≤ l.length := sliceIndex_le (ahead_counter hsize _)
  have hmono : sliceIndex l.length (counter size k) ≤ sliceIndex l.length (counter size j) :=
    sliceIndex_counter_mono hsize h
  exact slice_eq_nil (by omega)

private theorem forSlices_from (hl : l.length ≤ 2 ^ 53) (hsize : le (ofNat 1) size = true) (fuel : ℕ) {k : ℕ}
    (hfuel : l.length - sliceIndex l.length (counter size k) < fuel) : ∃ bs : List (List α),
      bs.flatten = l.drop (sliceIndex l.length (counter size k)) ∧
      (∀ b, b ∈ bs ↔ b ≠ [] ∧ ∃ j, k ≤ j ∧ b = turn size l j) ∧
      ∀ (f : σ → List α → Except ε σ) acc, forSlices f size l fuel (counter size k) acc = some (bs.foldlM f acc) := by
  induction fuel generalizing k with
  | zero => exact absurd hfuel (Nat.not_lt_zero _)
  | succ fuel ih =>
    by_cases hlt : lt (counter size k) (ofNat l.length) = true
    · obtain ⟨-, hinside, hlater⟩ := sliceIndex_add hl hsize (ahead_counter hsize k) hlt
      have hfuel' : l.length - sliceIndex l.length (counter size (k + 1)) < fuel := by
        rw [counter]
        omega
      obtain ⟨bs, hflatten, hmem, hrun⟩ := ih hfuel'
      have hslice : turn size l k = (l.drop (sliceIndex l.length (counter size k))).take
          (sliceIndex l.length (counter size (k + 1)) - sliceIndex l.length (counter size k)) := List.drop_take
      have hfirst : turn size l k ≠ [] := by
        intro hempty
        have hlength := congrArg List.length (hslice.symm.trans hempty)
        rw [List.length_take, List.length_drop, List.length_nil, counter] at hlength
        omega
      refine ⟨turn size l k :: bs, ?_, ?_, ?_⟩
      · have hdrop : l.drop (sliceIndex l.length (counter size (k + 1))) =
            (l.drop (sliceIndex l.length (counter size k))).drop
              (sliceIndex l.length (counter size (k + 1)) - sliceIndex l.length (counter size k)) := by
          rw [List.drop_drop]
          congr 1
          rw [counter]
          omega
        rw [List.flatten_cons, hflatten, hslice, hdrop, List.take_append_drop]
      · intro b
        rw [List.mem_cons, hmem]
        constructor
        · intro h
          rcases h with rfl | ⟨hne, j, hj, hb⟩
          · exact ⟨hfirst, k, le_rfl, rfl⟩
          · exact ⟨hne, j, by omega, hb⟩
        · intro h
          obtain ⟨hne, j, hj, hb⟩ := h
          by_cases hk : j = k
          · exact Or.inl (hk ▸ hb)
          · exact Or.inr ⟨hne, j, by omega, hb⟩
      · intro f acc
        unfold forSlices
        rw [if_pos hlt, List.foldlM_cons]
        show (match f acc (turn size l k) with | .error e => _ | .ok acc => _) = _
        cases f acc (turn size l k) with
        | error e => rfl
        | ok acc => exact hrun f acc
    · have hend := sliceIndex_of_not_lt hl (ahead_counter hsize k) hlt
      refine ⟨[], ?_, fun b => ?_, fun f acc => ?_⟩
      · rw [hend, List.drop_length]
        rfl
      · constructor
        · intro h
          cases h
        · intro h
          obtain ⟨hne, j, hj, rfl⟩ := h
          exact absurd (turn_eq_nil hsize hend hj) hne
      · unfold forSlices
        rw [if_neg hlt]
        rfl

/-- With a step of one at least the loop ends, on the turns that have something to work on; they make up the list. -/
theorem forSlices_of_le (hl : l.length ≤ 2 ^ 53) (hsize : le (ofNat 1) size = true) : ∃ bs : List (List α),
    bs.flatten = l ∧ (∀ b, b ∈ bs ↔ b ≠ [] ∧ ∃ k, b = turn size l k) ∧
    ∀ (f : σ → List α → Except ε σ) acc,
      forSlices f size l (l.length + 1) (ofNat 0) acc = some (bs.foldlM f acc) := by
  obtain ⟨bs, hflatten, hmem, hrun⟩ := forSlices_from (k := 0) hl hsize (l.length + 1) (by omega)
  rw [counter, sliceIndex_zero, List.drop_zero] at hflatten
  exact ⟨bs, hflatten, fun b => by simp [hmem], hrun⟩

/-- More fuel changes nothing. -/
theorem forSlices_fuel {f : σ → List α → Except ε σ} {fuel fuel' : ℕ} {acc : σ} {r r' : Except ε σ}
    (h : forSlices f size l fuel i acc = some r) (h' : forSlices f size l fuel' i acc = some r') : r = r' := by
  induction fuel generalizing fuel' i acc with
  | zero => cases h
  | succ fuel ih =>
    cases fuel' with
    | zero => cases h'
    | succ fuel' =>
      unfold forSlices at h h'
      split_ifs at h h' with hlt
      · cases hacc : f acc (slice l i (add i size)) with
        | error e =>
          rw [hacc] at h h'
          exact Option.some.inj (h.symm.trans h')
        | ok acc' =>
          rw [hacc] at h h'
          exact ih h h'
      · exact Option.some.inj (h.symm.trans h')

/-! ### Whole steps -/

section
variable {n : ℕ}

theorem sliceIndex_ofNat {k : ℕ} (h : k ≤ 2 ^ 53) : sliceIndex length (ofNat k) = Nat.min k length := by
  obtain ⟨d, hd, hval⟩ := ofNat_eq k h
  have hnonneg : 0 ≤ d.val := by
    rw [hval]
    exact Nat.cast_nonneg k
  rw [hd, sliceIndex_finite hnonneg, hval, Int.floor_natCast, Int.toNat_natCast]

theorem le_ofNat (hn : 1 ≤ n) (hn' : n ≤ 2 ^ 53) : le (ofNat 1) (ofNat n) = true := by
  obtain ⟨one, hone, honeval⟩ := ofNat_eq 1 (by decide)
  obtain ⟨d, hd, hval⟩ := ofNat_eq n hn'
  have hpos : n ≠ 0 := by omega
  rw [hone, hd]
  simp [le, lt, honeval, hval, hpos]

/-- The loop variable is a multiple of the step, at least up to the end of the list. -/
theorem counter_ofNat (hn : 1 ≤ n) (hn' : n ≤ 2 ^ 52) (hlength : length ≤ 2 ^ 52) (k : ℕ) :
    counter (ofNat n) k = ofNat (k * n) ∧ k * n ≤ 2 ^ 53 ∨ sliceIndex length (counter (ofNat n) k) = length := by
  have hsize : le (ofNat 1) (ofNat n) = true := le_ofNat hn (by omega)
  induction k with
  | zero => exact Or.inl ⟨by rw [counter, Nat.zero_mul], by omega⟩
  | succ k ih =>
    have hlast : sliceIndex length (counter (ofNat n) (k + 1)) ≤ length := sliceIndex_le (ahead_counter hsize _)
    have hmono : sliceIndex length (counter (ofNat n) k) ≤ sliceIndex length (counter (ofNat n) (k + 1)) :=
      sliceIndex_counter_mono hsize (Nat.le_succ k)
    rcases ih with ⟨hk, hbound⟩ | hend
    · by_cases hsmall : k * n ≤ 2 ^ 52
      · have hsum : k * n + n ≤ 2 ^ 53 := by omega
        exact Or.inl ⟨by rw [counter, hk, add_ofNat hsum, Nat.succ_mul], by rw [Nat.succ_mul]; exact hsum⟩
      · have hend : sliceIndex length (counter (ofNat n) k) = length := by
          rw [hk, sliceIndex_ofNat hbound]
          exact Nat.min_eq_right (by omega)
        exact Or.inr (by omega)
    · exact Or.inr (by omega)

/-- The turns of a whole step are bounded if the first one is. -/
theorem length_turn_ofNat_le_iff (hn : 1 ≤ n) (hn' : n ≤ 2 ^ 52) (hl : l.length ≤ 2 ^ 52) {bound : ℕ} :
    (∀ k, (turn (ofNat n) l k).length ≤ bound) ↔ Nat.min n l.length ≤ bound := by
  have hsize : le (ofNat 1) (ofNat n) = true := le_ofNat hn (by omega)
  have hlength : ∀ k, (turn (ofNat n) l k).length =
      sliceIndex l.length (counter (ofNat n) (k + 1)) - sliceIndex l.length (counter (ofNat n) k) := by
    intro k
    have hlast : sliceIndex l.length (counter (ofNat n) (k + 1)) ≤ l.length := sliceIndex_le (ahead_counter hsize _)
    unfold turn slice
    rw [List.length_drop, List.length_take, Nat.min_eq_left hlast]
  constructor
  · intro h
    have hfirst := h 0
    have hone : counter (ofNat n) 1 = ofNat n := by
      rw [counter, counter, add_ofNat (by omega), Nat.zero_add]
    rw [hlength 0, hone, counter, sliceIndex_zero, sliceIndex_ofNat (by omega)] at hfirst
    exact hfirst
  · intro h k
    rw [hlength k]
    rcases counter_ofNat hn hn' hl k with ⟨hk, hbound⟩ | hend
    · by_cases hinside : k * n ≤ 2 ^ 52
      · have hsum : k * n + n ≤ 2 ^ 53 := by omega
        rw [counter, hk, add_ofNat hsum, sliceIndex_ofNat hsum, sliceIndex_ofNat hbound]
        have hmin : ∀ a b : ℕ, Nat.min a b = if a ≤ b then a else b := fun a b => Nat.min_def
        simp only [hmin] at h ⊢
        split_ifs at h ⊢ <;> omega
      · have hend : sliceIndex l.length (counter (ofNat n) k) = l.length := by
          rw [hk, sliceIndex_ofNat hbound]
          exact Nat.min_eq_right (by omega)
        have hlast : sliceIndex l.length (counter (ofNat n) (k + 1)) ≤ l.length := sliceIndex_le (ahead_counter hsize _)
        omega
    · have hlast : sliceIndex l.length (counter (ofNat n) (k + 1)) ≤ l.length := sliceIndex_le (ahead_counter hsize _)
      omega

end

/-! ### Steps below one -/

theorem add_zero_finite (d : Double) : add (ofNat 0) (finite d) = finite d := by
  obtain ⟨zero, hzero, hval⟩ := ofNat_eq 0 (by decide)
  rw [hzero]
  show nearest (zero.val + d.val) = _
  rw [hval, Nat.cast_zero, zero_add]
  exact nearest_val d

theorem add_self_of_neg (h : d.val < 0) :
    add (finite d) (finite d) = negInfinity ∨ ∃ d', add (finite d) (finite d) = finite d' ∧ d'.val ≤ d.val := by
  have hle : rounded (d.val + d.val) ≤ d.val := rounded_le d.onGrid (by linarith)
  show nearest _ = _ ∨ ∃ d', nearest _ = _ ∧ _
  unfold nearest
  split_ifs with hbound hpos
  · exact Or.inr ⟨_, rfl, hle⟩
  · exact absurd hpos (by linarith)
  · exact Or.inl rfl

theorem neg_of_trunc_neg {q : ℚ} (h : trunc q < 0) : q < 0 := by
  by_contra hnonneg
  have hfloor := Int.floor_nonneg.mpr (not_lt.mp hnonneg)
  unfold trunc at h
  rw [if_neg hnonneg] at h
  omega

/-- From the end of the list a number further back gives no later index. -/
theorem sliceIndex_mono_of_neg {d' : Double} (h : d'.val ≤ d.val) (hd : trunc d.val < 0) :
    sliceIndex length (finite d') ≤ sliceIndex length (finite d) := by
  have hneg : d.val < 0 := neg_of_trunc_neg hd
  have htrunc : trunc d'.val ≤ trunc d.val := by
    unfold trunc
    rw [if_pos hneg, if_pos (lt_of_le_of_lt h hneg)]
    exact Int.ceil_le_ceil h
  show (if trunc d'.val < 0 then _ else _) ≤ if trunc d.val < 0 then _ else _
  rw [if_pos hd, if_pos (lt_of_le_of_lt htrunc hd)]
  omega

/-- With any other step the first or the second slice is empty. -/
theorem forSlices_of_lt {f : σ → List α → Except ε σ} (hl : l.length ≤ 2 ^ 53) (hne : l ≠ [])
    (hsize : le (ofNat 1) size = false) (hempty : ∀ acc, ∃ e, f acc [] = .error e) {fuel : ℕ} {acc : σ}
    {r : Except ε σ} (h : forSlices f size l fuel (ofNat 0) acc = some r) : ∃ e, r = .error e := by
  have hpos : 0 < l.length := List.length_pos_iff.mpr hne
  have hstep : ∀ fuel i acc, lt i (ofNat l.length) = true → slice l i (add i size) = [] →
      forSlices f size l fuel i acc = some r → ∃ e, r = .error e := by
    intro fuel i acc hlt hslice hrun
    cases fuel with
    | zero => cases hrun
    | succ fuel =>
      unfold forSlices at hrun
      obtain ⟨e, he⟩ := hempty acc
      rw [if_pos hlt, hslice, he] at hrun
      exact ⟨e, (Option.some.inj hrun).symm⟩
  obtain ⟨zero, hzero, hzeroval⟩ := ofNat_eq 0 (by decide)
  have hstart : lt (ofNat 0) (ofNat l.length) = true := by
    rw [hzero, lt_ofNat hl, hzeroval]
    exact_mod_cast hpos
  have hfirst : sliceIndex l.length (add (ofNat 0) size) = 0 → ∃ e, r = .error e := by
    intro hindex
    refine hstep fuel (ofNat 0) acc hstart (slice_eq_nil ?_) h
    rw [hindex]
    exact Nat.zero_le _
  cases size with
  | nan =>
    refine hfirst ?_
    rw [hzero]
    rfl
  | negInfinity =>
    refine hfirst ?_
    rw [hzero]
    rfl
  | infinity =>
    obtain ⟨one, hone, -⟩ := ofNat_eq 1 (by decide)
    rw [hone] at hsize
    cases hsize
  | finite s =>
    rw [add_zero_finite] at hfirst
    have hs : s.val < 1 := by
      obtain ⟨one, hone, hval⟩ := ofNat_eq 1 (by decide)
      rw [hone] at hsize
      have hlt : s.val < one.val := by simpa [le, lt] using hsize
      rwa [hval, Nat.cast_one] at hlt
    by_cases htrunc : trunc s.val < 0
    · cases fuel with
      | zero => cases h
      | succ fuel =>
        unfold forSlices at h
        rw [if_pos hstart, add_zero_finite] at h
        cases hacc : f acc (slice l (ofNat 0) (finite s)) with
        | error e =>
          rw [hacc] at h
          exact ⟨e, (Option.some.inj h).symm⟩
        | ok acc' =>
          rw [hacc] at h
          have hneg : s.val < 0 := neg_of_trunc_neg htrunc
          have hlt : lt (finite s) (ofNat l.length) = true := by
            rw [lt_ofNat hl]
            exact lt_of_lt_of_le hneg (Nat.cast_nonneg _)
          refine hstep fuel (finite s) acc' hlt (slice_eq_nil ?_) h
          rcases add_self_of_neg hneg with hinf | ⟨s', hs', hle⟩
          · rw [hinf]
            exact Nat.zero_le _
          · rw [hs']
            exact sliceIndex_mono_of_neg hle htrunc
    · refine hfirst ?_
      have hzerotrunc : trunc s.val = 0 := by
        refine le_antisymm ?_ (not_lt.mp htrunc)
        unfold trunc
        split_ifs with hneg
        · exact Int.ceil_le.mpr (by exact_mod_cast hneg.le)
        · exact Int.lt_add_one_iff.mp (Int.floor_lt.mpr (by exact_mod_cast hs))
      show (if trunc s.val < 0 then _ else _) = _
      rw [if_neg htrunc, hzerotrunc]
      exact Nat.zero_min _

end Numbers.Number
