import Mathlib.Data.List.Sort
import Mathlib.Order.Lattice

/-! Reading a table in pages by a key: every page starts after the last row of the one before. -/
namespace Keyset

theorem nodup_filter {ρ κ : Type} {key : ρ → κ} {rows : List ρ} (h : (rows.map key).Nodup) (p : ρ → Bool) :
    ((rows.filter p).map key).Nodup := h.sublist (List.filter_sublist.map key)

section
variable {ρ κ : Type} [LinearOrder κ] (key : ρ → κ)

/-- `ORDER BY key`. -/
def sorted (rows : List ρ) : List ρ := rows.insertionSort fun x y => key x ≤ key y

/-- `WHERE p ORDER BY key LIMIT n`. -/
def select (p : ρ → Bool) (n : ℕ) (rows : List ρ) : List ρ := (sorted key (rows.filter p)).take n

variable {key} {p q : ρ → Bool} {n : ℕ} {rows : List ρ} {x y : ρ}

@[simp] theorem mem_sorted : x ∈ sorted key rows ↔ x ∈ rows := List.mem_insertionSort _

/-- Rows with different keys come in strictly increasing order. -/
theorem sorted_pairwise (h : (rows.map key).Nodup) : (sorted key rows).Pairwise fun x y => key x < key y := by
  have hle : (sorted key rows).Pairwise fun x y => key x ≤ key y := by
    have htotal : Std.Total fun x y : ρ => key x ≤ key y := ⟨fun x y => le_total (key x) (key y)⟩
    have htrans : IsTrans ρ fun x y => key x ≤ key y := ⟨fun x y z hxy hyz => le_trans hxy hyz⟩
    exact List.pairwise_insertionSort _ rows
  have hne : (sorted key rows).Pairwise fun x y => key x ≠ key y := by
    have hperm : ((sorted key rows).map key).Perm (rows.map key) := (List.perm_insertionSort _ rows).map key
    exact List.pairwise_map.mp (hperm.nodup_iff.mpr h)
  exact (hle.and hne).imp fun hxy => lt_of_le_of_ne hxy.1 hxy.2

/-- Rows are filtered before they are sorted, or after. -/
theorem sorted_filter (h : (rows.map key).Nodup) (p : ρ → Bool) :
    sorted key (rows.filter p) = (sorted key rows).filter p := by
  have hfiltered := sorted_pairwise (nodup_filter h p)
  have hsorted := (sorted_pairwise h).filter p
  have hirrefl : Std.Irrefl fun x y : ρ => key x < key y := ⟨fun x => lt_irrefl (key x)⟩
  have hantisymm : Std.Antisymm fun x y : ρ => key x < key y := ⟨fun x y hxy hyx => absurd hyx hxy.asymm⟩
  refine hfiltered.eq_of_mem_iff hsorted fun x => ?_
  simp

theorem mem_of_mem_select (h : x ∈ select key p n rows) : x ∈ rows ∧ p x = true := by
  have hmem := List.mem_of_mem_take h
  rw [mem_sorted] at hmem
  exact List.mem_filter.mp hmem

theorem select_pairwise (h : (rows.map key).Nodup) : (select key p n rows).Pairwise fun x y => key x < key y :=
  (sorted_pairwise (nodup_filter h p)).sublist (List.take_sublist n _)

/-- A page leaves out no row before one of its own. -/
theorem mem_select_of_le (h : (rows.map key).Nodup) (hx : x ∈ rows) (hp : p x = true)
    (hy : y ∈ select key p n rows) (hle : key x ≤ key y) : x ∈ select key p n rows := by
  have hmem : x ∈ sorted key (rows.filter p) := by
    rw [mem_sorted]
    exact List.mem_filter.mpr ⟨hx, hp⟩
  have hsorted := sorted_pairwise (nodup_filter h p)
  unfold select at hy ⊢
  rw [← List.take_append_drop n (sorted key (rows.filter p)), List.pairwise_append] at hsorted
  rw [← List.take_append_drop n (sorted key (rows.filter p)), List.mem_append] at hmem
  rcases hmem with hmem | hmem
  · exact hmem
  · exact absurd (hsorted.2.2 y hy x hmem) (not_lt_of_ge hle)

/-- A page that is not full leaves out no row. -/
theorem mem_select_of_length_lt (hlength : (select key p n rows).length < n) (hx : x ∈ rows) (hp : p x = true) :
    x ∈ select key p n rows := by
  have hmem : x ∈ sorted key (rows.filter p) := by
    rw [mem_sorted]
    exact List.mem_filter.mpr ⟨hx, hp⟩
  unfold select at hlength ⊢
  rw [List.length_take] at hlength
  rwa [List.take_of_length_le (by omega)]

end

/-! ### All pages

The next page starts after the group of the last row, so it leaves out the rest of the group. -/

section
variable {ρ κ γ : Type} [LinearOrder κ] [LinearOrder γ] (group : ρ → γ)

/-- The row is in a later group than the cursor. -/
def After (cursor : Option ρ) (x : ρ) : Prop := ∀ a ∈ cursor, group a < group x

instance (cursor : Option ρ) (x : ρ) : Decidable (After group cursor x) :=
  inferInstanceAs (Decidable (∀ a ∈ cursor, group a < group x))

def nextPage (n : ℕ) (rows : List ρ) (cursor : Option ρ) : List ρ :=
  (rows.filter fun x => After group cursor x).take n

/-- The rows of all pages until an empty one, if there are not more pages than the fuel allows. -/
def follow (n : ℕ) (rows : List ρ) : ℕ → Option ρ → Option (List ρ)
  | 0, _ => none
  | fuel + 1, cursor =>
    match (nextPage group n rows cursor).getLast? with
    | none => some []
    | some last => (follow n rows fuel (some last)).map fun rest => nextPage group n rows cursor ++ rest

/-- No page but the last one ends inside a group. -/
def Boundaries (n : ℕ) (rows : List ρ) : Prop :=
  ∀ k, 0 < k → ∀ x y, rows[k * n - 1]? = some x → rows[k * n]? = some y → group x < group y

variable {group} {n fuel : ℕ} {rows out : List ρ} {cursor : Option ρ} {key : ρ → κ}

theorem after_of_mem_follow (h : follow group n rows fuel cursor = some out) {x : ρ} (hx : x ∈ out) :
    After group cursor x := by
  induction fuel generalizing cursor out with
  | zero => cases h
  | succ fuel ih =>
    have hpage : ∀ y ∈ nextPage group n rows cursor, After group cursor y := fun y hy =>
      of_decide_eq_true (List.mem_filter.mp (List.mem_of_mem_take hy)).2
    unfold follow at h
    split at h
    · obtain rfl := Option.some.inj h
      cases hx
    · rename_i last hlast
      obtain ⟨rest, hrest, rfl⟩ := Option.map_eq_some_iff.mp h
      rcases List.mem_append.mp hx with hx | hx
      · exact hpage x hx
      · intro a ha
        have hlater := ih hrest hx last rfl
        exact lt_trans (hpage last (List.mem_of_getLast? hlast) a ha) hlater

/-- There are fewer pages than rows after the cursor. -/
theorem follow_isSome (h : (rows.filter fun x => After group cursor x).length < fuel) :
    ∃ out, follow group n rows fuel cursor = some out := by
  induction fuel generalizing cursor with
  | zero => omega
  | succ fuel ih =>
    unfold follow
    split
    · exact ⟨[], rfl⟩
    · rename_i last hlast
      have hmem : last ∈ rows.filter fun x => After group cursor x :=
        List.mem_of_mem_take (List.mem_of_getLast? hlast)
      have hlast : After group cursor last := of_decide_eq_true (List.mem_filter.mp hmem).2
      have hlater : (rows.filter fun x => After group (some last) x) =
          (rows.filter fun x => After group cursor x).filter fun x => After group (some last) x := by
        rw [List.filter_filter]
        refine List.filter_congr fun x _ => ?_
        by_cases hx : After group (some last) x
        · have hafter : After group cursor x := fun a ha => lt_trans (hlast a ha) (hx last rfl)
          simp [hx, hafter]
        · simp [hx]
      have hfewer : (rows.filter fun x => After group (some last) x).length <
          (rows.filter fun x => After group cursor x).length := by
        rw [hlater, List.length_filter_lt_length_iff_exists]
        exact ⟨last, hmem, by simp [After]⟩
      obtain ⟨rest, hrest⟩ := ih (lt_of_lt_of_le hfewer (by omega))
      exact ⟨_, by rw [hrest]; rfl⟩

/-- The boundary after the first page, and those after the others. -/
theorem boundaries_iff (hn : 0 < n) : Boundaries group n rows ↔
    (∀ x y, rows[n - 1]? = some x → rows[n]? = some y → group x < group y) ∧ Boundaries group n (rows.drop n) := by
  have hshift : ∀ k, 0 < k → (rows.drop n)[k * n - 1]? = rows[(k + 1) * n - 1]? ∧
      (rows.drop n)[k * n]? = rows[(k + 1) * n]? := by
    intro k hk
    have hpos : 0 < k * n := Nat.mul_pos hk hn
    have hsucc : (k + 1) * n = n + k * n := by rw [Nat.add_mul, Nat.one_mul, Nat.add_comm]
    rw [List.getElem?_drop, List.getElem?_drop, hsucc, Nat.add_sub_assoc hpos]
    exact ⟨rfl, rfl⟩
  constructor
  · intro h
    constructor
    · intro x y hx hy
      exact h 1 (by omega) x y (by rwa [Nat.one_mul]) (by rwa [Nat.one_mul])
    · intro k hk x y hx hy
      rw [(hshift k hk).1] at hx
      rw [(hshift k hk).2] at hy
      exact h (k + 1) (by omega) x y hx hy
  · intro h k hk x y hx hy
    by_cases hone : k = 1
    · subst hone
      rw [Nat.one_mul] at hx hy
      exact h.1 x y hx hy
    · obtain ⟨m, rfl⟩ : ∃ m, k = m + 1 := ⟨k - 1, by omega⟩
      have hm : 0 < m := by omega
      rw [← (hshift m hm).1] at hx
      rw [← (hshift m hm).2] at hy
      exact h.2 m hm x y hx hy

/-- From the cursor on, the pages return the rows that are left if and only if neither the cursor
nor a page but the last one is inside a group. -/
theorem follow_eq_iff (hmono : ∀ x y, key x ≤ key y → group x ≤ group y) (hn : 0 < n) (before : List ρ)
    (hrows : (before ++ rows).Pairwise fun x y => key x < key y)
    (hcursor : ∀ x ∈ before, ∃ a, cursor = some a ∧ group x ≤ group a)
    (h : follow group n (before ++ rows) fuel cursor = some out) :
    out = rows ↔ (∀ y, rows.head? = some y → After group cursor y) ∧ Boundaries group n rows := by
  induction fuel generalizing before rows cursor out with
  | zero => cases h
  | succ fuel ih =>
    obtain ⟨-, hsorted, hapart⟩ := List.pairwise_append.mp hrows
    by_cases hfirst : ∀ y, rows.head? = some y → After group cursor y
    · -- all rows that are left are after the cursor
      have hpage : nextPage group n (before ++ rows) cursor = rows.take n := by
        have hbefore : (before.filter fun x => After group cursor x) = [] := by
          refine List.filter_eq_nil_iff.mpr fun x hx => ?_
          obtain ⟨a, ha, hle⟩ := hcursor x hx
          simpa [After, ha] using hle
        have hleft : (rows.filter fun x => After group cursor x) = rows := by
          refine List.filter_eq_self.mpr fun x hx => decide_eq_true fun a ha => ?_
          cases rows with
          | nil => cases hx
          | cons y rows =>
            have hay : group a < group y := hfirst y rfl a ha
            rcases List.mem_cons.mp hx with rfl | hx
            · exact hay
            · exact lt_of_lt_of_le hay (hmono y x (List.rel_of_pairwise_cons hsorted hx).le)
        unfold nextPage
        rw [List.filter_append, hbefore, List.nil_append, hleft]
      unfold follow at h
      rw [hpage] at h
      split at h
      · rename_i hlast
        obtain rfl := Option.some.inj h
        have hempty : rows = [] := by
          have htake := List.getLast?_eq_none_iff.mp hlast
          exact (List.take_eq_nil_iff.mp htake).resolve_left (by omega)
        subst hempty
        constructor
        · intro _
          exact ⟨hfirst, fun k hk x y hx => by simp at hx⟩
        · intro _
          rfl
      · rename_i last hlast
        obtain ⟨rest, hrest, rfl⟩ := Option.map_eq_some_iff.mp h
        have hmem : last ∈ rows := List.mem_of_mem_take (List.mem_of_getLast? hlast)
        have hsplit : before ++ rows = (before ++ rows.take n) ++ rows.drop n := by
          rw [List.append_assoc, List.take_append_drop]
        -- the last row of the page is the greatest so far
        have hgreatest : ∀ x ∈ before ++ rows.take n, ∃ a, some last = some a ∧ group x ≤ group a := by
          intro x hx
          refine ⟨last, rfl, hmono x last ?_⟩
          rcases List.mem_append.mp hx with hx | hx
          · exact (hapart x hx last hmem).le
          · obtain ⟨init, hinit⟩ := List.getLast?_eq_some_iff.mp hlast
            have htake := hsorted.sublist (List.take_sublist n rows)
            rw [hinit] at hx htake
            rcases List.mem_append.mp hx with hx | hx
            · exact ((List.pairwise_append.mp htake).2.2 x hx last (by simp)).le
            · rw [List.mem_singleton.mp hx]
        rw [hsplit] at hrest hrows
        have hlater := ih _ hrows hgreatest hrest
        have hboundary : (∀ y, (rows.drop n).head? = some y → After group (some last) y) ↔
            ∀ x y, rows[n - 1]? = some x → rows[n]? = some y → group x < group y := by
          have hlastEq : ∀ y, rows[n]? = some y → rows[n - 1]? = some last := by
            intro y hy
            obtain ⟨hlt, -⟩ := List.getElem?_eq_some_iff.mp hy
            rw [List.getLast?_take, if_neg (by omega), List.getElem?_eq_getElem (by omega)] at hlast
            rw [List.getElem?_eq_getElem (by omega)]
            exact hlast
          rw [List.head?_drop]
          constructor
          · intro hafter x y hx hy
            obtain rfl : last = x := Option.some.inj ((hlastEq y hy).symm.trans hx)
            exact hafter y hy last rfl
          · intro hgroups y hy a ha
            obtain rfl := Option.some.inj ha
            exact hgroups last y (hlastEq y hy) hy
        have hcancel : rows.take n ++ rest = rows ↔ rest = rows.drop n := by
          conv_lhs => rhs; rw [← List.take_append_drop n rows]
          exact List.append_right_inj _
        rw [hcancel, hlater, hboundary, ← boundaries_iff hn]
        exact ⟨fun hb => ⟨hfirst, hb⟩, fun hb => hb.2⟩
    · constructor
      · rintro rfl
        exact absurd (fun y hy => after_of_mem_follow h (List.mem_of_mem_head? hy)) hfirst
      · intro hb
        exact absurd hb.1 hfirst

end
end Keyset
