import Mathlib.Tactic.NormNum
import Engine.Model.Types
import Engine.Numbers.Number

/-! The block time of a chain, `getBlockTime.ts`, and the limits that `addChainIndexer` takes from it. -/
namespace Engine.Indexer
open Numbers Number

/-- A block as the provider parses it: the timestamp is a safe integer. -/
structure Block where
  timestamp : ℕ
  safe : timestamp < 2 ^ 53

structure Provider where
  getBlockNumber : Except Err ℕ
  getBlock : ℤ → Except Err (Option Block)

/-- `KNOWN_BLOCKTIME_SECONDS`. -/
def knownBlockTimeSeconds : ℕ → Option ℕ
  | 1 => some 12
  | 137 => some 2
  | _ => none

def defaultBlockTimeSeconds : ℕ := 10

def blocksToEstimate : ℕ := 100

def timestampOf : Option Block → Except Err Block
  | some block => .ok block
  | none => .error (Err.new "Cannot read properties of null (reading 'timestamp')")

/-- The blocks before the latest one, the newest first. -/
def latestBlocks (provider : Provider) : Except Err (List Block) := do
  let latestBlockNumber ← provider.getBlockNumber
  let blockNumbers := (List.range blocksToEstimate).map fun i : ℕ => (latestBlockNumber : ℤ) - i - 1
  let blocks ← blockNumbers.mapM provider.getBlock
  blocks.mapM timestampOf

/-- `totalTimeDiff += blocks[i].timestamp - blocks[i + 1].timestamp`. -/
def totalTimeDiff (total : Number) : List Block → Number
  | block :: next :: blocks =>
    totalTimeDiff (add total (sub (ofNat block.timestamp) (ofNat next.timestamp))) (next :: blocks)
  | _ => total

def averageBlockTime (blocks : List Block) : Number :=
  div (totalTimeDiff (ofNat 0) blocks) (sub (ofNat blocks.length) (ofNat 1))

def getBlockTimeSeconds (chainId : ℕ) (provider : Provider) : Number :=
  match knownBlockTimeSeconds chainId with
  | some seconds => ofNat seconds
  | none => match latestBlocks provider with
    | .ok blocks => averageBlockTime blocks
    | .error _ => ofNat defaultBlockTimeSeconds

/-- What `addChainIndexer` starts the task and its schedule with. -/
structure Limits where
  maxBlocksToIndex : Number
  toBlockOffset : Number
  scheduleSeconds : Number

/-- `x ? .. : ..`. -/
def isTruthy : Number → Bool
  | .nan => false
  | .finite d => d.val ≠ 0
  | _ => true

/-- `delay` is `env.CONTRACT_SUBSCRIPTIONS_DELAY_SECONDS`. -/
def limitsOf (maxBlocksToIndex : ℕ) (delay blockTimeSeconds : Number) : Limits where
  maxBlocksToIndex :=
    let blocksIn5Seconds := round (mul (div (ofNat 1) blockTimeSeconds) (ofNat 5))
    Number.max (ofNat maxBlocksToIndex) (mul blocksIn5Seconds (ofNat 4))
  toBlockOffset := if isTruthy delay then ceil (div delay blockTimeSeconds) else ofNat 0
  scheduleSeconds := Number.max (round blockTimeSeconds) (ofNat 1)

/-- The block that a tick of the task goes up to. -/
def toBlock (limits : Limits) (fromBlock : ℤ) (blockNumber : ℕ) : Number :=
  let currentBlockNumber := sub (ofNat blockNumber) limits.toBlockOffset
  Number.min currentBlockNumber (add (nearest fromBlock) limits.maxBlocksToIndex)

/-- An `INTEGER` of the database. -/
def IsInteger (n : ℤ) : Prop := -2 ^ 31 ≤ n ∧ n < 2 ^ 31

/-- No division is by zero, and everything that comes out is finite and bounded. -/
structure Bounded (maxBlocksToIndex : ℕ) (delay blockTimeSeconds : Number) : Prop where
  divides : ∃ b, blockTimeSeconds.value = some b ∧ b ≠ 0
  limited : ∃ n : ℤ, (limitsOf maxBlocksToIndex delay blockTimeSeconds).maxBlocksToIndex.value = some (n : ℚ) ∧
    maxBlocksToIndex ≤ n
  delayed : ∃ (n : ℤ) (b q : ℚ), (limitsOf maxBlocksToIndex delay blockTimeSeconds).toBlockOffset.value = some (n : ℚ) ∧
    blockTimeSeconds.value = some b ∧ delay.value = some q ∧ 0 ≤ n ∧ q ≤ n * b
  ranged : ∀ fromBlock blockNumber, IsInteger fromBlock → blockNumber < 2 ^ 53 → ∃ t n : ℚ,
    (toBlock (limitsOf maxBlocksToIndex delay blockTimeSeconds) fromBlock blockNumber).value = some t ∧
    (limitsOf maxBlocksToIndex delay blockTimeSeconds).maxBlocksToIndex.value = some n ∧ t - fromBlock ≤ n

/-- The block time before it is rounded. -/
def exactBlockTime (chainId : ℕ) (provider : Provider) : ℚ :=
  match knownBlockTimeSeconds chainId with
  | some seconds => seconds
  | none => match latestBlocks provider with
    | .ok [] => 0
    | .ok (block :: blocks) => ((block.timestamp : ℚ) - (blocks.getLastD block).timestamp) / 99
    | .error _ => defaultBlockTimeSeconds

/-- The quotient of the delay and the block time is not rounded to an infinity, nor down to an integer. -/
def QuotientFits (delay : Number) (b : ℚ) : Prop :=
  ∃ q, delay.value = some q ∧ (q = 0 ∨ (nearest (q / b)).value = some (rounded (q / b)) ∧
    ¬ (rounded (q / b) < q / b ∧ ∃ n : ℤ, rounded (q / b) = n))

/-- The timestamps do not go up from the latest block backwards. -/
def Ordered (provider : Provider) : Prop :=
  ∀ blocks, latestBlocks provider = .ok blocks → blocks.Pairwise fun block older => older.timestamp ≤ block.timestamp

section
variable {chainId : ℕ} {provider : Provider} {blocks : List Block} {block : Block}

/-! ### The average -/

private theorem length_mapM {α β ε : Type} {f : α → Except ε β} {l : List α} {bs : List β} (h : l.mapM f = .ok bs) :
    bs.length = l.length := by
  induction l generalizing bs with
  | nil =>
    cases h
    rfl
  | cons a l ih =>
    rw [List.mapM_cons] at h
    cases ha : f a with
    | error e =>
      rw [ha] at h
      cases h
    | ok b =>
      rw [ha] at h
      cases hl : l.mapM f with
      | error e =>
        rw [hl] at h
        cases h
      | ok bs' =>
        rw [hl] at h
        cases h
        exact congrArg Nat.succ (ih hl)

theorem length_latestBlocks (h : latestBlocks provider = .ok blocks) : blocks.length = 100 := by
  unfold latestBlocks at h
  cases hnumber : provider.getBlockNumber with
  | error e =>
    rw [hnumber] at h
    cases h
  | ok latestBlockNumber =>
    rw [hnumber] at h
    simp only [bind, Except.bind] at h
    split at h
    · cases h
    · rename_i found hfound
      rw [length_mapM h, length_mapM hfound, List.length_map, List.length_range]
      rfl

theorem getLastD_le (h : (block :: blocks).Pairwise fun block older => older.timestamp ≤ block.timestamp) :
    (blocks.getLastD block).timestamp ≤ block.timestamp := by
  cases blocks with
  | nil => exact Nat.le_refl _
  | cons next blocks =>
    refine (List.pairwise_cons.mp h).1 _ ?_
    rw [List.getLastD_cons]
    exact List.getLastD_mem_cons

/-- The differences add up to that of the first and the last timestamp. -/
theorem totalTimeDiff_eq {first : ℕ} (hfirst : first < 2 ^ 53) (hle : block.timestamp ≤ first)
    (h : (block :: blocks).Pairwise fun block older => older.timestamp ≤ block.timestamp) :
    totalTimeDiff (ofNat (first - block.timestamp)) (block :: blocks) =
      ofNat (first - (blocks.getLastD block).timestamp) := by
  induction blocks generalizing block with
  | nil => rfl
  | cons next blocks ih =>
    obtain ⟨hblock, hrest⟩ := List.pairwise_cons.mp h
    have hnext := hblock next List.mem_cons_self
    have hsum : first - block.timestamp + (block.timestamp - next.timestamp) = first - next.timestamp := by omega
    unfold totalTimeDiff
    rw [sub_ofNat (by omega) hnext, add_ofNat (by omega), hsum, ih (hnext.trans hle) hrest, List.getLastD_cons]

private theorem averageBlockTime_eq (hlength : (block :: blocks).length = 100)
    (h : (block :: blocks).Pairwise fun block older => older.timestamp ≤ block.timestamp) :
    averageBlockTime (block :: blocks) =
      nearest (((block.timestamp : ℚ) - (blocks.getLastD block).timestamp) / 99) := by
  have hsafe := block.safe
  have htotal := totalTimeDiff_eq hsafe (Nat.le_refl _) h
  rw [Nat.sub_self] at htotal
  unfold averageBlockTime
  rw [htotal, hlength, sub_ofNat (by decide) (by decide),
    div_of_value (value_ofNat (by omega)) (value_ofNat (by decide)) (by norm_num), Nat.cast_sub (getLastD_le h)]
  norm_num

/-- The block time is the exact one, rounded. -/
theorem getBlockTimeSeconds_eq (h : Ordered provider) :
    getBlockTimeSeconds chainId provider = nearest (exactBlockTime chainId provider) := by
  unfold getBlockTimeSeconds exactBlockTime
  cases knownBlockTimeSeconds chainId with
  | some seconds => rfl
  | none =>
    cases hblocks : latestBlocks provider with
    | error e => rfl
    | ok blocks =>
      cases blocks with
      | nil => exact absurd (length_latestBlocks hblocks) (by decide)
      | cons block blocks => exact averageBlockTime_eq (length_latestBlocks hblocks) (h _ hblocks)

/-- The exact block time is zero, or not much below a hundredth of a second. -/
theorem exactBlockTime_bounds (chainId : ℕ) (h : Ordered provider) :
    (exactBlockTime chainId provider = 0 ∨ 1 / 128 ≤ exactBlockTime chainId provider) ∧
      exactBlockTime chainId provider ≤ 2 ^ 53 := by
  unfold exactBlockTime
  cases hknown : knownBlockTimeSeconds chainId with
  | some seconds =>
    have hseconds : seconds = 12 ∨ seconds = 2 := by
      unfold knownBlockTimeSeconds at hknown
      split at hknown <;> simp_all
    rcases hseconds with rfl | rfl <;> norm_num
  | none =>
    cases hblocks : latestBlocks provider with
    | error e => norm_num [defaultBlockTimeSeconds]
    | ok blocks =>
      cases blocks with
      | nil => exact absurd (length_latestBlocks hblocks) (by decide)
      | cons block blocks =>
        have hle := getLastD_le (h _ hblocks)
        have hsafe : (block.timestamp : ℚ) < 2 ^ 53 := by exact_mod_cast block.safe
        have hnonneg : (0 : ℚ) ≤ (blocks.getLastD block).timestamp := Nat.cast_nonneg _
        constructor
        · rcases Nat.eq_or_lt_of_le hle with heq | hlt
          · left
            show ((block.timestamp : ℚ) - (blocks.getLastD block).timestamp) / 99 = 0
            rw [heq, sub_self, zero_div]
          · right
            have hone : ((blocks.getLastD block).timestamp : ℚ) + 1 ≤ block.timestamp := by exact_mod_cast hlt
            show (1 : ℚ) / 128 ≤ ((block.timestamp : ℚ) - (blocks.getLastD block).timestamp) / 99
            linarith
        · show ((block.timestamp : ℚ) - (blocks.getLastD block).timestamp) / 99 ≤ 2 ^ 53
          linarith

theorem onGrid_ofNat {n : ℕ} (h : n ≤ 2 ^ 53) : OnGrid n ∧ |(n : ℚ)| < 2 ^ 1024 := onGrid_value (value_ofNat h)

theorem onGrid_small : OnGrid (1 / 128) := ⟨1, -7, by decide, by decide, by norm_num⟩

/-- The rounded block time. -/
theorem blockTime_bounds (chainId : ℕ) (h : Ordered provider) :
    (getBlockTimeSeconds chainId provider).value = some (rounded (exactBlockTime chainId provider)) ∧
      (exactBlockTime chainId provider ≠ 0 → 1 / 128 ≤ rounded (exactBlockTime chainId provider)) ∧
      (exactBlockTime chainId provider = 0 → rounded (exactBlockTime chainId provider) = 0) := by
  obtain ⟨hlow, hhigh⟩ := exactBlockTime_bounds chainId h
  have hnonneg : ((0 : ℕ) : ℚ) ≤ exactBlockTime chainId provider := by
    rw [Nat.cast_zero]
    rcases hlow with hzero | hlow
    · exact hzero.ge
    · linarith
  have hhigh' : exactBlockTime chainId provider ≤ ((2 ^ 53 : ℕ) : ℚ) := by
    push_cast
    exact hhigh
  obtain ⟨hzero, hzero'⟩ := onGrid_ofNat (n := 0) (by decide)
  obtain ⟨hmax, hmax'⟩ := onGrid_ofNat (n := 2 ^ 53) (by decide)
  obtain ⟨hvalue, -, -⟩ := nearest_of_between hzero hzero' hnonneg hmax hmax' hhigh'
  refine ⟨?_, fun hne => le_rounded onGrid_small (hlow.resolve_left hne), fun heq => ?_⟩
  · rw [getBlockTimeSeconds_eq h]
    exact hvalue
  · rw [heq]
    rw [Nat.cast_zero] at hzero
    exact rounded_of_onGrid hzero

end

/-! ### The limits -/

section
variable {maxBlocksToIndex : ℕ} {delay bt : Number} {b : ℚ}

/-- The limit on the range is a small integer, or the configured one. -/
theorem maxBlocksToIndex_eq (delay : Number) (hbt : bt.value = some b) (hb : 1 / 128 ≤ b)
    (hmax : maxBlocksToIndex < 2 ^ 31) : ∃ n : ℤ,
    (limitsOf maxBlocksToIndex delay bt).maxBlocksToIndex.value = some (n : ℚ) ∧ maxBlocksToIndex ≤ n ∧ n < 2 ^ 32 := by
  have hpos : 0 < b := by linarith
  obtain ⟨hzero, hzero'⟩ := onGrid_ofNat (n := 0) (by decide)
  obtain ⟨h128, h128'⟩ := onGrid_ofNat (n := 128) (by decide)
  obtain ⟨h640, h640'⟩ := onGrid_ofNat (n := 640) (by decide)
  have hone : ((1 : ℕ) : ℚ) / b ≤ (128 : ℕ) := by
    rw [div_le_iff₀ hpos]
    push_cast
    linarith
  have hinv : ((0 : ℕ) : ℚ) ≤ ((1 : ℕ) : ℚ) / b := by
    push_cast
    positivity
  obtain ⟨hdiv, hdivlow, hdivhigh⟩ := nearest_of_between hzero hzero' hinv h128 h128' hone
  have hmullow : ((0 : ℕ) : ℚ) ≤ rounded (((1 : ℕ) : ℚ) / b) * (5 : ℕ) := by
    push_cast at hdivlow ⊢
    linarith
  have hmulhigh : rounded (((1 : ℕ) : ℚ) / b) * (5 : ℕ) ≤ (640 : ℕ) := by
    push_cast at hdivhigh ⊢
    linarith
  obtain ⟨hmul, hlow, hhigh⟩ := nearest_of_between hzero hzero' hmullow h640 h640' hmulhigh
  let k := ⌊rounded (rounded (((1 : ℕ) : ℚ) / b) * (5 : ℕ)) + 1 / 2⌋
  have hk : 0 ≤ k ∧ k ≤ 640 := by
    push_cast at hlow hhigh
    constructor
    · exact Int.floor_nonneg.mpr (by push_cast; linarith)
    · refine Int.lt_add_one_iff.mp (Int.floor_lt.mpr ?_)
      push_cast
      linarith
  have hvalue : (mul (round (mul (div (ofNat 1) bt) (ofNat 5))) (ofNat 4)).value = some (((k * 4 : ℤ) : ℚ)) := by
    have hkabs : |k| ≤ 2 ^ 53 := by
      rw [abs_of_nonneg hk.1]
      omega
    have hk4abs : |k * 4| ≤ 2 ^ 53 := by
      rw [abs_of_nonneg (by omega)]
      omega
    have hround : (round (mul (div (ofNat 1) bt) (ofNat 5))).value = some (k : ℚ) := by
      rw [div_of_value (value_ofNat (by decide)) hbt hpos.ne', mul_of_value hdiv (value_ofNat (by decide)),
        round_of_value hmul]
      exact value_intCast hkabs
    have hcast : (k : ℚ) * ((4 : ℕ) : ℚ) = ((k * 4 : ℤ) : ℚ) := by push_cast; ring
    rw [mul_of_value hround (value_ofNat (by decide)), hcast]
    exact value_intCast hk4abs
  have hmaxvalue := max_of_value (value_ofNat (k := maxBlocksToIndex) (by omega)) hvalue
  refine ⟨if (maxBlocksToIndex : ℤ) < k * 4 then k * 4 else maxBlocksToIndex, ?_, ?_, ?_⟩
  · refine hmaxvalue.trans (congrArg some ?_)
    have hlt : (maxBlocksToIndex : ℚ) < ((k * 4 : ℤ) : ℚ) ↔ (maxBlocksToIndex : ℤ) < k * 4 := by
      rw [← Int.cast_natCast (R := ℚ) maxBlocksToIndex, Int.cast_lt]
    split_ifs with h₁ h₂ h₂
    · rfl
    · exact absurd (hlt.mp h₁) h₂
    · exact absurd (hlt.mpr h₂) h₁
    · exact (Int.cast_natCast _).symm
  · split_ifs <;> omega
  · split_ifs <;> omega

variable {q : ℚ} {n : ℤ}

theorem toBlockOffset_eq (hbt : bt.value = some b) (hb : b ≠ 0) (hq : delay.value = some q) :
    (limitsOf maxBlocksToIndex delay bt).toBlockOffset = if q = 0 then ofNat 0 else ceil (nearest (q / b)) := by
  have htruthy : isTruthy delay = true ↔ q ≠ 0 := by
    obtain ⟨d, rfl, rfl⟩ := eq_finite hq
    exact decide_eq_true_iff
  unfold limitsOf
  simp only [htruthy, div_of_value hq hbt hb]
  exact ite_not _ _ _

/-- A quotient that is rounded, but not down to an integer, has a ceiling that is not below it. -/
theorem le_ceil_rounded (h : ¬ (rounded q < q ∧ ∃ n : ℤ, rounded q = n)) (hbound : |rounded q| < 2 ^ 1024) :
    q ≤ ⌈rounded q⌉ := by
  rcases lt_or_ge (rounded q) q with hlt | hge
  · by_contra hceil
    have hgrid := (onGrid_ceil (onGrid_rounded q) hbound).1
    have hle : (⌈rounded q⌉ : ℚ) ≤ rounded q := le_rounded hgrid (not_le.mp hceil).le
    exact h ⟨hlt, ⌈rounded q⌉, le_antisymm (Int.le_ceil _) hle⟩
  · exact hge.trans (Int.le_ceil _)

private theorem nonneg_of_le (h : le (ofNat 0) delay = true) (hq : delay.value = some q) : 0 ≤ q := by
  obtain ⟨d, rfl, rfl⟩ := eq_finite hq
  obtain ⟨zero, hzero, hval⟩ := eq_finite (value_ofNat (k := 0) (by decide))
  rw [hzero] at h
  have hnot : ¬ d.val < zero.val := by simpa [le, lt] using h
  rw [hval, Nat.cast_zero] at hnot
  exact not_lt.mp hnot

/-- The offset is a natural number of blocks that cover the delay exactly where the quotient fits. -/
theorem delayed_iff (maxBlocksToIndex : ℕ) (hbt : bt.value = some b) (hb : 0 < b) (hdelay : le (ofNat 0) delay = true) :
    (∃ (n : ℤ) (b' q : ℚ), (limitsOf maxBlocksToIndex delay bt).toBlockOffset.value = some (n : ℚ) ∧
      bt.value = some b' ∧ delay.value = some q ∧ 0 ≤ n ∧ q ≤ n * b') ↔ QuotientFits delay b := by
  constructor
  · intro h
    obtain ⟨n, b', q, hoffset, hbt', hq, -, hle⟩ := h
    obtain rfl := Option.some.inj (hbt'.symm.trans hbt)
    refine ⟨q, hq, ?_⟩
    by_cases hzero : q = 0
    · exact Or.inl hzero
    · rw [toBlockOffset_eq hbt hb.ne' hq, if_neg hzero] at hoffset
      have hvalue : (nearest (q / b')).value = some (rounded (q / b')) := by
        cases hnearest : nearest (q / b') with
        | finite d =>
          have hd : (nearest (q / b')).value = some d.val := by rw [hnearest]; rfl
          rw [← rounded_of_value hd]
          rfl
        | infinity => rw [hnearest] at hoffset; cases hoffset
        | negInfinity => rw [hnearest] at hoffset; cases hoffset
        | nan => rw [hnearest] at hoffset; cases hoffset
      refine Or.inr ⟨hvalue, fun hdown => ?_⟩
      obtain ⟨hlt, m, hm⟩ := hdown
      have hceil := Option.some.inj (hoffset.symm.trans (ceil_of_value hvalue))
      rw [hm, Int.ceil_intCast] at hceil
      rw [hm, ← hceil, lt_div_iff₀ hb] at hlt
      linarith
  · intro h
    obtain ⟨q, hq, hfits⟩ := h
    have hnonneg := nonneg_of_le hdelay hq
    rw [toBlockOffset_eq hbt hb.ne' hq]
    by_cases hzero : q = 0
    · refine ⟨0, b, q, ?_, hbt, hq, le_rfl, ?_⟩
      · rw [if_pos hzero]
        exact value_ofNat (by decide)
      · rw [hzero, Int.cast_zero, zero_mul]
    · obtain ⟨hvalue, hdown⟩ := hfits.resolve_left hzero
      have hceil := le_ceil_rounded hdown (onGrid_value hvalue).2
      refine ⟨⌈rounded (q / b)⌉, b, q, ?_, hbt, hq, ?_, ?_⟩
      · rw [if_neg hzero]
        exact ceil_of_value hvalue
      · have hquotient : 0 ≤ q / b := div_nonneg hnonneg hb.le
        exact_mod_cast hquotient.trans hceil
      · exact (div_le_iff₀ hb).mp hceil

/-- A tick goes up to a block that is at most the limit further on. -/
theorem ranged {limits : Limits} {m : ℤ} (hmax : limits.maxBlocksToIndex.value = some (m : ℚ)) (hm : 0 ≤ m)
    (hm' : m < 2 ^ 32) (hoffset : limits.toBlockOffset.value = some (n : ℚ)) (hn : 0 ≤ n) {fromBlock : ℤ}
    {blockNumber : ℕ} (hfrom : IsInteger fromBlock) (hnumber : blockNumber < 2 ^ 53) :
    ∃ t : ℚ, (toBlock limits fromBlock blockNumber).value = some t ∧ t - fromBlock ≤ m := by
  obtain ⟨hlow, hhigh⟩ := hfrom
  have hfromabs : |fromBlock| ≤ 2 ^ 53 := abs_le.mpr ⟨by omega, by omega⟩
  have hsumabs : |fromBlock + m| ≤ 2 ^ 53 := abs_le.mpr ⟨by omega, by omega⟩
  have hsum : (add (nearest fromBlock) limits.maxBlocksToIndex).value = some ((fromBlock + m : ℤ) : ℚ) := by
    rw [add_of_value (value_intCast hfromabs) hmax, ← Int.cast_add]
    exact value_intCast hsumabs
  obtain ⟨hgrid, hbound⟩ := onGrid_value hoffset
  obtain ⟨hngrid, hnbound⟩ := onGrid_ofNat (n := blockNumber) (by omega)
  have hnonneg : (0 : ℚ) ≤ n := by exact_mod_cast hn
  have hcurrent : (sub (ofNat blockNumber) limits.toBlockOffset).value = some (rounded ((blockNumber : ℚ) - n)) := by
    rw [sub_of_value (value_ofNat (by omega)) hoffset]
    have hnegbound : |-(n : ℚ)| < 2 ^ 1024 := by rwa [abs_neg]
    have hleft : -(n : ℚ) ≤ (blockNumber : ℚ) - n := by
      have hcast : (0 : ℚ) ≤ blockNumber := Nat.cast_nonneg _
      linarith
    exact (nearest_of_between (onGrid_neg hgrid) hnegbound hleft hngrid hnbound (by linarith)).1
  refine ⟨_, min_of_value hcurrent hsum, ?_⟩
  push_cast
  split_ifs with hlt
  · linarith
  · linarith [not_lt.mp hlt]

end

/-- What `addChainIndexer` computes is finite, and bounds the ranges of the ticks, exactly where the exact block time
is not zero and the quotient of the delay fits. -/
theorem bounded_iff (chainId : ℕ) (provider : Provider) (hordered : Ordered provider) (maxBlocksToIndex : ℕ)
    (hmax : maxBlocksToIndex < 2 ^ 31) (delay : Number) (hdelay : le (ofNat 0) delay = true) :
    Bounded maxBlocksToIndex delay (getBlockTimeSeconds chainId provider) ↔
      exactBlockTime chainId provider ≠ 0 ∧ QuotientFits delay (rounded (exactBlockTime chainId provider)) := by
  obtain ⟨hvalue, hlow, hzero⟩ := blockTime_bounds chainId hordered
  constructor
  · intro h
    obtain ⟨b, hb, hne⟩ := h.divides
    obtain rfl := Option.some.inj (hb.symm.trans hvalue)
    have hexact : exactBlockTime chainId provider ≠ 0 := fun heq => hne (hzero heq)
    have hpos : 0 < rounded (exactBlockTime chainId provider) := lt_of_lt_of_le (by norm_num) (hlow hexact)
    exact ⟨hexact, (delayed_iff maxBlocksToIndex hvalue hpos hdelay).mp h.delayed⟩
  · intro h
    obtain ⟨hexact, hfits⟩ := h
    have hb := hlow hexact
    have hpos : 0 < rounded (exactBlockTime chainId provider) := lt_of_lt_of_le (by norm_num) hb
    obtain ⟨m, hm, hle, hlt⟩ := maxBlocksToIndex_eq delay hvalue hb hmax
    have hdelayed := (delayed_iff maxBlocksToIndex hvalue hpos hdelay).mpr hfits
    refine ⟨⟨_, hvalue, hpos.ne'⟩, ⟨m, hm, hle⟩, hdelayed, ?_⟩
    intro fromBlock blockNumber hfrom hnumber
    obtain ⟨n, -, -, hoffset, -, -, hn, -⟩ := hdelayed
    obtain ⟨t, ht, htle⟩ := ranged hm (by omega) hlt hoffset hn hfrom hnumber
    exact ⟨t, m, ht, hm, htle⟩

/-- A chain whose last hundred blocks have one timestamp. -/
def sameSecond (block : Block) : Provider where
  getBlockNumber := .ok 5000
  getBlock _ := .ok (some block)

theorem mapM_const {α β ε : Type} (l : List α) (b : β) :
    l.mapM (fun _ => (.ok b : Except ε β)) = .ok (List.replicate l.length b) := by
  induction l with
  | nil => rfl
  | cons a l ih =>
    rw [List.mapM_cons, ih]
    rfl

theorem mapM_timestampOf (n : ℕ) (block : Block) :
    (List.replicate n (some block)).mapM timestampOf = .ok (List.replicate n block) := by
  induction n with
  | zero => rfl
  | succ n ih =>
    rw [List.replicate_succ, List.mapM_cons, ih]
    rfl

private theorem latestBlocks_ok {provider : Provider} {n : ℕ} (h : provider.getBlockNumber = .ok n) :
    latestBlocks provider = (((List.range blocksToEstimate).map fun i : ℕ => (n : ℤ) - i - 1).mapM
      provider.getBlock).bind fun blocks => blocks.mapM timestampOf := by
  unfold latestBlocks
  rw [h]
  simp only [bind, Except.bind]

private theorem lookups_const {block : Block} (numbers : List ℤ) :
    ((numbers.mapM fun _ => (.ok (some block) : Except Err (Option Block))).bind fun blocks =>
      blocks.mapM timestampOf) = .ok (List.replicate numbers.length block) := by
  rw [mapM_const]
  exact mapM_timestampOf numbers.length block

/-- Every lookup of a block gives the same. -/
theorem latestBlocks_const {provider : Provider} {n : ℕ} {block : Block} (hnumber : provider.getBlockNumber = .ok n)
    (hblock : provider.getBlock = fun _ => .ok (some block)) :
    latestBlocks provider = .ok (List.replicate blocksToEstimate block) := by
  have hlength : ((List.range blocksToEstimate).map fun i : ℕ => (n : ℤ) - i - 1).length = blocksToEstimate := by
    rw [List.length_map, List.length_range]
  rw [latestBlocks_ok hnumber, hblock, lookups_const, hlength]

theorem latestBlocks_sameSecond (block : Block) :
    latestBlocks (sameSecond block) = .ok (List.replicate blocksToEstimate block) := latestBlocks_const rfl rfl

theorem ordered_sameSecond (block : Block) : Ordered (sameSecond block) := by
  intro blocks hblocks
  obtain rfl := Except.ok.inj ((latestBlocks_sameSecond block).symm.trans hblocks)
  exact List.pairwise_replicate.mpr (Or.inr (Nat.le_refl _))

theorem exactBlockTime_sameSecond (block : Block) : exactBlockTime 42161 (sameSecond block) = 0 := by
  have hlast : (List.replicate 99 block).getLastD block = block := by
    rw [List.getLastD_eq_getLast?, List.getLast?_replicate]
    rfl
  have hcons : List.replicate blocksToEstimate block = block :: List.replicate 99 block := List.replicate_succ
  unfold exactBlockTime
  rw [latestBlocks_sameSecond, hcons]
  show ((block.timestamp : ℚ) - ((List.replicate 99 block).getLastD block).timestamp) / 99 = 0
  rw [hlast, sub_self, zero_div]

/-- The first second of 2024. -/
def newYear : Block := ⟨1704067200, by norm_num⟩

theorem bounded_iff_sameSecond : Bounded 25 (ofNat 0) (getBlockTimeSeconds 42161 (sameSecond newYear)) ↔
    exactBlockTime 42161 (sameSecond newYear) ≠ 0 ∧
      QuotientFits (ofNat 0) (rounded (exactBlockTime 42161 (sameSecond newYear))) := by
  have hdelay : le (ofNat 0) (ofNat 0) = true := by
    obtain ⟨zero, hzero, -⟩ := eq_finite (value_ofNat (k := 0) (by decide))
    rw [hzero]
    simp [le, lt]
  exact bounded_iff 42161 (sameSecond newYear) (ordered_sameSecond newYear) 25 (by decide) (ofNat 0) hdelay

/-- The average is zero, and the limit infinite. -/
theorem not_bounded : ¬ Bounded 25 (ofNat 0) (getBlockTimeSeconds 42161 (sameSecond newYear)) := by
  intro h
  obtain ⟨hvalue, -, hzero⟩ := blockTime_bounds 42161 (ordered_sameSecond newYear)
  obtain ⟨b, hb, hne⟩ := h.divides
  obtain rfl := Option.some.inj (hb.symm.trans hvalue)
  exact hne (hzero (exactBlockTime_sameSecond newYear))

end Engine.Indexer
