import ArbitrageBot.Contracts.WmntValueInPools

/-!
# What a pool is worth

The value of a pool is twice the WMNT that it holds, or twice the value of its first token at the
price of the token's V2 pair, rounded down; it is zero where a call on the way reverts, and where a
number does not fit. No V3 pool ever gives a price: the loop over the fee tiers never takes the pool
that it finds.
-/

namespace ArbitrageBot

/-! ## Fixed-point numbers -/

namespace FixedPointMath

/-- **The product is exact**, and zero where it does not fit. -/
theorem toNat_mul64u (x : BitVec 128) (y : U256) :
    (mul64u x y).toNat =
      if x.toNat * y.toNat / 2 ^ 64 < 2 ^ 256 then x.toNat * y.toNat / 2 ^ 64 else 0 := by
  have hx := x.isLt
  have hy := y.isLt
  unfold mul64u
  split
  · rename_i hzero
    have hprod : x.toNat * y.toNat = 0 := by
      rcases hzero with rfl | rfl
      · exact Nat.mul_zero _
      · exact Nat.zero_mul _
    rw [hprod]
    rfl
  · have hlow : (y &&& BitVec.ofNat 256 (2 ^ 128 - 1)).toNat = y.toNat % 2 ^ 128 := by
      rw [BitVec.toNat_and, BitVec.toNat_ofNat, Nat.mod_eq_of_lt (by omega),
        Nat.and_two_pow_sub_one_eq_mod]
    have hhigh : (y >>> 128).toNat = y.toNat / 2 ^ 128 := by
      rw [BitVec.toNat_ushiftRight, Nat.shiftRight_eq_div_pow]
    have hwide : (x.setWidth 256).toNat = x.toNat := by
      rw [BitVec.toNat_setWidth, Nat.mod_eq_of_lt (by omega)]
    -- the two products of 128 bits each
    have ha : x.toNat * (y.toNat % 2 ^ 128) < 2 ^ 128 * 2 ^ 128 :=
      Nat.mul_lt_mul'' hx (Nat.mod_lt _ (by decide))
    have hb : x.toNat * (y.toNat / 2 ^ 128) < 2 ^ 128 * 2 ^ 128 :=
      Nat.mul_lt_mul'' hx (by omega)
    have hlo : ((x.setWidth 256 * (y &&& BitVec.ofNat 256 (2 ^ 128 - 1))) >>> 64).toNat =
        x.toNat * (y.toNat % 2 ^ 128) / 2 ^ 64 := by
      rw [BitVec.toNat_ushiftRight, BitVec.toNat_mul, hwide, hlow, Nat.mod_eq_of_lt (by omega),
        Nat.shiftRight_eq_div_pow]
    have hhi : (x.setWidth 256 * (y >>> 128)).toNat = x.toNat * (y.toNat / 2 ^ 128) := by
      rw [BitVec.toNat_mul, hwide, hhigh, Nat.mod_eq_of_lt (by omega)]
    have hsum : x.toNat * y.toNat =
        x.toNat * (y.toNat % 2 ^ 128) + x.toNat * (y.toNat / 2 ^ 128) * 2 ^ 128 := by
      conv_lhs => rw [← Nat.mod_add_div y.toNat (2 ^ 128)]
      ring
    rw [hsum]
    generalize x.toNat * (y.toNat % 2 ^ 128) = a at *
    generalize x.toNat * (y.toNat / 2 ^ 128) = b at *
    dsimp only
    split
    · rename_i hbig
      rw [gt_iff_lt, BitVec.lt_def, hhi, BitVec.toNat_ofNat] at hbig
      rw [if_neg (by omega)]
      rfl
    · rename_i hsmall
      rw [gt_iff_lt, BitVec.lt_def, hhi, BitVec.toNat_ofNat] at hsmall
      have hshift : ((x.setWidth 256 * (y >>> 128)) <<< 64).toNat = b * 2 ^ 64 := by
        rw [BitVec.toNat_shiftLeft, hhi, Nat.shiftLeft_eq, Nat.mod_eq_of_lt (by omega)]
      have hroom : (BitVec.allOnes 256 -
          (x.setWidth 256 * (y &&& BitVec.ofNat 256 (2 ^ 128 - 1))) >>> 64).toNat =
            2 ^ 256 - 1 - a / 2 ^ 64 := by
        rw [BitVec.toNat_sub_of_le, BitVec.toNat_allOnes, hlo]
        rw [BitVec.le_def, BitVec.toNat_allOnes, hlo]
        omega
      split
      · rename_i hover
        rw [gt_iff_lt, BitVec.lt_def, hshift, hroom] at hover
        rw [if_neg (by omega)]
        rfl
      · rename_i hfit
        rw [gt_iff_lt, BitVec.lt_def, hshift, hroom] at hfit
        rw [if_pos (by omega), BitVec.toNat_add, hshift, hlo, Nat.mod_eq_of_lt (by omega)]
        omega

/-- The quotient of two reserves as a 64.64 number, and zero where it does not fit. -/
def ratio (reserveWmnt reserveToken : Nat) : Nat :=
  if reserveWmnt * 2 ^ 64 / reserveToken < 2 ^ 128 then reserveWmnt * 2 ^ 64 / reserveToken else 0

/-- The product of a 64.64 price and an amount, and zero where it does not fit. -/
def product (price amount : Nat) : Nat :=
  if price * amount / 2 ^ 64 < 2 ^ 256 then price * amount / 2 ^ 64 else 0

/-- **The quotient is exact** for a dividend of 112 bits. -/
theorem toNat_divuu {x : BitVec 112} {y : BitVec 112} {price : BitVec 128}
    (h : divuu (x.setWidth 256) (y.setWidth 256) = some price) :
    price.toNat = ratio x.toNat y.toNat := by
  have hx := x.isLt
  have hy := y.isLt
  have hxwide : (x.setWidth 256).toNat = x.toNat := by
    rw [BitVec.toNat_setWidth, Nat.mod_eq_of_lt (by omega)]
  have hywide : (y.setWidth 256).toNat = y.toNat := by
    rw [BitVec.toNat_setWidth, Nat.mod_eq_of_lt (by omega)]
  have hsmall : x.setWidth 256 ≤ BitVec.ofNat 256 (2 ^ 192 - 1) := by
    rw [BitVec.le_def, hxwide, BitVec.toNat_ofNat]
    omega
  have hquotient : ((x.setWidth 256) <<< 64 / y.setWidth 256).toNat =
      x.toNat * 2 ^ 64 / y.toNat := by
    rw [BitVec.toNat_udiv, BitVec.toNat_shiftLeft, hxwide, hywide, Nat.shiftLeft_eq,
      Nat.mod_eq_of_lt (by omega)]
  unfold ratio
  unfold divuu at h
  split at h
  · rename_i hzero
    cases h
    have hnone : y.toNat = 0 := by
      rw [← hywide, hzero]
      rfl
    rw [hnone, Nat.div_zero]
    rfl
  · dsimp only at h
    split at h
    · rename_i hbig
      cases h
      rw [gt_iff_lt, BitVec.lt_def, hquotient, BitVec.toNat_ofNat] at hbig
      rw [if_neg (by omega)]
      rfl
    · rename_i hfit
      cases h
      rw [gt_iff_lt, BitVec.lt_def, hquotient, BitVec.toNat_ofNat] at hfit
      rw [if_pos (by omega), BitVec.toNat_setWidth, hquotient, Nat.mod_eq_of_lt (by omega)]

end FixedPointMath

namespace WmntValueInPools

variable {self : WmntValueInPools} {chain : ValueChain} {token pool : Address}

/-! ## Quotes -/

/-- **No pool is found**: `pool` is still zero when the loop looks at it. -/
theorem searchPool_eq {feeTiers : List Nat}
    (h : self.searchPool chain token feeTiers 0 = some pool) : pool = 0 := by
  induction feeTiers with
  | nil =>
    cases h
    rfl
  | cons feeTier feeTiers ih =>
    unfold searchPool at h
    obtain ⟨pair, -, hpool⟩ := Option.bind_eq_some_iff.mp h
    rw [if_neg (fun hne => hne rfl)] at hpool
    exact ih hpool

theorem quoteTokenUniswapV3_eq {price : BitVec 128}
    (h : self.quoteTokenUniswapV3 chain token = some price) : price = 0 := by
  unfold quoteTokenUniswapV3 at h
  obtain ⟨pool, hsearch, hprice⟩ := Option.bind_eq_some_iff.mp h
  obtain rfl := searchPool_eq hsearch
  cases hprice
  rfl

/-- The price of a token by its V2 pair, in 64.64 WMNT for a unit of 18 decimals. It is zero without
a pair, where the pair does not answer or has an empty side, and where the decimals are not known.
-/
inductive PricedAt (self : WmntValueInPools) (chain : ValueChain) (token : Address) : Nat → Prop
  | noPair (hpair : chain.getPair self.uniswapV2Factory token self.wmnt = .returned 0) :
      PricedAt self chain token 0
  | noReserves {pair : Address}
      (hpair : chain.getPair self.uniswapV2Factory token self.wmnt = .returned pair)
      (hne : pair ≠ 0) (hreserves : chain.getReserves pair = .reverted) :
      PricedAt self chain token 0
  | empty {pair : Address} {reserves : BitVec 112 × BitVec 112}
      (hpair : chain.getPair self.uniswapV2Factory token self.wmnt = .returned pair)
      (hne : pair ≠ 0) (hreserves : chain.getReserves pair = .returned reserves)
      (hempty : reserves.1 = 0 ∨ reserves.2 = 0) : PricedAt self chain token 0
  | noDecimals {pair : Address} {reserves : BitVec 112 × BitVec 112}
      (hpair : chain.getPair self.uniswapV2Factory token self.wmnt = .returned pair)
      (hne : pair ≠ 0) (hreserves : chain.getReserves pair = .returned reserves)
      (hdecimals : getTokenDecimalsUnsafe chain token = none) : PricedAt self chain token 0
  | quoted {pair : Address} {reserves : BitVec 112 × BitVec 112} {tokenDecimals : Nat}
      {reserveToken : BitVec 112}
      (hpair : chain.getPair self.uniswapV2Factory token self.wmnt = .returned pair)
      (hne : pair ≠ 0) (hreserves : chain.getReserves pair = .returned reserves)
      (hsome : ¬ (reserves.1 = 0 ∨ reserves.2 = 0))
      (hdecimals : getTokenDecimalsUnsafe chain token = some tokenDecimals)
      (hnormalize : normalize (if token < self.wmnt then reserves.1 else reserves.2)
        tokenDecimals = some reserveToken) :
      PricedAt self chain token (FixedPointMath.ratio
        (if token < self.wmnt then reserves.2 else reserves.1).toNat reserveToken.toNat)

/-- The answers give one price. -/
theorem PricedAt.unique {price price' : Nat} (h : self.PricedAt chain token price)
    (h' : self.PricedAt chain token price') : price = price' := by
  cases h <;> cases h' <;> simp_all

theorem quoteTokenUniswapV2_spec {price : BitVec 128}
    (h : self.quoteTokenUniswapV2 chain token = some price) :
    self.PricedAt chain token price.toNat := by
  unfold quoteTokenUniswapV2 at h
  obtain ⟨pair, hpair, h⟩ := Option.bind_eq_some_iff.mp h
  have hreturned : chain.getPair self.uniswapV2Factory token self.wmnt = .returned pair := by
    cases hreply : chain.getPair self.uniswapV2Factory token self.wmnt with
    | returned a =>
      rw [hreply] at hpair
      cases hpair
      rfl
    | reverted =>
      rw [hreply] at hpair
      cases hpair
    | unreadable =>
      rw [hreply] at hpair
      cases hpair
  by_cases hzero : pair = 0
  · rw [if_pos hzero] at h
    cases h
    subst hzero
    exact .noPair hreturned
  rw [if_neg hzero] at h
  cases hreserves : chain.getReserves pair with
  | reverted =>
    rw [hreserves] at h
    cases h
    exact .noReserves hreturned hzero hreserves
  | unreadable =>
    rw [hreserves] at h
    cases h
  | returned reserves =>
    rw [hreserves] at h
    dsimp only [Reply.tryCatch] at h
    split at h
    · rename_i hempty
      cases h
      exact .empty hreturned hzero hreserves hempty
    · rename_i hsome
      cases hdecimals : getTokenDecimalsUnsafe chain token with
      | none =>
        rw [hdecimals] at h
        cases h
        exact .noDecimals hreturned hzero hreserves hdecimals
      | some tokenDecimals =>
        rw [hdecimals] at h
        obtain ⟨reserveToken, hnormalize, hprice⟩ := Option.bind_eq_some_iff.mp h
        rw [FixedPointMath.toNat_divuu hprice]
        exact .quoted hreturned hzero hreserves hsome hdecimals hnormalize

/-- **A quote is that of the V2 pair.** -/
theorem quoteToken_spec {price : BitVec 128} (h : self.quoteToken chain token = some price) :
    self.PricedAt chain token price.toNat := by
  unfold quoteToken at h
  obtain ⟨first, hfirst, h⟩ := Option.bind_eq_some_iff.mp h
  have hspec := quoteTokenUniswapV2_spec hfirst
  split at h
  · cases h
    exact hspec
  · rename_i hnonpos
    have hzero : first.toNat = 0 := by
      rw [gt_iff_lt, BitVec.lt_def] at hnonpos
      exact Nat.eq_zero_of_not_pos hnonpos
    rw [quoteTokenUniswapV3_eq h]
    rw [hzero] at hspec
    exact hspec

theorem quoteTokenToWmntValue_spec {amount value : U256}
    (h : self.quoteTokenToWmntValue chain token amount = some value) :
    ∃ price, self.PricedAt chain token price ∧
      value.toNat = FixedPointMath.product price amount.toNat := by
  unfold quoteTokenToWmntValue at h
  obtain ⟨price, hquote, h⟩ := Option.bind_eq_some_iff.mp h
  refine ⟨price.toNat, quoteToken_spec hquote, ?_⟩
  split at h
  · cases h
    exact FixedPointMath.toNat_mul64u price amount
  · rename_i hnonpos
    cases h
    have hzero : price = 0 := by
      apply BitVec.eq_of_toNat_eq
      rw [gt_iff_lt, BitVec.lt_def] at hnonpos
      exact Nat.eq_zero_of_not_pos hnonpos
    subst hzero
    unfold FixedPointMath.product
    simp

/-! ## Pools -/

theorem twice_spec {w : Nat} {x y : BitVec w} (h : twice x = some y) : y.toNat = 2 * x.toNat := by
  unfold twice at h
  split at h
  · rename_i hfit
    cases h
    rw [BitVec.toNat_ofNat, Nat.mod_eq_of_lt hfit]
  · cases h

/-- The token whose balance is taken: WMNT where the pool has it, else the first one. -/
def measured (self : WmntValueInPools) (token0 token1 : Address) : Address :=
  if token0 = self.wmnt ∨ token1 = self.wmnt then self.wmnt else token0

/-- Half the value of a pool: its WMNT, or what its balance of its first token is worth where it has
no WMNT; nothing where one of the three calls reverts. -/
inductive HalfValue (self : WmntValueInPools) (chain : ValueChain) (pool : Address) : Nat → Prop
  | noToken0 (htoken0 : chain.token0 pool = .reverted) : HalfValue self chain pool 0
  | noToken1 {token0 : Address} (htoken0 : chain.token0 pool = .returned token0)
      (htoken1 : chain.token1 pool = .reverted) : HalfValue self chain pool 0
  | noBalance {token0 token1 : Address} (htoken0 : chain.token0 pool = .returned token0)
      (htoken1 : chain.token1 pool = .returned token1)
      (hbalance : chain.balanceOf (self.measured token0 token1) pool = .reverted) :
      HalfValue self chain pool 0
  | wmnt {token0 token1 : Address} {balance : U256}
      (htoken0 : chain.token0 pool = .returned token0)
      (htoken1 : chain.token1 pool = .returned token1)
      (hwmnt : token0 = self.wmnt ∨ token1 = self.wmnt)
      (hbalance : chain.balanceOf self.wmnt pool = .returned balance) :
      HalfValue self chain pool balance.toNat
  | quoted {token0 token1 : Address} {balance : U256} {price : Nat}
      (htoken0 : chain.token0 pool = .returned token0)
      (htoken1 : chain.token1 pool = .returned token1)
      (hother : ¬ (token0 = self.wmnt ∨ token1 = self.wmnt))
      (hbalance : chain.balanceOf token0 pool = .returned balance)
      (hprice : self.PricedAt chain token0 price) :
      HalfValue self chain pool (FixedPointMath.product price balance.toNat)

/-- The answers give one value. -/
theorem HalfValue.unique {half half' : Nat} (h : self.HalfValue chain pool half)
    (h' : self.HalfValue chain pool half') : half = half' := by
  cases h with
  | quoted htoken0 htoken1 hother hbalance hprice =>
    cases h' with
    | quoted htoken0' htoken1' hother' hbalance' hprice' =>
      rw [htoken0] at htoken0'
      cases htoken0'
      rw [hbalance] at hbalance'
      cases hbalance'
      rw [hprice.unique hprice']
    | _ => simp_all [measured]
  | _ => cases h' <;> simp_all [measured]

/-- What a `try` comes to. -/
theorem tryCatch_eq_some {α β : Type} {reply : Reply α} {caught b : β} {success : α → Option β}
    (h : reply.tryCatch caught success = some b) :
    (∃ a, reply = .returned a ∧ success a = some b) ∨ reply = .reverted ∧ b = caught := by
  cases reply with
  | returned a => exact .inl ⟨a, rfl, h⟩
  | reverted =>
    cases h
    exact .inr ⟨rfl, rfl⟩
  | unreadable => cases h

/-- Where the balance of a pool is taken. -/
theorem handleUniswapV3Pool_eq {token0 token1 : Address}
    (htoken0 : chain.token0 pool = .returned token0)
    (htoken1 : chain.token1 pool = .returned token1) :
    self.handleUniswapV3Pool chain pool =
      (chain.balanceOf (self.measured token0 token1) pool).tryCatch 0 fun balance =>
        if token0 = self.wmnt ∨ token1 = self.wmnt then twice balance
        else (self.quoteTokenToWmntValue chain token0 balance).bind twice := by
  unfold handleUniswapV3Pool measured
  rw [htoken0, htoken1]
  dsimp only [Reply.tryCatch]
  by_cases h0 : token0 = self.wmnt
  · simp only [h0, true_or, ↓reduceIte]
  · by_cases h1 : token1 = self.wmnt
    · simp only [h0, h1, or_true, ↓reduceIte]
    · simp only [h0, h1, or_false, ↓reduceIte]
      rfl

/-- Pools of tokens 7 and 8 with 100 of each; token 7 has a V2 pair with token 9. -/
def quotedChain : ValueChain where
  token0 := fun _ => .returned 7
  token1 := fun _ => .returned 8
  getReserves := fun _ => .returned (10, 20)
  balanceOf := fun _ _ => .returned 100
  getPair := fun _ _ _ => .returned 5
  getPool := fun _ _ _ _ => .returned 6
  slot0 := fun _ => .returned 0
  decimals := fun _ => some 18

end WmntValueInPools

end ArbitrageBot
