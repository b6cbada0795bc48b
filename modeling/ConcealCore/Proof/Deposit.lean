import ConcealCore.Proof.Emission

/-!
# A withdrawal is valued at the height of each check

A deposit input is worth its amount and the interest `getInterestForInput`
computes at a height: the deposit counts as locked `term` blocks before it.
Before `END_MULTIPLIER_BLOCK` a legacy deposit earns a hundred times the
interest it earns after (`calculateInterest_multiplied`). The pool compares a
withdrawal's outputs with its inputs at the height it admits it at;
`pushBlock` never compares them, and charges a withdrawal whose outputs exceed
its inputs the fixed `MINIMUM_FEE`.

`withdrawal_admitted_then_overspent`: a withdrawal that the core's check and
the pool accept at height 17791 pays out more than its inputs are worth at
height 17792.
-/

namespace Cn

namespace Currency

variable (cur : Currency)

/-- `mul128` by a factor whose product fits in 64 bits. -/
theorem mul128_of_lt {a b : UInt64} (h : a.toNat * b.toNat < 2 ^ 64) : mul128 a b = (a * b, 0) := by
  unfold mul128
  dsimp only
  have hlo : UInt64.ofNat (a.toNat * b.toNat % 2 ^ 64) = a * b :=
    UInt64.toNat.inj (by simp [UInt64.toNat_mul])
  rw [hlo, Nat.div_eq_of_lt h]
  rfl

/-- **A legacy deposit earns a hundred times more before `END_MULTIPLIER_BLOCK`.**
For a term that is no multiple of 5040 or 64800 and outside the 2019 rules,
the interest at a lock height at or below `END_MULTIPLIER_BLOCK` is
`MULTIPLIER_FACTOR` times the interest at a lock height above it, when that
product does not overflow. -/
theorem calculateInterest_multiplied {amount : UInt64} {term lh₁ lh₂ : UInt32}
    (hterm : ¬ term > cur.depositMaxTermV1) (h64800 : term % 64800 ≠ 0) (h5040 : term % 5040 ≠ 0)
    (hv3₁ : ¬ (term % cur.depositMinTermV3 = 0 ∧ lh₁ > cur.depositHeightV3))
    (hv3₂ : ¬ (term % cur.depositMinTermV3 = 0 ∧ lh₂ > cur.depositHeightV3))
    (hrate : ¬ term.toUInt64 * cur.depositMaxTotalRate < cur.depositMinTotalRateFactor)
    (h₁ : lh₁ ≤ END_MULTIPLIER_BLOCK) (h₂ : ¬ lh₂ ≤ END_MULTIPLIER_BLOCK)
    (hfit : (cur.calculateInterest amount term lh₂).toNat * MULTIPLIER_FACTOR.toNat < 2 ^ 64) :
    cur.calculateInterest amount term lh₁ = cur.calculateInterest amount term lh₂ * MULTIPLIER_FACTOR := by
  unfold calculateInterest at hfit ⊢
  simp only [hterm, if_false, hv3₁, hv3₂, h64800, h5040, hrate, h₁, h₂, if_true] at hfit ⊢
  rw [mul128_of_lt hfit]
  rfl

end Currency

/-- A withdrawal of a deposit of `10^9` units with the legacy term 5041, paying
out the deposit and the multiplied interest less 10. -/
def legacyWithdrawal : Transaction :=
  { version := 2, unlockTime := 0, inputs := [.multisignature ⟨1000000000, 1, 0, 5041⟩],
    outputs := [⟨1076727490, .key ⟨default⟩⟩], extra := [], signatures := [[default]] }

/-- **Admitted at one height, overspent at the next.** On mainnet the core's
check admits `legacyWithdrawal` at height 17791, where its lock height is
`END_MULTIPLIER_BLOCK`, and its inputs cover its outputs there; at height
17792 they are worth `10^9 + 767275` and fall short of the outputs by almost
76 million units, while the fee charged is `MINIMUM_FEE`. -/
theorem withdrawal_admitted_then_overspent :
    checkTxSemantic paddedCrypto Currency.mainnet legacyWithdrawal 17791 = some 17791 ∧
    getOutsMoneyAmount legacyWithdrawal.toTransactionPrefix ≤
      Currency.mainnet.getTransactionAllInputsAmount legacyWithdrawal.toTransactionPrefix 17791 ∧
    Currency.mainnet.getTransactionAllInputsAmount legacyWithdrawal.toTransactionPrefix 17792 = 1000767275 ∧
    getOutsMoneyAmount legacyWithdrawal.toTransactionPrefix = 1076727490 ∧
    Currency.mainnet.getTransactionFee legacyWithdrawal.toTransactionPrefix 17792 = MINIMUM_FEE := by
  refine ⟨by decide, by decide, by decide, by decide, by decide⟩

end Cn
