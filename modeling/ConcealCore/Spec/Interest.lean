import ConcealCore.Spec.Currency

/-!
# Deposit interest, input amounts and fees

The interest a deposit earns (`Currency::calculateInterest` and its V2 and V3
eras), what an input is worth at a height (`input_amount_visitor`), and the fee
of a transaction. The V2 and V3 eras compute in `float` (and `double` for
`pow`): they are written with Lean's `Float32` and `Float`, the IEEE types of
the source, so the model runs as the node does but proofs treat their results
as opaque numbers. The legacy era is exact 128-bit integer arithmetic.
-/

namespace Cn

namespace Currency

variable (cur : Currency)

/-- `static_cast<float>(x)` of a `double` literal. -/
def toFloat32 (x : Float) : Float32 := x.toFloat32

/-- The quantity tier of an investment: `qTier` of `calculateInterestV2`, set
by independent `if`s over disjoint ranges of `amount4Humans`. -/
def investmentTier (amount4Humans : UInt64) : Float32 :=
  if 110000 < amount4Humans ∧ amount4Humans < 180000 then toFloat32 1.01
  else if 180000 ≤ amount4Humans ∧ amount4Humans < 260000 then toFloat32 1.02
  else if 260000 ≤ amount4Humans ∧ amount4Humans < 350000 then toFloat32 1.03
  else if 350000 ≤ amount4Humans ∧ amount4Humans < 450000 then toFloat32 1.04
  else if 450000 ≤ amount4Humans ∧ amount4Humans < 560000 then toFloat32 1.05
  else if 560000 ≤ amount4Humans ∧ amount4Humans < 680000 then toFloat32 1.06
  else if 680000 ≤ amount4Humans ∧ amount4Humans < 810000 then toFloat32 1.07
  else if 810000 ≤ amount4Humans ∧ amount4Humans < 950000 then toFloat32 1.08
  else if 950000 ≤ amount4Humans ∧ amount4Humans < 1100000 then toFloat32 1.09
  else if 1100000 ≤ amount4Humans ∧ amount4Humans < 1260000 then toFloat32 1.1
  else if 1260000 ≤ amount4Humans ∧ amount4Humans < 1430000 then toFloat32 1.11
  else if 1430000 ≤ amount4Humans ∧ amount4Humans < 1610000 then toFloat32 1.12
  else if 1610000 ≤ amount4Humans ∧ amount4Humans < 1800000 then toFloat32 1.13
  else if 1800000 ≤ amount4Humans ∧ amount4Humans < 2000000 then toFloat32 1.14
  else if amount4Humans > 2000000 then toFloat32 1.15
  else 1

/-- `Currency::calculateInterestV2`: investments (terms of whole quarters) and
weekly deposits. -/
def calculateInterestV2 (amount : UInt64) (term : UInt32) : UInt64 :=
  if term % 64800 = 0 then
    let qTier := investmentTier (amount / 1000000)
    let mq := toFloat32 1.4473
    let termQuarters : Float32 := (term / 64800).toFloat32
    let m8 := (100.0 * Float.pow (1.0 + mq.toFloat / 100.0) termQuarters.toFloat - 100.0).toFloat32
    let m5 := termQuarters * 0.5
    let m7 := m8 * (1 + m5 / 100)
    let rate := m7 * qTier
    let interest := amount.toFloat32 * (rate / 100)
    interest.toUInt64
  else if term % 5040 = 0 then
    let actualAmount := amount.toFloat32
    let weeks : Float32 := (term / 5040).toFloat32
    let baseInterest := toFloat32 0.0696
    let interestPerWeek := toFloat32 0.0002
    let interestRate := baseInterest + weeks * interestPerWeek
    let interest := actualAmount * (weeks * interestRate / 100)
    interest.toUInt64
  else 0

/-- `Currency::calculateInterestV3`: monthly deposits of the 2019 consensus. -/
def calculateInterestV3 (amount : UInt64) (term : UInt32) : UInt64 :=
  let amount4Humans := amount / cur.coin
  let baseInterest :=
    if amount4Humans ≥ 20000 then toFloat32 0.049
    else if amount4Humans ≥ 10000 then toFloat32 0.039
    else toFloat32 0.029
  let months : Float32 := (term / cur.depositMinTermV3).toFloat32
  let months := if months > 12 then 12 else months
  let ear := baseInterest + (months - 1) * 0.001
  let eir := ear / 12 * months
  let interest := amount.toFloat32 * eir
  interest.toUInt64

/-- `Currency::calculateInterest(amount, term, lockHeight)`: the era is chosen
by the term and the height the deposit was locked at; the legacy era is
`amount * (term * rate - factor) / (100 * maxTerm)`, times the early multiplier
before `END_MULTIPLIER_BLOCK`, saturating on overflow. -/
def calculateInterest (amount : UInt64) (term : UInt32) (lockHeight : UInt32) : UInt64 :=
  let term := if term > cur.depositMaxTermV1 then cur.depositMaxTermV1 else term
  if term % cur.depositMinTermV3 = 0 ∧ lockHeight > cur.depositHeightV3 then
    cur.calculateInterestV3 amount term
  else if term % 64800 = 0 then calculateInterestV2 amount term
  else if term % 5040 = 0 then calculateInterestV2 amount term
  else
    let termRate := term.toUInt64 * cur.depositMaxTotalRate
    if termRate < cur.depositMinTotalRateFactor then 0
    else
      let a := termRate - cur.depositMinTotalRateFactor
      let (bLo, bHi) := mul128 amount a
      let (_, cLo) := div128_32 bHi bLo (100 * cur.depositMaxTerm)
      if lockHeight ≤ END_MULTIPLIER_BLOCK then
        let (interestLo, interestHi) := mul128 cLo MULTIPLIER_FACTOR
        if interestHi ≠ 0 then 0xFFFFFFFFFFFFFFFF else interestLo
      else cLo

/-- `Currency::getInterestForInput`: no interest for a term that no deposit can
have; the deposit was locked `term` blocks before the spending height, except
at the block whose interest went missing. -/
def getInterestForInput (input : MultisignatureInput) (height : UInt32) : UInt64 :=
  if input.term = 0 ∨ input.term > cur.depositMaxTermV1 then 0
  else
    let lockHeight := if height = cur.blockWithMissingInterest then height else height - input.term
    cur.calculateInterest input.amount input.term lockHeight

/-- `Currency::calculateTotalTransactionInterest`: the wrapping sum of the
interest of the deposit inputs. -/
def calculateTotalTransactionInterest (tx : TransactionPrefix) (height : UInt32) : UInt64 :=
  tx.inputs.foldl (fun interest input =>
    match input with
    | .multisignature i => if i.term ≠ 0 then interest + cur.getInterestForInput i height else interest
    | _ => interest) 0

/-- `input_amount_visitor`: a deposit input is worth its amount and its interest. -/
def getTransactionInputAmount (input : TransactionInput) (height : UInt32) : UInt64 :=
  match input with
  | .base _ => 0
  | .key i => i.amount
  | .multisignature i => if i.term = 0 then i.amount else i.amount + cur.getInterestForInput i height

/-- `Currency::getTransactionAllInputsAmount`: the wrapping sum of the input values. -/
def getTransactionAllInputsAmount (tx : TransactionPrefix) (height : UInt32) : UInt64 :=
  tx.inputs.foldl (fun amount input => amount + cur.getTransactionInputAmount input height) 0

/-- `is_coinbase`: exactly one input, a `BaseInput`. -/
def isCoinbase (tx : TransactionPrefix) : Bool :=
  match tx.inputs with
  | [.base _] => true
  | _ => false

/-- `Currency::getTransactionFee(tx, fee, height)`: zero for a coinbase; the
inputs minus the outputs; `MINIMUM_FEE` for a deposit withdrawal whose outputs
exceed its inputs; `none` (returns `false`) for any other overspend. -/
def getTransactionFee? (tx : TransactionPrefix) (height : UInt32) : Option UInt64 :=
  if isCoinbase tx then some 0
  else
    let amountIn := cur.getTransactionAllInputsAmount tx height
    let amountOut := getOutsMoneyAmount tx
    if amountOut > amountIn then
      let isDepositWithdrawal := tx.inputs.any fun
        | .multisignature i => i.term ≠ 0
        | _ => false
      if isDepositWithdrawal then some MINIMUM_FEE else none
    else some (amountIn - amountOut)

/-- `Currency::getTransactionFee(tx, height)`: the fee, zero when there is none. -/
def getTransactionFee (tx : TransactionPrefix) (height : UInt32) : UInt64 :=
  (cur.getTransactionFee? tx height).getD 0

end Currency

end Cn
