import ConcealCore.Spec.Base58
import ConcealCore.Lib.FixedDigits
import ConcealCore.Proof.Reward

/-!
# Base58 is a bijection; an address need not be canonical

A block of `k ≤ 8` bytes is the number `uint8beTo64` reads, below
`2 ^ (8 k) ≤ 58 ^ e` for the `e = encodedBlockSizes[k]` symbols it takes, and
`encode_block` writes its `e` base-58 digits (`encodeBlock_eq`); `decode_block`
adds the digits back from the last with the 128-bit product, which refuses
exactly the values of 64 bits and more (`decodeBlock_loop`). Over
`FixedDigits` the two are inverse on blocks (`decodeBlock_encodeBlock`,
`encodeBlock_decodeBlock`), and block by block on strings:

* `decode_encode`: `decode` gives back every byte string `encode` writes;
* `encode_decode`: every string `decode` accepts is the encoding of its result;
* `base58_bijection`: both, so `encode` is a bijection between byte strings and
  the strings `decode` accepts.

`decodeAddr_encodeAddr`: an address decodes to its tag and data.
`decodeAddr_accepts_unfinished_varint`: the converse fails. The payload `0x80`
with its checksum is accepted, since `tools::read_varint` returns the count of
the bytes it read when the input ends inside a varint, with tag `0` and no data;
`encodeAddr` of those is another string.
-/

namespace Cn

namespace Base58

open FixedDigits

/-! ## The tables -/

theorem alphabet_length : alphabet.length = 58 := by decide

theorem reverseAlphabet_symbol : ∀ d : Fin 58, reverseAlphabet (alphabet.getD d '1') = some d := by decide

theorem reverseAlphabet_eq_some_iff {letter : Char} {d : ℕ} :
    reverseAlphabet letter = some d ↔ d < 58 ∧ alphabet.getD d '1' = letter := by
  constructor
  · intro h
    obtain ⟨hd, hget, -⟩ := List.idxOf?_eq_some_iff.mp h
    refine ⟨alphabet_length ▸ hd, ?_⟩
    rw [List.getD_eq_getElem _ _ hd, hget]
  · rintro ⟨hd, rfl⟩
    exact reverseAlphabet_symbol ⟨d, hd⟩

/-- The symbols of a block of `k` bytes hold every value of `k` bytes. -/
theorem encodedBlockSizes_pow {k : ℕ} (hk : k ≤ 8) : 2 ^ (8 * k) ≤ 58 ^ encodedBlockSizes.getD k 0 := by
  have table : ∀ k : Fin 9, 2 ^ (8 * (k : ℕ)) ≤ 58 ^ encodedBlockSizes.getD k 0 := by decide
  exact table ⟨k, by omega⟩

theorem decodedBlockSizes_encoded {k : ℕ} (hk : k ≤ 8) : decodedBlockSizes (encodedBlockSizes.getD k 0) = some k := by
  have table : ∀ k : Fin 9, decodedBlockSizes (encodedBlockSizes.getD k 0) = some k := by decide
  exact table ⟨k, by omega⟩

theorem decodedBlockSizes_eq_some {n k : ℕ} (h : decodedBlockSizes n = some k) :
    k ≤ 8 ∧ encodedBlockSizes.getD k 0 = n := by
  obtain ⟨hk, hget, -⟩ := List.idxOf?_eq_some_iff.mp h
  have hlen : encodedBlockSizes.length = 9 := rfl
  refine ⟨by omega, ?_⟩
  rw [List.getD_eq_getElem _ _ hk, hget]

theorem encodedBlockSizes_le (k : ℕ) : encodedBlockSizes.getD k 0 ≤ 11 := by
  by_cases hk : k < 9
  · have table : ∀ k : Fin 9, encodedBlockSizes.getD k 0 ≤ 11 := by decide
    exact table ⟨k, hk⟩
  · rw [List.getD_eq_default _ _ (by simpa [encodedBlockSizes] using hk)]
    omega

/-- The symbols of a block: exactly the letters of the alphabet, read as their
places in it. -/
theorem mapM_reverseAlphabet_eq_some_iff {letters : List Char} {ds : List ℕ} :
    letters.mapM reverseAlphabet = some ds ↔ letters = ds.map (alphabet.getD · '1') ∧ ∀ d ∈ ds, d < 58 := by
  induction letters generalizing ds with
  | nil =>
    cases ds <;> simp
  | cons letter rest ih =>
    cases ds with
    | nil =>
      simp only [List.mapM_cons, List.map_nil, reduceCtorEq, false_and, iff_false]
      cases reverseAlphabet letter <;> cases rest.mapM reverseAlphabet <;> simp
    | cons d ds =>
      have hstep : (letter :: rest).mapM reverseAlphabet = some (d :: ds) ↔
          reverseAlphabet letter = some d ∧ rest.mapM reverseAlphabet = some ds := by
        rw [List.mapM_cons]
        cases reverseAlphabet letter <;> cases rest.mapM reverseAlphabet <;> simp
      rw [hstep, reverseAlphabet_eq_some_iff, ih, List.map_cons, List.cons.injEq, List.forall_mem_cons, eq_comm]
      tauto

theorem mapM_reverseAlphabet_reverse (letters : List Char) :
    letters.reverse.mapM reverseAlphabet = (letters.mapM reverseAlphabet).map List.reverse := by
  apply Option.ext
  intro ds
  rw [mapM_reverseAlphabet_eq_some_iff, Option.map_eq_some_iff]
  constructor
  · rintro ⟨hletters, hds⟩
    refine ⟨ds.reverse, mapM_reverseAlphabet_eq_some_iff.mpr ⟨?_, by simpa using hds⟩, List.reverse_reverse ds⟩
    rw [List.map_reverse, ← hletters, List.reverse_reverse]
  · rintro ⟨ds', hds', rfl⟩
    obtain ⟨rfl, hlt⟩ := mapM_reverseAlphabet_eq_some_iff.mp hds'
    exact ⟨(List.map_reverse ..).symm, by simpa using hlt⟩

/-! ## Bytes as numbers -/

theorem toNat_shiftLeft_8_or (x : UInt64) (byte : UInt8) (hx : x.toNat < 2 ^ 56) :
    ((x <<< 8) ||| byte.toUInt64).toNat = x.toNat * 256 + byte.toNat := by
  have hb := byte.toNat_lt
  rw [UInt64.toNat_or, UInt64.toNat_shiftLeft, UInt8.toNat_toUInt64]
  have h8 : (8 : UInt64).toNat % 64 = 8 := rfl
  rw [h8, Nat.mod_eq_of_lt (by rw [Nat.shiftLeft_eq]; omega), Nat.lor_comm, Varint.or_shiftLeft_eq_add hb]
  omega

theorem toNat_uint8beTo64 {data : List UInt8} (h : data.length ≤ 8) :
    (uint8beTo64 data).toNat = value 256 (data.map UInt8.toNat) := by
  induction data using List.reverseRecOn with
  | nil => rfl
  | append_singleton bs byte ih =>
    rw [List.length_append, List.length_singleton] at h
    have hbs : (uint8beTo64 bs).toNat < 2 ^ 56 := by
      rw [ih (by omega)]
      calc value 256 (bs.map UInt8.toNat) < 256 ^ (bs.map UInt8.toNat).length :=
            value_lt (by norm_num) (by simpa using fun a _ => a.toNat_lt)
        _ ≤ 256 ^ 7 := Nat.pow_le_pow_right (by norm_num) (by simp; omega)
        _ = 2 ^ 56 := by norm_num
    rw [uint8beTo64, List.foldl_append, ← uint8beTo64, List.foldl_cons, List.foldl_nil,
      toNat_shiftLeft_8_or _ _ hbs, ih (by omega), List.map_append, List.map_singleton,
      value_append_singleton]

/-- A byte of the big-endian number: the shift by `56 - 8 i` is the division by
`256 ^ (7 - i)`. -/
theorem toUInt8_shiftRight (num : UInt64) {i : ℕ} (hi : i < 8) :
    (num >>> (56 - 8 * i).toUInt64).toUInt8 = UInt8.ofNat (num.toNat / 256 ^ (8 - 1 - i) % 256) := by
  apply UInt8.toNat_inj.mp
  have hshift : (56 - 8 * i).toUInt64.toNat % 64 = 56 - 8 * i := by
    rw [Nat.toUInt64_eq, UInt64.toNat_ofNat', Nat.mod_eq_of_lt (by omega), Nat.mod_eq_of_lt (by omega)]
  have hpow : (256 : ℕ) ^ (8 - 1 - i) = 2 ^ (56 - 8 * i) := by
    rw [show (256 : ℕ) = 2 ^ 8 by norm_num, ← pow_mul]
    congr 1
    omega
  rw [UInt64.toNat_toUInt8, UInt64.toNat_shiftRight, hshift, Nat.shiftRight_eq_div_pow, UInt8.toNat_ofNat',
    hpow, Nat.mod_mod]

theorem uint64To8be_eq (num : UInt64) {size : ℕ} (h : size ≤ 8) :
    uint64To8be num size = (digits 256 size num.toNat).map UInt8.ofNat := by
  have hbytes : (List.range 8).map (fun i => (num >>> (56 - 8 * i).toUInt64).toUInt8) =
      (digits 256 8 num.toNat).map UInt8.ofNat := by
    rw [digits_eq_map_range, List.map_map]
    apply List.map_congr_left
    intro i hi
    exact toUInt8_shiftRight num (List.mem_range.mp hi)
  have hsplit : digits 256 8 num.toNat = digits 256 (8 - size) (num.toNat / 256 ^ size) ++ digits 256 size num.toNat := by
    rw [← digits_add, Nat.sub_add_cancel h]
  rw [uint64To8be, hbytes, ← List.map_drop, hsplit, List.drop_left' (length_digits _ _)]

/-! ## One block -/

@[simp] theorem toNat_alphabetSize : alphabetSize.toUInt64.toNat = 58 := rfl

/-- Writing the lowest place of the unwritten ones. -/
theorem set_replicate_append (n : ℕ) (x : Char) (suffix : List Char) :
    (List.replicate (n + 1) '1' ++ suffix).set n x = List.replicate n '1' ++ x :: suffix := by
  rw [List.replicate_succ', List.append_assoc, List.set_append_right _ _ (by simp)]
  simp

/-- The loop writes the `places` lowest base-58 digits of `num` over the zero
symbols; it stops early only where the digits left are zeros. -/
theorem encodeBlock_loop (places : ℕ) (num : UInt64) (suffix : List Char) :
    encodeBlock.loop places num (List.replicate places '1' ++ suffix) =
      (digits 58 places num.toNat).map (alphabet.getD · '1') ++ suffix := by
  induction places generalizing num suffix with
  | zero => rfl
  | succ places ih =>
    rw [encodeBlock.loop]
    by_cases hnum : 0 < num
    · rw [if_pos hnum, set_replicate_append, ih, digits_succ, List.map_append, List.map_singleton,
        List.append_assoc, List.singleton_append, UInt64.toNat_div, UInt64.toNat_mod, toNat_alphabetSize]
    · -- the digits left are all zeros, whose symbol is already there
      have hzero : num.toNat = 0 := by
        rw [UInt64.lt_iff_toNat_lt] at hnum
        simpa using hnum
      rw [if_neg hnum, hzero, digits_of_zero, List.map_replicate]
      rfl

theorem encodeBlock_eq (block : List UInt8) :
    encodeBlock block =
      (digits 58 (encodedBlockSizes.getD block.length 0) (uint8beTo64 block).toNat).map (alphabet.getD · '1') := by
  have h := encodeBlock_loop (encodedBlockSizes.getD block.length 0) (uint8beTo64 block) []
  rw [List.append_nil, List.append_nil] at h
  exact h

theorem length_encodeBlock (block : List UInt8) :
    (encodeBlock block).length = encodedBlockSizes.getD block.length 0 := by
  rw [encodeBlock_eq, List.length_map, length_digits]

/-- The two overflow tests of `decode_block` together: the digit's product
leaves 64 bits or the sum does. -/
theorem mul128_add_overflow_iff (res order digit : UInt64) :
    (res + (IntUtil.mul128 order digit).1 < res ∨ (IntUtil.mul128 order digit).2 ≠ 0) ↔
      2 ^ 64 ≤ res.toNat + order.toNat * digit.toNat := by
  have hp := IntUtil.mul128_exact order digit
  have hlo := (IntUtil.mul128 order digit).1.toNat_lt
  rw [WideArith.add_lt_left_iff, ne_eq, ← UInt64.toNat_inj, UInt64.toNat_zero]
  constructor
  · rintro (h | h)
    · have : (IntUtil.mul128 order digit).1.toNat ≤ order.toNat * digit.toNat := by omega
      omega
    · have : 2 ^ 64 ≤ (IntUtil.mul128 order digit).2.toNat * 2 ^ 64 :=
        Nat.le_mul_of_pos_left _ (Nat.pos_of_ne_zero h)
      omega
  · intro h
    by_cases hhi : (IntUtil.mul128 order digit).2.toNat = 0
    · left
      rw [hhi, Nat.zero_mul, Nat.add_zero] at hp
      omega
    · exact Or.inr hhi

theorem toNat_add_mul128 {res order digit : UInt64} (h : res.toNat + order.toNat * digit.toNat < 2 ^ 64) :
    (res + (IntUtil.mul128 order digit).1).toNat = res.toNat + order.toNat * digit.toNat := by
  have hp := IntUtil.mul128_exact order digit
  have hhi : (IntUtil.mul128 order digit).2.toNat = 0 := by
    by_contra hne
    have : 2 ^ 64 ≤ (IntUtil.mul128 order digit).2.toNat * 2 ^ 64 :=
      Nat.le_mul_of_pos_left _ (Nat.pos_of_ne_zero hne)
    omega
  rw [hhi, Nat.zero_mul, Nat.add_zero] at hp
  rw [WideArith.toNat_add_of_lt _ _ (by omega), hp]

theorem order_mul_alphabetSize (k : ℕ) :
    UInt64.ofNat (58 ^ k) * alphabetSize.toUInt64 = UInt64.ofNat (58 ^ (k + 1)) := by
  apply UInt64.toNat_inj.mp
  rw [UInt64.toNat_mul, toNat_alphabetSize, UInt64.toNat_ofNat', UInt64.toNat_ofNat', Nat.mod_mul_mod, ← pow_succ]

/-- The loop of `decode_block` adds the digits of the symbols, least
significant first, times `58 ^ k`, and refuses an invalid symbol or a sum that
leaves 64 bits. `order` stays exact for the eleven symbols of a block. -/
theorem decodeBlock_loop (letters : List Char) (k : ℕ) (res : UInt64) (hk : k + letters.length ≤ 11) :
    decodeBlock.loop letters res (UInt64.ofNat (58 ^ k)) =
      (letters.mapM reverseAlphabet).bind fun ds =>
        if res.toNat + 58 ^ k * Nat.ofDigits 58 ds < 2 ^ 64 then
          some (UInt64.ofNat (res.toNat + 58 ^ k * Nat.ofDigits 58 ds))
        else none := by
  induction letters generalizing k res with
  | nil => simp [decodeBlock.loop, res.toNat_lt]
  | cons letter rest ih =>
    rw [List.length_cons] at hk
    rw [decodeBlock.loop]
    cases hl : reverseAlphabet letter with
    | none => simp [hl]
    | some d =>
      have hd := (reverseAlphabet_eq_some_iff.mp hl).1
      have horder : (UInt64.ofNat (58 ^ k)).toNat = 58 ^ k := by
        rw [UInt64.toNat_ofNat', Nat.mod_eq_of_lt]
        calc 58 ^ k ≤ 58 ^ 10 := Nat.pow_le_pow_right (by norm_num) (by omega)
          _ < 2 ^ 64 := by norm_num
      have hdigit : d.toUInt64.toNat = d := by
        rw [Nat.toUInt64_eq, UInt64.toNat_ofNat', Nat.mod_eq_of_lt (by omega)]
      -- the symbol's digit comes first, below those of the rest
      have hmapM : (letter :: rest).mapM reverseAlphabet = (rest.mapM reverseAlphabet).map (d :: ·) := by
        rw [List.mapM_cons, hl]
        cases rest.mapM reverseAlphabet <;> rfl
      have hsum : ∀ ds, res.toNat + 58 ^ k * d + 58 ^ (k + 1) * Nat.ofDigits 58 ds =
          res.toNat + 58 ^ k * Nat.ofDigits 58 (d :: ds) := by
        intro ds
        rw [Nat.ofDigits_cons]
        ring
      rw [hmapM, Option.bind_map]
      dsimp only
      by_cases hov : 2 ^ 64 ≤ res.toNat + 58 ^ k * d
      · -- the refusal at this symbol; the whole sum leaves 64 bits as well
        rw [if_pos ((mul128_add_overflow_iff _ _ _).mpr (by rw [horder, hdigit]; exact hov))]
        cases rest.mapM reverseAlphabet with
        | none => rfl
        | some ds =>
          have := hsum ds
          rw [Option.bind_some, Function.comp_apply, if_neg (by omega)]
      · rw [if_neg (fun h => hov (by rw [← horder, ← hdigit]; exact (mul128_add_overflow_iff _ _ _).mp h)),
          order_mul_alphabetSize, ih (k + 1) _ (by omega),
          toNat_add_mul128 (by rw [horder, hdigit]; omega), horder, hdigit]
        simp only [hsum, Function.comp_def]

/-- The loop from the start of a block: the value of its symbols, most
significant first, when it fits in 64 bits. -/
theorem decodeBlock_loop_block {block : List Char} (h : block.length ≤ 11) :
    decodeBlock.loop block.reverse 0 1 =
      (block.mapM reverseAlphabet).bind fun ds =>
        if value 58 ds < 2 ^ 64 then some (UInt64.ofNat (value 58 ds)) else none := by
  have hloop := decodeBlock_loop block.reverse 0 0 (by simpa using h)
  rw [show UInt64.ofNat (58 ^ 0) = 1 from rfl] at hloop
  rw [hloop, mapM_reverseAlphabet_reverse, Option.bind_map]
  simp [value_eq_ofDigits]

/-- The test of a short block's value against its byte width; a full block has
none, and its value fits in 64 bits anyway. -/
theorem blockOverflow_iff {size : ℕ} (num : UInt64) (h : size ≤ 8) :
    (size < fullBlockSize ∧ (1 <<< (8 * size).toUInt64 : UInt64) ≤ num) ↔ 2 ^ (8 * size) ≤ num.toNat := by
  have hnum := num.toNat_lt
  by_cases h8 : size < 8
  · have hshift : (8 * size).toUInt64.toNat % 64 = 8 * size := by
      rw [Nat.toUInt64_eq, UInt64.toNat_ofNat', Nat.mod_eq_of_lt (by omega), Nat.mod_eq_of_lt (by omega)]
    have hpow : 2 ^ (8 * size) < 2 ^ 64 := Nat.pow_lt_pow_right (by norm_num) (by omega)
    rw [UInt64.le_iff_toNat_le, UInt64.toNat_shiftLeft, hshift, UInt64.toNat_one, Nat.one_shiftLeft,
      Nat.mod_eq_of_lt hpow]
    exact ⟨fun h' => h'.2, fun h' => ⟨h8, h'⟩⟩
  · have : size = 8 := by omega
    subst this
    exact ⟨fun h' => absurd h'.1 (by decide), fun h' => absurd h' (by omega)⟩

/-- **A block round trip.** -/
theorem decodeBlock_encodeBlock {block : List UInt8} (h0 : 0 < block.length) (h8 : block.length ≤ 8) :
    decodeBlock (encodeBlock block) = some block := by
  have hbytes : ∀ d ∈ block.map UInt8.toNat, d < 256 := by simpa using fun a _ => a.toNat_lt
  have hv := toNat_uint8beTo64 h8
  have hvlt : (uint8beTo64 block).toNat < 2 ^ (8 * block.length) := by
    rw [hv, pow_mul, show (2 : ℕ) ^ 8 = 256 by norm_num, ← List.length_map (f := UInt8.toNat)]
    exact value_lt (by norm_num) hbytes
  have hvfit := lt_of_lt_of_le hvlt (encodedBlockSizes_pow h8)
  have hsymbols : (encodeBlock block).mapM reverseAlphabet =
      some (digits 58 (encodedBlockSizes.getD block.length 0) (uint8beTo64 block).toNat) :=
    mapM_reverseAlphabet_eq_some_iff.mpr ⟨encodeBlock_eq block, digits_lt (by norm_num) _ _⟩
  have hlen : (encodeBlock block).length = encodedBlockSizes.getD block.length 0 := by
    rw [encodeBlock_eq, List.length_map, length_digits]
  have h11 : encodedBlockSizes.getD block.length 0 ≤ 11 := by
    have table : ∀ k : Fin 9, encodedBlockSizes.getD k 0 ≤ 11 := by decide
    exact table ⟨block.length, by omega⟩
  simp only [decodeBlock, hlen, decodedBlockSizes_encoded h8]
  rw [if_neg (by omega), decodeBlock_loop_block (by omega), hsymbols, Option.bind_some,
    value_digits_of_lt hvfit, if_pos (uint8beTo64 block).toNat_lt, UInt64.ofNat_toNat]
  dsimp only
  rw [if_neg (fun h => absurd ((blockOverflow_iff _ h8).mp h) (by omega)), uint64To8be_eq _ h8, hv]
  -- the bytes of the value are the bytes of the block
  have hback := digits_value hbytes
  rw [List.length_map] at hback
  rw [hback, List.map_map, show UInt8.ofNat ∘ UInt8.toNat = id from funext fun _ => UInt8.ofNat_toNat, List.map_id]


/-- **A decoded block is canonical**: it is the encoding of its bytes, of the
length its symbols stand for. -/
theorem encodeBlock_decodeBlock {block : List Char} {bytes : List UInt8} (h : decodeBlock block = some bytes) :
    encodeBlock bytes = block ∧ decodedBlockSizes block.length = some bytes.length := by
  unfold decodeBlock at h
  obtain ⟨size, hsize⟩ : ∃ size, decodedBlockSizes block.length = some size := by
    cases hs : decodedBlockSizes block.length with
    | none => rw [hs] at h; cases h
    | some size => exact ⟨size, rfl⟩
  obtain ⟨h8, henc⟩ := decodedBlockSizes_eq_some hsize
  have h11 : block.length ≤ 11 := henc ▸ encodedBlockSizes_le size
  rw [hsize] at h
  dsimp only at h
  split_ifs at h with h0
  rw [decodeBlock_loop_block h11] at h
  cases hds : block.mapM reverseAlphabet with
  | none => rw [hds] at h; cases h
  | some ds =>
    obtain ⟨hblock, hlt⟩ := mapM_reverseAlphabet_eq_some_iff.mp hds
    rw [hds, Option.bind_some] at h
    split_ifs at h with h64
    dsimp only at h
    split_ifs at h with hcheck
    rw [blockOverflow_iff _ h8, UInt64.toNat_ofNat', Nat.mod_eq_of_lt h64, not_le] at hcheck
    have hfit : value 58 ds < 256 ^ size := by rwa [pow_mul] at hcheck
    cases h
    -- the bytes are the `size` base-256 digits of the value, and read back to it
    have hdigits := digits_lt (b := 256) (by norm_num) size (value 58 ds)
    have hvalue : (uint8beTo64 ((digits 256 size (value 58 ds)).map UInt8.ofNat)).toNat = value 58 ds := by
      have hmap : (digits 256 size (value 58 ds)).map (UInt8.toNat ∘ UInt8.ofNat) = digits 256 size (value 58 ds) := by
        refine (List.map_congr_left fun d hd => ?_).trans (List.map_id _)
        exact Varint.toNat_ofNat_lt (hdigits d hd)
      rw [toNat_uint8beTo64 (by simpa using h8), List.map_map, hmap, value_digits_of_lt hfit]
    have hlen : ds.length = encodedBlockSizes.getD size 0 := by
      rw [henc, hblock, List.length_map]
    rw [uint64To8be_eq _ h8, UInt64.toNat_ofNat', Nat.mod_eq_of_lt h64, encodeBlock_eq, hvalue,
      List.length_map, length_digits, ← hlen, digits_value hlt]
    exact ⟨hblock.symm, hsize⟩


/-! ## Whole strings -/

theorem length_encodeFullBlocks (count : ℕ) {data : List UInt8} (h : count * fullBlockSize ≤ data.length) :
    (encodeFullBlocks count data).length = count * fullEncodedBlockSize := by
  induction count generalizing data with
  | zero => rfl
  | succ count ih =>
    have h8 : fullBlockSize = 8 := rfl
    rw [encodeFullBlocks, List.length_append, length_encodeBlock, List.length_take,
      Nat.min_eq_left (by rw [h8] at h ⊢; omega), ih (by rw [List.length_drop]; rw [h8] at h ⊢; omega),
      show encodedBlockSizes.getD fullBlockSize 0 = fullEncodedBlockSize from rfl, Nat.succ_mul, Nat.add_comm]

theorem decodeFullBlocks_encodeFullBlocks (count : ℕ) {data : List UInt8} (rest : List Char)
    (h : count * fullBlockSize ≤ data.length) :
    decodeFullBlocks count (encodeFullBlocks count data ++ rest) = some (data.take (count * fullBlockSize)) := by
  induction count generalizing data with
  | zero => rfl
  | succ count ih =>
    have h8 : fullBlockSize = 8 := rfl
    have hblock : (data.take fullBlockSize).length = fullBlockSize := by
      rw [List.length_take, Nat.min_eq_left (by rw [h8] at h ⊢; omega)]
    have hlen : (encodeBlock (data.take fullBlockSize)).length = fullEncodedBlockSize := by
      rw [length_encodeBlock, hblock]
      rfl
    rw [encodeFullBlocks, List.append_assoc, decodeFullBlocks, List.take_left' hlen, List.drop_left' hlen,
      decodeBlock_encodeBlock (by rw [hblock]; decide) (by rw [hblock]; decide)]
    dsimp only
    rw [ih (by rw [List.length_drop]; rw [h8] at h ⊢; omega), Option.map_some, ← List.take_add,
      Nat.succ_mul, Nat.add_comm]

theorem encodeFullBlocks_decodeFullBlocks (count : ℕ) {enc : List Char} {full : List UInt8}
    (hlen : count * fullEncodedBlockSize ≤ enc.length) (h : decodeFullBlocks count enc = some full) :
    full.length = count * fullBlockSize ∧
      ∀ rest, encodeFullBlocks count (full ++ rest) = enc.take (count * fullEncodedBlockSize) := by
  induction count generalizing enc full with
  | zero =>
    cases h
    exact ⟨rfl, fun _ => rfl⟩
  | succ count ih =>
    have h11 : fullEncodedBlockSize = 11 := rfl
    rw [decodeFullBlocks] at h
    cases hblock : decodeBlock (enc.take fullEncodedBlockSize) with
    | none => rw [hblock] at h; cases h
    | some block =>
      rw [hblock] at h
      dsimp only at h
      obtain ⟨full', hfull', rfl⟩ := Option.map_eq_some_iff.mp h
      obtain ⟨henc, hsize⟩ := encodeBlock_decodeBlock hblock
      -- a full block of symbols holds a full block of bytes
      have hlen8 : block.length = fullBlockSize := by
        rw [List.length_take, Nat.min_eq_left (by rw [h11] at hlen ⊢; omega)] at hsize
        exact Option.some.inj (hsize.symm.trans (decodedBlockSizes_encoded (k := 8) le_rfl))
      obtain ⟨hlen', hrest⟩ := ih (by rw [List.length_drop]; rw [h11] at hlen ⊢; omega) hfull'
      refine ⟨by rw [List.length_append, hlen8, hlen', Nat.succ_mul, Nat.add_comm], fun rest => ?_⟩
      rw [encodeFullBlocks, List.append_assoc, List.take_left' hlen8, List.drop_left' hlen8, henc, hrest,
        ← List.take_add, Nat.succ_mul, Nat.add_comm]

/-- A last block is shorter than a full one and empty only when it has no
bytes. -/
theorem encodedBlockSizes_last {r : ℕ} (hr : r < 8) :
    encodedBlockSizes.getD r 0 < fullEncodedBlockSize ∧ (encodedBlockSizes.getD r 0 = 0 ↔ r = 0) := by
  have table : ∀ r : Fin 8, encodedBlockSizes.getD r 0 < 11 ∧ (encodedBlockSizes.getD r 0 = 0 ↔ (r : ℕ) = 0) := by
    decide
  exact table ⟨r, hr⟩

/-- **Round trip.** `decode` gives back every byte string `encode` writes. -/
theorem decode_encode (data : List UInt8) : decode (encode data) = some data := by
  unfold encode
  by_cases hnil : data.isEmpty
  · rw [if_pos hnil, List.isEmpty_iff.mp hnil]
    rfl
  rw [if_neg hnil]
  dsimp only
  have hpos : 0 < data.length := List.length_pos_iff.mpr (fun h => hnil (List.isEmpty_iff.mpr h))
  have h8 : fullBlockSize = 8 := rfl
  have h11 : fullEncodedBlockSize = 11 := rfl
  set count := data.length / fullBlockSize
  set r := data.length % fullBlockSize
  have hdata : data.length = count * fullBlockSize + r := (Nat.div_add_mod' _ _).symm
  have hc8 : count * fullBlockSize = count * 8 := by rw [h8]
  have hc11 : count * fullEncodedBlockSize = count * 11 := by rw [h11]
  have hr8 : r < 8 := Nat.mod_lt _ (by decide)
  obtain ⟨hlast11, hlast0⟩ := encodedBlockSizes_last hr8
  set last := if 0 < r then encodeBlock (data.drop (count * fullBlockSize)) else [] with hlast
  have hlastlen : last.length = encodedBlockSizes.getD r 0 := by
    by_cases hr : 0 < r
    · rw [hlast, if_pos hr, length_encodeBlock, List.length_drop]
      congr 2
      omega
    · rw [hlast, if_neg hr, show r = 0 by omega]
      rfl
  have hfull : (encodeFullBlocks count data).length = count * fullEncodedBlockSize :=
    length_encodeFullBlocks count (by omega)
  have hlen : (encodeFullBlocks count data ++ last).length = count * fullEncodedBlockSize + encodedBlockSizes.getD r 0 := by
    rw [List.length_append, hfull, hlastlen]
  have hne : ¬(encodeFullBlocks count data ++ last).isEmpty := by
    rw [List.isEmpty_iff, ← List.length_eq_zero_iff, hlen]
    have : count = 0 → r ≠ 0 := by omega
    have := hlast0.not.mpr
    omega
  have hdiv : (encodeFullBlocks count data ++ last).length / fullEncodedBlockSize = count := by
    rw [hlen, hc11, h11]
    omega
  have hmod : (encodeFullBlocks count data ++ last).length % fullEncodedBlockSize = encodedBlockSizes.getD r 0 := by
    rw [hlen, hc11, h11]
    omega
  unfold decode
  rw [if_neg hne]
  dsimp only
  rw [hdiv, hmod, decodedBlockSizes_encoded (by omega)]
  dsimp only
  rw [decodeFullBlocks_encodeFullBlocks count last (by omega)]
  dsimp only
  by_cases hr : 0 < r
  · -- the last block decodes to the bytes after the full blocks
    rw [if_pos (by have := hlast0.not.mpr; omega), List.drop_left' hfull, hlast, if_pos hr,
      decodeBlock_encodeBlock (by rw [List.length_drop]; omega) (by rw [List.length_drop]; omega),
      Option.map_some, List.take_append_drop]
  · rw [if_neg (by rw [hlast0.mpr (by omega)]; decide), List.take_of_length_le (by omega)]

/-- **Canonicity.** Every string `decode` accepts is the encoding of what it
decodes to. -/
theorem encode_decode {enc : List Char} {data : List UInt8} (h : decode enc = some data) : encode data = enc := by
  unfold decode at h
  by_cases hnil : enc.isEmpty
  · rw [if_pos hnil] at h
    cases h
    rw [List.isEmpty_iff.mp hnil]
    rfl
  rw [if_neg hnil] at h
  dsimp only at h
  have h8 : fullBlockSize = 8 := rfl
  have h11 : fullEncodedBlockSize = 11 := rfl
  set count := enc.length / fullEncodedBlockSize
  set r' := enc.length % fullEncodedBlockSize
  have henclen : enc.length = count * fullEncodedBlockSize + r' := (Nat.div_add_mod' _ _).symm
  have hc8 : count * fullBlockSize = count * 8 := by rw [h8]
  have hc11 : count * fullEncodedBlockSize = count * 11 := by rw [h11]
  have hr'11 : r' < 11 := Nat.mod_lt _ (by decide)
  have hpos : 0 < enc.length := List.length_pos_iff.mpr (fun h => hnil (List.isEmpty_iff.mpr h))
  obtain ⟨r, hr⟩ : ∃ r, decodedBlockSizes r' = some r := by
    cases hs : decodedBlockSizes r' with
    | none => rw [hs] at h; cases h
    | some r => exact ⟨r, rfl⟩
  rw [hr] at h
  dsimp only at h
  obtain ⟨hr8, her⟩ := decodedBlockSizes_eq_some hr
  -- the last block holds fewer bytes than a full one
  have hrlt : r < 8 := by
    by_contra hge
    rw [show r = 8 by omega] at her
    exact absurd her (by change 11 ≠ r'; omega)
  obtain ⟨-, hlast0⟩ := encodedBlockSizes_last hrlt
  obtain ⟨full, hfull⟩ : ∃ full, decodeFullBlocks count enc = some full := by
    cases hs : decodeFullBlocks count enc with
    | none => rw [hs] at h; cases h
    | some full => exact ⟨full, rfl⟩
  rw [hfull] at h
  dsimp only at h
  obtain ⟨hfulllen, hfullenc⟩ := encodeFullBlocks_decodeFullBlocks count (by omega) hfull
  unfold encode
  by_cases hlast : 0 < r'
  · rw [if_pos hlast] at h
    obtain ⟨lastb, hlastb, rfl⟩ := Option.map_eq_some_iff.mp h
    obtain ⟨henc, hsize⟩ := encodeBlock_decodeBlock hlastb
    have hlastlen : lastb.length = r := by
      rw [List.length_drop, show enc.length - count * fullEncodedBlockSize = r' by omega, hr] at hsize
      exact (Option.some.inj hsize).symm
    have hr0 : r ≠ 0 := fun h0 => by rw [← her, hlast0.mpr h0] at hlast; exact absurd hlast (by decide)
    have hlen : (full ++ lastb).length = count * fullBlockSize + r := by
      rw [List.length_append, hfulllen, hlastlen]
    rw [if_neg (by rw [List.isEmpty_iff, ← List.length_eq_zero_iff, hlen]; omega)]
    dsimp only
    rw [hlen, show (count * fullBlockSize + r) / fullBlockSize = count by rw [hc8, h8]; omega,
      show (count * fullBlockSize + r) % fullBlockSize = r by rw [hc8, h8]; omega, if_pos (by omega),
      hfullenc, List.drop_left' hfulllen, henc, List.take_append_drop]
  · -- no last block: the string is full blocks only
    rw [if_neg hlast] at h
    obtain rfl : full = data := Option.some.inj h
    have hr0 : r = 0 := hlast0.mp (by omega)
    rw [if_neg (by rw [List.isEmpty_iff, ← List.length_eq_zero_iff, hfulllen]; omega)]
    dsimp only
    rw [hfulllen, show count * fullBlockSize / fullBlockSize = count by rw [hc8, h8]; omega,
      show count * fullBlockSize % fullBlockSize = 0 by rw [hc8, h8]; omega, if_neg (lt_irrefl 0),
      List.append_nil, ← List.append_nil full, hfullenc, List.take_of_length_le (by omega)]

/-! ## Addresses -/

/-- The continuation bit is the top bit of the byte. -/
theorem and_0x80_eq_zero_iff (byte : UInt8) : byte &&& 0x80 = 0 ↔ byte.toNat < 0x80 := by
  have hb := byte.toNat_lt
  rw [← UInt8.toNat_inj, UInt8.toNat_and, show (0x80 : UInt8).toNat = 2 ^ 7 from rfl, Nat.and_two_pow,
    Nat.testBit_eq_decide_div_mod_eq]
  by_cases h : byte.toNat < 0x80
  · simp [Nat.div_eq_of_lt h, h]
  · have : byte.toNat / 128 = 1 := by omega
    simp [this, h]

/-- A group or-ed in at `shift < 64`, as the reader of `Varint` computes it. -/
theorem toNat_or_group (acc : ℕ) (byte : UInt8) {shift : ℕ} (hacc : acc < 2 ^ 64) (hshift : shift < 64) :
    (UInt64.ofNat acc ||| (byte &&& 0x7f).toUInt64 <<< shift.toUInt64).toNat =
      (acc ||| (byte.toNat % 0x80) <<< shift) % 2 ^ 64 := by
  have hs : shift.toUInt64.toNat % 64 = shift := by
    rw [Nat.toUInt64_eq, UInt64.toNat_ofNat', Nat.mod_eq_of_lt (show shift < 2 ^ 64 by omega),
      Nat.mod_eq_of_lt hshift]
  have hgroup : (byte &&& 0x7f).toNat = byte.toNat % 0x80 := by
    rw [UInt8.toNat_and, show (0x7f : UInt8).toNat = 2 ^ 7 - 1 from rfl, Nat.and_two_pow_sub_one_eq_mod]
  rw [UInt64.toNat_or, UInt64.toNat_shiftLeft, UInt8.toNat_toUInt64, hgroup, hs, UInt64.toNat_ofNat',
    Nat.mod_eq_of_lt hacc, Nat.or_mod_two_pow, Nat.mod_eq_of_lt hacc]

/-- **The tools reader follows the reader of `Varint`** wherever that one
accepts, and counts the bytes it consumed. -/
theorem readVarint_loop_of_read (bs : List UInt8) :
    ∀ (shift acc : ℕ) (read : ℤ) (v : ℕ) (rest : List UInt8), acc < 2 ^ 64 → shift < 64 →
      Varint.read.loop 64 shift acc bs = .ok (v, rest) →
      rest.length ≤ bs.length ∧
        readVarint.loop 64 shift read (UInt64.ofNat acc) bs = (read + (bs.length - rest.length : ℕ), UInt64.ofNat v) := by
  induction bs with
  | nil => intro _ _ _ _ _ _ _ h; cases h
  | cons byte bs ih =>
    intro shift acc read v rest hacc hshift h
    have hgroup : (UInt64.ofNat acc ||| (byte &&& 0x7f).toUInt64 <<< shift.toUInt64) =
        UInt64.ofNat ((acc ||| (byte.toNat % 0x80) <<< shift) % 2 ^ 64) := by
      rw [← toNat_or_group acc byte hacc hshift, UInt64.ofNat_toNat]
    rw [Varint.read.loop] at h
    split_ifs at h with hov hlast hzero
    -- the last byte
    · obtain ⟨rfl, rfl⟩ := Prod.mk.inj (Except.ok.inj h)
      have hz : ¬(byte = 0 ∧ shift ≠ 0) := fun h0 => hzero ⟨by rw [h0.1]; rfl, h0.2⟩
      refine ⟨by simp, ?_⟩
      rw [readVarint.loop, if_neg (fun h' => hov ⟨by omega, h'.2⟩), if_neg hz,
        if_pos ((and_0x80_eq_zero_iff byte).mpr hlast), hgroup]
      simp
    -- a byte with the continuation bit: the next group starts below 64
    · have hshift' : shift + 7 < 64 := by
        by_contra hc
        exact hov ⟨by omega, le_trans (Nat.pow_le_pow_right (by norm_num) (show 64 - shift ≤ 7 by omega))
          (show 2 ^ 7 ≤ byte.toNat by omega)⟩
      have hz : ¬(byte = 0 ∧ shift ≠ 0) := fun h0 => hlast (by rw [h0.1]; decide)
      obtain ⟨hle, hloop⟩ := ih (shift + 7) _ (read + 1) v rest (Nat.mod_lt _ (by positivity)) hshift' h
      refine ⟨by simp; omega, ?_⟩
      rw [readVarint.loop, if_neg (fun h' => hov ⟨by omega, h'.2⟩), if_neg hz,
        if_neg (fun h' => hlast ((and_0x80_eq_zero_iff byte).mp h')), hgroup, hloop, List.length_cons]
      congr 1
      omega

/-- The tools reader on a varint the writer produced: the value and its length. -/
theorem readVarint_write {v : ℕ} (hv : v < 2 ^ 64) (rest : List UInt8) :
    readVarint (Varint.write v ++ rest) = (((Varint.write v).length : ℤ), UInt64.ofNat v) := by
  have hread := Varint.read_write hv rest
  obtain ⟨-, h⟩ := readVarint_loop_of_read _ 0 0 0 v rest (by norm_num) (by norm_num) hread
  rw [readVarint, show (0 : UInt64) = UInt64.ofNat 0 from rfl, h, List.length_append, Nat.add_sub_cancel]
  simp

theorem length_addrChecksum (c : Crypto) (buf : List UInt8) : (addrChecksum c buf).length = addrChecksumSize := by
  simp [addrChecksum, addrChecksumSize]

/-- **Address round trip.** -/
theorem decodeAddr_encodeAddr (c : Crypto) (tag : UInt64) (data : List UInt8) :
    decodeAddr c (encodeAddr c tag data) = some (tag, data) := by
  have hcs := length_addrChecksum c (Varint.write tag.toNat ++ data)
  have hwrite : 0 < (Varint.write tag.toNat).length := List.length_pos_iff.mpr (Varint.write_ne_nil _)
  have hsplit : (Varint.write tag.toNat ++ data ++ addrChecksum c (Varint.write tag.toNat ++ data)).length -
      addrChecksumSize = (Varint.write tag.toNat ++ data).length := by
    rw [List.length_append, hcs, Nat.add_sub_cancel]
  unfold decodeAddr encodeAddr
  dsimp only
  rw [decode_encode]
  dsimp only
  rw [if_neg (by rw [List.length_append, List.length_append, hcs]; omega), hsplit, List.drop_left,
    List.take_left, if_neg (not_not.mpr rfl), readVarint_write tag.toNat_lt data]
  dsimp only
  rw [if_neg (by omega), Int.toNat_natCast, List.drop_left, UInt64.ofNat_toNat]

/-- The checksummed payload of a single byte `0x80`: a varint that the input
ends before it finishes. -/
def unfinishedVarintAddress (c : Crypto) : List Char := encode ([0x80] ++ addrChecksum c [0x80])

/-- `read_varint` counts the byte it read before the input ended, so the
address is accepted, with tag `0` and no data. -/
theorem decodeAddr_unfinishedVarintAddress (c : Crypto) : decodeAddr c (unfinishedVarintAddress c) = some (0, []) := by
  have hcs := length_addrChecksum c [0x80]
  unfold decodeAddr unfinishedVarintAddress
  rw [decode_encode]
  dsimp only
  rw [if_neg (by rw [List.length_append, hcs]; decide), List.length_append, hcs,
    Nat.add_sub_cancel, List.drop_left, List.take_left, if_neg (not_not.mpr rfl)]
  rfl

/-- Encoding is injective, since decoding inverts it. -/
theorem encode_injective : Function.Injective encode := by
  intro a b h
  have := congrArg decode h
  rwa [decode_encode, decode_encode, Option.some.injEq] at this

theorem decodeAddr_accepts_unfinished_varint (c : Crypto) :
    (∀ tag data, decodeAddr c (encodeAddr c tag data) = some (tag, data)) ∧
      decodeAddr c (unfinishedVarintAddress c) = some (0, []) ∧ encodeAddr c 0 [] ≠ unfinishedVarintAddress c := by
  refine ⟨decodeAddr_encodeAddr c, decodeAddr_unfinishedVarintAddress c, fun h => ?_⟩
  -- the two payloads differ in their first byte
  have hpayload := encode_injective h
  simp [Varint.write_eq] at hpayload

theorem base58_bijection :
    (∀ data, decode (encode data) = some data) ∧ ∀ enc data, decode enc = some data → encode data = enc :=
  ⟨decode_encode, fun _ _ h => encode_decode h⟩

end Base58

end Cn
