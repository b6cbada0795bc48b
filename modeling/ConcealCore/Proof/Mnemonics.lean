import ConcealCore.Lib.RunningSums
import ConcealCore.Proof.WordList

/-!
# Mnemonic seeds read back

Every key comes back from its mnemonic
(`mnemonicToPrivateKey_privateKeyToMnemonic`), and an accepted mnemonic of words
of the list is the mnemonic of the key it gives
(`privateKeyToMnemonic_mnemonicToPrivateKey`). Each four bytes of the key are a
`uint32_t`, below `2 ^ 32 < 1626 ^ 3`: three digits of base 1626, written as
their running sums modulo 1626, which the differences undo
(`loop_valToIndexes`). Digits whose value passes `2 ^ 32` wrap in the cast to
`uint32_t` and then fail the test `val % wlLen == w1`, as `2 ^ 32` is not a
multiple of 1626 (`valToIndexes_of_indexesToVal`).

The test that a word is in the list lower-cases it, but the lookup of its index
does not: a word with a capital letter passes and has the index 1626, which as
the second or third word of a value counts as the first word of the list.
`mnemonicToPrivateKey_accepts_uppercase` is such an accepted mnemonic, whose
key has another mnemonic than its words lower-cased.
-/

namespace Cn

namespace Mnemonics

open ByteFile

/-! ## Words of the list -/

theorem tolower_of_lowercase {c : UInt8} (hc : 97 ≤ c.toNat ∧ c.toNat ≤ 122) : tolower c = c := by
  rw [tolower, if_neg]
  rintro ⟨-, hupper⟩
  have : c.toNat ≤ 90 := by simpa [UInt8.le_iff_toNat_le] using hupper
  omega

theorem map_tolower_of_mem {w : List UInt8} (hw : w ∈ englishWords) : w.map tolower = w := by
  have hlower := (lowercase_of_mem_englishWords hw).2
  rw [List.map_congr_left fun c hc => tolower_of_lowercase (hlower c hc), List.map_id']

theorem isSpaceByte_of_mem {w : List UInt8} (hw : w ∈ englishWords) {c : UInt8} (hc : c ∈ w) :
    isSpaceByte c = false := by
  have hlower := (lowercase_of_mem_englishWords hw).2 c hc
  have h32 : c ≠ 32 := by
    rintro rfl
    simp at hlower
  have h13 : ¬ c ≤ 13 := by
    intro h
    have : c.toNat ≤ 13 := by simpa [UInt8.le_iff_toNat_le] using h
    omega
  simp [isSpaceByte, h32, h13]

/-! ## The words of a string -/

/-- Splitting at separators undoes joining parts that hold none. -/
theorem splitOnP_intercalate {α : Type} (p : α → Bool) {sep : α} (hsep : p sep = true) :
    ∀ {ws : List (List α)}, ws ≠ [] → (∀ w ∈ ws, ∀ c ∈ w, p c = false) →
      ([sep].intercalate ws).splitOnP p = ws
  | [], hne, _ => absurd rfl hne
  | [w], _, h => by
    rw [List.intercalate_singleton]
    exact List.splitOnP_eq_singleton (h w List.mem_cons_self)
  | w :: v :: rest, _, h => by
    rw [List.intercalate_cons_cons, List.append_assoc, List.singleton_append,
      List.splitOnP_append_cons_of_forall_mem (h w List.mem_cons_self) sep hsep,
      splitOnP_intercalate p hsep (List.cons_ne_nil v rest) fun x hx => h x (List.mem_cons_of_mem w hx)]

/-- Words of the list joined by spaces are read back as those words. -/
theorem splitWords_intercalate {ws : List (List UInt8)} (hne : ws ≠ []) (h : ∀ w ∈ ws, w ∈ englishWords) :
    splitWords ([32].intercalate ws) = ws := by
  have hspace : ∀ w ∈ ws, ∀ c ∈ w, isSpaceByte c = false := fun w hw c hc => isSpaceByte_of_mem (h w hw) hc
  rw [splitWords, splitOnP_intercalate isSpaceByte (by decide) hne hspace]
  exact List.filter_eq_self.mpr fun w hw => by simpa using (lowercase_of_mem_englishWords (h w hw)).1

/-! ## One value, three words -/

theorem lt_of_mem_valToIndexes {val i : ℕ} (hi : i ∈ valToIndexes 1626 val) : i < 1626 := by
  simp only [valToIndexes, List.mem_cons, List.not_mem_nil, or_false] at hi
  rcases hi with rfl | rfl | rfl <;> exact Nat.mod_lt _ (by norm_num)

/-- The words of a value are the running sums of its digits in base 1626,
modulo 1626. -/
theorem valToIndexes_digits {w1 d1 d2 : ℕ} (hw1 : w1 < 1626) (hd1 : d1 < 1626) :
    valToIndexes 1626 (w1 + 1626 * d1 + 1626 * 1626 * d2) = [w1, (d1 + w1) % 1626, (d2 + (d1 + w1) % 1626) % 1626] := by
  have hlow : (w1 + 1626 * d1 + 1626 * 1626 * d2) % 1626 = w1 := by omega
  have hhigh : (w1 + 1626 * d1 + 1626 * 1626 * d2) / 1626 = d1 + 1626 * d2 := by omega
  have hsecond : (d1 + 1626 * d2 + w1) % 1626 = (d1 + w1) % 1626 := by omega
  have hthird : (d1 + 1626 * d2) / 1626 = d2 := by omega
  rw [valToIndexes, hlow, hhigh, hsecond, hthird]

/-- Running sums of digits pass the test and give back the value, if it is
below `2 ^ 32`. -/
theorem indexesToVal_sums {w1 d1 d2 : ℕ} (hw1 : w1 < 1626) (hd1 : d1 < 1626) (hd2 : d2 < 1626)
    (hval : w1 + 1626 * d1 + 1626 * 1626 * d2 < 2 ^ 32) :
    indexesToVal 1626 w1 ((d1 + w1) % 1626) ((d2 + (d1 + w1) % 1626) % 1626) =
      some (w1 + 1626 * d1 + 1626 * 1626 * d2) := by
  have hdiff1 : (1626 - w1 + (d1 + w1) % 1626) % 1626 = d1 := by
    rw [RunningSums.sub_add_mod_of_add_mod hw1.le, Nat.mod_eq_of_lt hd1]
  have hdiff2 : (1626 - (d1 + w1) % 1626 + (d2 + (d1 + w1) % 1626) % 1626) % 1626 = d2 := by
    rw [RunningSums.sub_add_mod_of_add_mod (Nat.mod_lt _ (by norm_num)).le, Nat.mod_eq_of_lt hd2]
  have hcheck : (w1 + 1626 * d1 + 1626 * 1626 * d2) % 1626 = w1 := by omega
  rw [indexesToVal, hdiff1, hdiff2, Nat.mod_eq_of_lt hval, if_pos hcheck]

/-- **One turn of the loop.** The words of a value below `2 ^ 32` give the
value back: its highest digit in base 1626 is below 1626, as
`2 ^ 32 < 1626 ^ 3`. -/
theorem loop_valToIndexes {val : ℕ} (hval : val < 2 ^ 32) (rest : List ℕ) :
    mnemonicToPrivateKey.loop 1626 (valToIndexes 1626 val ++ rest) =
      (leBytes 4 val ++ ·) <$> mnemonicToPrivateKey.loop 1626 rest := by
  have hdigits : val % 1626 + 1626 * (val / 1626 % 1626) + 1626 * 1626 * (val / 1626 / 1626) = val := by omega
  have hw1 : val % 1626 < 1626 := Nat.mod_lt _ (by norm_num)
  have hd1 : val / 1626 % 1626 < 1626 := Nat.mod_lt _ (by norm_num)
  have hd2 : val / 1626 / 1626 < 1626 := by omega
  have hturn := indexesToVal_sums hw1 hd1 hd2 (by rw [hdigits]; exact hval)
  rw [← hdigits, valToIndexes_digits hw1 hd1, List.cons_append, List.cons_append, List.cons_append,
    List.nil_append, mnemonicToPrivateKey.loop, hturn]

/-- A value that the cast to `uint32_t` wrapped fails the test: it is `2 ^ 32`
less, and `2 ^ 32` is `490` modulo 1626. -/
theorem lt_two_pow_of_check {w1 d1 d2 : ℕ} (hw1 : w1 < 1626) (hd1 : d1 < 1626) (hd2 : d2 < 1626)
    (hcheck : (w1 + 1626 * d1 + 1626 * 1626 * d2) % 2 ^ 32 % 1626 = w1) :
    w1 + 1626 * d1 + 1626 * 1626 * d2 < 2 ^ 32 := by
  omega

/-- **A turn the test lets through.** Words of the list that pass the test are
the words of a value below `2 ^ 32`. -/
theorem valToIndexes_of_indexesToVal {w1 w2 w3 val : ℕ} (hw1 : w1 < 1626) (hw2 : w2 < 1626) (hw3 : w3 < 1626)
    (h : indexesToVal 1626 w1 w2 w3 = some val) : val < 2 ^ 32 ∧ valToIndexes 1626 val = [w1, w2, w3] := by
  rw [indexesToVal] at h
  split at h
  · next hcheck =>
    obtain rfl := Option.some.inj h
    -- the two digits the differences give
    have hd1 : (1626 - w1 + w2) % 1626 < 1626 := Nat.mod_lt _ (by norm_num)
    have hd2 : (1626 - w2 + w3) % 1626 < 1626 := Nat.mod_lt _ (by norm_num)
    have hnowrap := lt_two_pow_of_check hw1 hd1 hd2 hcheck
    rw [Nat.mod_eq_of_lt hnowrap, valToIndexes_digits hw1 hd1, RunningSums.add_mod_of_sub_add_mod hw1.le hw2,
      RunningSums.add_mod_of_sub_add_mod hw2.le hw3]
    exact ⟨hnowrap, rfl⟩
  · cases h

/-! ## The loop over the words -/

/-- **The loop over the words of values below `2 ^ 32`** writes their bytes. -/
theorem loop_flatMap_valToIndexes {vals : List ℕ} (hvals : ∀ v ∈ vals, v < 2 ^ 32) :
    mnemonicToPrivateKey.loop 1626 (vals.flatMap (valToIndexes 1626)) = some (vals.flatMap (leBytes 4)) := by
  induction vals with
  | nil => rfl
  | cons v vs ih =>
    rw [List.flatMap_cons, loop_valToIndexes (hvals v List.mem_cons_self),
      ih fun x hx => hvals x (List.mem_cons_of_mem v hx), List.flatMap_cons]
    rfl

/-- **The loop over words that it accepts** read the words of values below
`2 ^ 32`, and wrote their bytes. -/
theorem exists_vals_of_loop {is : List ℕ} {data : List UInt8} (his : ∀ i ∈ is, i < 1626)
    (hlen : is.length % 3 = 0) (h : mnemonicToPrivateKey.loop 1626 is = some data) :
    ∃ vals : List ℕ, (∀ v ∈ vals, v < 2 ^ 32) ∧ vals.flatMap (valToIndexes 1626) = is ∧
      vals.flatMap (leBytes 4) = data := by
  induction is using mnemonicToPrivateKey.loop.induct 1626 generalizing data with
  | case1 w1 w2 w3 rest val hval ih =>
    have hw : w1 < 1626 ∧ w2 < 1626 ∧ w3 < 1626 := ⟨his w1 (by simp), his w2 (by simp), his w3 (by simp)⟩
    obtain ⟨hlt, hidx⟩ := valToIndexes_of_indexesToVal hw.1 hw.2.1 hw.2.2 hval
    rw [mnemonicToPrivateKey.loop, hval] at h
    -- the rest of the loop succeeded as well
    obtain ⟨data', hrest, rfl⟩ := Option.map_eq_some_iff.mp h
    obtain ⟨vals, hvals, hflat, hbytes⟩ := ih (fun i hi => his i (by simp [hi])) (by simp at hlen; omega) hrest
    refine ⟨val :: vals, ?_, ?_, ?_⟩
    · intro v hv
      rcases List.mem_cons.mp hv with rfl | hv
      · exact hlt
      · exact hvals v hv
    · rw [List.flatMap_cons, hidx, hflat]
      rfl
    · rw [List.flatMap_cons, hbytes]
  | case2 w1 w2 w3 rest hnone =>
    rw [mnemonicToPrivateKey.loop, hnone] at h
    cases h
  | case3 is hshort =>
    -- fewer than three indexes are none, as their number is a multiple of three
    have hnil : is = [] := by
      match is, hshort, hlen with
      | [], _, _ => rfl
      | [_], _, hlen => simp at hlen
      | [_, _], _, hlen => simp at hlen
      | _ :: _ :: _ :: _, hshort, _ => exact absurd rfl (hshort _ _ _ _)
    subst hnil
    cases h
    exact ⟨[], by simp, rfl, rfl⟩

theorem length_flatMap_valToIndexes (vals : List ℕ) : (vals.flatMap (valToIndexes 1626)).length = 3 * vals.length := by
  induction vals with
  | nil => rfl
  | cons v vs ih =>
    rw [List.flatMap_cons, List.length_append, ih, List.length_cons]
    simp only [valToIndexes, List.length_cons, List.length_nil]
    omega

theorem lt_of_mem_flatMap_valToIndexes {vals : List ℕ} {i : ℕ} (hi : i ∈ vals.flatMap (valToIndexes 1626)) :
    i < 1626 := by
  obtain ⟨v, -, hv⟩ := List.mem_flatMap.mp hi
  exact lt_of_mem_valToIndexes hv

/-! ## Keys as values -/

theorem lt_of_mem_vals {bs : List UInt8} {v : ℕ} (hv : v ∈ privateKeyToMnemonic.vals bs) : v < 2 ^ 32 := by
  induction bs using privateKeyToMnemonic.vals.induct with
  | case1 b0 b1 b2 b3 rest ih =>
    rw [privateKeyToMnemonic.vals] at hv
    rcases List.mem_cons.mp hv with rfl | hv
    · simpa using ofLEBytes_lt [b0, b1, b2, b3]
    · exact ih hv
  | case2 bs hshort =>
    rw [privateKeyToMnemonic.vals.eq_2 bs hshort] at hv
    cases hv

theorem length_vals (bs : List UInt8) : (privateKeyToMnemonic.vals bs).length = bs.length / 4 := by
  induction bs using privateKeyToMnemonic.vals.induct with
  | case1 b0 b1 b2 b3 rest ih =>
    rw [privateKeyToMnemonic.vals, List.length_cons, ih]
    simp only [List.length_cons]
    omega
  | case2 bs hshort =>
    rw [privateKeyToMnemonic.vals.eq_2 bs hshort, List.length_nil]
    match bs, hshort with
    | [], _ => rfl
    | [_], _ => simp
    | [_, _], _ => simp
    | [_, _, _], _ => simp
    | _ :: _ :: _ :: _ :: _, hshort => exact absurd rfl (hshort _ _ _ _ _)

/-- Bytes read four at a time as values and written back. -/
theorem flatMap_leBytes_vals {bs : List UInt8} (h : bs.length % 4 = 0) :
    (privateKeyToMnemonic.vals bs).flatMap (leBytes 4) = bs := by
  induction bs using privateKeyToMnemonic.vals.induct with
  | case1 b0 b1 b2 b3 rest ih =>
    rw [privateKeyToMnemonic.vals, List.flatMap_cons, ih (by simp at h; omega)]
    exact congrArg (· ++ rest) (leBytes_ofLEBytes [b0, b1, b2, b3])
  | case2 bs hshort =>
    rw [privateKeyToMnemonic.vals.eq_2 bs hshort, List.flatMap_nil]
    -- fewer than four bytes are none, as their number is a multiple of four
    match bs, hshort, h with
    | [], _, _ => rfl
    | [_], _, h => simp at h
    | [_, _], _, h => simp at h
    | [_, _, _], _, h => simp at h
    | _ :: _ :: _ :: _ :: _, hshort, _ => exact absurd rfl (hshort _ _ _ _ _)

/-- Values below `2 ^ 32` written in four bytes each and read back. -/
theorem vals_flatMap_leBytes {vals : List ℕ} (h : ∀ v ∈ vals, v < 2 ^ 32) :
    privateKeyToMnemonic.vals (vals.flatMap (leBytes 4)) = vals := by
  induction vals with
  | nil => rfl
  | cons v vs ih =>
    have hv : v < 256 ^ 4 := by
      have := h v List.mem_cons_self
      norm_num
      omega
    obtain ⟨b0, b1, b2, b3, hbytes⟩ : ∃ b0 b1 b2 b3, leBytes 4 v = [b0, b1, b2, b3] := ⟨_, _, _, _, rfl⟩
    rw [List.flatMap_cons, hbytes, List.cons_append, List.cons_append, List.cons_append, List.cons_append,
      List.nil_append, privateKeyToMnemonic.vals, ← hbytes, ofLEBytes_leBytes_of_lt hv,
      ih fun x hx => h x (List.mem_cons_of_mem v hx)]

/-- The key that `mnemonicToPrivateKey` copies its bytes into. -/
theorem ofFn_getD_toList (k : SecretKey) : (⟨Vector.ofFn fun i => k.data.toList.getD i 0⟩ : SecretKey) = k := by
  obtain ⟨data⟩ := k
  rw [SecretKey.mk.injEq]
  apply Vector.ext
  intro i hi
  simp

/-! ## Checksums and indexes -/

theorem getChecksumWord_mem (crc32 : List UInt8 → UInt64) {words : List (List UInt8)} (hne : words ≠ []) :
    getChecksumWord crc32 words ∈ words := by
  have hpos : 0 < words.length := List.length_pos_iff.mpr hne
  rw [getChecksumWord, List.getD_eq_getElem _ _ (Nat.mod_lt _ hpos)]
  exact List.getElem_mem _

theorem hasValidChecksum_append (crc32 : List UInt8 → UInt64) (words : List (List UInt8)) :
    hasValidChecksum crc32 (words ++ [getChecksumWord crc32 words]) = true := by
  simp [hasValidChecksum]

/-- A valid checksum word is the checksum word of the words before it. -/
theorem dropLast_append_of_hasValidChecksum (crc32 : List UInt8 → UInt64) {words : List (List UInt8)}
    (hne : words ≠ []) (h : hasValidChecksum crc32 words = true) :
    words.dropLast ++ [getChecksumWord crc32 words.dropLast] = words := by
  simp only [hasValidChecksum, decide_eq_true_eq] at h
  have hlast : words.getLastD [] = words.getLast hne := by
    rw [List.getLastD_eq_getLast?, List.getLast?_eq_some_getLast hne, Option.getD_some]
  rw [← h, hlast, List.dropLast_append_getLast]

/-- Words of the list are found at their indexes. -/
theorem getWordIndexes_map_getD {is : List ℕ} (h : ∀ i ∈ is, i < 1626) :
    getWordIndexes (is.map (englishWords.getD · [])) = is := by
  rw [getWordIndexes, List.map_map]
  conv_rhs => rw [← List.map_id is]
  exact List.map_congr_left fun i hi => idxOf_getD_englishWords (h i hi)

/-! ## From a key to its mnemonic and back -/

/-- The words of a key's mnemonic are words of the list. -/
theorem mem_englishWords_of_mem_words {crc32 : List UInt8 → UInt64} {k : SecretKey} {w : List UInt8}
    (hw : w ∈ privateKeyToMnemonic.words crc32 k) : w ∈ englishWords := by
  rw [privateKeyToMnemonic.words, length_englishWords, ← List.map_flatMap] at hw
  have hwords : ∀ w ∈ ((privateKeyToMnemonic.vals k.data.toList).flatMap (valToIndexes 1626)).map
      (englishWords.getD · []), w ∈ englishWords := by
    intro w hw
    obtain ⟨i, hi, rfl⟩ := List.mem_map.mp hw
    exact getD_englishWords_mem (lt_of_mem_flatMap_valToIndexes hi)
  rcases List.mem_append.mp hw with hw | hw
  · exact hwords w hw
  · -- the checksum word is one of the 24 others
    rw [List.mem_singleton.mp hw]
    apply hwords
    apply getChecksumWord_mem
    rw [← List.length_pos_iff, List.length_map, length_flatMap_valToIndexes, length_vals]
    simp

/-- **The round trip over the words.** The words of a key's mnemonic are
accepted and give the key back. -/
theorem mnemonicToPrivateKey_words (crc32 : List UInt8 → UInt64) (k : SecretKey) :
    mnemonicToPrivateKey crc32 (privateKeyToMnemonic.words crc32 k) = k := by
  have hmem : ∀ w ∈ privateKeyToMnemonic.words crc32 k, w ∈ englishWords := fun w hw => mem_englishWords_of_mem_words hw
  -- what the key's values are: eight values below `2 ^ 32` whose bytes are the key
  have hlt : ∀ v ∈ privateKeyToMnemonic.vals k.data.toList, v < 2 ^ 32 := fun v hv => lt_of_mem_vals hv
  have hbytes : (privateKeyToMnemonic.vals k.data.toList).flatMap (leBytes 4) = k.data.toList :=
    flatMap_leBytes_vals (by simp)
  have hcount : (privateKeyToMnemonic.vals k.data.toList).length = 8 := by
    rw [length_vals]
    simp
  rw [privateKeyToMnemonic.words, length_englishWords, ← List.map_flatMap] at hmem ⊢
  generalize privateKeyToMnemonic.vals k.data.toList = vals at hlt hbytes hcount hmem ⊢
  have hidx : getWordIndexes ((vals.flatMap (valToIndexes 1626)).map (englishWords.getD · [])) =
      vals.flatMap (valToIndexes 1626) :=
    getWordIndexes_map_getD fun _ hi => lt_of_mem_flatMap_valToIndexes hi
  have hlen : ((vals.flatMap (valToIndexes 1626)).map (englishWords.getD · [])).length = 24 := by
    rw [List.length_map, length_flatMap_valToIndexes, hcount]
  generalize (vals.flatMap (valToIndexes 1626)).map (englishWords.getD · []) = ws at hidx hlen hmem
  -- the three tests pass, and the first 24 words have the values' indexes
  have hlen25 : (ws ++ [getChecksumWord crc32 ws]).length = 25 := by
    rw [List.length_append, hlen]
    rfl
  have hall : (ws ++ [getChecksumWord crc32 ws]).all (fun word => decide (word.map tolower ∈ englishWords)) = true :=
    List.all_eq_true.mpr fun w hw => by
      rw [map_tolower_of_mem (hmem w hw)]
      exact decide_eq_true (hmem w hw)
  have hfirst : (getWordIndexes (ws ++ [getChecksumWord crc32 ws])).take ((ws ++ [getChecksumWord crc32 ws]).length - 1) =
      vals.flatMap (valToIndexes 1626) := by
    have hidxlen : (getWordIndexes ws).length = 24 := by rw [getWordIndexes, List.length_map, hlen]
    rw [hlen25, getWordIndexes, List.map_append, ← getWordIndexes, List.take_append_of_le_length (by omega),
      List.take_of_length_le (by omega), hidx]
  rw [mnemonicToPrivateKey, if_neg (by rw [hlen25]; decide), if_neg (by rw [hall]; decide),
    if_neg (by rw [hasValidChecksum_append]; decide)]
  dsimp only
  rw [hfirst, length_englishWords, loop_flatMap_valToIndexes hlt, hbytes]
  exact ofFn_getD_toList k

/-- The words of a key's mnemonic are read back from the string. -/
theorem splitWords_privateKeyToMnemonic (crc32 : List UInt8 → UInt64) (k : SecretKey) :
    splitWords (privateKeyToMnemonic crc32 k) = privateKeyToMnemonic.words crc32 k :=
  splitWords_intercalate (by simp [privateKeyToMnemonic.words]) fun _ hw => mem_englishWords_of_mem_words hw

/-- **Every key comes back from its mnemonic.** -/
theorem mnemonicToPrivateKey_privateKeyToMnemonic (crc32 : List UInt8 → UInt64) (k : SecretKey) :
    mnemonicToPrivateKey.ofString crc32 (privateKeyToMnemonic crc32 k) = k := by
  rw [mnemonicToPrivateKey.ofString, splitWords_privateKeyToMnemonic, mnemonicToPrivateKey_words]

/-! ## From an accepted mnemonic to its key and back -/

/-- What `mnemonicToPrivateKey` returns for words that pass its three tests. -/
theorem mnemonicToPrivateKey_of_loop {crc32 : List UInt8 → UInt64} {words : List (List UInt8)} {data : List UInt8}
    (hlen : words.length = 25) (hall : ∀ w ∈ words, w.map tolower ∈ englishWords)
    (hsum : hasValidChecksum crc32 words = true)
    (hloop : mnemonicToPrivateKey.loop 1626 ((getWordIndexes words).take 24) = some data) :
    mnemonicToPrivateKey crc32 words = ⟨Vector.ofFn fun i => data.getD i 0⟩ := by
  have hall' : words.all (fun word => decide (word.map tolower ∈ englishWords)) = true :=
    List.all_eq_true.mpr fun w hw => decide_eq_true (hall w hw)
  rw [mnemonicToPrivateKey, if_neg (by rw [hlen]; decide), if_neg (by rw [hall']; decide),
    if_neg (by rw [hsum]; decide)]
  dsimp only
  rw [hlen, length_englishWords, hloop]

/-- **What an accepted mnemonic passed.** A key other than the refusal comes
from 25 words that pass the three tests, and is the bytes the loop wrote. -/
theorem mnemonicToPrivateKey_accepted {crc32 : List UInt8 → UInt64} {words : List (List UInt8)}
    (h : mnemonicToPrivateKey crc32 words ≠ emptySecretKey) :
    words.length = 25 ∧ (∀ w ∈ words, w.map tolower ∈ englishWords) ∧ hasValidChecksum crc32 words = true ∧
      ∃ data, mnemonicToPrivateKey.loop 1626 ((getWordIndexes words).take 24) = some data ∧
        mnemonicToPrivateKey crc32 words = ⟨Vector.ofFn fun i => data.getD i 0⟩ := by
  rw [mnemonicToPrivateKey] at h ⊢
  split_ifs at h ⊢ with hlen hall hsum
  · exact absurd rfl h
  · exact absurd rfl h
  · exact absurd rfl h
  · simp only [ne_eq, Decidable.not_not] at hlen
    simp only [Bool.not_eq_true', Bool.not_eq_false] at hall hsum
    refine ⟨hlen, fun w hw => of_decide_eq_true (List.all_eq_true.mp hall w hw), hsum, ?_⟩
    dsimp only at h ⊢
    rw [hlen, length_englishWords] at h ⊢
    split at h
    · next data hloop => exact ⟨data, hloop, rfl⟩
    · exact absurd rfl h

/-- The words of the list found at their indexes. -/
theorem map_getD_getWordIndexes {words : List (List UInt8)} (h : ∀ w ∈ words, w ∈ englishWords) :
    (getWordIndexes words).map (englishWords.getD · []) = words := by
  rw [getWordIndexes, List.map_map]
  conv_rhs => rw [← List.map_id words]
  refine List.map_congr_left fun w hw => ?_
  have hidx := List.idxOf_lt_length_of_mem (h w hw)
  rw [Function.comp_apply, List.getD_eq_getElem _ _ hidx, List.getElem_idxOf hidx, id]

theorem toList_ofFn_getD {data : List UInt8} (h : data.length = 32) :
    (Vector.ofFn fun i : Fin 32 => data.getD i 0).toList = data := by
  apply List.ext_getElem
  · simp [h]
  · intro i _ hi
    simp [List.getElem?_eq_getElem hi]

/-- **An accepted mnemonic of words of the list is the mnemonic of its key**,
and so are its words lower-cased, which are the same words. -/
theorem privateKeyToMnemonic_mnemonicToPrivateKey (crc32 : List UInt8 → UInt64) {words : List (List UInt8)}
    (hwords : ∀ w ∈ words, w ∈ englishWords) (haccept : mnemonicToPrivateKey crc32 words ≠ emptySecretKey) :
    privateKeyToMnemonic crc32 (mnemonicToPrivateKey crc32 words) = [32].intercalate (words.map (·.map tolower)) := by
  obtain ⟨hlen, -, hsum, data, hloop, hkey⟩ := mnemonicToPrivateKey_accepted haccept
  -- the loop read the words of values below `2 ^ 32` and wrote their bytes
  have his : ∀ i ∈ (getWordIndexes words).take 24, i < 1626 := by
    intro i hi
    obtain ⟨w, hw, rfl⟩ := List.mem_map.mp (List.mem_of_mem_take hi)
    rw [← length_englishWords]
    exact List.idxOf_lt_length_of_mem (hwords w hw)
  have hislen : ((getWordIndexes words).take 24).length = 24 := by simp [getWordIndexes, hlen]
  obtain ⟨vals, hvals, hflat, hbytes⟩ := exists_vals_of_loop his (by rw [hislen]) hloop
  have hcount : vals.length = 8 := by
    have := congrArg List.length hflat
    rw [length_flatMap_valToIndexes, hislen] at this
    omega
  have hdata : data.length = 32 := by
    rw [← hbytes, List.length_flatMap]
    simp [hcount]
  -- the key's values are those values, and their words the first 24 words
  have hkeyvals : privateKeyToMnemonic.vals (mnemonicToPrivateKey crc32 words).data.toList = vals := by
    rw [hkey, toList_ofFn_getD hdata, ← hbytes, vals_flatMap_leBytes hvals]
  have hfirst : (vals.flatMap (valToIndexes 1626)).map (englishWords.getD · []) = words.dropLast := by
    rw [hflat, List.map_take, map_getD_getWordIndexes hwords, List.dropLast_eq_take, hlen]
  have hne : words ≠ [] := List.ne_nil_of_length_pos (by omega)
  have hwords' : privateKeyToMnemonic.words crc32 (mnemonicToPrivateKey crc32 words) = words := by
    rw [privateKeyToMnemonic.words, hkeyvals, length_englishWords, ← List.map_flatMap, hfirst,
      dropLast_append_of_hasValidChecksum crc32 hne hsum]
  rw [privateKeyToMnemonic, hwords', List.map_congr_left fun w hw => map_tolower_of_mem (hwords w hw), List.map_id']

/-! ## A capital letter -/

/-- A mnemonic with the word `Abducts`, the second of the list capitalised, in
second place: the words of the values 0 and 1, six values 0, and its checksum
word. -/
def capitalisedMnemonic (crc32 : List UInt8 → UInt64) : List (List UInt8) :=
  let abbey := "abbey".toUTF8.toList
  let abducts := "abducts".toUTF8.toList
  let words := [abbey, "Abducts".toUTF8.toList, abbey, abducts, abducts, abducts] ++ List.replicate 18 abbey
  words ++ [getChecksumWord crc32 words]

/-- **A capitalised word is accepted and read as the first word of the list.**
Lower-cased, `Abducts` is in the list, so the mnemonic passes the test; its
index is then looked up as it stands, which finds nothing and gives 1626, and
as the second word of a value 1626 counts as 0, the index of `abbey`. The key
is that of the words `abbey abbey abbey`, whatever the checksum: its mnemonic
has `abbey` second, where the mnemonic lower-cased has `abducts`. -/
theorem mnemonicToPrivateKey_accepts_uppercase (crc32 : List UInt8 → UInt64) :
    (capitalisedMnemonic crc32).length = 25 ∧
      mnemonicToPrivateKey crc32 (capitalisedMnemonic crc32) ≠ emptySecretKey ∧
      privateKeyToMnemonic crc32 (mnemonicToPrivateKey crc32 (capitalisedMnemonic crc32)) ≠
        [32].intercalate ((capitalisedMnemonic crc32).map (·.map tolower)) := by
  -- `abbey` and `abducts` are the first two words of the list; `Abducts` is not in it
  have habbey : "abbey".toUTF8.toList = englishWords.getD 0 [] := by decide +kernel
  have habducts : "abducts".toUTF8.toList = englishWords.getD 1 [] := by decide +kernel
  have ha := getD_englishWords_mem (i := 0) (by norm_num)
  have hb := getD_englishWords_mem (i := 1) (by norm_num)
  have hA : "Abducts".toUTF8.toList ∉ englishWords := by
    intro h
    have hcapital := (lowercase_of_mem_englishWords h).2 65 (by decide +kernel)
    simp at hcapital
  have hlowerA : "Abducts".toUTF8.toList.map tolower = englishWords.getD 1 [] := by
    rw [← habducts]
    decide +kernel
  unfold capitalisedMnemonic
  dsimp only
  rw [habbey, habducts]
  generalize hw24 : [englishWords.getD 0 [], "Abducts".toUTF8.toList, englishWords.getD 0 [], englishWords.getD 1 [],
    englishWords.getD 1 [], englishWords.getD 1 []] ++ List.replicate 18 (englishWords.getD 0 []) = w24
  -- lower-cased, the words are `abbey` and `abducts`, words of the list
  have hlowered : w24.map (·.map tolower) = [englishWords.getD 0 [], englishWords.getD 1 [], englishWords.getD 0 [],
      englishWords.getD 1 [], englishWords.getD 1 [], englishWords.getD 1 []] ++
        List.replicate 18 (englishWords.getD 0 []) := by
    rw [← hw24]
    simp only [List.map_append, List.map_cons, List.map_nil, List.map_replicate, map_tolower_of_mem ha,
      map_tolower_of_mem hb, hlowerA]
  have hlistwords : ∀ w ∈ w24.map (·.map tolower), w ∈ englishWords := by
    rw [hlowered]
    intro w hw
    simp only [List.mem_append, List.mem_cons, List.mem_replicate, List.not_mem_nil, or_false] at hw
    rcases hw with (rfl | rfl | rfl | rfl | rfl | rfl) | ⟨-, rfl⟩ <;> assumption
  have hlen : w24.length = 24 := by
    rw [← hw24]
    rfl
  have hne : w24 ≠ [] := List.ne_nil_of_length_pos (by omega)
  have hall : ∀ w ∈ w24 ++ [getChecksumWord crc32 w24], w.map tolower ∈ englishWords := by
    intro w hw
    rcases List.mem_append.mp hw with hw | hw
    · exact hlistwords _ (List.mem_map_of_mem hw)
    · rw [List.mem_singleton.mp hw]
      exact hlistwords _ (List.mem_map_of_mem (getChecksumWord_mem crc32 hne))
  -- their indexes: `Abducts` is not found and has the index 1626
  have hidx : (getWordIndexes (w24 ++ [getChecksumWord crc32 w24])).take 24 =
      [0, 1626, 0, 1, 1, 1] ++ List.replicate 18 0 := by
    have hidxlen : (getWordIndexes w24).length = 24 := by rw [getWordIndexes, List.length_map, hlen]
    rw [getWordIndexes, List.map_append, ← getWordIndexes, List.take_append_of_le_length (by omega),
      List.take_of_length_le (by omega), getWordIndexes, ← hw24]
    simp only [List.map_append, List.map_cons, List.map_nil, List.map_replicate,
      idxOf_getD_englishWords (i := 0) (by norm_num), idxOf_getD_englishWords (i := 1) (by norm_num),
      List.idxOf_eq_length hA, length_englishWords]
  have hloop : mnemonicToPrivateKey.loop 1626 ([0, 1626, 0, 1, 1, 1] ++ List.replicate 18 0) =
      some ([0, 0, 0, 0, 1, 0, 0, 0] ++ List.replicate 24 0) := by decide
  have hkey := mnemonicToPrivateKey_of_loop (by simp [hlen]) hall (hasValidChecksum_append crc32 w24)
    (by rw [hidx]; exact hloop)
  refine ⟨by simp [hlen], by rw [hkey]; decide, ?_⟩
  -- the key's words have `abbey` second, the lower-cased words `abducts`
  rw [hkey]
  intro heq
  have hsplit := congrArg splitWords heq
  have hlistwords' : ∀ w ∈ (w24 ++ [getChecksumWord crc32 w24]).map (·.map tolower), w ∈ englishWords :=
    fun w hw => by
      obtain ⟨v, hv, rfl⟩ := List.mem_map.mp hw
      exact hall v hv
  rw [splitWords_privateKeyToMnemonic, splitWords_intercalate (by simp) hlistwords', List.map_append,
    hlowered] at hsplit
  have hvals : privateKeyToMnemonic.vals (⟨Vector.ofFn fun i => ([0, 0, 0, 0, 1, 0, 0, 0] ++ List.replicate 24 0 :
      List UInt8).getD i 0⟩ : SecretKey).data.toList = [0, 1, 0, 0, 0, 0, 0, 0] := by decide
  have hsecond := congrArg (·[1]?) hsplit
  simp only [privateKeyToMnemonic.words, hvals, length_englishWords] at hsecond
  simp only [List.flatMap_cons, valToIndexes, List.map_cons, List.cons_append, List.getElem?_cons_succ,
    List.getElem?_cons_zero, Option.some.injEq, Nat.zero_div, Nat.zero_mod, Nat.add_zero] at hsecond
  exact absurd hsecond (by decide +kernel)

end Mnemonics

end Cn
