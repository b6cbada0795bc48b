import ConcealCore.Spec.PeerList

/-!
# The peer lists' invariant

From `init` on, whatever operations run (`wellFormed_run_init`), no address is
in both lists, each list holds distinct addresses, at most its limit of them,
only addresses `is_ip_allowed` lets in, in order of `last_seen`. What
`get_peerlist_head` returns is then taken from the white list, peers seen at
some time, most recently seen first (`getPeerlistHead_spec`). Its counter is
compared after an entry is taken and before it is incremented, so it returns up
to `depth + 2` entries (`getPeerlistHead_eq`), and after `depth + 2` peers have
been seen it returns that many (`getPeerlistHead_exceeds_depth`).
-/

namespace Cn

namespace PeerlistManager

open TimeIndex

/-! ## One list -/

/-- The entries of one list: distinct addresses, each allowed, in order of
`last_seen`. -/
structure Entries (s : PeerlistManager) (peers : List PeerlistEntry) : Prop where
  nodup : (peers.map (·.adr)).Nodup
  allowed : ∀ e ∈ peers, s.isIpAllowed e.adr.ip = true
  sorted : peers.Pairwise fun e f => e.lastSeen.toNat ≤ f.lastSeen.toNat

variable {s : PeerlistManager} {peers : List PeerlistEntry} {ple : PeerlistEntry}

theorem Entries.nil (s : PeerlistManager) : Entries s [] := ⟨List.nodup_nil, by simp, List.Pairwise.nil⟩

/-- Only `m_allow_local_ip` of the state matters. -/
theorem Entries.congr {t : PeerlistManager} (h : Entries s peers) (hs : t.allowLocalIp = s.allowLocalIp) :
    Entries t peers := by
  have hip : t.isIpAllowed = s.isIpAllowed := by
    funext ip
    simp only [isIpAllowed, hs]
  exact ⟨h.nodup, hip ▸ h.allowed, h.sorted⟩

theorem Entries.sublist {l : List PeerlistEntry} (h : Entries s peers) (hl : l.Sublist peers) : Entries s l :=
  ⟨h.nodup.sublist (hl.map _), fun e he => h.allowed e (hl.subset he), h.sorted.sublist hl⟩

theorem not_mem_map_adr_of_find? (h : peers.find? (·.adr == ple.adr) = none) : ple.adr ∉ peers.map (·.adr) := by
  intro hmem
  obtain ⟨e, he, hadr⟩ := List.mem_map.mp hmem
  have := List.find?_eq_none.mp h e he
  simp [hadr] at this

theorem mem_insertByTime {x : PeerlistEntry} : x ∈ insertByTime ple peers ↔ x = ple ∨ x ∈ peers :=
  mem_insertAfter

/-- An allowed entry at a new address keeps the entries well formed. -/
theorem Entries.insertByTime (h : Entries s peers) (hallowed : s.isIpAllowed ple.adr.ip = true)
    (hnew : ple.adr ∉ peers.map (·.adr)) : Entries s (insertByTime ple peers) := by
  have hperm := (@perm_insertAfter PeerlistEntry (fun e => e.lastSeen.toNat) ple peers).map (·.adr)
  refine ⟨hperm.nodup_iff.mpr (List.nodup_cons.mpr ⟨hnew, h.nodup⟩), fun e he => ?_, pairwise_insertAfter ple h.sorted⟩
  rcases mem_insertByTime.mp he with rfl | he
  · exact hallowed
  · exact h.allowed e he

theorem mem_replaceByAddr {x : PeerlistEntry} : x ∈ replaceByAddr ple peers ↔ x = ple ∨ (x ∈ peers ∧ x.adr ≠ ple.adr) := by
  simp [replaceByAddr, mem_insertByTime]

theorem Entries.replaceByAddr (h : Entries s peers) (hallowed : s.isIpAllowed ple.adr.ip = true) :
    Entries s (replaceByAddr ple peers) := by
  have hfilter := h.sublist (List.filter_sublist (p := fun e => e.adr != ple.adr))
  refine hfilter.insertByTime hallowed fun hmem => ?_
  -- the filter left no entry at the address
  obtain ⟨e, he, hadr⟩ := List.mem_map.mp hmem
  have hne := (List.mem_filter.mp he).2
  rw [hadr] at hne
  simp at hne

/-- Insert or replace, as both appends do it: an entry at a known address
replaced, one at a new address inserted and the list trimmed to `n`. -/
def upsert (n : ℕ) (ple : PeerlistEntry) (peers : List PeerlistEntry) : List PeerlistEntry :=
  match peers.find? (·.adr == ple.adr) with
  | none => Peerlist.trim n (insertByTime ple peers)
  | some _ => replaceByAddr ple peers

theorem length_replaceByAddr_le {e : PeerlistEntry} (he : peers.find? (·.adr == ple.adr) = some e) :
    (replaceByAddr ple peers).length ≤ peers.length := by
  -- the entry found is the one the filter drops
  have hdrop : (peers.filter (·.adr != ple.adr)).length < peers.length := by
    refine List.length_filter_lt_length_iff_exists.mpr ⟨e, List.mem_of_find?_eq_some he, ?_⟩
    have hadr := List.find?_some he
    simp only [beq_iff_eq] at hadr
    simp [hadr]
  rw [replaceByAddr, insertByTime, length_insertAfter]
  omega

/-- **Insert or replace** keeps a list's entries well formed and within its
limit, and adds no entry but the new one. -/
theorem Entries.upsert_spec {n : ℕ} (h : Entries s peers) (hlen : peers.length ≤ n)
    (hallowed : s.isIpAllowed ple.adr.ip = true) :
    Entries s (upsert n ple peers) ∧ (upsert n ple peers).length ≤ n ∧
      ∀ e ∈ upsert n ple peers, e = ple ∨ e ∈ peers := by
  unfold upsert
  split
  · next hnone =>
    have hinsert := h.insertByTime hallowed (not_mem_map_adr_of_find? hnone)
    have htrim := dropOldest_sublist n (PeerlistManager.insertByTime ple peers)
    refine ⟨hinsert.sublist htrim, ?_, fun e he => mem_insertByTime.mp (htrim.subset he)⟩
    rw [Peerlist.trim, length_dropOldest]
    exact min_le_right _ _
  · next e hsome =>
    refine ⟨h.replaceByAddr hallowed, (length_replaceByAddr_le hsome).trans hlen, fun x hx => ?_⟩
    rcases mem_replaceByAddr.mp hx with rfl | ⟨hx, -⟩
    · exact Or.inl rfl
    · exact Or.inr hx

/-! ## The two lists -/

/-- **The invariant of the peer lists.** -/
structure WellFormed (s : PeerlistManager) : Prop where
  white : Entries s s.peersWhite
  gray : Entries s s.peersGray
  length_white : s.peersWhite.length ≤ P2P_LOCAL_WHITE_PEERLIST_LIMIT
  length_gray : s.peersGray.length ≤ P2P_LOCAL_GRAY_PEERLIST_LIMIT
  disjoint : ∀ e ∈ s.peersWhite, ∀ f ∈ s.peersGray, e.adr ≠ f.adr

theorem wellFormed_init (allowLocalIp : Bool) : (init allowLocalIp).WellFormed :=
  ⟨Entries.nil _, Entries.nil _, by simp [init], by simp [init], by simp [init]⟩

theorem appendWithPeerWhite_of_not_allowed (h : s.isIpAllowed ple.adr.ip = false) : s.appendWithPeerWhite ple = s := by
  rw [appendWithPeerWhite, if_pos (by simp [h])]

/-- What `append_with_peer_white` does with an allowed address. -/
theorem appendWithPeerWhite_eq (hallowed : s.isIpAllowed ple.adr.ip = true) :
    s.appendWithPeerWhite ple =
      { s with
        peersWhite := upsert P2P_LOCAL_WHITE_PEERLIST_LIMIT ple s.peersWhite
        peersGray := s.peersGray.filter (·.adr != ple.adr) } := by
  rw [appendWithPeerWhite, if_neg (by simp [hallowed])]
  dsimp only
  congr 1
  split
  · rfl
  · -- no gray entry at the address: the filter keeps them all
    next hnone =>
    refine (List.filter_eq_self.mpr fun f hf => ?_).symm
    have := List.find?_eq_none.mp hnone f hf
    simpa using this

theorem appendWithPeerGray_of_skip (h : s.isIpAllowed ple.adr.ip = false ∨ (s.peersWhite.find? (·.adr == ple.adr)).isSome) :
    s.appendWithPeerGray ple = s := by
  rw [appendWithPeerGray]
  split
  · rfl
  · next hallowed =>
    rcases h with h | h
    · simp [h] at hallowed
    · rw [if_pos h]

/-- What `append_with_peer_gray` does with an allowed address that is not in the
white list. -/
theorem appendWithPeerGray_eq (hallowed : s.isIpAllowed ple.adr.ip = true)
    (hwhite : s.peersWhite.find? (·.adr == ple.adr) = none) :
    s.appendWithPeerGray ple = { s with peersGray := upsert P2P_LOCAL_GRAY_PEERLIST_LIMIT ple s.peersGray } := by
  rw [appendWithPeerGray, if_neg (by simp [hallowed]), if_neg (by simp [hwhite]), upsert]
  cases hgray : s.peersGray.find? (·.adr == ple.adr) <;> rfl

theorem WellFormed.appendWithPeerWhite (h : s.WellFormed) (ple : PeerlistEntry) : (s.appendWithPeerWhite ple).WellFormed := by
  by_cases hallowed : s.isIpAllowed ple.adr.ip = true
  · rw [appendWithPeerWhite_eq hallowed]
    obtain ⟨hW, hWlen, hWmem⟩ := h.white.upsert_spec h.length_white hallowed
    have hG : (s.peersGray.filter (·.adr != ple.adr)).Sublist s.peersGray := List.filter_sublist
    refine ⟨hW.congr rfl, (h.gray.sublist hG).congr rfl, hWlen, hG.length_le.trans h.length_gray, fun e he f hf => ?_⟩
    dsimp only at he hf
    obtain ⟨hf, hfadr⟩ := List.mem_filter.mp hf
    rcases hWmem e he with rfl | he
    · -- the new white entry's address is gone from the gray list
      simp only [bne_iff_ne] at hfadr
      exact hfadr.symm
    · exact h.disjoint e he f hf
  · rw [appendWithPeerWhite_of_not_allowed (by simpa using hallowed)]
    exact h

theorem WellFormed.appendWithPeerGray (h : s.WellFormed) (ple : PeerlistEntry) : (s.appendWithPeerGray ple).WellFormed := by
  by_cases hskip : s.isIpAllowed ple.adr.ip = false ∨ (s.peersWhite.find? (·.adr == ple.adr)).isSome
  · rw [appendWithPeerGray_of_skip hskip]
    exact h
  · rw [not_or, Bool.not_eq_false, Option.not_isSome_iff_eq_none] at hskip
    obtain ⟨hallowed, hwhite⟩ := hskip
    rw [appendWithPeerGray_eq hallowed hwhite]
    obtain ⟨hG, hGlen, hGmem⟩ := h.gray.upsert_spec h.length_gray hallowed
    refine ⟨h.white.congr rfl, hG.congr rfl, h.length_white, hGlen, fun e he f hf => ?_⟩
    dsimp only at he hf
    rcases hGmem f hf with rfl | hf
    · -- the white list holds no entry at the new gray address
      intro hadr
      have := List.find?_eq_none.mp hwhite e he
      simp [hadr] at this
    · exact h.disjoint e he f hf

theorem WellFormed.mergePeerlist (h : s.WellFormed) (outerBs : List PeerlistEntry) :
    (s.mergePeerlist outerBs).WellFormed := by
  have hfold : ∀ (bs : List PeerlistEntry) (t : PeerlistManager), t.WellFormed → (bs.foldl PeerlistManager.appendWithPeerGray t).WellFormed := by
    intro bs
    induction bs with
    | nil => exact fun t ht => ht
    | cons b bs ih => exact fun t ht => ih _ (ht.appendWithPeerGray b)
  have ht := hfold outerBs s h
  have htrim := dropOldest_sublist P2P_LOCAL_GRAY_PEERLIST_LIMIT (outerBs.foldl PeerlistManager.appendWithPeerGray s).peersGray
  exact ⟨ht.white.congr rfl, (ht.gray.sublist htrim).congr rfl, ht.length_white,
    htrim.length_le.trans ht.length_gray, fun e he f hf => ht.disjoint e he f (htrim.subset hf)⟩

theorem WellFormed.apply (h : s.WellFormed) : ∀ op : Op, (s.apply op).WellFormed
  | .appendWithPeerWhite ple => h.appendWithPeerWhite ple
  | .appendWithPeerGray ple => h.appendWithPeerGray ple
  | .setPeerJustSeen peer addr now => h.appendWithPeerWhite ⟨addr, peer, now⟩
  | .mergePeerlist outerBs => h.mergePeerlist outerBs

theorem WellFormed.run (h : s.WellFormed) (ops : List Op) : (s.run ops).WellFormed := by
  induction ops generalizing s with
  | nil => exact h
  | cons op ops ih => exact ih (h.apply op)

theorem run_append_singleton (s : PeerlistManager) (ops : List Op) (op : Op) :
    s.run (ops ++ [op]) = (s.run ops).apply op := by
  rw [run, List.foldl_append, List.foldl_cons, List.foldl_nil, run]

/-- **The invariant holds after any operations from `init`.** -/
theorem wellFormed_run_init (allowLocalIp : Bool) (ops : List Op) : ((init allowLocalIp).run ops).WellFormed :=
  (wellFormed_init allowLocalIp).run ops

/-! ## The head of the white list -/

theorem toNat_add_one_of_lt {cnt : UInt32} (h : cnt.toNat + 1 < 2 ^ 32) : (cnt + 1).toNat = cnt.toNat + 1 := by
  rw [UInt32.toNat_add, UInt32.toNat_one, Nat.mod_eq_of_lt h]

/-- **The loop of `get_peerlist_head`** takes the entries ever seen, up to
`depth + 2 - cnt` of them, while its counter does not wrap. -/
theorem loop_eq_take_filter {depth cnt : UInt32} {l : List PeerlistEntry} (hcnt : cnt.toNat ≤ depth.toNat + 1)
    (hwrap : cnt.toNat + l.length < 2 ^ 32) :
    getPeerlistHead.loop depth cnt l = (l.filter (·.lastSeen != 0)).take (depth.toNat + 2 - cnt.toNat) := by
  induction l generalizing cnt with
  | nil => simp [getPeerlistHead.loop]
  | cons vl rest ih =>
    rw [List.length_cons] at hwrap
    rw [getPeerlistHead.loop]
    split
    · -- never seen: skipped
      next hzero =>
      rw [ih hcnt (by omega), List.filter_cons_of_neg (by simp [hzero])]
    · next hseen =>
      have hstep : depth.toNat + 2 - cnt.toNat = (depth.toNat + 1 - cnt.toNat) + 1 := by omega
      rw [List.filter_cons_of_pos (by simpa using hseen), hstep, List.take_succ_cons]
      congr 1
      split
      · -- the counter was past `depth`: this was the last entry
        next hpast =>
        have : depth.toNat < cnt.toNat := UInt32.lt_iff_toNat_lt.mp hpast
        rw [show depth.toNat + 1 - cnt.toNat = 0 by omega, List.take_zero]
      · next hwithin =>
        have : cnt.toNat ≤ depth.toNat := Nat.le_of_not_lt fun hlt => hwithin (UInt32.lt_iff_toNat_lt.mpr hlt)
        have hsucc : (cnt + 1).toNat = cnt.toNat + 1 := toNat_add_one_of_lt (by omega)
        rw [ih (by omega) (by omega), hsucc]
        congr 1
        omega

/-- What `get_peerlist_head` returns: the white list from the most recently
seen, its entries ever seen, up to `depth + 2` of them. -/
theorem getPeerlistHead_eq {s : PeerlistManager} (depth : UInt32) (hlen : s.peersWhite.length < 2 ^ 32) :
    s.getPeerlistHead depth = (s.peersWhite.reverse.filter (·.lastSeen != 0)).take (depth.toNat + 2) := by
  rw [getPeerlistHead, loop_eq_take_filter (by simp) (by simpa using hlen)]
  rfl

/-- **The head of a well formed white list**: entries of the white list seen at
some time, most recently seen first, at most `depth + 2` of them. -/
theorem getPeerlistHead_spec {s : PeerlistManager} (h : s.WellFormed) (depth : UInt32) :
    (∀ e ∈ s.getPeerlistHead depth, e ∈ s.peersWhite ∧ e.lastSeen ≠ 0) ∧
      (s.getPeerlistHead depth).Pairwise (fun e f => f.lastSeen.toNat ≤ e.lastSeen.toNat) ∧
      (s.getPeerlistHead depth).length ≤ depth.toNat + 2 := by
  have hlen : s.peersWhite.length < 2 ^ 32 := by
    have := h.length_white
    unfold P2P_LOCAL_WHITE_PEERLIST_LIMIT at this
    omega
  rw [getPeerlistHead_eq depth hlen]
  have hsub := (List.take_sublist (depth.toNat + 2) _).trans
    (List.filter_sublist (p := fun e : PeerlistEntry => e.lastSeen != 0) (l := s.peersWhite.reverse))
  refine ⟨fun e he => ⟨List.mem_reverse.mp (hsub.subset he), ?_⟩, ?_, ?_⟩
  · have hfilter := (List.mem_filter.mp ((List.take_sublist _ _).subset he)).2
    simpa using hfilter
  · -- the white list is in order of `last_seen`, so its reverse the other way
    exact (List.pairwise_reverse.mpr h.white.sorted).sublist hsub
  · rw [List.length_take]
    exact min_le_left _ _

/-! ## A head longer than asked for -/

/-- The white list entry of the `i`-th peer seen. -/
def justSeenEntry (i : ℕ) : PeerlistEntry := ⟨⟨1, i.toUInt32⟩, i.toUInt64, (i + 1).toUInt64⟩

/-- Peers seen one after the other, at the address `1` (`1.0.0.0`) with ports
`0, 1, …`, the `i`-th at time `i + 1`. -/
def justSeenOps (k : ℕ) : List Op :=
  (List.range k).map fun i => .setPeerJustSeen i.toUInt64 ⟨1, i.toUInt32⟩ (i + 1).toUInt64

theorem isIpAllowed_one (s : PeerlistManager) : s.isIpAllowed 1 = true := by
  have hloop : Ipv4Address.isLoopback (networkToHost 1) = false := by decide
  have hprivate : Ipv4Address.isPrivate (networkToHost 1) = false := by decide
  simp [isIpAllowed, hloop, hprivate]

/-- Up to the white list's limit, the peers seen are all in it, in the order
they were seen. -/
theorem run_justSeenOps (allowLocalIp : Bool) {k : ℕ} (hk : k ≤ P2P_LOCAL_WHITE_PEERLIST_LIMIT) :
    (init allowLocalIp).run (justSeenOps k) = ⟨(List.range k).map justSeenEntry, [], allowLocalIp⟩ := by
  unfold P2P_LOCAL_WHITE_PEERLIST_LIMIT at hk
  induction k with
  | zero => rfl
  | succ k ih =>
    have hops : justSeenOps (k + 1) = justSeenOps k ++ [.setPeerJustSeen k.toUInt64 ⟨1, k.toUInt32⟩ (k + 1).toUInt64] := by
      rw [justSeenOps, List.range_succ, List.map_append, List.map_singleton, ← justSeenOps]
    have hallowed (s : PeerlistManager) : s.isIpAllowed (justSeenEntry k).adr.ip = true := isIpAllowed_one s
    rw [hops, run_append_singleton, ih (by omega)]
    change PeerlistManager.appendWithPeerWhite _ (justSeenEntry k) = _
    rw [appendWithPeerWhite_eq (hallowed _)]
    -- the new port is not in the list, and the new peer was seen last
    have hfind : ((List.range k).map justSeenEntry).find? (·.adr == (justSeenEntry k).adr) = none := by
      apply List.find?_eq_none.mpr
      intro e he
      obtain ⟨i, hi, rfl⟩ := List.mem_map.mp he
      have hi := List.mem_range.mp hi
      simp only [justSeenEntry, beq_iff_eq, NetworkAddress.mk.injEq, true_and]
      intro hport
      have := congrArg UInt32.toNat hport
      simp only [Nat.toUInt32_eq, UInt32.toNat_ofNat', Nat.mod_eq_of_lt (show i < 2 ^ 32 by omega),
        Nat.mod_eq_of_lt (show k < 2 ^ 32 by omega)] at this
      omega
    have hlast : ∀ e ∈ (List.range k).map justSeenEntry, e.lastSeen.toNat ≤ (justSeenEntry k).lastSeen.toNat := by
      intro e he
      obtain ⟨i, hi, rfl⟩ := List.mem_map.mp he
      have hi := List.mem_range.mp hi
      simp only [justSeenEntry, Nat.toUInt64_eq, UInt64.toNat_ofNat', Nat.mod_eq_of_lt (show i + 1 < 2 ^ 64 by omega),
        Nat.mod_eq_of_lt (show k + 1 < 2 ^ 64 by omega)]
      omega
    rw [upsert, hfind]
    dsimp only
    rw [Peerlist.trim, insertByTime, insertAfter_of_le hlast,
      dropOldest_of_length_le (by simp [P2P_LOCAL_WHITE_PEERLIST_LIMIT]; omega),
      List.range_succ, List.map_append, List.map_singleton, List.filter_nil]

/-- **`get_peerlist_head` returns `depth + 2` entries.** After `depth + 2` peers
have been seen, for a `depth` that leaves them within the white list's limit,
the head has all of them. -/
theorem getPeerlistHead_exceeds_depth (allowLocalIp : Bool) (depth : UInt32) (hdepth : depth.toNat ≤ 998) :
    (((init allowLocalIp).run (justSeenOps (depth.toNat + 2))).getPeerlistHead depth).length = depth.toNat + 2 := by
  rw [run_justSeenOps allowLocalIp (by unfold P2P_LOCAL_WHITE_PEERLIST_LIMIT; omega),
    getPeerlistHead_eq depth (by simp; omega)]
  -- every peer was seen at a time after `0`
  have hseen : ∀ e ∈ ((List.range (depth.toNat + 2)).map justSeenEntry).reverse, (e.lastSeen != 0) = true := by
    intro e he
    obtain ⟨i, hi, rfl⟩ := List.mem_map.mp (List.mem_reverse.mp he)
    have hi := List.mem_range.mp hi
    have hpos : (justSeenEntry i).lastSeen.toNat = i + 1 := by
      simp only [justSeenEntry, Nat.toUInt64_eq, UInt64.toNat_ofNat', Nat.mod_eq_of_lt (show i + 1 < 2 ^ 64 by omega)]
    simp only [bne_iff_ne, ne_eq]
    intro hzero
    rw [hzero, UInt64.toNat_zero] at hpos
    omega
  rw [List.filter_eq_self.mpr hseen, List.length_take]
  simp

theorem getPeerlistHead_exceeds_depth_zero :
    (0 : UInt32).toNat ≤ 998 ∧
      (((init false).run (justSeenOps ((0 : UInt32).toNat + 2))).getPeerlistHead 0).length = (0 : UInt32).toNat + 2 :=
  ⟨by decide, getPeerlistHead_exceeds_depth false 0 (by decide)⟩

end PeerlistManager

end Cn
