import ConcealCore.Lib.TimeIndex

/-!
# The peer lists

`PeerlistManager` keeps the peers a node knows in two `multi_index_container`s,
the white list of peers it has talked to and the gray list of peers it has
heard of, each unique by address and ordered by `last_seen`. A list is modelled
by its `by_time` index: the entries in order of `last_seen`, a new entry linked
after those seen no later (`TimeIndex.insertAfter`); the `by_addr` lookups are
searches by address. `Peerlist::trim` erases the oldest entries while the list
is over its limit. The anchor list and the serialisation are left out: no
operation here reads them.
-/

namespace Cn

/-- `NetworkAddress`. -/
structure NetworkAddress where
  ip : UInt32
  port : UInt32
deriving DecidableEq, Repr

/-- `PeerlistEntry`. -/
structure PeerlistEntry where
  adr : NetworkAddress
  id : UInt64
  lastSeen : UInt64
deriving DecidableEq, Repr

@[grind] def P2P_LOCAL_WHITE_PEERLIST_LIMIT : ℕ := 1000

def P2P_LOCAL_GRAY_PEERLIST_LIMIT : ℕ := 5000

/-- `hostToNetwork(n)`: the bytes of `n` reversed. -/
def hostToNetwork (n : UInt32) : UInt32 :=
  (n <<< 24) ||| ((n &&& 0xff00) <<< 8) ||| ((n &&& 0xff0000) >>> 8) ||| (n >>> 24)

/-- `networkToHost(n)`, the same reversal. -/
def networkToHost (n : UInt32) : UInt32 := hostToNetwork n

/-- `Ipv4Address::isLoopback`: `127.0.0.0/8`. -/
def Ipv4Address.isLoopback (value : UInt32) : Bool := (value &&& (0xff000000 : UInt32)) == (127 : UInt32) <<< 24

/-- `Ipv4Address::isPrivate`: `10.0.0.0/8`, `172.16.0.0/12` and `192.168.0.0/16`. -/
def Ipv4Address.isPrivate (value : UInt32) : Bool :=
  (value &&& (0xff000000 : UInt32)) == (10 : UInt32) <<< 24 ||
    (value &&& (0xfff00000 : UInt32)) == (((172 : UInt32) <<< 24) ||| ((16 : UInt32) <<< 16)) ||
    (value &&& (0xffff0000 : UInt32)) == (((192 : UInt32) <<< 24) ||| ((168 : UInt32) <<< 16))

/-- The white and gray lists, each in its `by_time` order, and
`m_allow_local_ip`, which `init` sets. -/
structure PeerlistManager where
  peersWhite : List PeerlistEntry
  peersGray : List PeerlistEntry
  allowLocalIp : Bool
deriving Repr

namespace PeerlistManager

/-- The lists after `init(allow_local_ip)`: both empty. -/
def init (allowLocalIp : Bool) : PeerlistManager := ⟨[], [], allowLocalIp⟩

/-- The `by_time` insert of an entry. -/
def insertByTime (ple : PeerlistEntry) (peers : List PeerlistEntry) : List PeerlistEntry :=
  TimeIndex.insertAfter (fun e => e.lastSeen.toNat) ple peers

/-- `replace(it, ple)` for the entry at `ple.adr`: the entry replaced and put in
its place in the `by_time` order. -/
def replaceByAddr (ple : PeerlistEntry) (peers : List PeerlistEntry) : List PeerlistEntry :=
  insertByTime ple (peers.filter (·.adr != ple.adr))

/-- `Peerlist::trim`: `while (m_peers.size() > m_maxSize)` the first entry of
the `by_time` index erased. -/
def Peerlist.trim (maxSize : ℕ) (peers : List PeerlistEntry) : List PeerlistEntry :=
  TimeIndex.dropOldest maxSize peers

/-- `is_ip_allowed(ip)`: never a loopback address, and a private one only with
`m_allow_local_ip`. -/
def isIpAllowed (s : PeerlistManager) (ip : UInt32) : Bool :=
  let addr := networkToHost ip
  if Ipv4Address.isLoopback addr then false
  else if !s.allowLocalIp && Ipv4Address.isPrivate addr then false
  else true

/-- `append_with_peer_white(ple)`: a new address inserted in the white list and
the list trimmed, a known one replaced; the address then erased from the gray
list. An address that is not allowed changes nothing. It returns `true` on
every path. -/
def appendWithPeerWhite (s : PeerlistManager) (ple : PeerlistEntry) : PeerlistManager :=
  if !s.isIpAllowed ple.adr.ip then s
  else
    let peersWhite := match s.peersWhite.find? (·.adr == ple.adr) with
      | none => Peerlist.trim P2P_LOCAL_WHITE_PEERLIST_LIMIT (insertByTime ple s.peersWhite)
      | some _ => replaceByAddr ple s.peersWhite
    let peersGray := match s.peersGray.find? (·.adr == ple.adr) with
      | some _ => s.peersGray.filter (·.adr != ple.adr)
      | none => s.peersGray
    { s with peersWhite := peersWhite, peersGray := peersGray }

/-- `append_with_peer_gray(ple)`: nothing for an address that is not allowed or
is in the white list; otherwise a new address inserted in the gray list and the
list trimmed, a known one replaced. It returns `true` on every path. -/
def appendWithPeerGray (s : PeerlistManager) (ple : PeerlistEntry) : PeerlistManager :=
  if !s.isIpAllowed ple.adr.ip then s
  else if (s.peersWhite.find? (·.adr == ple.adr)).isSome then s
  else match s.peersGray.find? (·.adr == ple.adr) with
    | none => { s with peersGray := Peerlist.trim P2P_LOCAL_GRAY_PEERLIST_LIMIT (insertByTime ple s.peersGray) }
    | some _ => { s with peersGray := replaceByAddr ple s.peersGray }

/-- `set_peer_just_seen(peer, addr)`, with `time(NULL)` the parameter `now`. -/
def setPeerJustSeen (s : PeerlistManager) (peer : UInt64) (addr : NetworkAddress) (now : UInt64) : PeerlistManager :=
  s.appendWithPeerWhite ⟨addr, peer, now⟩

/-- `merge_peerlist(outer_bs)`: each entry appended to the gray list, then the
gray list trimmed. -/
def mergePeerlist (s : PeerlistManager) (outerBs : List PeerlistEntry) : PeerlistManager :=
  let s := outerBs.foldl appendWithPeerGray s
  { s with peersGray := Peerlist.trim P2P_LOCAL_GRAY_PEERLIST_LIMIT s.peersGray }

/-- The loop of `get_peerlist_head` over the white list from the most recently
seen: entries never seen are skipped, and after each entry taken the test
`cnt++ > depth` stops the loop, on the old value of the `uint32_t` counter. -/
@[grind] def getPeerlistHead.loop (depth : UInt32) : UInt32 → List PeerlistEntry → List PeerlistEntry
  | _, [] => []
  | cnt, vl :: rest =>
    if vl.lastSeen = 0 then getPeerlistHead.loop depth cnt rest
    else vl :: if cnt > depth then [] else getPeerlistHead.loop depth (cnt + 1) rest

/-- `get_peerlist_head(bs_head, depth)`: the entries it appends to `bs_head`. -/
def getPeerlistHead (s : PeerlistManager) (depth : UInt32) : List PeerlistEntry :=
  getPeerlistHead.loop depth 0 s.peersWhite.reverse

/-- The operations on the lists a node performs as it runs. -/
inductive Op
  | appendWithPeerWhite (ple : PeerlistEntry)
  | appendWithPeerGray (ple : PeerlistEntry)
  | setPeerJustSeen (peer : UInt64) (addr : NetworkAddress) (now : UInt64)
  | mergePeerlist (outerBs : List PeerlistEntry)

@[grind] def apply (s : PeerlistManager) : Op → PeerlistManager
  | .appendWithPeerWhite ple => s.appendWithPeerWhite ple
  | .appendWithPeerGray ple => s.appendWithPeerGray ple
  | .setPeerJustSeen peer addr now => s.setPeerJustSeen peer addr now
  | .mergePeerlist outerBs => s.mergePeerlist outerBs

/-- The lists after a sequence of operations. -/
def run (s : PeerlistManager) (ops : List Op) : PeerlistManager := ops.foldl apply s

end PeerlistManager

end Cn
