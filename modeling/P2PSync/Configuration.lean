import P2PSync.Discovery
import P2PSync.Library.Decimal
import P2PSync.Library.Separated

/-! What main takes from its environment: the peers given by hand, as `id@host:port` with
commas between them, and the port to listen on, or the next one that is free. -/
namespace P2PSync

open Transition

structure ManualPeer where
  id : String
  host : String
  port : Int
  deriving DecidableEq, Repr

def parsePeer (pStr : List Char) : Option ManualPeer :=
  match pStr.splitOn '@' with
  | [peerID, address] =>
    match address.splitOn ':' with
    | [host, port] =>
      (Decimal.parseInt port).map fun portVal =>
        ⟨String.ofList peerID, String.ofList host, portVal⟩
    | _ => none
  | _ => none

def parsePeerAddresses (envPeers : String) : List ManualPeer :=
  if envPeers = "" then [] else (envPeers.toList.splitOn ',').filterMap parsePeer

namespace ManualPeer

def entry (p : ManualPeer) : List Char :=
  p.id.toList ++ '@' :: (p.host.toList ++ ':' :: (toString p.port).toList)

structure Expressible (p : ManualPeer) : Prop where
  id : ',' ∉ p.id.toList ∧ '@' ∉ p.id.toList
  host : ',' ∉ p.host.toList ∧ '@' ∉ p.host.toList ∧ ':' ∉ p.host.toList
  port : -2 ^ 63 ≤ p.port ∧ p.port < 2 ^ 63

end ManualPeer

def peerAddresses (ps : List ManualPeer) : String :=
  String.ofList ([','].intercalate (ps.map ManualPeer.entry))

theorem not_mem_of_parseInt {port : List Char} {n : Int} (parsed : Decimal.parseInt port = some n)
    {c : Char} (other : ¬ (c.isDigit = true ∨ c = '-' ∨ c = '+')) : c ∉ port :=
  fun member => other (Decimal.mem_parseInt parsed member)

theorem parsePeer_eq_some {pStr : List Char} {p : ManualPeer} :
    parsePeer pStr = some p ↔ ∃ port, Decimal.parseInt port = some p.port ∧
      '@' ∉ p.id.toList ∧ '@' ∉ p.host.toList ∧ ':' ∉ p.host.toList ∧
      pStr = p.id.toList ++ '@' :: (p.host.toList ++ ':' :: port) := by
  constructor
  · intro parsed
    unfold parsePeer at parsed
    split at parsed
    · rename_i peerID address pair
      split at parsed
      · rename_i host port place
        obtain ⟨portVal, number, rfl⟩ := Option.map_eq_some_iff.mp parsed
        obtain ⟨noAt, noAt', rfl⟩ := Separated.splitOn_eq_pair.mp pair
        obtain ⟨noColon, -, rfl⟩ := Separated.splitOn_eq_pair.mp place
        rw [List.mem_append, not_or] at noAt'
        refine ⟨port, number, ?_, ?_, ?_, ?_⟩
        all_goals simp only [String.toList_ofList]
        · exact noAt
        · exact noAt'.1
        · exact noColon
      · cases parsed
    · cases parsed
  · rintro ⟨port, number, noAt, noAt', noColon, rfl⟩
    have pair : (p.id.toList ++ '@' :: (p.host.toList ++ ':' :: port)).splitOn '@' =
        [p.id.toList, p.host.toList ++ ':' :: port] := by
      refine Separated.splitOn_eq_pair.mpr ⟨noAt, ?_, rfl⟩
      have digits := not_mem_of_parseInt number (c := '@') (by decide)
      simp only [List.mem_append, List.mem_cons, noAt', digits, or_false, false_or]
      decide
    have place : (p.host.toList ++ ':' :: port).splitOn ':' = [p.host.toList, port] :=
      Separated.splitOn_eq_pair.mpr ⟨noColon, not_mem_of_parseInt number (by decide), rfl⟩
    simp only [parsePeer, pair, place, number, Option.map_some, String.ofList_toList]

theorem ManualPeer.Expressible.parsed {p : ManualPeer} (fits : p.Expressible) :
    parsePeer p.entry = some p := by
  have number := Decimal.parseInt_toString fits.port.1 fits.port.2
  exact parsePeer_eq_some.mpr ⟨_, number, fits.id.2, fits.host.2.1, fits.host.2.2, rfl⟩

theorem ManualPeer.Expressible.no_comma {p : ManualPeer} (fits : p.Expressible) :
    ',' ∉ p.entry := by
  have number := Decimal.parseInt_toString fits.port.1 fits.port.2
  have digits := not_mem_of_parseInt number (c := ',') (by decide)
  simp only [ManualPeer.entry, List.mem_append, List.mem_cons, fits.id.1, fits.host.1, digits,
    or_false, false_or]
  decide

theorem expressible_of_parsePeerAddresses {envPeers : String} {p : ManualPeer}
    (parsed : p ∈ parsePeerAddresses envPeers) : p.Expressible := by
  unfold parsePeerAddresses at parsed
  split at parsed
  · cases parsed
  · obtain ⟨pStr, piece, read⟩ := List.mem_filterMap.mp parsed
    have noComma := Separated.not_mem_of_mem_splitOn piece
    obtain ⟨port, number, noAt, noAt', noColon, rfl⟩ := parsePeer_eq_some.mp read
    simp only [List.mem_append, List.mem_cons, not_or] at noComma
    exact ⟨⟨noComma.1, noAt⟩, ⟨noComma.2.2.1, noAt', noColon⟩, Decimal.parseInt_fits number⟩

theorem parsePeerAddresses_intercalate {entries : List (List Char)}
    (plain : ∀ e ∈ entries, ',' ∉ e) :
    parsePeerAddresses (String.ofList ([','].intercalate entries)) = entries.filterMap parsePeer := by
  rcases eq_or_ne entries [] with rfl | some_
  · rfl
  have pieces : (String.ofList ([','].intercalate entries)).toList.splitOn ',' = entries := by
    rw [String.toList_ofList]
    exact List.splitOn_intercalate ',' plain some_
  unfold parsePeerAddresses
  split
  · rename_i empty
    rw [empty] at pieces
    rw [← pieces]
    rfl
  · rw [pieces]

theorem parsePeerAddresses_peerAddresses {ps : List ManualPeer} (fits : ∀ p ∈ ps, p.Expressible) :
    parsePeerAddresses (peerAddresses ps) = ps := by
  rw [peerAddresses, parsePeerAddresses_intercalate, List.filterMap_map]
  · refine (List.filterMap_congr fun p given => ?_).trans List.filterMap_some
    exact (fits p given).parsed
  · intro e member
    obtain ⟨p, given, rfl⟩ := List.mem_map.mp member
    exact (fits p given).no_comma

def addPeerMessage (p : ManualPeer) : ManualPeer :=
  if p.port = 0 then { p with port := 9876 } else p

/-- The peers given by hand, in the order of their calls: main reads the environment before it
takes messages. -/
def givenByHand (envPeers : String) (added : List ManualPeer) : List ManualPeer :=
  parsePeerAddresses envPeers ++ added.map addPeerMessage

def DiscoveryEvent.manual : DiscoveryEvent → Option ManualPeer
  | .addManualPeer id address port => some ⟨id, address, port⟩
  | _ => none

def ManualPeer.place (p : ManualPeer) : String × String × Int := (p.id, p.host, p.port)

theorem ManualPeer.map_place_eq_some {given : Option ManualPeer} {id host : String} {port : Int} :
    given.map place = some (id, host, port) ↔ given = some ⟨id, host, port⟩ := by
  constructor
  · intro placed
    obtain ⟨p, rfl, same⟩ := Option.map_eq_some_iff.mp placed
    cases same
    rfl
  · rintro rfl
    rfl

namespace PeerRegistry

variable {s s' : PeerRegistry} {event : DiscoveryEvent}

theorem manual_next (moved : s.next event = some s') :
    s'.manual = s.manual ++ event.manual.toList.map ManualPeer.place := by
  cases moved_of_next moved with
  | resolve at_ lookup resolved | retryResolve first none lookup resolved =>
    cases resolved <;> exact (List.append_nil _).symm
  | addManualPeer => rfl
  | announce | register | sweep | retryRegister | wait => exact (List.append_nil _).symm

theorem manual_path {events : List DiscoveryEvent} (path : Path (Runs next) s events s') :
    s'.manual = s.manual ++ (events.filterMap DiscoveryEvent.manual).map ManualPeer.place := by
  induction path with
  | nil => exact (List.append_nil _).symm
  | @cons s t u event events first later ih =>
    rw [ih, manual_next first, List.append_assoc, ← List.map_append, List.filterMap_cons]
    cases event.manual <;> rfl

theorem announced_next (moved : s.next event = some s') :
    s'.announced = s.announced ∨ ∃ entry, event = .announce entry := by
  cases moved_of_next moved with
  | resolve at_ lookup resolved | retryResolve first none lookup resolved =>
    cases resolved <;> exact .inl rfl
  | announce entry => exact .inr ⟨entry, rfl⟩
  | addManualPeer | register | sweep | retryRegister | wait => exact .inl rfl

structure Handed (s : PeerRegistry) : Prop where
  registered : ∀ given ∈ s.manual, given.1 ∈ s.peers
  latest : s.announced = [] → ∀ id,
    (s.peers.lookup id).map (fun peer => (id, peer.address, peer.port)) =
      s.manual.reverse.find? (fun given => given.1 == id)

theorem place_addPeer (s : PeerRegistry) (id address : String) (port : Int) (other : String) :
    ((s.addPeer id address port).peers.lookup other).map
        (fun peer => (other, peer.address, peer.port)) =
      if id = other then some (id, address, port)
      else (s.peers.lookup other).map (fun peer => (other, peer.address, peer.port)) := by
  split
  · rename_i same
    subst same
    simp only [addPeer, AList.lookup_insert, Option.map_some]
    cases s.peers.lookup id <;> rfl
  · rename_i ne
    simp only [addPeer, AList.lookup_insert_ne (Ne.symm ne)]

theorem handed_next (sourced : s.Sourced) (handed : s.Handed) (moved : s.next event = some s') :
    s'.Handed := by
  have kept : ∀ given ∈ s.manual, given.1 ∈ s'.peers := fun given member =>
    mem_peers_next (handed.registered given member) moved
  cases moved_of_next moved with
  | resolve at_ lookup resolved | retryResolve first none lookup resolved =>
    cases resolved <;> exact ⟨handed.registered, handed.latest⟩
  | announce entry =>
    refine ⟨handed.registered, ?_⟩
    intro silent
    simp at silent
  | @register i entry address at_ =>
    refine ⟨kept, ?_⟩
    intro silent
    have answered := sourced.registering _ (List.mem_of_getElem? at_)
    exact absurd answered.1 (List.eq_nil_iff_forall_not_mem.mp silent entry)
  | @retryRegister entry address some_ =>
    refine ⟨kept, ?_⟩
    intro silent
    have answered := sourced.retryFound _ some_
    exact absurd answered.1 (List.eq_nil_iff_forall_not_mem.mp silent entry)
  | addManualPeer id address port =>
    refine ⟨?_, ?_⟩
    · intro given member
      rcases List.mem_append.mp member with old | new
      · exact kept given old
      · rw [List.mem_singleton.mp new]
        exact (AList.mem_insert _).mpr (.inl rfl)
    · intro silent other
      rw [place_addPeer]
      simp only [addPeer, List.reverse_append, List.reverse_singleton, List.singleton_append,
        List.find?_cons]
      rcases eq_or_ne id other with rfl | ne
      · rw [if_pos rfl, beq_self_eq_true]
      · rw [if_neg ne, beq_eq_false_iff_ne.mpr ne]
        exact handed.latest silent other
  | sweep | wait => exact ⟨handed.registered, handed.latest⟩

theorem handed_path {events : List DiscoveryEvent}
    (path : Path (Runs next) new events s) : s.Sourced ∧ s.Handed := by
  refine path.invariant (I := fun s => s.Sourced ∧ s.Handed) ?_ ⟨?_, ?_⟩
  · intro s event t both moved
    exact ⟨sourced_next both.1 moved, handed_next both.1 both.2 moved⟩
  · exact sourced_reach (.start new_initial)
  · exact ⟨fun given none => (by cases none), fun _ _ => rfl⟩

theorem silent_path {events : List DiscoveryEvent} (path : Path (Runs next) s events s')
    (silent : ∀ entry, .announce entry ∉ events) : s'.announced = s.announced := by
  refine path.labelled.invariant (I := fun t => t.announced = s.announced) ?_ rfl
  intro t event u same moved
  rcases announced_next moved.1 with kept | ⟨entry, rfl⟩
  · rw [kept, same]
  · exact absurd moved.2 (silent entry)

theorem mem_sendPeerList (sourced : s.Sourced) {localPeerID : String} {isConnected : String → Bool}
    {info : PeerInfo} : info ∈ sendPeerList s localPeerID isConnected ↔
      info.id ≠ localPeerID ∧ info.name = info.id ∧ info.connected = isConnected info.id ∧
        (s.peers.lookup info.id).map (fun peer => (info.id, peer.address, peer.port)) =
          some (info.id, info.address, info.port) := by
  constructor
  · intro listed
    obtain ⟨e, kept, rfl⟩ := List.mem_map.mp listed
    obtain ⟨member, other⟩ := List.mem_filter.mp kept
    have found := lookup_of_entry member
    obtain ⟨own, name, -⟩ := sourced.peers _ _ found
    rw [← own] at found
    refine ⟨bne_iff_ne.mp other, name.trans own.symm, rfl, ?_⟩
    simp only [found, Option.map_some]
  · rintro ⟨other, name, connected, place⟩
    obtain ⟨peer, found, same⟩ := Option.map_eq_some_iff.mp place
    obtain ⟨own, called, -⟩ := sourced.peers _ _ found
    simp only [Prod.mk.injEq, true_and] at same
    refine List.mem_map.mpr ⟨⟨info.id, peer⟩, List.mem_filter.mpr ⟨?_, ?_⟩, ?_⟩
    · exact AList.mem_lookup_iff.mp found
    · exact bne_iff_ne.mpr (own ▸ other)
    · cases info
      simp_all

end PeerRegistry

def fallbackPort (free : Int → Bool) (p2pPort : Int) : Nat → Int → Int
  | 0, _ => p2pPort
  | n + 1, alt => if free alt then alt else fallbackPort free p2pPort n (alt + 1)

def choosePort (free : Int → Bool) (p2pPort : Int) : Int :=
  if free p2pPort then p2pPort else fallbackPort free p2pPort 99 (p2pPort + 1)

def probePort (bound : List Int) (port : Int) : Bool :=
  port == 0 || (decide (0 < port ∧ port ≤ 65535) && !bound.contains port)

structure SidePorts where
  healthPort : Int
  pprofPort : Option Int
  fixed : healthPort ≠ 0 ∧ pprofPort ≠ some 0

def SidePorts.ports (side : SidePorts) : List Int := side.healthPort :: side.pprofPort.toList

def listenBeside (bound : List Int) (port : Int) : List Int :=
  if probePort bound port then port :: bound else bound

def startServer (p2pPort : Int) (side : SidePorts) (bound : List Int) : Option (Int × List Int) :=
  let port := choosePort (probePort bound) p2pPort
  if probePort bound port then some (port, side.ports.foldl listenBeside (port :: bound)) else none

def startServers (p2pPort : Int) (side : SidePorts) : Nat → List Int → Option (List Int)
  | 0, _ => some []
  | n + 1, bound => (startServer p2pPort side bound).bind fun (port, bound) =>
    (startServers p2pPort side n bound).map (port :: ·)

def portsFrom (p2pPort : Int) : Nat → List Int
  | 0 => []
  | n + 1 => p2pPort :: portsFrom (p2pPort + 1) n

def freePorts (p2pPort : Int) (bound : List Int) : List Int :=
  (portsFrom p2pPort 100).filter (probePort bound)

def sharedPorts (p2pPort : Int) (side : SidePorts) (bound : List Int) : List Int :=
  match freePorts p2pPort bound with
  | [] => []
  | port :: rest => port :: rest.filter (!side.ports.contains ·)

theorem le_of_mem_portsFrom {p q : Int} {n : Nat} (member : q ∈ portsFrom p n) : p ≤ q := by
  induction n generalizing p with
  | zero => cases member
  | succ n ih =>
    rcases List.mem_cons.mp member with rfl | later
    · exact le_refl q
    · have := ih later
      omega

theorem nodup_portsFrom (p : Int) (n : Nat) : (portsFrom p n).Nodup := by
  induction n generalizing p with
  | zero => exact List.nodup_nil
  | succ n ih =>
    refine List.nodup_cons.mpr ⟨?_, ih (p + 1)⟩
    intro member
    have := le_of_mem_portsFrom member
    omega

theorem fallbackPort_eq (free : Int → Bool) (p alt : Int) (n : Nat) :
    fallbackPort free p n alt = ((portsFrom alt n).filter free).head?.getD p := by
  induction n generalizing alt with
  | zero => rfl
  | succ n ih =>
    rw [fallbackPort, portsFrom, List.filter_cons]
    split
    · rfl
    · exact ih (alt + 1)

theorem choosePort_eq (p : Int) (bound : List Int) :
    choosePort (probePort bound) p = (freePorts p bound).head?.getD p := by
  rw [choosePort, freePorts, portsFrom, List.filter_cons]
  split
  · rfl
  · exact fallbackPort_eq (probePort bound) p (p + 1) 99

theorem startServer_eq (p : Int) (side : SidePorts) (bound : List Int) :
    startServer p side bound = (freePorts p bound).head?.map fun port =>
      (port, side.ports.foldl listenBeside (port :: bound)) := by
  have chosen := choosePort_eq p bound
  cases frees : freePorts p bound with
  | nil =>
    have busy : probePort bound p = false := by
      have none := List.filter_eq_nil_iff.mp frees p List.mem_cons_self
      exact Bool.eq_false_iff.mpr none
    rw [frees] at chosen
    simp [startServer, chosen, busy]
  | cons q rest =>
    have free : probePort bound q = true :=
      List.of_mem_filter (frees ▸ List.mem_cons_self : q ∈ freePorts p bound)
    rw [frees] at chosen
    simp [startServer, chosen, free]

section Taken

variable {p : Int} (positive : 0 < p)
include positive

theorem freePorts_cons (q : Int) (bound : List Int) :
    freePorts p (q :: bound) = (freePorts p bound).filter (· != q) := by
  rw [freePorts, freePorts, List.filter_filter]
  refine List.filter_congr fun r member => ?_
  have above := le_of_mem_portsFrom member
  have zero : (r == 0) = false := beq_eq_false_iff_ne.mpr (by omega)
  simp only [probePort, zero, bne, Bool.false_or, List.contains_cons, Bool.not_or]
  cases r == q <;> simp

theorem freePorts_listenBeside (q : Int) (bound : List Int) :
    freePorts p (listenBeside bound q) = (freePorts p bound).filter (· != q) := by
  unfold listenBeside
  split
  · exact freePorts_cons positive q bound
  · rename_i busy
    refine (List.filter_eq_self.mpr fun r member => bne_iff_ne.mpr ?_).symm
    rintro rfl
    exact busy (List.of_mem_filter member)

theorem freePorts_foldl (ports bound : List Int) : freePorts p (ports.foldl listenBeside bound) =
      (freePorts p bound).filter (!ports.contains ·) := by
  induction ports generalizing bound with
  | nil => simp
  | cons q ports ih =>
    rw [List.foldl_cons, ih, freePorts_listenBeside positive, List.filter_filter]
    refine List.filter_congr fun r _ => ?_
    simp only [List.contains_cons, bne, Bool.not_or]
    exact Bool.and_comm _ _

theorem freePorts_started {q : Int} {bound rest : List Int} (side : SidePorts)
    (frees : freePorts p bound = q :: rest) :
    freePorts p (side.ports.foldl listenBeside (q :: bound)) =
      rest.filter (!side.ports.contains ·) := by
  have nodup : (q :: rest).Nodup := frees ▸ (nodup_portsFrom p 100).filter _
  have others : (q :: rest).filter (· != q) = rest := by
    rw [List.filter_cons, bne_self_eq_false]
    refine List.filter_eq_self.mpr fun r member => bne_iff_ne.mpr ?_
    rintro rfl
    exact (List.nodup_cons.mp nodup).1 member
  rw [freePorts_foldl positive, freePorts_cons positive, frees, others]

end Taken

theorem sharedPorts_eq {p : Int} {side : SidePorts} {bound : List Int}
    (taken : ∀ port ∈ freePorts p bound, port ∉ side.ports) :
    sharedPorts p side bound = freePorts p bound := by
  unfold sharedPorts
  split
  · rename_i none
    exact none.symm
  · rename_i port rest frees
    rw [frees] at taken ⊢
    rw [List.filter_eq_self.mpr]
    intro r member
    simpa using taken r (List.mem_cons_of_mem _ member)

section Results

/-- The peers that PEER_ADDRESSES can name: none whose ID has a comma or an at sign or whose
host has one of these or a colon, as every IPv6 address has. -/
theorem peer_addresses_round_trip_iff (ps : List ManualPeer) :
    (parsePeerAddresses (peerAddresses ps) = ps ↔ ∀ p ∈ ps, p.Expressible) ∧
    ∀ before odd after : List (List Char), (∀ e ∈ before ++ odd ++ after, ',' ∉ e) →
      (∀ e ∈ odd, ∀ (p : ManualPeer) (port : List Char), Decimal.parseInt port = some p.port →
        '@' ∉ p.id.toList → '@' ∉ p.host.toList → ':' ∉ p.host.toList →
        e ≠ p.id.toList ++ '@' :: (p.host.toList ++ ':' :: port)) →
      parsePeerAddresses (String.ofList ([','].intercalate (before ++ odd ++ after))) =
        parsePeerAddresses (String.ofList ([','].intercalate (before ++ after))) := by
  refine ⟨⟨?_, parsePeerAddresses_peerAddresses⟩, ?_⟩
  · intro same p given
    exact expressible_of_parsePeerAddresses (same ▸ given)
  · intro before odd after plain other
    have none : odd.filterMap parsePeer = [] := by
      refine List.filterMap_eq_nil_iff.mpr fun e member => ?_
      by_contra read
      obtain ⟨p, parsed⟩ := Option.ne_none_iff_exists'.mp read
      obtain ⟨port, number, id, host, colon, form⟩ := parsePeer_eq_some.mp parsed
      exact other e member p port number id host colon form
    rw [parsePeerAddresses_intercalate plain, parsePeerAddresses_intercalate, List.filterMap_append,
      List.filterMap_append, none, List.append_nil, List.filterMap_append]
    intro e member
    refine plain e ?_
    rw [List.mem_append, List.mem_append]
    exact (List.mem_append.mp member).imp_left .inl

example : parsePeerAddresses "b@fd00::2:9876,c@10.0.0.3:9876" = [⟨"c", "10.0.0.3", 9876⟩] := by
  decide +kernel

/-- Whatever else is announced, the peers given by hand stand in the list that the user sees;
where nothing is announced they are all of it, each once and at the place given last. -/
theorem manual_peers_listed {envPeers : String} {added : List ManualPeer}
    {events : List DiscoveryEvent} {s : PeerRegistry}
    (path : Path (Runs PeerRegistry.next) PeerRegistry.new events s)
    (calls : events.filterMap DiscoveryEvent.manual = givenByHand envPeers added)
    (localPeerID : String) (isConnected : String → Bool) :
    (∀ p ∈ givenByHand envPeers added, p.id ≠ localPeerID →
      p.id ∈ (sendPeerList s localPeerID isConnected).map PeerInfo.id) ∧
    ((sendPeerList s localPeerID isConnected).map PeerInfo.id).Nodup ∧
    ((∀ entry, .announce entry ∉ events) → ∀ info,
      info ∈ sendPeerList s localPeerID isConnected ↔
        info.id ≠ localPeerID ∧ info.name = info.id ∧ info.connected = isConnected info.id ∧
          (givenByHand envPeers added).reverse.find? (fun p => p.id == info.id) =
            some ⟨info.id, info.address, info.port⟩) := by
  obtain ⟨sourced, handed⟩ := PeerRegistry.handed_path path
  have manual : s.manual = (givenByHand envPeers added).map ManualPeer.place := by
    rw [PeerRegistry.manual_path path, calls]
    rfl
  refine ⟨?_, ?_, ?_⟩
  · intro p given other
    have registered := handed.registered p.place (manual ▸ List.mem_map_of_mem given)
    rw [PeerRegistry.sendPeerList_ids sourced]
    exact List.mem_filter.mpr ⟨AList.mem_keys.mp registered, bne_iff_ne.mpr other⟩
  · rw [PeerRegistry.sendPeerList_ids sourced]
    exact s.peers.keys_nodup.filter _
  · intro silent info
    have none := PeerRegistry.silent_path path silent
    rw [PeerRegistry.mem_sendPeerList sourced, handed.latest none, manual, ← List.map_reverse,
      List.find?_map, ManualPeer.map_place_eq_some]
    exact Iff.rfl

theorem manual_peers_listed_again : ∃ s : PeerRegistry,
    ⟨"b", "b", "10.0.0.9", 9876, false⟩ ∈ sendPeerList s "a" (fun _ => false) ∧
      "c" ∈ (sendPeerList s "a" (fun _ => false)).map PeerInfo.id := by
  obtain ⟨s, path, -⟩ := path_of_replay PeerRegistry.next (fun _ _ => True)
    (s := PeerRegistry.new)
    [.addManualPeer "b" "10.0.0.2" 9876, .addManualPeer "c" "10.0.0.3" 9876,
      .addManualPeer "b" "10.0.0.9" 9876] (fun _ => True) (by decide +kernel)
  have listed := @manual_peers_listed "b@10.0.0.2:9876,c@10.0.0.3:9876" [⟨"b", "10.0.0.9", 0⟩] _ s
    (path.weaken fun _ _ _ moved => moved.1) (by decide +kernel) "a" (fun _ => false)
  refine ⟨s, (listed.2.2 (by simp) _).mpr (by decide +kernel), ?_⟩
  exact listed.1 ⟨"c", "10.0.0.3", 9876⟩ (by decide +kernel) (by decide)

/-- Coordinators that are started one after another, each with files of its own, listen on the
first free ports of the hundred from the configured one on, but not on those that the first
one has taken for its other listeners; where none is left the next one does not start. -/
theorem coordinators_share_host {p2pPort : Int} (positive : 0 < p2pPort) (side : SidePorts)
    (n : Nat) (bound : List Int) : startServers p2pPort side n bound =
      if n ≤ (sharedPorts p2pPort side bound).length then
        some ((sharedPorts p2pPort side bound).take n)
      else none := by
  induction n generalizing bound with
  | zero => simp [startServers]
  | succ n ih =>
    rw [startServers, startServer_eq]
    cases frees : freePorts p2pPort bound with
    | nil => simp [sharedPorts, frees]
    | cons q free =>
      have later := freePorts_started positive side frees
      have shared : sharedPorts p2pPort side (side.ports.foldl listenBeside (q :: bound)) =
          free.filter (!side.ports.contains ·) := by
        rw [sharedPorts_eq, later]
        intro port unused
        rw [later] at unused
        simpa using List.of_mem_filter unused
      have first : sharedPorts p2pPort side bound = q :: free.filter (!side.ports.contains ·) := by
        rw [sharedPorts, frees]
      have rest := ih (side.ports.foldl listenBeside (q :: bound))
      rw [shared] at rest
      simp only [first, List.head?_cons, Option.map_some, Option.bind_some, rest, List.length_cons,
        List.take_succ_cons, Nat.add_le_add_iff_right]
      split <;> rfl

theorem coordinators_share_host_two :
    startServers 8079 ⟨8080, none, by decide⟩ 2 [8082] = some [8079, 8081] := by
  rw [coordinators_share_host (by decide)]
  decide +kernel

end Results

end P2PSync
