import Vsys.Lib.Expiring
import Vsys.Lib.Transducer
import Vsys.Network.Handshake

/-!
# The database of peers

`PeerDatabaseImpl` keeps when a peer was last seen, and when and why a host was blacklisted or
suspended.  The views drop what has expired as they are read, so a read is a write.
-/

namespace Vsys

open Lib

/-- A socket address; the name of an unresolved one is in lower case, as names are compared so. -/
inductive SocketAddress where
  | resolved (address : InetSocketAddress)
  | unresolved (hostName : String) (port : Int32)
  deriving DecidableEq

namespace SocketAddress

/-- `getAddress`: null where the host is not resolved. -/
def getAddress : SocketAddress → Option InetAddress
  | .resolved address => some address.address
  | .unresolved _ _ => none

/-- `getPort`. -/
def getPort : SocketAddress → Int32
  | .resolved address => address.port
  | .unresolved _ port => port

end SocketAddress

/-- `InetAddress.isAnyLocalAddress`. -/
def InetAddress.isAnyLocalAddress (a : InetAddress) : Bool := a.bytes.all (· == 0)

/-- `InetAddress.isLoopbackAddress`: 127.0.0.0/8 or ::1. -/
def InetAddress.isLoopbackAddress (a : InetAddress) : Bool :=
  if a.bytes.length = 4 then a.bytes.head? == some 127
  else a.bytes == List.replicate 15 0 ++ [1]

/-- The settings of the network the database reads, with the peers' addresses looked up and the
times in milliseconds. -/
structure NetworkSettings where
  bindAddress : SocketAddress
  knownPeers : List SocketAddress
  peersDataResidenceTime : Int
  blackListResidenceTime : Int
  maxUnverifiedPeers : Nat
  suspensionResidenceTime : Int

/-- `EvictingQueue.add`: the oldest element makes place for a new one. -/
def EvictingQueue.add {α : Type} (maxSize : Nat) (queue : List α) (a : α) : List α :=
  if maxSize = 0 then queue
  else if queue.length = maxSize then queue.tail ++ [a]
  else queue ++ [a]

/-- What a `Random` gives: the head of a shuffled sequence, and a coin. -/
structure Random where
  shuffledHead : Finset SocketAddress → Option SocketAddress
  nextBoolean : Bool
  mem : ∀ s a, shuffledHead s = some a → a ∈ s
  empty : ∀ s, shuffledHead s = none ↔ s = ∅

/-- The maps and the queue of the database. -/
structure PeerDatabaseImpl where
  peersPersistence : Dict SocketAddress Int
  blacklist : Dict InetAddress Int
  suspension : Dict InetAddress Int
  reasons : Dict InetAddress String
  unverifiedPeers : List SocketAddress

namespace PeerDatabaseImpl

variable (settings : NetworkSettings) (now : Int) (db : PeerDatabaseImpl)

/-- `removeObsoleteRecords`. -/
def removeObsoleteRecords {K : Type} [DecidableEq K] (map : Dict K Int) (maxAge : Int) :
    Dict K Int :=
  let earliestValidTs := now - maxAge
  Dict.filterValues (fun t => !decide (t < earliestValidTs)) map

/-- `doTouch`. -/
def doTouch (socketAddress : SocketAddress) (timestamp : Int) : PeerDatabaseImpl :=
  { db with
    unverifiedPeers := db.unverifiedPeers.filter (· ≠ socketAddress)
    peersPersistence := db.peersPersistence.insert socketAddress
      ((db.peersPersistence.lookup socketAddress).elim timestamp (max · timestamp)) }

/-- The constructor, on an empty store: the peers of the settings are never evicted. -/
def create : PeerDatabaseImpl :=
  settings.knownPeers.foldl (fun db a => db.doTouch a Int64.maxValue.toInt) ⟨∅, ∅, ∅, ∅, []⟩

/-- `addCandidate`. -/
def addCandidate (socketAddress : SocketAddress) : Result (Bool × PeerDatabaseImpl) := do
  let address ← getOrRaise .nullPointer socketAddress.getAddress
  let r := !address.isAnyLocalAddress &&
    !(address.isLoopbackAddress && socketAddress.getPort == settings.bindAddress.getPort) &&
    (db.peersPersistence.lookup socketAddress).isNone &&
    !db.unverifiedPeers.contains socketAddress
  return (r, if r then
    { db with unverifiedPeers :=
        EvictingQueue.add settings.maxUnverifiedPeers db.unverifiedPeers socketAddress }
    else db)

/-- `touch`. -/
def touch (socketAddress : SocketAddress) : PeerDatabaseImpl := db.doTouch socketAddress now

/-- `blacklist`. -/
def addToBlacklist (socketAddress : SocketAddress) (reason : String) : PeerDatabaseImpl :=
  match socketAddress.getAddress with
  | none => db
  | some address =>
      { db with
        unverifiedPeers := db.unverifiedPeers.filter (·.getAddress ≠ some address)
        blacklist := db.blacklist.insert address now
        reasons := db.reasons.insert address reason }

/-- `suspend`. -/
def suspend (socketAddress : SocketAddress) : PeerDatabaseImpl :=
  match socketAddress.getAddress with
  | none => db
  | some address =>
      { db with
        unverifiedPeers := db.unverifiedPeers.filter (·.getAddress ≠ some address)
        suspension := db.suspension.insert address now }

/-- `clearBlacklist`. -/
def clearBlacklist : PeerDatabaseImpl := { db with blacklist := ∅, reasons := ∅ }

/-- `blacklistedHosts`. -/
def blacklistedHosts : Finset InetAddress × PeerDatabaseImpl :=
  let blacklist := removeObsoleteRecords now db.blacklist settings.blackListResidenceTime
  (blacklist.keys, { db with blacklist })

/-- `suspendedHosts`. -/
def suspendedHosts : Finset InetAddress × PeerDatabaseImpl :=
  let suspension := removeObsoleteRecords now db.suspension settings.suspensionResidenceTime
  (suspension.keys, { db with suspension })

/-- `detailedBlacklist`: it reads `suspension`, as the source does. -/
def detailedBlacklist : Dict InetAddress (Int × String) × PeerDatabaseImpl :=
  let suspension := removeObsoleteRecords now db.suspension settings.blackListResidenceTime
  (suspension.mapValues fun h t => (t, (db.reasons.lookup h).getD ""), { db with suspension })

/-- `detailedSuspended`. -/
def detailedSuspended : Dict InetAddress Int × PeerDatabaseImpl :=
  let suspension := removeObsoleteRecords now db.suspension settings.suspensionResidenceTime
  (suspension, { db with suspension })

/-- `knownPeers`, with the filtered view forced: the blacklist is read where there is a peer. -/
def knownPeers : Dict SocketAddress Int × PeerDatabaseImpl :=
  let peers := removeObsoleteRecords now db.peersPersistence settings.peersDataResidenceTime
  let db := { db with peersPersistence := peers }
  if peers.keys = ∅ then (∅, db)
  else
    let (hosts, db) := db.blacklistedHosts settings now
    (Dict.ofFn peers.keys fun a =>
      if a.getAddress.any (· ∈ hosts) then none else peers.lookup a, db)

/-- `excludeAddress`, within `randomPeer`. -/
def excludeAddress (excluded : Finset SocketAddress) (isa : SocketAddress) :
    Bool × PeerDatabaseImpl :=
  if isa ∈ excluded then (true, db)
  else
    let (blacklisted, db) := db.blacklistedHosts settings now
    if isa.getAddress.any (· ∈ blacklisted) then (true, db)
    else
      let (suspended, db) := db.suspendedHosts settings now
      (isa.getAddress.any (· ∈ suspended), db)

/-- `filterNot(excludeAddress)`. -/
def filterNotExcluded (excluded : Finset SocketAddress) :
    Option SocketAddress → Option SocketAddress × PeerDatabaseImpl
  | none => (none, db)
  | some isa =>
      let (exclude, db) := db.excludeAddress settings now excluded isa
      (if exclude then none else some isa, db)

/-- `randomPeer`. -/
def randomPeer (random : Random) (excluded : Finset SocketAddress) :
    Option SocketAddress × PeerDatabaseImpl :=
  let db := { db with unverifiedPeers := db.unverifiedPeers.filter (· ∉ excluded) }
  let (unverified, db) := db.filterNotExcluded settings now excluded db.unverifiedPeers.head?
  let (known, db) := db.knownPeers settings now
  let (verified, db) :=
    db.filterNotExcluded settings now excluded (random.shuffledHead (known.keys \ excluded))
  let poll := (db.unverifiedPeers.head?, { db with unverifiedPeers := db.unverifiedPeers.tail })
  match unverified, verified with
  | some _, some v => if random.nextBoolean then poll else (some v, db)
  | some _, none => poll
  | none, some v => (some v, db)
  | none, none => (none, db)

/-- The operations of the database. -/
inductive Op where
  | touch (socketAddress : SocketAddress)
  | addCandidate (socketAddress : SocketAddress)
  | blacklist (socketAddress : SocketAddress) (reason : String)
  | suspend (socketAddress : SocketAddress)
  | clearBlacklist
  | knownPeers
  | blacklistedHosts
  | suspendedHosts
  | detailedBlacklist
  | detailedSuspended
  | randomPeer (random : Random) (excluded : Finset SocketAddress)

/-- What an operation answers. -/
inductive Answer where
  | done
  | candidate (r : Result Bool)
  | peers (p : Dict SocketAddress Int)
  | hosts (h : Finset InetAddress)
  | blacklisted (b : Dict InetAddress (Int × String))
  | suspended (s : Dict InetAddress Int)
  | peer (p : Option SocketAddress)

/-- One operation; one that raises changes nothing. -/
def perform : Op → PeerDatabaseImpl × Answer
  | .touch a => (db.touch now a, .done)
  | .addCandidate a =>
      match db.addCandidate settings a with
      | .ok (r, db) => (db, .candidate (.ok r))
      | .error e => (db, .candidate (.error e))
  | .blacklist a reason => (db.addToBlacklist now a reason, .done)
  | .suspend a => (db.suspend now a, .done)
  | .clearBlacklist => (db.clearBlacklist, .done)
  | .knownPeers => ((db.knownPeers settings now).2, .peers (db.knownPeers settings now).1)
  | .blacklistedHosts =>
      ((db.blacklistedHosts settings now).2, .hosts (db.blacklistedHosts settings now).1)
  | .suspendedHosts =>
      ((db.suspendedHosts settings now).2, .hosts (db.suspendedHosts settings now).1)
  | .detailedBlacklist =>
      ((db.detailedBlacklist settings now).2, .blacklisted (db.detailedBlacklist settings now).1)
  | .detailedSuspended =>
      ((db.detailedSuspended settings now).2, .suspended (db.detailedSuspended settings now).1)
  | .randomPeer random excluded =>
      ((db.randomPeer settings now random excluded).2,
        .peer (db.randomPeer settings now random excluded).1)

/-- The operations that are views. -/
def Op.IsRead : Op → Prop
  | .knownPeers | .blacklistedHosts | .suspendedHosts | .detailedBlacklist | .detailedSuspended
  | .randomPeer _ _ => True
  | _ => False

/-- The live records of all three maps, each by its own residence time, are still there. -/
structure Keeps (db' : PeerDatabaseImpl) : Prop where
  peers : ∀ a t, db.peersPersistence.lookup a = some t →
    now - settings.peersDataResidenceTime ≤ t → db'.peersPersistence.lookup a = some t
  blacklist : ∀ h t, db.blacklist.lookup h = some t →
    now - settings.blackListResidenceTime ≤ t → db'.blacklist.lookup h = some t
  suspension : ∀ h t, db.suspension.lookup h = some t →
    now - settings.suspensionResidenceTime ≤ t → db'.suspension.lookup h = some t

section Reads

variable {settings : NetworkSettings} {now : Int} {db db' db'' : PeerDatabaseImpl}

/-- Removing obsolete records prunes the map at the oldest time that is kept. -/
theorem removeObsoleteRecords_eq {K : Type} [DecidableEq K] (map : Dict K Int) (maxAge : Int) :
    removeObsoleteRecords now map maxAge = Dict.prune (now - maxAge) map := by
  refine Finmap.ext_lookup fun k => ?_
  rw [removeObsoleteRecords, Dict.lookup_filterValues, Dict.lookup_prune]
  congr 1
  funext t
  rw [← decide_not, decide_eq_decide, not_lt]

/-- A read drops records that have expired, and does nothing else to the maps. -/
structure Prunes (settings : NetworkSettings) (now : Int) (db db' : PeerDatabaseImpl) : Prop where
  peers : Dict.Tracks (now - settings.peersDataResidenceTime) db.peersPersistence
    db'.peersPersistence
  blacklist : Dict.Tracks (now - settings.blackListResidenceTime) db.blacklist db'.blacklist
  suspension : Dict.Tracks (now - settings.suspensionResidenceTime) db.suspension db'.suspension
  reasons : db'.reasons = db.reasons

/-- Doing nothing prunes nothing. -/
theorem prunes_refl : Prunes settings now db db :=
  ⟨Dict.tracks_refl, Dict.tracks_refl, Dict.tracks_refl, rfl⟩

/-- Prunings one after the other are a pruning. -/
theorem Prunes.trans (h : Prunes settings now db db') (h' : Prunes settings now db' db'') :
    Prunes settings now db db'' where
  peers := h.peers.trans h'.peers
  blacklist := h.blacklist.trans h'.blacklist
  suspension := h.suspension.trans h'.suspension
  reasons := h'.reasons.trans h.reasons

/-- The queue of candidates plays no part. -/
theorem prunes_queue (queue : List SocketAddress) :
    Prunes settings now db { db with unverifiedPeers := queue } :=
  ⟨Dict.tracks_refl, Dict.tracks_refl, Dict.tracks_refl, rfl⟩

/-- A pruning keeps every record that is not obsolete. -/
theorem Prunes.keeps (h : Prunes settings now db db') : db.Keeps settings now db' where
  peers := fun _ _ => h.peers.lookup_of_le
  blacklist := fun _ _ => h.blacklist.lookup_of_le
  suspension := fun _ _ => h.suspension.lookup_of_le

/-- Listing the blacklisted hosts prunes at most. -/
theorem blacklistedHosts_prunes : Prunes settings now db (db.blacklistedHosts settings now).2 where
  peers := Dict.tracks_refl
  blacklist := by
    show Dict.Tracks _ _ (removeObsoleteRecords now db.blacklist _)
    rw [removeObsoleteRecords_eq]
    exact Dict.tracks_refl.prune
  suspension := Dict.tracks_refl
  reasons := rfl

/-- Listing the suspended hosts prunes at most. -/
theorem suspendedHosts_prunes : Prunes settings now db (db.suspendedHosts settings now).2 where
  peers := Dict.tracks_refl
  blacklist := Dict.tracks_refl
  suspension := by
    show Dict.Tracks _ _ (removeObsoleteRecords now db.suspension _)
    rw [removeObsoleteRecords_eq]
    exact Dict.tracks_refl.prune
  reasons := rfl

/-- Listing the suspended hosts with their times prunes at most. -/
theorem detailedSuspended_prunes :
    Prunes settings now db (db.detailedSuspended settings now).2 := suspendedHosts_prunes

/-- The detailed blacklist prunes the suspensions by the wrong time. -/
theorem detailedBlacklist_prunes
    (h : ∀ h t, db.suspension.lookup h = some t → now - settings.suspensionResidenceTime ≤ t →
      now - settings.blackListResidenceTime ≤ t) :
    Prunes settings now db (db.detailedBlacklist settings now).2 where
  peers := Dict.tracks_refl
  blacklist := Dict.tracks_refl
  suspension := by
    show Dict.Tracks _ _ (removeObsoleteRecords now db.suspension _)
    rw [removeObsoleteRecords_eq]
    exact Dict.tracks_refl.prune_of_forall h
  reasons := rfl

/-- Listing the known peers prunes at most. -/
theorem knownPeers_prunes : Prunes settings now db (db.knownPeers settings now).2 := by
  have hpeers : Prunes settings now db { db with
      peersPersistence :=
        removeObsoleteRecords now db.peersPersistence settings.peersDataResidenceTime } :=
    { peers := by
        rw [removeObsoleteRecords_eq]
        exact Dict.tracks_refl.prune
      blacklist := Dict.tracks_refl
      suspension := Dict.tracks_refl
      reasons := rfl }
  rw [knownPeers]
  split
  · exact hpeers
  · exact hpeers.trans blacklistedHosts_prunes

/-- Testing whether an address is excluded prunes at most. -/
theorem excludeAddress_prunes (excluded : Finset SocketAddress) (isa : SocketAddress) :
    Prunes settings now db (db.excludeAddress settings now excluded isa).2 := by
  rw [excludeAddress]
  split
  · exact prunes_refl
  · dsimp only
    split
    · exact blacklistedHosts_prunes
    · exact blacklistedHosts_prunes.trans suspendedHosts_prunes

/-- Filtering an address that is not excluded prunes at most. -/
theorem filterNotExcluded_prunes (excluded : Finset SocketAddress) (isa : Option SocketAddress) :
    Prunes settings now db (db.filterNotExcluded settings now excluded isa).2 := by
  cases isa with
  | none => exact prunes_refl
  | some isa => exact excludeAddress_prunes excluded isa

/-- Picking a random peer prunes at most. -/
theorem randomPeer_prunes (random : Random) (excluded : Finset SocketAddress) :
    Prunes settings now db (db.randomPeer settings now random excluded).2 := by
  have hfiltered : Prunes settings now db
      { db with unverifiedPeers := db.unverifiedPeers.filter (· ∉ excluded) } := prunes_queue _
  have hverified (unverified verified : Option SocketAddress) :=
    ((hfiltered.trans (filterNotExcluded_prunes excluded unverified)).trans
      knownPeers_prunes).trans (filterNotExcluded_prunes excluded verified)
  rw [randomPeer]
  dsimp only
  split
  · split
    · exact (hverified _ _).trans (prunes_queue _)
    · exact hverified _ _
  · exact (hverified _ _).trans (prunes_queue _)
  · exact hverified _ _
  · exact hverified _ _

end Reads

end PeerDatabaseImpl

/-- The latest blacklisting and the latest suspension of every host, as the operations say. -/
structure PeerRecord where
  blacklistings : Dict InetAddress (Int × String)
  suspensions : Dict InetAddress Int

namespace PeerRecord

open PeerDatabaseImpl

/-- An operation noted down. -/
def note (r : PeerRecord) (now : Int) : Op → PeerRecord
  | .blacklist a reason =>
      a.getAddress.elim r fun h =>
        { r with blacklistings := r.blacklistings.insert h (now, reason) }
  | .suspend a =>
      a.getAddress.elim r fun h => { r with suspensions := r.suspensions.insert h now }
  | .clearBlacklist => { r with blacklistings := ∅ }
  | _ => r

variable (settings : NetworkSettings) (r : PeerRecord) (now : Int)

/-- The blacklistings that have not expired. -/
def liveBlacklistings : Dict InetAddress (Int × String) :=
  r.blacklistings.filterValues (now - settings.blackListResidenceTime ≤ ·.1)

/-- The suspensions that have not expired. -/
def liveSuspensions : Dict InetAddress Int :=
  r.suspensions.filterValues (now - settings.suspensionResidenceTime ≤ ·)

/-- What the four views of blacklist and suspensions are to answer. -/
def answer : Op → Option Answer
  | .blacklistedHosts => some (.hosts (r.liveBlacklistings settings now).keys)
  | .suspendedHosts => some (.hosts (r.liveSuspensions settings now).keys)
  | .detailedBlacklist => some (.blacklisted (r.liveBlacklistings settings now))
  | .detailedSuspended => some (.suspended (r.liveSuspensions settings now))
  | _ => none

end PeerRecord

/-- The database and what is known of its operations so far. -/
structure PeerWatch where
  db : PeerDatabaseImpl
  record : PeerRecord

namespace PeerWatch

open PeerDatabaseImpl

variable (settings : NetworkSettings)

/-- A new database. -/
def create : PeerWatch := ⟨PeerDatabaseImpl.create settings, ⟨∅, ∅⟩⟩

/-- One operation, with the time of its clock. -/
def step (w : PeerWatch) (i : Int × Op) : PeerWatch × List Answer :=
  let (db, answer) := w.db.perform settings i.1 i.2
  (⟨db, w.record.note i.1 i.2⟩, [answer])

/-- The operation answers by the latest records, and a view drops no live one. -/
structure Faithful (w : PeerWatch) (i : Int × Op) : Prop where
  answer : ∀ a, w.record.answer settings i.1 i.2 = some a → (w.step settings i).2 = [a]
  keeps : i.2.IsRead → w.db.Keeps settings i.1 (w.step settings i).1.db

/-- Where the detailed blacklist is read, the hosts blacklisted within the time for blacklisted ones
are those suspended within it, since the same time, and no suspension that is older is live. -/
structure Undisturbed (w : PeerWatch) (i : Int × Op) : Prop where
  same : i.2 = .detailedBlacklist →
    Dict.prune (i.1 - settings.blackListResidenceTime) w.db.blacklist
      = Dict.prune (i.1 - settings.blackListResidenceTime) w.db.suspension
  recent : i.2 = .detailedBlacklist → ∀ h t, w.db.suspension.lookup h = some t →
    i.1 - settings.suspensionResidenceTime ≤ t → i.1 - settings.blackListResidenceTime ≤ t

/-- What is known of the database once its clock has shown `now`. -/
structure Agrees (settings : NetworkSettings) (now : Int) (w : PeerWatch) : Prop where
  blacklist : Dict.Tracks (now - settings.blackListResidenceTime)
    (w.record.blacklistings.mapValues fun _ e => e.1) w.db.blacklist
  suspension : Dict.Tracks (now - settings.suspensionResidenceTime) w.record.suspensions
    w.db.suspension
  reasons : ∀ h, w.db.reasons.lookup h = (w.record.blacklistings.lookup h).map Prod.snd

variable {settings} {now later : Int} {w : PeerWatch} {op : Op}

/-- A database that agrees with the record agrees with it later. -/
theorem Agrees.mono (h : Agrees settings now w) (hle : now ≤ later) : Agrees settings later w where
  blacklist := h.blacklist.mono (Int.sub_le_sub_right hle _)
  suspension := h.suspension.mono (Int.sub_le_sub_right hle _)
  reasons := h.reasons

/-- A read leaves the database in agreement with what is known. -/
theorem Agrees.of_prunes (h : Agrees settings now w) {db : PeerDatabaseImpl}
    (hdb : Prunes settings now w.db db) : Agrees settings now ⟨db, w.record⟩ where
  blacklist := h.blacklist.trans hdb.blacklist
  suspension := h.suspension.trans hdb.suspension
  reasons := fun host => by
    show db.reasons.lookup host = _
    rw [hdb.reasons]
    exact h.reasons host

/-- A new database agrees with the empty record. -/
theorem create_agrees : Agrees settings now (create settings) := by
  have hmaps (l : List SocketAddress) (db : PeerDatabaseImpl) :
      (l.foldl (fun db a => db.doTouch a Int64.maxValue.toInt) db).blacklist = db.blacklist ∧
      (l.foldl (fun db a => db.doTouch a Int64.maxValue.toInt) db).suspension = db.suspension ∧
      (l.foldl (fun db a => db.doTouch a Int64.maxValue.toInt) db).reasons = db.reasons := by
    induction l generalizing db with
    | nil => exact ⟨rfl, rfl, rfl⟩
    | cons a l ih => exact ih _
  obtain ⟨hblacklist, hsuspension, hreasons⟩ := hmaps settings.knownPeers ⟨∅, ∅, ∅, ∅, []⟩
  constructor
  · show Dict.Tracks _ _ (PeerDatabaseImpl.create settings).blacklist
    rw [PeerDatabaseImpl.create, hblacklist]
    show Dict.Tracks _ (Dict.mapValues _ ∅) ∅
    rw [Dict.mapValues_empty]
    exact Dict.tracks_refl
  · show Dict.Tracks _ _ (PeerDatabaseImpl.create settings).suspension
    rw [PeerDatabaseImpl.create, hsuspension]
    exact Dict.tracks_refl
  · intro h
    show (PeerDatabaseImpl.create settings).reasons.lookup h = _
    rw [PeerDatabaseImpl.create, hreasons]
    rfl

/-- The views other than the detailed blacklist, and every other read, only prune. -/
theorem step_prunes (hop : op.IsRead) (hundisturbed : Undisturbed settings w (now, op)) :
    Prunes settings now w.db (w.step settings (now, op)).1.db := by
  cases op with
  | knownPeers => exact knownPeers_prunes
  | blacklistedHosts => exact blacklistedHosts_prunes
  | suspendedHosts => exact suspendedHosts_prunes
  | detailedBlacklist => exact detailedBlacklist_prunes (hundisturbed.recent rfl)
  | detailedSuspended => exact detailedSuspended_prunes
  | randomPeer random excluded => exact randomPeer_prunes random excluded
  | touch | addCandidate | blacklist | suspend | clearBlacklist => exact hop.elim

/-- A reading operation leaves the record. -/
theorem note_of_isRead (hop : op.IsRead) : w.record.note now op = w.record := by
  cases op with
  | knownPeers | blacklistedHosts | suspendedHosts | detailedBlacklist | detailedSuspended
  | randomPeer => rfl
  | touch | addCandidate | blacklist | suspend | clearBlacklist => exact hop.elim

/-- An operation that is not disturbed keeps the database in agreement with the record. -/
theorem Agrees.perform (h : Agrees settings now w) (hundisturbed : Undisturbed settings w (now, op)) :
    Agrees settings now (w.step settings (now, op)).1 := by
  by_cases hread : op.IsRead
  · have hpruned := h.of_prunes (step_prunes hread hundisturbed)
    rwa [← note_of_isRead hread] at hpruned
  -- The operations that are left write to the database what the record notes.
  cases op with
  | touch a => exact ⟨h.blacklist, h.suspension, h.reasons⟩
  | addCandidate a =>
      show Agrees settings now ⟨(w.db.perform settings now (.addCandidate a)).1, w.record⟩
      rw [perform]
      split
      · rename_i r db hdb
        rw [addCandidate] at hdb
        obtain ⟨address, -, hdb⟩ := bind_eq_ok_iff.mp hdb
        obtain ⟨-, rfl⟩ := Prod.mk.inj (Except.ok.inj hdb)
        split
        · exact h.of_prunes (prunes_queue _)
        · exact h
      · exact h
  | blacklist a reason =>
      show Agrees settings now ⟨w.db.addToBlacklist now a reason, w.record.note now _⟩
      rw [addToBlacklist, PeerRecord.note]
      cases a.getAddress with
      | none => exact h
      | some host =>
          constructor
          · have hinsert := h.blacklist.insert host now
            rw [← Dict.mapValues_insert (fun _ e => e.1) _ host (now, reason)] at hinsert
            exact hinsert
          · exact h.suspension
          · intro k
            show (w.db.reasons.insert host reason).lookup k
              = ((w.record.blacklistings.insert host (now, reason)).lookup k).map Prod.snd
            rw [Dict.lookup_insert_eq, Dict.lookup_insert_eq]
            split
            · rfl
            · exact h.reasons k
  | suspend a =>
      show Agrees settings now ⟨w.db.suspend now a, w.record.note now _⟩
      rw [PeerDatabaseImpl.suspend, PeerRecord.note]
      cases a.getAddress with
      | none => exact h
      | some host => exact ⟨h.blacklist, h.suspension.insert host now, h.reasons⟩
  | clearBlacklist =>
      refine ⟨?_, h.suspension, fun k => rfl⟩
      show Dict.Tracks _ (Dict.mapValues _ ∅) ∅
      rw [Dict.mapValues_empty]
      exact Dict.tracks_refl
  | knownPeers | blacklistedHosts | suspendedHosts | detailedBlacklist | detailedSuspended
  | randomPeer => exact (hread trivial).elim

/-- The live blacklistings are those of the map. -/
theorem Agrees.prune_blacklist (h : Agrees settings now w) :
    Dict.prune (now - settings.blackListResidenceTime) w.db.blacklist
      = (w.record.liveBlacklistings settings now).mapValues fun _ e => e.1 := by
  rw [h.blacklist.prune_eq]
  refine Finmap.ext_lookup fun k => ?_
  rw [Dict.lookup_prune, Dict.lookup_mapValues, Dict.lookup_mapValues,
    PeerRecord.liveBlacklistings, Dict.lookup_filterValues, Option.filter_map]
  rfl

/-- The live suspensions are those of the map. -/
theorem Agrees.prune_suspension (h : Agrees settings now w) :
    Dict.prune (now - settings.suspensionResidenceTime) w.db.suspension
      = w.record.liveSuspensions settings now := h.suspension.prune_eq

/-- The detailed blacklist is right exactly if the times it shows are those of the blacklist. -/
theorem Agrees.detailedBlacklist_eq_iff (h : Agrees settings now w) :
    (w.db.detailedBlacklist settings now).1 = w.record.liveBlacklistings settings now ↔
      Dict.prune (now - settings.blackListResidenceTime) w.db.blacklist
        = Dict.prune (now - settings.blackListResidenceTime) w.db.suspension := by
  have hshown : (w.db.detailedBlacklist settings now).1
      = (Dict.prune (now - settings.blackListResidenceTime) w.db.suspension).mapValues
          fun host t => (t, (w.db.reasons.lookup host).getD "") := by
    rw [← removeObsoleteRecords_eq]
    rfl
  rw [hshown, h.prune_blacklist]
  constructor
  · intro heq
    rw [← heq]
    refine Finmap.ext_lookup fun host => ?_
    rw [Dict.lookup_mapValues, Dict.lookup_mapValues, Option.map_map]
    exact congrFun Option.map_id _
  · intro heq
    rw [← heq]
    refine Finmap.ext_lookup fun host => ?_
    rw [Dict.lookup_mapValues, Dict.lookup_mapValues, Option.map_map]
    cases hlive : (w.record.liveBlacklistings settings now).lookup host with
    | none => rfl
    | some e =>
        -- the reason is put down with the time
        have hfull : w.record.blacklistings.lookup host = some e := by
          rw [PeerRecord.liveBlacklistings, Dict.lookup_filterValues,
            Option.filter_eq_some_iff] at hlive
          exact hlive.1
        have hreason := h.reasons host
        rw [hfull] at hreason
        show some (e.1, (w.db.reasons.lookup host).getD "") = some e
        rw [hreason]
        rfl

/-- In agreement, an operation is faithful exactly if it is not disturbed. -/
theorem Agrees.faithful_iff (h : Agrees settings now w) :
    Faithful settings w (now, op) ↔ Undisturbed settings w (now, op) := by
  constructor
  -- Of the operations only `detailedBlacklist` can be disturbed.
  · intro hfaithful
    constructor
    · intro hop
      obtain rfl : op = .detailedBlacklist := hop
      have hanswer := hfaithful.answer _ rfl
      exact h.detailedBlacklist_eq_iff.mp (Answer.blacklisted.inj (List.singleton_inj.mp hanswer))
    · intro hop host t ht hlive
      obtain rfl : op = .detailedBlacklist := hop
      have hkept := (hfaithful.keeps trivial).suspension host t ht hlive
      change (removeObsoleteRecords now w.db.suspension _).lookup host = some t at hkept
      rw [removeObsoleteRecords_eq, Dict.lookup_prune_eq_some] at hkept
      exact hkept.2
  · intro hundisturbed
    refine ⟨?_, fun hread => (step_prunes hread hundisturbed).keeps⟩
    intro a ha
    cases op with
    | blacklistedHosts =>
        obtain rfl := Option.some.inj ha
        show [Answer.hosts (removeObsoleteRecords now w.db.blacklist _).keys] = _
        rw [removeObsoleteRecords_eq, h.prune_blacklist, Dict.keys_mapValues]
    | suspendedHosts =>
        obtain rfl := Option.some.inj ha
        show [Answer.hosts (removeObsoleteRecords now w.db.suspension _).keys] = _
        rw [removeObsoleteRecords_eq, h.prune_suspension]
    | detailedBlacklist =>
        obtain rfl := Option.some.inj ha
        show [Answer.blacklisted (w.db.detailedBlacklist settings now).1] = _
        rw [h.detailedBlacklist_eq_iff.mpr (hundisturbed.same rfl)]
    | detailedSuspended =>
        obtain rfl := Option.some.inj ha
        show [Answer.suspended (removeObsoleteRecords now w.db.suspension _)] = _
        rw [removeObsoleteRecords_eq, h.prune_suspension]
    | touch | addCandidate | blacklist | suspend | clearBlacklist | knownPeers | randomPeer =>
        cases ha

/-- A run from a database in agreement. -/
theorem Agrees.along_iff {l : List (Int × Op)} (h : Agrees settings now w)
    (hnow : ∀ i ∈ l, now ≤ i.1) (horder : (l.map Prod.fst).Pairwise (· ≤ ·)) :
    Transducer.Along (step settings) (Faithful settings) w l ↔
      Transducer.Along (step settings) (Undisturbed settings) w l := by
  induction l generalizing now w with
  | nil => exact Iff.rfl
  | cons i l ih =>
      obtain ⟨hlater, horder⟩ := List.pairwise_cons.mp horder
      have hi : Agrees settings i.1 w := h.mono (hnow i List.mem_cons_self)
      rw [Transducer.along_cons, Transducer.along_cons, hi.faithful_iff]
      refine and_congr_right fun hundisturbed => ?_
      exact ih (hi.perform hundisturbed) (fun j hj => hlater j.1 (List.mem_map_of_mem hj)) horder

/-- In a run whose clock does not go back, every view answers by the latest blacklistings and
suspensions and no read drops a live record, exactly if at every reading of the detailed blacklist
the suspensions within its time are the blacklistings, and no older suspension is live. -/
theorem faithful_iff_undisturbed (settings : NetworkSettings) (l : List (Int × Op))
    (horder : (l.map Prod.fst).Pairwise (· ≤ ·)) :
    Transducer.Along (step settings) (Faithful settings) (create settings) l ↔
      Transducer.Along (step settings) (Undisturbed settings) (create settings) l := by
  -- The clock starts with the first operation, and no later one is before it.
  cases l with
  | nil => exact Iff.rfl
  | cons i l =>
      have hcreated : Agrees settings i.1 (create settings) := create_agrees
      refine hcreated.along_iff ?_ horder
      intro j hj
      obtain rfl | hj := List.mem_cons.mp hj
      · exact le_rfl
      · exact (List.pairwise_cons.mp horder).1 j.1 (List.mem_map_of_mem hj)

end PeerWatch

namespace Sample

open PeerDatabaseImpl

/-- Settings by which a host is suspended for longer than it is blacklisted. -/
def peerSettings : NetworkSettings := ⟨.resolved localhost, [], 1000, 50, 10, 100⟩

/-- A host is blacklisted, and shown. -/
def blacklisting : List (Int × Op) :=
  [(0, .blacklist (.resolved localhost) "spam"), (1, .detailedBlacklist)]

/-- The host that was just blacklisted is not shown. -/
theorem blacklisting_hidden : (blacklisting.map Prod.fst).Pairwise (· ≤ ·) ∧
    ¬ Transducer.Along (PeerWatch.step peerSettings) (PeerWatch.Faithful peerSettings)
      (PeerWatch.create peerSettings) blacklisting := by
  refine ⟨by decide, ?_⟩
  rintro ⟨-, hshown, -⟩
  have heq := Answer.blacklisted.inj (List.singleton_inj.mp (hshown.answer _ rfl))
  have hlookup := congrArg (Finmap.lookup localhost.address) heq
  exact absurd hlookup (by decide +kernel)

/-- A host is suspended and blacklisted at one time, and both views are read. -/
def banning : List (Int × Op) :=
  [(0, .suspend (.resolved localhost)), (0, .blacklist (.resolved localhost) "spam"),
    (1, .detailedBlacklist), (2, .suspendedHosts)]

/-- In the sample's run the bans and the suspensions agree wherever the detailed blacklist is
read. -/
theorem banning_undisturbed :
    Transducer.Along (PeerWatch.step peerSettings) (PeerWatch.Undisturbed peerSettings)
      (PeerWatch.create peerSettings) banning := by
  have hother (w : PeerWatch) (now : Int) (op : Op) (hop : op ≠ .detailedBlacklist) :
      PeerWatch.Undisturbed peerSettings w (now, op) :=
    ⟨fun h => absurd h hop, fun h => absurd h hop⟩
  refine ⟨hother _ _ _ ?_, hother _ _ _ ?_, ⟨fun _ => ?_, fun _ h t ht hlive => ?_⟩,
    hother _ _ _ ?_, trivial⟩
  · rintro ⟨⟩
  · rintro ⟨⟩
  · decide +kernel
  · change ((∅ : Dict InetAddress Int).insert localhost.address 0).lookup h = some t at ht
    rw [Dict.lookup_insert_eq] at ht
    split at ht
    · obtain rfl := Option.some.inj ht
      decide
    · cases ht
  · rintro ⟨⟩

/-- Both views show the host, and it stays suspended. -/
theorem banning_faithful :
    Transducer.Along (PeerWatch.step peerSettings) (PeerWatch.Faithful peerSettings)
      (PeerWatch.create peerSettings) banning :=
  (PeerWatch.faithful_iff_undisturbed peerSettings banning (by decide)).mpr banning_undisturbed

end Sample

end Vsys
