/-
  Badnet.Dos.ClientConns — the counts of concurrent client connections (`core/or/dos.c`), kept in the entries of the
  client history (`feature/stats/geoip_stats.c`).

  An entry stands for an address, a pluggable transport or none, and an action; a connection is counted on one when its
  channel opens, and carries a flag from then on. Closing looks the entry up without a transport, and the expiry of an
  entry that counts something clears the flags of all connections from its address. `counts_right_iff` says in which
  runs the counts are right; what a connection was counted on is recorded for that.
-/

import Mathlib.Data.List.Nodup
import Badnet.Lib.Intrusive
import Badnet.Lib.Run
import Badnet.Net.Address

namespace Badnet.Dos

open Lib Net

/-! ## Token buckets -/

structure TokenBucketCtr where
  rate : UInt32
  burst : Int32
  bucket : Int32
  lastRefilledAtTimestamp : UInt32
  deriving DecidableEq, Repr

def TOKEN_BUCKET_MAX_BURST : UInt32 := 0x7fffffff

/-- The bucket starts out full. -/
def tokenBucketCtrInit (rate burst nowTs : UInt32) : TokenBucketCtr :=
  let burst := if burst > TOKEN_BUCKET_MAX_BURST then TOKEN_BUCKET_MAX_BURST else burst
  ⟨rate, burst.toInt32, burst.toInt32, nowTs⟩

variable (b : TokenBucketCtr)

def tokenBucketRawRefillSteps (elapsed : UInt32) : Int32 :=
  let gap := b.burst.toInt64.toUInt64 - b.bucket.toInt64.toUInt64
  if elapsed.toUInt64 > gap / b.rate.toUInt64 then b.burst
  else (b.bucket.toUInt32 + b.rate * elapsed).toInt32

def tokenBucketCtrRefill (nowTs : UInt32) : TokenBucketCtr :=
  let elapsedTicks := nowTs - b.lastRefilledAtTimestamp
  if elapsedTicks > 0xffffffff - 300 * 1000 then b
  else { b with bucket := tokenBucketRawRefillSteps b elapsedTicks, lastRefilledAtTimestamp := nowTs }

def tokenBucketCtrGet : Nat := b.bucket.toInt.toNat

def tokenBucketCtrDec (n : Int32) : TokenBucketCtr := { b with bucket := b.bucket - n }

/-! ## Entries and connections -/

structure ConnClientStats where
  concurrentCount : UInt32
  connectCount : TokenBucketCtr
  markedUntilTs : Int
  deriving DecidableEq, Repr

inductive GeoipClientAction where
  | GEOIP_CLIENT_CONNECT
  | GEOIP_CLIENT_NETWORKSTATUS
  deriving DecidableEq, Repr

structure ClientmapEntry where
  /-- which allocation this is -/
  obj : Nat
  addr : TorAddr
  transportName : Option (List UInt8)
  lastSeenInMinutes : Nat
  action : GeoipClientAction
  connStats : ConnClientStats
  deriving DecidableEq, Repr

structure OrConnection where
  ident : Nat
  addr : TorAddr
  trackedForDosMitigation : Bool
  /-- its channel has opened -/
  opened : Bool
  /-- the entry it was counted on -/
  countedOn : Nat
  deriving DecidableEq, Repr

structure St where
  clientHistory : List ClientmapEntry
  conns : List OrConnection
  nextObj : Nat
  nextIdent : Nat
  /-- the branch of `conn_update_on_close` for a count of 0 was taken -/
  closeBug : Bool
  deriving DecidableEq, Repr

def init : St := ⟨[], [], 0, 0, false⟩

/-- What a call finds in the options, the consensus, the clocks and the node list. -/
structure Env where
  dosCcEnabled : Bool
  dosConnEnabled : Bool
  entryStatistics : Bool
  recordBridgeInfo : Bool
  dirReqStatistics : Bool
  bridgeAuthoritativeDir : Bool
  dosConnConnectRate : UInt32
  dosConnConnectBurst : UInt32
  dosConnConnectDefenseTimePeriod : Int
  /-- `crypto_rand_int_range` -/
  rand : Int
  approxTime : Int
  now : Int
  nodelistProbablyContainsAddress : TorAddr → Bool

variable (env : Env)

def dosIsEnabled : Bool := env.dosCcEnabled || env.dosConnEnabled

/-! ## The client history -/

def clientmapEntriesEq (a : ClientmapEntry) (addr : TorAddr) (transportName : Option (List UInt8))
    (action : GeoipClientAction) : Bool :=
  if a.transportName ≠ transportName then false
  else torAddrCompare a.addr addr .CMP_EXACT = 0 && decide (a.action = action)

def geoipLookupClient (history : List ClientmapEntry) (addr : TorAddr) (transportName : Option (List UInt8))
    (action : GeoipClientAction) : Option ClientmapEntry :=
  history.find? fun a => clientmapEntriesEq a addr transportName action

/-- `clientmap_entry_new` with `dos_geoip_entry_init` -/
def clientmapEntryNew (obj : Nat) (action : GeoipClientAction) (addr : TorAddr) (transportName : Option (List UInt8)) :
    ClientmapEntry :=
  ⟨obj, addr, transportName, 0, action,
    ⟨0, tokenBucketCtrInit env.dosConnConnectRate env.dosConnConnectBurst (UInt32.ofInt env.approxTime), 0⟩⟩

variable (s : St)

/-- The entry changes where it is. -/
def modifyEntry (obj : Nat) (f : ClientmapEntry → ClientmapEntry) : St :=
  { s with clientHistory := s.clientHistory.map fun e => if e.obj = obj then f e else e }

def MAX_LAST_SEEN_IN_MINUTES : Int := 0x3fffffff

def lastSeen (now : Int) : Nat :=
  if now.tdiv 60 ≤ MAX_LAST_SEEN_IN_MINUTES ∧ now ≥ 0 then (now.tdiv 60).toNat else 0

/-- Whether a client seen is to be noted. -/
def geoipShouldNote : GeoipClientAction → Bool
  | .GEOIP_CLIENT_CONNECT => dosIsEnabled env || env.entryStatistics || env.recordBridgeInfo
  | .GEOIP_CLIENT_NETWORKSTATUS => env.dirReqStatistics && !env.bridgeAuthoritativeDir

/-- The entry for the client is made if there is none. -/
def ensureEntry (s : St) (action : GeoipClientAction) (addr : TorAddr) (transportName : Option (List UInt8)) :
    St × Nat :=
  match geoipLookupClient s.clientHistory addr transportName action with
  | some ent => (s, ent.obj)
  | none =>
    ({ s with
        clientHistory := clientmapEntryNew env s.nextObj action addr transportName :: s.clientHistory
        nextObj := s.nextObj + 1 }, s.nextObj)

def geoipNoteClientSeen (s : St) (action : GeoipClientAction) (addr : TorAddr) (transportName : Option (List UInt8)) :
    St :=
  if geoipShouldNote env action then
    let (s, obj) := ensureEntry env s action addr transportName
    modifyEntry s obj fun ent => { ent with lastSeenInMinutes := lastSeen env.now }
  else s

/-! ## Connections -/

def modifyConn (ident : Nat) (f : OrConnection → OrConnection) : St :=
  { s with conns := s.conns.map fun c => if c.ident = ident then f c else c }

variable (stats : ConnClientStats)

def connMarkClient : ConnClientStats :=
  { stats with markedUntilTs := env.approxTime + env.dosConnConnectDefenseTimePeriod + env.rand }

def connUpdateOnConnect : ConnClientStats :=
  let connectCount := tokenBucketCtrRefill stats.connectCount (UInt32.ofInt env.approxTime)
  let connectCount := if tokenBucketCtrGet connectCount > 0 then tokenBucketCtrDec connectCount 1 else connectCount
  let stats : ConnClientStats := ⟨stats.concurrentCount + 1, connectCount, stats.markedUntilTs⟩
  if tokenBucketCtrGet connectCount = 0 ∧ stats.markedUntilTs = 0 then connMarkClient env stats else stats

def dosNewClientConn (s : St) (conn : OrConnection) (transportName : Option (List UInt8)) : St :=
  if ¬ dosIsEnabled env then s
  else if env.nodelistProbablyContainsAddress conn.addr then s
  else
    match geoipLookupClient s.clientHistory conn.addr transportName .GEOIP_CLIENT_CONNECT with
    | none => s
    | some entry =>
      let s := modifyEntry s entry.obj fun e => { e with connStats := connUpdateOnConnect env e.connStats }
      modifyConn s conn.ident fun c => { c with trackedForDosMitigation := true, countedOn := entry.obj }

/-- The count goes down unless it is 0. -/
def connUpdateOnClose (entry : ClientmapEntry) : St :=
  if entry.connStats.concurrentCount = 0 then { s with closeBug := true }
  else
    modifyEntry s entry.obj fun e =>
      { e with connStats := { e.connStats with concurrentCount := e.connStats.concurrentCount - 1 } }

def dosCloseClientConn (conn : OrConnection) : St :=
  if ¬ conn.trackedForDosMitigation then s
  else
    match geoipLookupClient s.clientHistory conn.addr none .GEOIP_CLIENT_CONNECT with
    | none => s
    | some entry => connUpdateOnClose s entry

variable (conns : List OrConnection)

/-- The flags of the connections from the address are cleared. -/
def dosGeoipEntryAboutToFree (ent : ClientmapEntry) : List OrConnection :=
  if ent.connStats.concurrentCount = 0 then conns
  else
    conns.map fun c =>
      if torAddrCompare ent.addr c.addr .CMP_EXACT = 0 then { c with trackedForDosMitigation := false } else c

variable (old : ClientmapEntry → Bool)

/-- The entries of a kind are freed, one after the other. -/
def freeEntries : St :=
  { s with
    conns := (s.clientHistory.filter old).foldl dosGeoipEntryAboutToFree s.conns
    clientHistory := s.clientHistory.filter fun e => !old e }

variable (cutoff : Int)

def isOld (ent : ClientmapEntry) : Bool := (ent.lastSeenInMinutes : Int) < cutoff.tdiv 60

def geoipRemoveOldClients : St := freeEntries s (isOld cutoff)

def oomCleanClientEntries : St := freeEntries s (isOld cutoff)

def clientHistoryClear : St := freeEntries s fun ent => ent.action = .GEOIP_CLIENT_CONNECT

/-! ## Runs -/

/-- `MAX_CAPACITY` of a smartlist -/
def MAX_CAPACITY : Nat := 2 ^ 31 - 1

inductive Op where
  /-- an incoming connection enters the connection array -/
  | accept (addr : TorAddr)
  /-- the channel of a client opens -/
  | clientOpened (env : Env) (ident : Nat) (transportName : Option (List UInt8))
  /-- a directory request -/
  | dirRequest (env : Env) (addr : TorAddr)
  | close (ident : Nat)
  | removeOldClients (cutoff : Int)
  | oomClean (cutoff : Int)
  | historyClear

def findConn (ident : Nat) : Option OrConnection := s.conns.find? fun c => c.ident = ident

def step : Op → Option St
  | .accept addr =>
    if s.conns.length + 1 > MAX_CAPACITY then none
    else some { s with conns := ⟨s.nextIdent, addr, false, false, 0⟩ :: s.conns, nextIdent := s.nextIdent + 1 }
  | .clientOpened env ident transportName =>
    (findConn s ident).bind fun c =>
      if c.opened then none
      else
        let s := geoipNoteClientSeen env s .GEOIP_CLIENT_CONNECT c.addr transportName
        let s := modifyConn s ident fun c => { c with opened := true }
        some (dosNewClientConn env s c transportName)
  | .dirRequest env addr => some (geoipNoteClientSeen env s .GEOIP_CLIENT_NETWORKSTATUS addr none)
  | .close ident =>
    (findConn s ident).map fun c => dosCloseClientConn { s with conns := s.conns.filter fun c => c.ident ≠ ident } c
  | .removeOldClients cutoff => some (geoipRemoveOldClients s cutoff)
  | .oomClean cutoff => some (oomCleanClientEntries s cutoff)
  | .historyClear => some (clientHistoryClear s)

/-! ## Counts -/

/-- The connections that carry the flag and were counted on the entry. -/
def trackedOn (obj : Nat) : Nat :=
  conns.countP fun c => c.trackedForDosMitigation && decide (c.countedOn = obj)

/-- Every count is right, and no close met a count of 0. -/
def CountsRight : Prop :=
  (∀ e ∈ s.clientHistory, e.connStats.concurrentCount.toNat = trackedOn s.conns e.obj) ∧ s.closeBug = false

/-- An entry that counts something is not freed beside another one of its address that does and stays. -/
def FreeKeeps : Prop :=
  ∀ e ∈ s.clientHistory, old e = true → e.connStats.concurrentCount ≠ 0 →
    ∀ e' ∈ s.clientHistory, old e' = false → e'.addr = e.addr → e'.connStats.concurrentCount = 0

/-- The step closes no counted connection with a transport, and frees entries as above. -/
def Keeps : Op → Prop
  | .close ident => ∀ c ∈ findConn s ident, c.trackedForDosMitigation = true →
      ∀ e ∈ s.clientHistory, e.obj = c.countedOn → e.transportName = none
  | .removeOldClients cutoff => FreeKeeps s (isOld cutoff)
  | .oomClean cutoff => FreeKeeps s (isOld cutoff)
  | .historyClear => FreeKeeps s fun ent => ent.action = .GEOIP_CLIENT_CONNECT
  | _ => True

/-! ## Entries by what they stand for -/

/-- What no operation changes in an entry. -/
structure Sig where
  obj : Nat
  addr : TorAddr
  transportName : Option (List UInt8)
  action : GeoipClientAction

def ClientmapEntry.sig (e : ClientmapEntry) : Sig := ⟨e.obj, e.addr, e.transportName, e.action⟩

theorem ClientmapEntry.sig_connStats (e : ClientmapEntry) (stats : ConnClientStats) :
    ({ e with connStats := stats } : ClientmapEntry).sig = e.sig := rfl

def sigs : List Sig := s.clientHistory.map (·.sig)

structure EntriesOk (gs : List Sig) (next : Nat) : Prop where
  objs : (gs.map (·.obj)).Nodup
  objsLt : ∀ g ∈ gs, g.obj < next
  keys : ∀ g ∈ gs, ∀ g' ∈ gs, g.addr = g'.addr → g.transportName = g'.transportName → g.action = g'.action → g = g'

structure ConnsOk (conns : List OrConnection) (next : Nat) (gs : List Sig) : Prop where
  idents : (conns.map (·.ident)).Nodup
  identsLt : ∀ c ∈ conns, c.ident < next
  capacity : conns.length ≤ MAX_CAPACITY
  unopened : ∀ c ∈ conns, c.opened = false → c.trackedForDosMitigation = false
  counted : ∀ c ∈ conns, c.trackedForDosMitigation = true →
    ∃ g ∈ gs, g.obj = c.countedOn ∧ g.addr = c.addr ∧ g.action = .GEOIP_CLIENT_CONNECT

structure WellFormed (s : St) : Prop where
  entries : EntriesOk (sigs s) s.nextObj
  conns : ConnsOk s.conns s.nextIdent (sigs s)

theorem init_wellFormed : WellFormed init :=
  ⟨⟨List.nodup_nil, nofun, nofun⟩, ⟨List.nodup_nil, nofun, Nat.zero_le _, nofun, nofun⟩⟩

theorem init_countsRight : CountsRight init := ⟨nofun, rfl⟩

section
variable {s : St}

variable {e : ClientmapEntry} {addr : TorAddr} {transportName : Option (List UInt8)} {action : GeoipClientAction}
  {c : OrConnection} {f : ClientmapEntry → ClientmapEntry}

theorem WellFormed.obj_inj (h : WellFormed s) {e' : ClientmapEntry} (he : e ∈ s.clientHistory)
    (he' : e' ∈ s.clientHistory)
    (hobj : e.obj = e'.obj) : e = e' := by
  have hnd := h.entries.objs
  rw [sigs, List.map_map] at hnd
  exact List.inj_on_of_nodup_map hnd he he' hobj

theorem mem_sigs (he : e ∈ s.clientHistory) : e.sig ∈ sigs s := List.mem_map.mpr ⟨e, he, rfl⟩

theorem clientmapEntriesEq_iff : clientmapEntriesEq e addr transportName action = true ↔
      e.transportName = transportName ∧ e.addr = addr ∧ e.action = action := by
  unfold clientmapEntriesEq
  split
  next h => simp [h]
  next h => simp [not_not.mp h, torAddrCompare_eq_zero]

theorem lookup_some (hf : geoipLookupClient s.clientHistory addr transportName action = some e) :
    e ∈ s.clientHistory ∧ e.transportName = transportName ∧ e.addr = addr ∧ e.action = action := by
  have hkey : clientmapEntriesEq e addr transportName action = true := by
    have hsome := List.find?_some (p := fun a => clientmapEntriesEq a addr transportName action) hf
    exact hsome
  exact ⟨List.mem_of_find?_eq_some hf, clientmapEntriesEq_iff.mp hkey⟩

/-- A lookup finds the entry with the key. -/
theorem WellFormed.lookup (h : WellFormed s) (he : e ∈ s.clientHistory) (htr : e.transportName = transportName)
    (haddr : e.addr = addr) (hact : e.action = action) :
    geoipLookupClient s.clientHistory addr transportName action = some e := by
  cases hf : geoipLookupClient s.clientHistory addr transportName action with
  | none => exact absurd (clientmapEntriesEq_iff.mpr ⟨htr, haddr, hact⟩) (List.find?_eq_none.mp hf e he)
  | some e' =>
    obtain ⟨he', htr', haddr', hact'⟩ := lookup_some hf
    have hsig := h.entries.keys _ (mem_sigs he') _ (mem_sigs he) (haddr'.trans haddr.symm) (htr'.trans htr.symm)
      (hact'.trans hact.symm)
    rw [h.obj_inj he' he (congrArg Sig.obj hsig)]

theorem lookup_none
    (hf : geoipLookupClient s.clientHistory addr transportName action = none) (he : e ∈ s.clientHistory) :
    ¬ (e.transportName = transportName ∧ e.addr = addr ∧ e.action = action) := by
  have hnot := List.find?_eq_none.mp hf e he
  rwa [clientmapEntriesEq_iff] at hnot

theorem WellFormed.nodup (h : WellFormed s) : s.conns.Nodup := h.conns.idents.of_map _

theorem WellFormed.findConn (h : WellFormed s) {ident : Nat} :
    findConn s ident = some c ↔ c ∈ s.conns ∧ c.ident = ident :=
  find?_key_iff fun _ ha _ hb hab => List.inj_on_of_nodup_map h.conns.idents ha hb hab

/-- Nothing is counted on an object that is not there yet. -/
theorem WellFormed.trackedOn_fresh (h : WellFormed s) : trackedOn s.conns s.nextObj = 0 := by
  refine List.countP_eq_zero.mpr fun c hc hp => ?_
  obtain ⟨htr, hobj⟩ := Bool.and_eq_true_iff.mp hp
  obtain ⟨g, hg, hgo, -⟩ := h.conns.counted c hc htr
  have hlt := h.entries.objsLt g hg
  rw [hgo, of_decide_eq_true hobj] at hlt
  exact Nat.lt_irrefl _ hlt

/-- A connection that carries the flag was counted on an entry, which has its address. -/
theorem WellFormed.entry_of (h : WellFormed s) (hc : c ∈ s.conns) (ht : c.trackedForDosMitigation = true) :
    ∃ e ∈ s.clientHistory, e.obj = c.countedOn ∧ e.addr = c.addr ∧ e.action = .GEOIP_CLIENT_CONNECT := by
  obtain ⟨g, hg, hobj, haddr, hact⟩ := h.conns.counted c hc ht
  obtain ⟨e, he, rfl⟩ := List.mem_map.mp hg
  exact ⟨e, he, hobj, haddr, hact⟩

theorem trackedOn_pos {conns : List OrConnection} (hc : c ∈ conns) (ht : c.trackedForDosMitigation = true) :
    0 < trackedOn conns c.countedOn :=
  List.countP_pos_iff.mpr ⟨c, hc, by simp [ht]⟩

/-! ## Noting a client -/

theorem sigs_modifyEntry {obj : Nat} (hf : ∀ e, (f e).sig = e.sig) : sigs (modifyEntry s obj f) = sigs s := by
  unfold sigs modifyEntry
  rw [List.map_map]
  refine List.map_congr_left fun e _ => ?_
  simp only [Function.comp_apply]
  split
  · exact hf e
  · rfl

theorem WellFormed.modifyEntry (h : WellFormed s) (obj : Nat)
    (hf : ∀ e, (f e).sig = e.sig) : WellFormed (modifyEntry s obj f) := by
  have hsigs : sigs (Dos.modifyEntry s obj f) = sigs s := sigs_modifyEntry hf
  refine ⟨?_, ?_⟩
  · rw [hsigs]
    exact h.entries
  · rw [hsigs]
    exact h.conns

theorem ensureEntry_spec (h : WellFormed s) (hc : CountsRight s) (env : Env) (action : GeoipClientAction) (addr : TorAddr)
    (transportName : Option (List UInt8)) :
    let t := (ensureEntry env s action addr transportName).1
    WellFormed t ∧ CountsRight t ∧ t.conns = s.conns := by
  unfold ensureEntry
  cases hf : geoipLookupClient s.clientHistory addr transportName action with
  | some e => exact ⟨h, hc, rfl⟩
  | none =>
    have hnew : ∀ g ∈ sigs s, g.obj ≠ s.nextObj := fun g hg => Nat.ne_of_lt (h.entries.objsLt g hg)
    have hkey : ∀ g ∈ sigs s, ¬ (g.transportName = transportName ∧ g.addr = addr ∧ g.action = action) := by
      intro g hg
      obtain ⟨e, he, rfl⟩ := List.mem_map.mp hg
      exact lookup_none hf he
    refine ⟨⟨⟨?_, ?_, ?_⟩, ?_⟩, ⟨fun e he => ?_, hc.2⟩, rfl⟩
    · refine List.nodup_cons.mpr ⟨fun hm => ?_, h.entries.objs⟩
      obtain ⟨g, hg, hobj⟩ := List.mem_map.mp hm
      exact hnew g hg hobj
    · intro g hg
      rcases List.mem_cons.mp hg with rfl | hg
      · exact Nat.lt_succ_self _
      · exact Nat.lt_succ_of_lt (h.entries.objsLt g hg)
    · intro g hg g' hg' haddr htr hact
      rcases List.mem_cons.mp hg with rfl | hg
      · rcases List.mem_cons.mp hg' with rfl | hg'
        · rfl
        · exact absurd ⟨htr.symm, haddr.symm, hact.symm⟩ (hkey g' hg')
      · rcases List.mem_cons.mp hg' with rfl | hg'
        · exact absurd ⟨htr, haddr, hact⟩ (hkey g hg)
        · exact h.entries.keys g hg g' hg' haddr htr hact
    · refine ⟨h.conns.idents, h.conns.identsLt, h.conns.capacity, h.conns.unopened, fun c hcm ht => ?_⟩
      obtain ⟨g, hg, hrest⟩ := h.conns.counted c hcm ht
      exact ⟨g, List.mem_cons_of_mem _ hg, hrest⟩
    · rcases List.mem_cons.mp he with rfl | he
      · exact h.trackedOn_fresh.symm
      · exact hc.1 e he

theorem CountsRight.modifyEntry (hc : CountsRight s) (obj : Nat)
    (hobj : ∀ e, (f e).obj = e.obj) (hcount : ∀ e, (f e).connStats.concurrentCount = e.connStats.concurrentCount) :
    CountsRight (modifyEntry s obj f) := by
  refine ⟨fun e he => ?_, hc.2⟩
  obtain ⟨e0, he0, rfl⟩ := List.mem_map.mp he
  split
  · rw [hobj, hcount]
    exact hc.1 e0 he0
  · exact hc.1 e0 he0

/-- A note changes no count and no connection. -/
theorem note_spec (h : WellFormed s) (hc : CountsRight s) (env : Env) (action : GeoipClientAction) (addr : TorAddr)
    (transportName : Option (List UInt8)) :
    let t := geoipNoteClientSeen env s action addr transportName
    WellFormed t ∧ CountsRight t ∧ t.conns = s.conns := by
  unfold geoipNoteClientSeen
  split
  · obtain ⟨hw, hr, hconns⟩ := ensureEntry_spec h hc env action addr transportName
    exact ⟨hw.modifyEntry _ fun _ => rfl, hr.modifyEntry _ (fun _ => rfl) fun _ => rfl, hconns⟩
  · exact ⟨h, hc, rfl⟩

/-! ## Opening -/

theorem concurrentCount_connUpdateOnConnect :
    (connUpdateOnConnect env stats).concurrentCount = stats.concurrentCount + 1 := by
  unfold connUpdateOnConnect
  dsimp only
  split <;> split <;> rfl

theorem trackedOn_le (obj : Nat) : trackedOn conns obj ≤ conns.length := List.countP_le_length

/-- One connection changes. -/
theorem trackedOn_modifyConn (h : WellFormed s) (hc : c ∈ s.conns) (f : OrConnection → OrConnection) (obj : Nat) :
    trackedOn (modifyConn s c.ident f).conns obj + (if c.trackedForDosMitigation = true ∧ c.countedOn = obj then 1 else 0) =
      trackedOn s.conns obj + if (f c).trackedForDosMitigation = true ∧ (f c).countedOn = obj then 1 else 0 := by
  unfold trackedOn modifyConn
  rw [List.countP_map]
  let p (c : OrConnection) : Bool := c.trackedForDosMitigation && decide (c.countedOn = obj)
  let q (x : OrConnection) : Bool := if x.ident = c.ident then p (f x) else p x
  have hq : (p ∘ fun x => if x.ident = c.ident then f x else x) = q := by
    funext x
    simp only [Function.comp_apply, q]
    split <;> rfl
  have hmem : ∀ b ∈ s.conns, b ≠ c → b.ident ≠ c.ident := fun b hb hne hid =>
    hne (List.inj_on_of_nodup_map h.conns.idents hb hc hid)
  -- outside the list the two may differ, so compare the restrictions to it
  have hsame : s.conns.countP q = s.conns.countP fun x => if x = c then p (f x) else p x := by
    refine List.countP_congr fun b hb => ?_
    by_cases hbc : b = c
    · simp [q, hbc]
    · simp [q, hbc, hmem b hb hbc]
  have hchange := countP_change h.nodup hc (p := p) (q := fun x => if x = c then p (f x) else p x) fun b hb => if_neg hb
  rw [hq, hsame]
  simpa [p] using hchange

theorem ConnsOk.modifyConn {gs : List Sig} {n : Nat} (h : ConnsOk s.conns n gs) (ident : Nat) {f : OrConnection → OrConnection}
    (hident : ∀ c, (f c).ident = c.ident)
    (hopen : ∀ c ∈ s.conns, c.ident = ident → (f c).opened = false → (f c).trackedForDosMitigation = false)
    (hcount : ∀ c ∈ s.conns, c.ident = ident → (f c).trackedForDosMitigation = true →
      ∃ g ∈ gs, g.obj = (f c).countedOn ∧ g.addr = (f c).addr ∧ g.action = .GEOIP_CLIENT_CONNECT) :
    ConnsOk (modifyConn s ident f).conns n gs := by
  have hmap : (Dos.modifyConn s ident f).conns.map (·.ident) = s.conns.map (·.ident) := by
    unfold Dos.modifyConn
    rw [List.map_map]
    refine List.map_congr_left fun c _ => ?_
    simp only [Function.comp_apply]
    split
    · exact hident c
    · rfl
  refine ⟨?_, fun c hc => ?_, ?_, fun c hc => ?_, fun c hc => ?_⟩
  · rw [hmap]
    exact h.idents
  · obtain ⟨c0, hc0, rfl⟩ := List.mem_map.mp hc
    split
    · rw [hident]
      exact h.identsLt c0 hc0
    · exact h.identsLt c0 hc0
  · unfold Dos.modifyConn
    rw [List.length_map]
    exact h.capacity
  · obtain ⟨c0, hc0, rfl⟩ := List.mem_map.mp hc
    split
    next hid => exact hopen c0 hc0 hid
    · exact h.unopened c0 hc0
  · obtain ⟨c0, hc0, rfl⟩ := List.mem_map.mp hc
    split
    next hid => exact hcount c0 hc0 hid
    · exact h.counted c0 hc0

/-- A connection that was not counted is counted on the entry that is found. -/
theorem dosNewClientConn_spec (h : WellFormed s) (hr : CountsRight s) (env : Env) (hc : c ∈ s.conns)
    (hopen : c.opened = true) (hun : c.trackedForDosMitigation = false) (transportName : Option (List UInt8)) :
    WellFormed (dosNewClientConn env s c transportName) ∧ CountsRight (dosNewClientConn env s c transportName) := by
  unfold dosNewClientConn
  split
  · exact ⟨h, hr⟩
  split
  · exact ⟨h, hr⟩
  cases hf : geoipLookupClient s.clientHistory c.addr transportName .GEOIP_CLIENT_CONNECT with
  | none => exact ⟨h, hr⟩
  | some entry =>
    obtain ⟨hentry, -, haddr, hact⟩ := lookup_some hf
    let t := modifyEntry s entry.obj fun e => { e with connStats := connUpdateOnConnect env e.connStats }
    let u := modifyConn t c.ident fun c => { c with trackedForDosMitigation := true, countedOn := entry.obj }
    change WellFormed u ∧ CountsRight u
    have hwt : WellFormed t := h.modifyEntry entry.obj fun e => e.sig_connStats _
    have hsame : ∀ c' ∈ t.conns, c'.ident = c.ident → c' = c := fun c' hc' hid =>
      List.inj_on_of_nodup_map h.conns.idents hc' hc hid
    have hsigs : sigs t = sigs s := sigs_modifyEntry fun e => e.sig_connStats _
    have hcount : ∀ obj, trackedOn u.conns obj = trackedOn s.conns obj + if entry.obj = obj then 1 else 0 := by
      intro obj
      have hcount := trackedOn_modifyConn hwt hc (fun c => { c with trackedForDosMitigation := true, countedOn := entry.obj }) obj
      simp only [hun, Bool.false_eq_true, false_and, if_false, true_and] at hcount
      exact hcount
    have hle : ∀ obj, trackedOn u.conns obj ≤ MAX_CAPACITY := by
      intro obj
      refine Nat.le_trans (trackedOn_le u.conns obj) ?_
      simp only [u, modifyConn, List.length_map]
      exact h.conns.capacity
    refine ⟨⟨hwt.entries, hwt.conns.modifyConn c.ident (fun _ => rfl) ?_ ?_⟩, fun e he => ?_, hr.2⟩
    · intro c' hc' hid ho
      rw [hsame c' hc' hid, hopen] at ho
      cases ho
    · intro c' hc' hid _
      rw [hsame c' hc' hid, hsigs]
      exact ⟨entry.sig, mem_sigs hentry, rfl, haddr, hact⟩
    · obtain ⟨e0, he0, rfl⟩ := List.mem_map.mp he
      have hright := hr.1 e0 he0
      have hcount := hcount e0.obj
      have hle := hle e0.obj
      unfold MAX_CAPACITY at hle
      split
      next hobj =>
        rw [if_pos hobj.symm] at hcount
        change (connUpdateOnConnect env e0.connStats).concurrentCount.toNat = trackedOn u.conns e0.obj
        rw [concurrentCount_connUpdateOnConnect, UInt32.toNat_add, hright, hcount]
        exact Nat.mod_eq_of_lt (by rw [UInt32.toNat_one]; omega)
      next hobj =>
        rw [if_neg (Ne.symm hobj)] at hcount
        rw [hright, hcount]
        rfl

theorem clientOpened_spec (h : WellFormed s) (hr : CountsRight s) (env : Env) (hc : c ∈ s.conns)
    (hclosed : c.opened = false) (transportName : Option (List UInt8)) :
    let t := geoipNoteClientSeen env s .GEOIP_CLIENT_CONNECT c.addr transportName
    let u := dosNewClientConn env (modifyConn t c.ident fun c => { c with opened := true }) c transportName
    WellFormed u ∧ CountsRight u := by
  intro t u
  obtain ⟨hwt, hrt, hconns⟩ := note_spec h hr env .GEOIP_CLIENT_CONNECT c.addr transportName
  have hct : c ∈ t.conns := hconns ▸ hc
  have hun : c.trackedForDosMitigation = false := h.conns.unopened c hc hclosed
  let v := modifyConn t c.ident fun c => { c with opened := true }
  have hwv : WellFormed v := by
    refine ⟨hwt.entries, hwt.conns.modifyConn c.ident (fun _ => rfl) nofun fun c' hc' hid ht => ?_⟩
    exact hwt.conns.counted c' hc' ht
  have hrv : CountsRight v := by
    refine ⟨fun e he => ?_, hrt.2⟩
    have hcount := trackedOn_modifyConn hwt hct (fun c => { c with opened := true }) e.obj
    rw [hrt.1 e he]
    exact (Nat.add_right_cancel hcount).symm
  have hcv : { c with opened := true } ∈ v.conns := List.mem_map.mpr ⟨c, hct, if_pos rfl⟩
  exact dosNewClientConn_spec hwv hrv env hcv rfl hun transportName

/-! ## Closing -/

theorem trackedOn_remove (h : WellFormed s) (hc : c ∈ s.conns) (obj : Nat) :
    trackedOn (s.conns.filter fun x => x.ident ≠ c.ident) obj +
      (if c.trackedForDosMitigation = true ∧ c.countedOn = obj then 1 else 0) = trackedOn s.conns obj := by
  unfold trackedOn
  let p (c : OrConnection) : Bool := c.trackedForDosMitigation && decide (c.countedOn = obj)
  have hsame : (s.conns.filter fun x => x.ident ≠ c.ident).countP p = s.conns.countP fun x => p x && decide (x ≠ c) := by
    rw [List.countP_filter]
    refine List.countP_congr fun b hb => ?_
    have hid : b.ident = c.ident ↔ b = c :=
      ⟨fun hid => List.inj_on_of_nodup_map h.conns.idents hb hc hid, fun hbc => by rw [hbc]⟩
    simp [hid]
  have hchange := countP_change h.nodup hc (p := p) (q := fun x => p x && decide (x ≠ c)) fun b hb => by simp [hb]
  rw [hsame]
  simpa [p] using hchange

theorem WellFormed.remove (h : WellFormed s) (ident : Nat) :
    WellFormed { s with conns := s.conns.filter fun c => c.ident ≠ ident } := by
  have hsub : ∀ c ∈ s.conns.filter (fun c => c.ident ≠ ident), c ∈ s.conns := fun c hc => (List.mem_filter.mp hc).1
  exact ⟨h.entries, h.conns.idents.sublist (List.filter_sublist.map _), fun c hc => h.conns.identsLt c (hsub c hc),
    Nat.le_trans (List.length_filter_le _ _) h.conns.capacity, fun c hc => h.conns.unopened c (hsub c hc),
    fun c hc => h.conns.counted c (hsub c hc)⟩

/-- Closing keeps the counts right exactly if the connection does not carry the flag, or was counted on an entry
    without a transport. -/
theorem close_spec (h : WellFormed s) (hr : CountsRight s) (hc : c ∈ s.conns) :
    let t := dosCloseClientConn { s with conns := s.conns.filter fun x => x.ident ≠ c.ident } c
    WellFormed t ∧ (CountsRight t ↔ (c.trackedForDosMitigation = true →
      ∀ e ∈ s.clientHistory, e.obj = c.countedOn → e.transportName = none)) := by
  intro t
  have hwt := h.remove c.ident
  have hremove := trackedOn_remove h hc
  cases ht : c.trackedForDosMitigation with
  | false =>
    have hteq : t = { s with conns := s.conns.filter fun x => x.ident ≠ c.ident } := by
      simp [t, dosCloseClientConn, ht]
    rw [hteq]
    refine ⟨hwt, iff_of_true ⟨fun e he => ?_, hr.2⟩ nofun⟩
    have hsame := hremove e.obj
    simp only [ht, Bool.false_eq_true, false_and, if_false, Nat.add_zero] at hsame
    rw [hr.1 e he, ← hsame]
  | true =>
    obtain ⟨e0, he0, hobj, haddr, hact⟩ := h.entry_of hc ht
    have hcond : (true = true → ∀ e ∈ s.clientHistory, e.obj = c.countedOn → e.transportName = none) ↔
        e0.transportName = none := by
      refine ⟨fun hall => hall rfl e0 he0 hobj, fun hnone _ e he heo => ?_⟩
      rw [h.obj_inj he he0 (heo.trans hobj.symm)]
      exact hnone
    rw [hcond]
    -- one connection fewer on its entry
    have hless : trackedOn (s.conns.filter fun x => x.ident ≠ c.ident) e0.obj + 1 = trackedOn s.conns e0.obj := by
      have hsame := hremove e0.obj
      rwa [if_pos ⟨ht, hobj.symm⟩] at hsame
    have hright := hr.1 e0 he0
    have hteq : t = match geoipLookupClient s.clientHistory c.addr none .GEOIP_CLIENT_CONNECT with
        | none => { s with conns := s.conns.filter fun x => x.ident ≠ c.ident }
        | some entry => connUpdateOnClose { s with conns := s.conns.filter fun x => x.ident ≠ c.ident } entry := by
      simp [t, dosCloseClientConn, ht]
    by_cases hnone : e0.transportName = none
    · have hpos : e0.connStats.concurrentCount ≠ 0 := by
        intro hz
        rw [hz] at hright
        change 0 = _ at hright
        omega
      simp only [h.lookup he0 hnone haddr hact, connUpdateOnClose, if_neg hpos] at hteq
      rw [hteq]
      refine ⟨hwt.modifyEntry _ fun _ => rfl, iff_of_true ⟨fun e he => ?_, hr.2⟩ hnone⟩
      obtain ⟨e1, he1, rfl⟩ := List.mem_map.mp he
      split
      next heo =>
        rw [h.obj_inj he1 he0 heo]
        change (e0.connStats.concurrentCount - 1).toNat = trackedOn (s.conns.filter fun x => x.ident ≠ c.ident) e0.obj
        have hone : (1 : UInt32) ≤ e0.connStats.concurrentCount := by
          rw [UInt32.le_iff_toNat_le, UInt32.toNat_one]
          omega
        rw [UInt32.toNat_sub_of_le _ _ hone, UInt32.toNat_one]
        omega
      next heo =>
        have hsame := hremove e1.obj
        rw [if_neg fun hcnt => heo (hcnt.2.symm.trans hobj.symm), Nat.add_zero] at hsame
        change _ = trackedOn (s.conns.filter fun x => x.ident ≠ c.ident) e1.obj
        rw [hr.1 e1 he1, hsame]
    · -- the entry of the connection keeps its count
      have hwrong : ∀ u : St, u.conns = (s.conns.filter fun x => x.ident ≠ c.ident) → e0 ∈ u.clientHistory →
          ¬ CountsRight u := by
        intro u hu hmem hcr
        have hcount := hcr.1 e0 hmem
        rw [hu] at hcount
        omega
      cases hf : geoipLookupClient s.clientHistory c.addr none .GEOIP_CLIENT_CONNECT with
      | none =>
        rw [hf] at hteq
        rw [hteq]
        exact ⟨hwt, iff_of_false (hwrong _ rfl he0) hnone⟩
      | some e1 =>
        obtain ⟨he1, htr1, -⟩ := lookup_some hf
        have hne : e0.obj ≠ e1.obj := fun heo => hnone (h.obj_inj he0 he1 heo ▸ htr1)
        simp only [hf, connUpdateOnClose] at hteq
        rw [hteq]
        split
        · exact ⟨⟨hwt.entries, hwt.conns⟩, iff_of_false (hwrong _ rfl he0) hnone⟩
        · refine ⟨hwt.modifyEntry _ fun _ => rfl, iff_of_false (hwrong _ rfl ?_) hnone⟩
          exact List.mem_map.mpr ⟨e0, he0, if_neg hne⟩

/-! ## Freeing entries -/

variable (freed : List ClientmapEntry)

/-- The connection is from the address of an entry that counts something. -/
def Cleared (c : OrConnection) : Prop :=
  ∃ e ∈ freed, e.connStats.concurrentCount ≠ 0 ∧ e.addr = c.addr

instance (freed : List ClientmapEntry) (c : OrConnection) : Decidable (Cleared freed c) :=
  inferInstanceAs (Decidable (∃ e ∈ freed, e.connStats.concurrentCount ≠ 0 ∧ e.addr = c.addr))

def clearFlag (c : OrConnection) : OrConnection :=
  if Cleared freed c then { c with trackedForDosMitigation := false } else c

theorem clearFlag_eq_id {freed : List ClientmapEntry} (h : ∀ e ∈ freed, e.connStats.concurrentCount = 0) :
    clearFlag freed = id := by
  funext c
  refine if_neg fun hc => ?_
  obtain ⟨e, he, hne, -⟩ := hc
  exact hne (h e he)

/-- Freeing entries one after the other clears the flags of the connections from the addresses of those that count
    something. -/
theorem foldl_aboutToFree (conns : List OrConnection) :
    freed.foldl dosGeoipEntryAboutToFree conns = conns.map (clearFlag freed) := by
  induction freed generalizing conns with
  | nil => rw [clearFlag_eq_id (fun e he => absurd he List.not_mem_nil), List.map_id, List.foldl_nil]
  | cons e freed ih =>
    have hfirst : dosGeoipEntryAboutToFree conns e = conns.map (clearFlag [e]) := by
      unfold dosGeoipEntryAboutToFree
      split
      next hz => rw [clearFlag_eq_id (by simpa using hz), List.map_id]
      next hz =>
        refine List.map_congr_left fun c _ => ?_
        simp [clearFlag, Cleared, hz, torAddrCompare_eq_zero]
    rw [List.foldl_cons, ih, hfirst, List.map_map]
    refine List.map_congr_left fun c _ => ?_
    have hcons : Cleared (e :: freed) c ↔ Cleared [e] c ∨ Cleared freed c := by simp [Cleared]
    by_cases he : Cleared [e] c
    · have hsame : Cleared freed { c with trackedForDosMitigation := false } ↔ Cleared freed c := Iff.rfl
      by_cases hrest : Cleared freed c
      · simp [clearFlag, hcons, he, hrest, hsame]
      · simp [clearFlag, hcons, he, hrest, hsame]
    · simp [clearFlag, hcons, he]

theorem clearFlag_tracked {freed : List ClientmapEntry} :
    (clearFlag freed c).trackedForDosMitigation = true ↔ c.trackedForDosMitigation = true ∧ ¬ Cleared freed c := by
  unfold clearFlag
  split
  next h => simp [h]
  next h => simp [h]

@[simp] theorem clearFlag_ident (c : OrConnection) : (clearFlag freed c).ident = c.ident := by
  unfold clearFlag
  split <;> rfl

@[simp] theorem clearFlag_addr (c : OrConnection) : (clearFlag freed c).addr = c.addr := by
  unfold clearFlag
  split <;> rfl

@[simp] theorem clearFlag_opened (c : OrConnection) : (clearFlag freed c).opened = c.opened := by
  unfold clearFlag
  split <;> rfl

@[simp] theorem clearFlag_countedOn (c : OrConnection) : (clearFlag freed c).countedOn = c.countedOn := by
  unfold clearFlag
  split <;> rfl

theorem WellFormed.freeEntries (h : WellFormed s) (hr : CountsRight s) (old : ClientmapEntry → Bool) :
    WellFormed (freeEntries s old) := by
  have hsub : (sigs (Dos.freeEntries s old)).Sublist (sigs s) := List.filter_sublist.map _
  have hconns : (Dos.freeEntries s old).conns = s.conns.map (clearFlag (s.clientHistory.filter old)) :=
    foldl_aboutToFree _ _
  refine ⟨⟨h.entries.objs.sublist (hsub.map _), fun g hg => h.entries.objsLt g (hsub.subset hg),
    fun g hg g' hg' => h.entries.keys g (hsub.subset hg) g' (hsub.subset hg')⟩, ?_⟩
  rw [hconns]
  refine ⟨?_, fun c hc => ?_, ?_, fun c hc ho => ?_, fun c hc ht => ?_⟩
  · rw [List.map_map]
    simpa [Function.comp_def] using h.conns.idents
  · obtain ⟨c0, hc0, rfl⟩ := List.mem_map.mp hc
    rw [clearFlag_ident]
    exact h.conns.identsLt c0 hc0
  · rw [List.length_map]
    exact h.conns.capacity
  · obtain ⟨c0, hc0, rfl⟩ := List.mem_map.mp hc
    rw [clearFlag_opened] at ho
    have hun := h.conns.unopened c0 hc0 ho
    refine Bool.eq_false_iff.mpr fun ht => ?_
    rw [(clearFlag_tracked.mp ht).1] at hun
    cases hun
  · obtain ⟨c0, hc0, rfl⟩ := List.mem_map.mp hc
    obtain ⟨ht0, hkept⟩ := clearFlag_tracked.mp ht
    obtain ⟨e, he, hobj, haddr, hact⟩ := h.entry_of hc0 ht0
    -- an entry that counts this connection would have cleared its flag
    have hold : old e = false := by
      refine Bool.eq_false_iff.mpr fun hold => hkept ⟨e, List.mem_filter.mpr ⟨he, hold⟩, fun hz => ?_, haddr⟩
      have hpos := trackedOn_pos hc0 ht0
      rw [← hobj, ← hr.1 e he, hz] at hpos
      exact Nat.lt_irrefl 0 hpos
    refine ⟨e.sig, List.mem_map.mpr ⟨e, List.mem_filter.mpr ⟨he, by simp [hold]⟩, rfl⟩, ?_⟩
    rw [clearFlag_countedOn, clearFlag_addr]
    exact ⟨hobj, haddr, hact⟩

/-- Freeing keeps the counts right exactly if no entry that counts something stays beside a freed one of its address
    that does. -/
theorem freeEntries_spec (h : WellFormed s) (hr : CountsRight s) (old : ClientmapEntry → Bool) :
    CountsRight (freeEntries s old) ↔ FreeKeeps s old := by
  have hconns : (freeEntries s old).conns = s.conns.map (clearFlag (s.clientHistory.filter old)) := foldl_aboutToFree _ _
  have hcount : ∀ obj, trackedOn (freeEntries s old).conns obj =
      s.conns.countP fun c => c.trackedForDosMitigation && decide (c.countedOn = obj) &&
        decide (¬ Cleared (s.clientHistory.filter old) c) := by
    intro obj
    rw [hconns, trackedOn, List.countP_map]
    refine List.countP_congr fun c _ => ?_
    have htr : (clearFlag (s.clientHistory.filter old) c).trackedForDosMitigation = true ↔ _ := clearFlag_tracked
    simp only [Function.comp_apply, Bool.and_eq_true, decide_eq_true_eq, clearFlag_countedOn, htr]
    tauto
  refine ⟨fun hright e he hold hne e' he' hold' haddr => ?_, fun hkeeps => ⟨fun e he => ?_, hr.2⟩⟩
  · -- every connection counted on the entry that stays has lost its flag
    have hzero : trackedOn (freeEntries s old).conns e'.obj = 0 := by
      rw [hcount]
      refine List.countP_eq_zero.mpr fun c hc hp => ?_
      simp only [Bool.and_eq_true, decide_eq_true_eq] at hp
      obtain ⟨⟨ht, hobj⟩, hkept⟩ := hp
      obtain ⟨e0, he0, hobj0, haddr0, -⟩ := h.entry_of hc ht
      rw [h.obj_inj he0 he' (hobj0.trans hobj)] at haddr0
      exact hkept ⟨e, List.mem_filter.mpr ⟨he, hold⟩, hne, haddr.symm.trans haddr0⟩
    have hstay : e' ∈ (freeEntries s old).clientHistory := List.mem_filter.mpr ⟨he', by simp [hold']⟩
    exact UInt32.toNat_inj.mp ((hright.1 e' hstay).trans hzero)
  · obtain ⟨hmem, hstays⟩ := List.mem_filter.mp he
    have hold' : old e = false := by simpa using hstays
    rw [hr.1 e hmem, hcount, trackedOn]
    refine List.countP_congr fun c hc => ?_
    simp only [Bool.and_eq_true, decide_eq_true_eq]
    refine ⟨fun hp => ⟨hp, fun hclear => ?_⟩, And.left⟩
    obtain ⟨ht, hobj⟩ := hp
    obtain ⟨e1, he1, hne, haddr⟩ := hclear
    obtain ⟨he1, hold⟩ := List.mem_filter.mp he1
    obtain ⟨e0, he0, hobj0, haddr0, -⟩ := h.entry_of hc ht
    have hee : e0 = e := h.obj_inj he0 hmem (hobj0.trans hobj)
    have hz := hkeeps e1 he1 hold hne e hmem hold' ((hee ▸ haddr0).trans haddr.symm)
    have hpos := trackedOn_pos hc ht
    rw [hobj, ← hr.1 e hmem, hz] at hpos
    exact Nat.lt_irrefl 0 hpos

/-! ## Runs -/

/-- A step from a state with right counts keeps them right exactly if it meets `Keeps`. -/
theorem step_spec (h : WellFormed s) (hr : CountsRight s) {op : Op} {t : St} (hs : step s op = some t) :
    WellFormed t ∧ (CountsRight t ↔ Keeps s op) := by
  have hfree : ∀ old, WellFormed (freeEntries s old) ∧ (CountsRight (freeEntries s old) ↔ FreeKeeps s old) :=
    fun old => ⟨h.freeEntries hr old, freeEntries_spec h hr old⟩
  cases op with
  | accept addr =>
    simp only [step] at hs
    split at hs
    · cases hs
    next hcap =>
      cases hs
      refine ⟨⟨h.entries, List.nodup_cons.mpr ⟨fun hm => ?_, h.conns.idents⟩, fun c hc => ?_, Nat.not_lt.mp hcap,
        fun c hc => ?_, fun c hc ht => ?_⟩, iff_of_true ⟨fun e he => ?_, hr.2⟩ trivial⟩
      · obtain ⟨c, hc, hid⟩ := List.mem_map.mp hm
        exact Nat.lt_irrefl _ (hid ▸ h.conns.identsLt c hc)
      · rcases List.mem_cons.mp hc with rfl | hc
        · exact Nat.lt_succ_self _
        · exact Nat.lt_succ_of_lt (h.conns.identsLt c hc)
      · rcases List.mem_cons.mp hc with rfl | hc
        · exact fun _ => rfl
        · exact h.conns.unopened c hc
      · rcases List.mem_cons.mp hc with rfl | hc
        · cases ht
        · exact h.conns.counted c hc ht
      · rw [hr.1 e he]
        simp [trackedOn]
  | clientOpened env ident transportName =>
    obtain ⟨c, hc, hs⟩ := Option.bind_eq_some_iff.mp hs
    obtain ⟨hmem, rfl⟩ := h.findConn.mp hc
    split at hs
    · cases hs
    next hopen =>
      cases hs
      obtain ⟨hw, hcr⟩ := clientOpened_spec h hr env hmem (Bool.eq_false_iff.mpr hopen) transportName
      exact ⟨hw, iff_of_true hcr trivial⟩
  | dirRequest env addr =>
    cases hs
    obtain ⟨hw, hcr, -⟩ := note_spec h hr env .GEOIP_CLIENT_NETWORKSTATUS addr none
    exact ⟨hw, iff_of_true hcr trivial⟩
  | close ident =>
    obtain ⟨c, hc, hs⟩ := Option.map_eq_some_iff.mp hs
    obtain ⟨hmem, rfl⟩ := h.findConn.mp hc
    obtain ⟨hw, hcr⟩ := close_spec h hr hmem
    subst hs
    refine ⟨hw, hcr.trans ?_⟩
    simp only [Keeps, hc, Option.mem_def, Option.some.injEq, forall_eq']
  | removeOldClients cutoff | oomClean cutoff | historyClear =>
    cases hs
    exact hfree _

end

/-- In every run, every count is right and no close meets a count of 0, exactly if no step closes a counted
connection with a transport, or frees an entry that counts while another one of its address stays. -/
theorem counts_right_iff (ops : List Op) (t : St) (hrun : run step init ops = some t) :
    AllStates step CountsRight init ops ↔ AllSteps step Keeps init ops := by
  refine allStates_iff_allSteps_inv init_wellFormed init_countsRight (fun u op v hwell hright hv => ?_) hrun
  obtain ⟨hw, hcr⟩ := step_spec hwell hright hv
  exact ⟨hcr, fun _ => hw⟩

instance (s : St) : Decidable (CountsRight s) := inferInstanceAs (Decidable (_ ∧ _))

/-- The mitigation of connections is on, and no relay is known. -/
def mitigating : Env := ⟨false, true, false, false, false, false, 20, 40, 3600, 1, 1000, 1000, fun _ => false⟩

/-- A connection without a transport comes and goes. -/
theorem counts_right_iff_of_plain :
    let ops : List Op := [.accept (.inet 1), .clientOpened mitigating 0 none, .close 0]
    ∃ t, run step init ops = some t ∧ AllStates step CountsRight init ops := by
  intro ops
  obtain ⟨t, ht⟩ := Option.isSome_iff_exists.mp (show (run step init ops).isSome = true by decide +kernel)
  refine ⟨t, ht, (counts_right_iff ops t ht).mpr ?_⟩
  have hplain : ∀ u, run step init [.accept (.inet 1), .clientOpened mitigating 0 none] = some u →
      ∀ e ∈ u.clientHistory, e.transportName = none := by
    have hall : (run step init [.accept (.inet 1), .clientOpened mitigating 0 none]).all
        (fun u => u.clientHistory.all fun e => e.transportName = none) = true := by decide +kernel
    intro u hu
    simpa [hu] using hall
  refine allSteps_snoc.mpr ⟨allSteps_snoc.mpr ⟨allSteps_snoc.mpr ⟨allSteps_nil, fun _ _ => trivial⟩, fun _ _ => trivial⟩,
    fun u hu c _ _ e he _ => hplain u hu e he⟩

/-- A connection with a transport leaves its count behind, or takes down that of the address without one: then the
close of a connection counted there meets a count of 0. -/
theorem transports_leave_counts_behind :
    let obfs4 := some [0x6f, 0x62, 0x66, 0x73, 0x34]
    (∃ t, run step init [.accept (.inet 1), .clientOpened mitigating 0 obfs4, .close 0] = some t ∧
      t.conns = [] ∧ t.clientHistory.map (·.connStats.concurrentCount) = [1] ∧ ¬ CountsRight t) ∧
    ∃ t, run step init [.accept (.inet 1), .clientOpened mitigating 0 none, .accept (.inet 1),
      .clientOpened mitigating 1 obfs4, .close 1, .close 0] = some t ∧ t.closeBug = true := by
  intro obfs4
  have hleft : (run step init [.accept (.inet 1), .clientOpened mitigating 0 obfs4, .close 0]).any (fun t =>
      t.conns = [] ∧ t.clientHistory.map (·.connStats.concurrentCount) = [1] ∧ ¬ CountsRight t) = true := by
    decide +kernel
  have hbug : (run step init [.accept (.inet 1), .clientOpened mitigating 0 none, .accept (.inet 1),
      .clientOpened mitigating 1 obfs4, .close 1, .close 0]).any (·.closeBug) = true := by decide +kernel
  obtain ⟨t, ht, hwrong⟩ := (Option.any_eq_true _ _).mp hleft
  obtain ⟨u, hu, hb⟩ := (Option.any_eq_true _ _).mp hbug
  exact ⟨⟨t, ht, of_decide_eq_true hwrong⟩, u, hu, hb⟩

end Badnet.Dos
